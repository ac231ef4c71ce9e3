import Litestream.Replica.Retention
import Litestream.Compress
/-!
# What a retention pass does

`EnforceRetention` run alone, every call answering as the device does when it does not fail
(`Returns`).  The pass removes whole generations and, in the others, the snapshot and WAL
entries below an index; when no snapshot is in the window it first writes one at the
database's position.  This module says exactly which paths change:

* `deleteBefore_ok`: a deletion loop removes exactly the entries of its directory whose names
  parse below the index;
* `retainGenerations_ok`: the loop over the generations removes exactly `retentionRemoves`;
* `snapshot_ok`: a snapshot that returned `nil` is on disk, and nothing else changed but its
  directories and its temporary file;
* `enforceRetention_window`: every generation the pass leaves has a snapshot in the window,
  unless the snapshot it forced was on disk already: `snapshot` keeps whatever it finds at its
  path, so a pass can leave a generation whose only snapshot is old
  (`enforceRetention_keeps_old_snapshot`), where the method's comment promises a new one;
* `snapshotReader_snapshot`: what `snapshot` wrote, `SnapshotReader` reads back as the database.
-/

namespace Litestream

/-! ## 1. Removing paths -/

/-- `w'` is `w` with the paths `P` removed from its tree, and nothing else changed. -/
def Removes (P : Path → Bool) (w w' : World) : Prop :=
  ∃ fs', w' = { w with fs := fs' } ∧ ∀ q, fs'.get q = if P q then none else w.fs.get q

namespace Removes

variable {P P' : Path → Bool} {w w₁ w₂ : World}

theorem refl (w : World) : Removes (fun _ => false) w w := ⟨w.fs, rfl, fun _ => rfl⟩

theorem trans (h₁ : Removes P w w₁) (h₂ : Removes P' w₁ w₂) :
    Removes (fun q => P q || P' q) w w₂ := by
  obtain ⟨fs₁, rfl, hget₁⟩ := h₁
  obtain ⟨fs₂, rfl, hget₂⟩ := h₂
  refine ⟨fs₂, rfl, fun q => ?_⟩
  rw [hget₂, hget₁]
  dsimp only
  cases P q <;> cases P' q <;> rfl

theorem congr (h : Removes P w w₁) (hP : ∀ q, P q = P' q) : Removes P' w w₁ := by
  obtain ⟨fs₁, rfl, hget⟩ := h
  exact ⟨fs₁, rfl, fun q => hP q ▸ hget q⟩

end Removes

variable {rd : Adapter}

/-- **A loop whose every turn removes what its element names** removes the union. -/
theorem forRange_removes {γ : Type} {body : γ → Prog (Except Error Unit)} {P : γ → Path → Bool}
    (hbody : ∀ x w w', Returns rd (body x) w (.ok ()) w' → Removes (P x) w w') :
    ∀ (xs : List γ) {w w' : World}, Returns rd (Prog.forRange (fun () => body) xs ()) w (.ok ()) w' →
      Removes (fun q => xs.any (P · q)) w w'
  | [], w, w', h => by
    obtain ⟨-, rfl⟩ := Returns.pure.mp h
    exact Removes.refl w
  | x :: xs, w, w', h => by
    obtain ⟨r, w₁, h₁, h₂⟩ := Returns.bind.mp h
    cases r with
    | error e => simp at h₂
    | ok u => exact ((hbody x _ _ h₁).trans (forRange_removes hbody xs h₂)).congr fun q => by simp

/-! ## 2. The deletion loops -/

/-- The entries of `dir` whose names parse to an index below `index`. -/
def belowIn (dir : Path) (parse : String → Option Nat) (index : Nat) (q : Path) : Bool :=
  q.dropLast = dir && (q.getLast?.bind parse).any (· < index)

section Delete

variable {dir : Path} {parse : String → Option Nat} {index : Nat} {w w' : World}

theorem belowIn_iff {q : Path} :
    belowIn dir parse index q = true ↔ ∃ x, q = dir ++ [x] ∧ (parse x).any (· < index) = true := by
  unfold belowIn
  constructor
  · intro h
    obtain ⟨hd, hx⟩ := Bool.and_eq_true_iff.mp h
    have hq : q ≠ [] := fun h0 => by simp [h0] at hx
    refine ⟨q.getLast hq, ?_, by simpa [List.getLast?_eq_getLast q hq] using hx⟩
    rw [← of_decide_eq_true hd, List.dropLast_append_getLast]
  · rintro ⟨x, rfl, hx⟩
    simpa using hx

theorem deleteEntry_ok {fi : FileInfo} (h : Returns rd (deleteEntry dir parse index fi) w (.ok ()) w') :
    Removes (fun q => q = dir ++ [fi.name] && (parse fi.name).any (· < index)) w w' := by
  unfold deleteEntry at h
  split at h
  · rename_i hp
    obtain ⟨-, rfl⟩ := Returns.pure.mp h
    exact (Removes.refl w).congr fun q => by simp [hp]
  · rename_i idx hp
    split_ifs at h with hi
    · obtain ⟨-, rfl⟩ := Returns.pure.mp h
      exact (Removes.refl w).congr fun q => by simp [hp, Nat.not_lt.mpr hi]
    · simp only [Prog.check, Returns.bind_lift, Call.run] at h
      cases hr : w.fs.remove (dir ++ [fi.name]) with
      | error e => simp [hr] at h
      | ok fs' =>
        simp only [hr, World.withFs_ok, Returns.pure, true_and] at h
        obtain ⟨-, -, hget⟩ := FS.remove_eq_ok hr
        refine ⟨fs', h.symm, fun q => ?_⟩
        rw [hget]
        by_cases hq : q = dir ++ [fi.name]
        · simp [hq, hp, Nat.lt_of_not_ge hi]
        · simp [hq]

/-- **A deletion loop removes exactly the entries of its directory that parse below the
index.** -/
theorem deleteBefore_ok (h : Returns rd (deleteBefore dir parse index) w (.ok ()) w') :
    Removes (belowIn dir parse index) w w' := by
  unfold deleteBefore at h
  simp only [Returns.bind_lift, Call.run] at h
  cases hr : w.fs.readDir dir with
  | error e =>
    rw [hr] at h
    cases e <;> simp at h
    obtain rfl := h
    have hd : w.fs.get dir = none := by
      unfold FS.readDir at hr
      split at hr <;> first | assumption | cases hr
    refine ⟨w.fs, rfl, fun q => ?_⟩
    split_ifs with hb
    · obtain ⟨x, rfl, -⟩ := belowIn_iff.mp hb
      exact FS.get_below (FS.not_isDir_of_get_none hd)
    · rfl
  | ok fis =>
    rw [hr] at h
    obtain ⟨fs', rfl, hget⟩ := forRange_removes (fun _ _ _ => deleteEntry_ok) fis h
    refine ⟨fs', rfl, fun q => ?_⟩
    rw [hget]
    by_cases hb : belowIn dir parse index q
    · obtain ⟨x, rfl, hx⟩ := belowIn_iff.mp hb
      rw [if_pos hb]
      split_ifs with hm
      · rfl
      · cases hq : w.fs.get (dir ++ [x]) with
        | none => rfl
        | some n =>
          refine absurd (List.any_eq_true.mpr ⟨n.info x, FS.info_mem_readDir _ hr hq, ?_⟩) hm
          simpa using hx
    · rw [if_neg hb, if_neg]
      intro hm
      obtain ⟨fi, -, hfi⟩ := List.any_eq_true.mp hm
      obtain ⟨hq, hx⟩ := Bool.and_eq_true_iff.mp hfi
      exact hb (belowIn_iff.mpr ⟨_, of_decide_eq_true hq, hx⟩)

end Delete

/-! ## 3. One generation -/

/-- `m` of a generation: the lowest index among the retained snapshots `R` of the
generation, none when `R` has none of it. -/
def retainedMin (R : List SnapshotInfo) (g : String) : Option Nat :=
  ((R.filter (·.generation = g)).map (·.index)).min?

theorem findMin_foldl (g : String) :
    ∀ (R : List SnapshotInfo) (acc : Option SnapshotInfo),
      (R.foldl (findMinStep g) acc).map (·.index) =
        Option.merge min (acc.map (·.index)) (retainedMin R g)
  | [], acc => by cases acc <;> rfl
  | s :: R, acc => by
    rw [List.foldl_cons, findMin_foldl g R]
    unfold retainedMin findMinStep
    by_cases hs : s.generation = g
    · rw [List.filter_cons_of_pos (by simpa using hs), List.map_cons, List.min?_cons]
      simp only [hs, ne_eq, not_true_eq_false, if_false]
      cases acc with
      | none => cases ((R.filter (·.generation = g)).map (·.index)).min? <;> rfl
      | some m =>
        cases hR : ((R.filter (·.generation = g)).map (·.index)).min? <;>
          simp only [Option.map_some', Option.merge, Option.elim, Option.some.injEq] <;>
          split_ifs <;> simp only [Option.map_some', Option.merge, Option.some.injEq] <;> omega
    · rw [List.filter_cons_of_neg (by simpa using hs)]
      simp [hs]

/-- **`FindMinSnapshotByGeneration` finds `m`.** -/
theorem findMinSnapshotByGeneration_index (R : List SnapshotInfo) (g : String) :
    (findMinSnapshotByGeneration R g).map (·.index) = retainedMin R g := by
  rw [findMinSnapshotByGeneration, findMin_foldl]
  cases retainedMin R g <;> rfl

/-- The paths the pass removes in the generation `g` when it keeps `R`: the whole generation
when `R` has none of its snapshots, else its snapshot and WAL entries below `m`. -/
def generationRemoves (R : List SnapshotInfo) (g : String) (q : Path) : Bool :=
  match retainedMin R g with
  | none => (generationDir g).isPrefixOf q
  | some m => belowIn (snapshotDir g) snapshotIndex m q || belowIn (walDir g) walIndex m q

section Generation

variable {rd : Adapter} {R : List SnapshotInfo} {g : String} {w w' : World}

theorem retainGeneration_ok (h : Returns rd (retainGeneration R g) w (.ok ()) w') :
    Removes (generationRemoves R g) w w' := by
  have hm := findMinSnapshotByGeneration_index R g
  unfold retainGeneration at h
  unfold generationRemoves
  split at h
  · rename_i hf
    rw [hf] at hm
    rw [← hm]
    simp only [Returns.bind_lift, Call.run, Returns.pure, true_and] at h
    refine ⟨_, h.symm, fun q => ?_⟩
    simp only [Option.map_none', FS.removeAll, FS.get_prune, List.isPrefixOf_iff_prefix]
    by_cases hq : generationDir g <+: q
    · rw [if_pos ⟨hq, fun h0 => by simp [h0, generationDir] at hq⟩, if_pos hq]
    · rw [if_neg fun h' => hq h'.1, if_neg hq]
  · rename_i s hf
    rw [hf] at hm
    rw [← hm]
    obtain ⟨r₁, w₁, h₁, h₂⟩ := Returns.bind.mp h
    cases r₁ with
    | error e => simp at h₂
    | ok u =>
      obtain ⟨r₂, w₂, h₃, h₄⟩ := Returns.bind.mp h₂
      cases r₂ with
      | error e => simp at h₄
      | ok u' =>
        obtain ⟨-, rfl⟩ := Returns.pure.mp h₄
        exact (deleteBefore_ok h₁).trans (deleteBefore_ok h₃)

/-- **The loop over the generations removes what each generation's turn removes.** -/
theorem retainGenerations_ok {G : List String}
    (h : Returns rd (Prog.forRange (fun () => retainGeneration R) G ()) w (.ok ()) w') :
    Removes (fun q => G.any (generationRemoves R · q)) w w' :=
  forRange_removes (fun _ _ _ => retainGeneration_ok) G h

end Generation

/-! ## 4. The forced snapshot -/

section Snapshot

variable {rd : Adapter} {w w' : World}

theorem compressFile_db_ok {dst : Path} (h : Returns rd (compressFile .db dst) w (.ok ()) w') :
    ∃ fs', w' = { w with fs := fs' } ∧ ∀ q, fs'.get q =
      if q = dst then some (.file (.gzip (.raw w.src.db)) w.clock)
      else if q = addExt dst ".tmp" then none else w.fs.get q := by
  simp only [compressFile, Prog.check, Returns.bind_lift, Call.run] at h
  cases hc : w.fs.create (addExt dst ".tmp") w.clock with
  | error e => simp [hc] at h
  | ok fs₁ =>
    obtain ⟨-, -, -, hget₁⟩ := FS.writeFile_eq_ok hc
    simp only [hc, World.withFs_ok, Returns.bind_lift, Call.run] at h
    cases hr : (fs₁.setData (addExt dst ".tmp") (fun _ => .gzip (.raw w.src.db)) w.clock).rename
        (addExt dst ".tmp") dst with
    | error e => simp [hr] at h
    | ok fs₂ =>
      simp only [hr, World.withFs_ok, Returns.pure, true_and] at h
      obtain ⟨d, t, ha, hget₂⟩ := FS.rename_eq_ok hr
      rw [FS.get_setData, hget₁, if_pos rfl] at ha
      simp only [Option.map_some', FS.touchNode, if_true, Option.some.injEq, Node.file.injEq] at ha
      obtain ⟨rfl, rfl⟩ := ha
      refine ⟨fs₂, h.symm, fun q => ?_⟩
      rw [hget₂]
      split_ifs with h₁ h₂
      · rfl
      · rfl
      · rw [FS.get_setData, hget₁, if_neg h₂]
        cases w.fs.get q with
        | none => rfl
        | some n => cases n <;> simp [FS.touchNode, h₂]

theorem snapshotPath_tmp_ne {g : String} {i : Nat} :
    addExt (snapshotPath g i) ".tmp" ≠ snapshotPath g i := by
  rw [snapshotPath, addExt_append]
  intro h
  have := congrArg String.length (List.singleton_inj.mp (List.append_cancel_left h))
  rw [String.length_append] at this
  exact absurd (Nat.add_right_eq_self.mp this) (by decide)

/-- **A snapshot that returned `nil` is on disk**: it was there already and nothing changed,
or it is the database just read, at the current time, its temporary file is gone, and the
only other change is the directories created on its path. -/
theorem snapshot_ok {g : String} {i : Nat} (h : Returns rd (snapshot g i) w (.ok ()) w') :
    ∃ fs', w' = { w with fs := fs' } ∧
      (w.fs.get (snapshotPath g i) ≠ none → fs' = w.fs) ∧
      (w.fs.get (snapshotPath g i) = none →
        fs'.get (snapshotPath g i) = some (.file (.gzip (.raw w.src.db)) w.clock) ∧
        fs'.get (addExt (snapshotPath g i) ".tmp") = none ∧
        ∀ q, q ≠ snapshotPath g i → q ≠ addExt (snapshotPath g i) ".tmp" →
          fs'.get q = if q <+: snapshotDir g ∧ w.fs.get q = none then some (.dir newDirSize w.clock)
            else w.fs.get q) := by
  simp only [snapshot, Returns.bind_lift, Call.run] at h
  cases hs : w.fs.stat (snapshotPath g i) with
  | ok fi =>
    simp only [hs, Returns.pure, true_and] at h
    exact ⟨w.fs, h.symm, fun _ => rfl, fun hn => by simp [FS.stat, hn] at hs⟩
  | error e =>
    have hn : w.fs.get (snapshotPath g i) = none := FS.get_of_stat_error hs
    simp only [hs, Prog.check, Returns.bind_lift, Call.run, snapshotPath_dropLast] at h
    cases hm : w.fs.mkdirAll (snapshotDir g) w.clock with
    | error e => simp [hm] at h
    | ok fs₁ =>
      simp only [hm, World.withFs_ok] at h
      obtain ⟨fs', rfl, hget⟩ := compressFile_db_ok h
      refine ⟨fs', rfl, fun h' => absurd hn h', fun _ => ⟨?_, ?_, fun q h₁ h₂ => ?_⟩⟩
      · rw [hget, if_pos rfl]
      · rw [hget, if_neg snapshotPath_tmp_ne, if_pos rfl]
      · rw [hget, if_neg h₁, if_neg h₂]
        exact FS.mkdirAll_eq_ok hm q

/-- The paths writing the snapshot `SnapshotPath(g, i)` may touch: the file, its temporary
file, and the directories on its path. -/
def snapshotSite (g : String) (i : Nat) (q : Path) : Bool :=
  q = snapshotPath g i || q = addExt (snapshotPath g i) ".tmp" || q.isPrefixOf (snapshotDir g)

/-- Off its site, a snapshot changes nothing. -/
theorem snapshot_frame {g : String} {i : Nat} (h : Returns rd (snapshot g i) w (.ok ()) w')
    {q : Path} (hq : snapshotSite g i q = false) : w'.fs.get q = w.fs.get q := by
  obtain ⟨fs', rfl, hpre, hnew⟩ := snapshot_ok h
  simp only [snapshotSite, Bool.or_eq_false_iff, decide_eq_false_iff_not,
    List.isPrefixOf_iff_prefix] at hq
  obtain ⟨⟨h₁, h₂⟩, h₃⟩ := hq
  by_cases hn : w.fs.get (snapshotPath g i) = none
  · exact ((hnew hn).2.2 q h₁ h₂).trans (if_neg fun h' => by simp [List.isPrefixOf_iff_prefix.mpr h'.1] at h₃)
  · rw [hpre hn]

end Snapshot

/-! ## 5. The listings read the tree and change nothing -/

section Listings

variable {rd : Adapter} {w w' : World} {isGen : GenerationName}

theorem generations_world {r : Except Error (List String)}
    (h : Returns rd (generations isGen) w r w') : w' = w := by
  simp only [generations, Returns.bind_lift, Call.run] at h
  split at h <;> exact (Returns.pure.mp h).2.symm

/-- What `Generations()` lists: the directories below `generations` whose name is a
generation's. -/
theorem mem_generations {G : List String} (h : Returns rd (generations isGen) w (.ok G) w')
    {g : String} : g ∈ G ↔ isGen g = true ∧ w.fs.IsDir (generationDir g) := by
  simp only [generations, Returns.bind_lift, Call.run] at h
  split at h
  · obtain ⟨hG, -⟩ := Returns.pure.mp h
    cases hG
    rename_i hr
    have hd : w.fs.get ["generations"] = none := by
      unfold FS.readDir at hr
      split at hr
      · assumption
      · cases hr
      · cases hr
    have hg : w.fs.get (generationDir g) = none := FS.get_below (FS.not_isDir_of_get_none hd)
    simp [FS.not_isDir_of_get_none hg]
  · simp at h
  · rename_i fis hr
    obtain ⟨hG, -⟩ := Returns.pure.mp h
    cases hG
    simp only [List.mem_map, List.mem_filter, Bool.and_eq_true]
    constructor
    · rintro ⟨fi, ⟨hm, hg, hdir⟩, rfl⟩
      obtain ⟨n, hn, hfi⟩ := (FS.mem_readDir _ hr).mp hm
      cases n with
      | dir => exact ⟨hg, FS.isDir_of_get hn⟩
      | file => rw [hfi] at hdir; simp [Node.info] at hdir
    · rintro ⟨hg, s, t, hn⟩
      exact ⟨Node.info g (.dir s t), ⟨FS.info_mem_readDir _ hr hn, hg, rfl⟩, rfl⟩

theorem collectInfos_world {β : Type} {dir : String → Path} {infos : String → List FileInfo → List β} :
    ∀ (gens : List String) {acc : List β} {r : Except Error (List β)} {w w' : World},
      Returns rd (collectInfos dir infos gens acc) w r w' → w' = w
  | [], _, _, _, _, h => (Returns.pure.mp h).2.symm
  | g :: gens, acc, r, w, w', h => by
    obtain ⟨r₁, w₁, h₁, h₂⟩ := Returns.bind.mp h
    simp only [Returns.bind_lift, Call.run] at h₁
    have hw₁ : w₁ = w := by split at h₁ <;> exact (Returns.pure.mp h₁).2.symm
    subst hw₁
    cases r₁ with
    | error e => exact (Returns.pure.mp h₂).2.symm
    | ok acc' => exact collectInfos_world gens h₂

theorem snapshots_world {r : FileReplica} {res : Except Error (List SnapshotInfo)}
    (h : Returns rd (snapshots r isGen) w res w') : w' = w := by
  obtain ⟨r₁, w₁, h₁, h₂⟩ := Returns.bind.mp h
  cases generations_world h₁
  cases r₁ with
  | error e => exact (Returns.pure.mp h₂).2.symm
  | ok G => exact collectInfos_world G h₂

theorem mem_collectInfos {β : Type} {dir : String → Path} {infos : String → List FileInfo → List β} :
    ∀ (gens : List String) {acc L : List β} {w w' : World},
      Returns rd (collectInfos dir infos gens acc) w (.ok L) w' →
      ∀ x ∈ L, x ∈ acc ∨ ∃ g fis, w.fs.readDir (dir g) = .ok fis ∧ x ∈ infos g fis
  | [], _, _, _, _, h => by
    obtain ⟨hL, -⟩ := Returns.pure.mp h
    cases hL
    exact fun x hx => .inl hx
  | g :: gens, acc, L, w, w', h => by
    obtain ⟨r₁, w₁, h₁, h₂⟩ := Returns.bind.mp h
    simp only [Returns.bind_lift, Call.run] at h₁
    split at h₁ <;> obtain ⟨hr, rfl⟩ := Returns.pure.mp h₁ <;> subst hr
    · exact mem_collectInfos gens h₂
    · simp at h₂
    · rename_i fis hfis
      intro x hx
      rcases mem_collectInfos gens h₂ x hx with hx | hx
      · rcases List.mem_append.mp hx with hx | hx
        · exact .inl hx
        · exact .inr ⟨g, fis, hfis, hx⟩
      · exact .inr hx

/-- What `Snapshots()` lists: entries of snapshot directories whose names parse, with their
modification times. -/
theorem mem_snapshots {r : FileReplica} {S : List SnapshotInfo}
    (h : Returns rd (snapshots r isGen) w (.ok S) w') {s : SnapshotInfo} (hs : s ∈ S) :
    snapshotIndex s.name = some s.index ∧ ∃ n, w.fs.get (snapshotDir s.generation ++ [s.name]) = some n ∧
      s.createdAt = (n.info s.name).modTime := by
  obtain ⟨r₁, w₁, h₁, h₂⟩ := Returns.bind.mp h
  cases generations_world h₁
  cases r₁ with
  | error e => simp at h₂
  | ok G =>
    rcases mem_collectInfos G h₂ s hs with hs | ⟨g, fis, hfis, hs⟩
    · cases hs
    · obtain ⟨fi, hfi, hp⟩ := List.mem_filterMap.mp hs
      cases hpar : parseSnapshotPath fi.name with
      | none => simp [hpar] at hp
      | some ie =>
        simp only [hpar, Option.map_some', Option.some.injEq] at hp
        subst hp
        obtain ⟨n, hn, hfi⟩ := (FS.mem_readDir _ hfis).mp hfi
        exact ⟨by simp [snapshotIndex, hpar], n, hn, congrArg FileInfo.modTime hfi⟩

end Listings

/-! ## 6. The pass -/

/-- The snapshots a pass at `now` keeps of those listed, `S`: the ones created at or after
`now - RetentionInterval`, or, when there is none, the one it forces at `pos`. -/
def retained (r : FileReplica) (S : List SnapshotInfo) (now : Int) (pos : Pos) :
    List SnapshotInfo :=
  let snaps := filterSnapshotsAfter S (now - r.retentionInterval)
  if snaps.length = 0 then snaps ++ [⟨"", "", pos.generation, pos.index, 0, 0⟩] else snaps

/-- The paths a pass that keeps `R` removes below the generations `G`. -/
def retentionRemoves (R : List SnapshotInfo) (G : List String) (q : Path) : Bool :=
  G.any (generationRemoves R · q)

section Pass

variable {rd : Adapter} {r : FileReplica} {isGen : GenerationName} {w w' : World}
  {S : List SnapshotInfo}

/-- Whether a pass at `now` over the listing `S` forces a snapshot. -/
abbrev Forced (r : FileReplica) (S : List SnapshotInfo) (now : Int) : Prop :=
  filterSnapshotsAfter S (now - r.retentionInterval) = []

theorem retainedSnapshots_ok {pos : Pos} {R : List SnapshotInfo}
    (hS : Returns rd (snapshots r isGen) w (.ok S) w)
    (h : Returns rd (retainedSnapshots r isGen pos) w (.ok R) w') :
    R = retained r S w.clock pos ∧
      if Forced r S w.clock then Returns rd (snapshot pos.generation pos.index) w (.ok ()) w'
      else w' = w := by
  obtain ⟨r₁, w₁, h₁, h₂⟩ := Returns.bind.mp h
  cases snapshots_world h₁
  cases (Returns.det hS h₁).1
  simp only [Returns.bind_lift, Call.run] at h₂
  have hl : (filterSnapshotsAfter S (w.clock - r.retentionInterval)).length = 0 ↔
      Forced r S w.clock := List.length_eq_zero
  simp only [retained, hl] at h₂ ⊢
  by_cases hf : Forced r S w.clock
  · rw [if_pos hf] at h₂
    rw [if_pos hf, if_pos hf]
    obtain ⟨r₂, w₂, h₃, h₄⟩ := Returns.bind.mp h₂
    cases r₂ with
    | error e => simp at h₄
    | ok u =>
      obtain ⟨hR, rfl⟩ := Returns.pure.mp h₄
      exact ⟨(Except.ok.inj hR).symm, h₃⟩
  · rw [if_neg hf] at h₂
    rw [if_neg hf, if_neg hf]
    obtain ⟨hR, rfl⟩ := Returns.pure.mp h₂
    exact ⟨(Except.ok.inj hR).symm, rfl⟩

/-- **The pass, step by step**: it keeps `R`, lists the generations `G₁` of the tree it left,
and removes `retentionRemoves R G₁` from it. -/
theorem enforceRetention_ok (h : Returns rd (enforceRetention r isGen) w (.ok ()) w') :
    ∃ R w₁ G₁, Returns rd (retainedSnapshots r isGen w.src.pos) w (.ok R) w₁ ∧
      Returns rd (generations isGen) w₁ (.ok G₁) w₁ ∧ Removes (retentionRemoves R G₁) w₁ w' := by
  simp only [enforceRetention, Returns.bind_lift, Call.run] at h
  split_ifs at h
  · simp at h
  obtain ⟨r₁, w₁, h₁, h₂⟩ := Returns.bind.mp h
  cases r₁ with
  | error e => simp at h₂
  | ok R =>
    obtain ⟨r₂, w₂, h₃, h₄⟩ := Returns.bind.mp h₂
    cases generations_world h₃
    cases r₂ with
    | error e => simp at h₄
    | ok G₁ => exact ⟨R, w₁, G₁, h₁, h₃, retainGenerations_ok h₄⟩

end Pass

/-! ## 7. The forced snapshot and the generations the pass lists -/

section Forced

variable {rd : Adapter} {w w₁ : World} {g : String} {i : Nat}

theorem snapshot_present (h : Returns rd (snapshot g i) w (.ok ()) w₁) :
    w₁.fs.get (snapshotPath g i) ≠ none := by
  obtain ⟨fs', rfl, hpre, hnew⟩ := snapshot_ok h
  by_cases hn : w.fs.get (snapshotPath g i) = none
  · simp [(hnew hn).1]
  · rwa [hpre hn]

@[simp] theorem retainedMin_forced (g' : String) :
    retainedMin [⟨"", "", g, i, 0, 0⟩] g' = if g' = g then some i else none := by
  unfold retainedMin
  by_cases hg : g' = g
  · subst hg
    simp
  · simp [hg, Ne.symm hg]

/-- The forced snapshot alone: its generation keeps its entries from the index on, and every
other generation goes. -/
theorem generationRemoves_forced (g' : String) (q : Path) :
    generationRemoves [⟨"", "", g, i, 0, 0⟩] g' q =
      if g' = g then belowIn (snapshotDir g) snapshotIndex i q || belowIn (walDir g) walIndex i q
      else (generationDir g').isPrefixOf q := by
  unfold generationRemoves
  split_ifs with hg <;> simp [hg]

/-- Below a generation that is not a directory there is nothing to remove. -/
theorem get_below_generation {fs : FS} (hg : ¬ fs.IsDir (generationDir g)) {q : Path}
    (hq : (belowIn (snapshotDir g) snapshotIndex i q || belowIn (walDir g) walIndex i q) = true) :
    fs.get q = none := by
  have hsub : ∀ d x, fs.get (generationDir g ++ [d] ++ [x]) = none := fun _ _ =>
    FS.get_below (FS.not_isDir_of_get_none (FS.get_below hg))
  rcases Bool.or_eq_true_iff.mp hq with hq | hq <;> obtain ⟨x, rfl, -⟩ := belowIn_iff.mp hq
  · exact hsub "snapshots" x
  · exact hsub "wal" x

/-- **A snapshot at or above its generation's `m` is kept.** -/
theorem retentionRemoves_snapshot {R : List SnapshotInfo} {G : List String} {m k : Nat}
    {x : String} (hm : retainedMin R g = some m) (hk : snapshotIndex x = some k) (hmk : m ≤ k) :
    retentionRemoves R G (snapshotDir g ++ [x]) = false := by
  refine List.any_eq_false.mpr fun g' _ => ?_
  unfold generationRemoves
  by_cases hg : g' = g
  · subst hg
    simp [hm, belowIn, hk, hmk, snapshotDir, walDir]
  · split
    · simpa [snapshotDir, generationDir] using hg
    · simp [belowIn, snapshotDir, walDir, generationDir, Ne.symm hg]

/-- **The forced snapshot is never removed.** -/
theorem retentionRemoves_forced_snapshot (hi : i < 16 ^ 16) (G : List String) :
    retentionRemoves [⟨"", "", g, i, 0, 0⟩] G (snapshotPath g i) = false :=
  retentionRemoves_snapshot (by simp) (snapshotIndex_snapshotName hi) le_rfl

/-- **The pass's own listing comes to the same as one taken before it.**  The forced snapshot
can only add its own generation to the listing, and that generation then had nothing below
it to remove. -/
theorem retentionRemoves_listing {G G₁ : List String} {isGen : GenerationName}
    (hG : Returns rd (generations isGen) w (.ok G) w)
    (hG₁ : Returns rd (generations isGen) w₁ (.ok G₁) w₁)
    (hw₁ : Returns rd (snapshot g i) w (.ok ()) w₁) (q : Path) :
    (if retentionRemoves [⟨"", "", g, i, 0, 0⟩] G₁ q then none else w.fs.get q) =
      if retentionRemoves [⟨"", "", g, i, 0, 0⟩] G q then none else w.fs.get q := by
  obtain ⟨fs₁, rfl, hpre, hnew⟩ := snapshot_ok hw₁
  have hsite : ∀ g', generationDir g' ≠ snapshotPath g i ∧
      generationDir g' ≠ addExt (snapshotPath g i) ".tmp" := fun g' => by
    rw [snapshotPath, addExt_append]
    simp [generationDir, snapshotDir]
  -- a generation's directory is as it was, or it is `g`'s, created by the snapshot
  have hgd : ∀ g', fs₁.get (generationDir g') = w.fs.get (generationDir g') ∨
      g' = g ∧ fs₁.get (generationDir g') = some (.dir newDirSize w.clock) := fun g' => by
    by_cases hn : w.fs.get (snapshotPath g i) = none
    · rw [(hnew hn).2.2 _ (hsite g').1 (hsite g').2]
      split_ifs with hp
      · obtain ⟨⟨t, ht⟩, -⟩ := hp
        simp only [snapshotDir, generationDir, List.cons_append, List.singleton_append,
          List.cons.injEq] at ht
        exact .inr ⟨ht.2.1, rfl⟩
      · exact .inl rfl
    · exact .inl (hpre hn ▸ rfl)
  have hsub : ∀ g' ∈ G, g' ∈ G₁ := fun g' hg' => by
    obtain ⟨hgen, hd⟩ := (mem_generations hG).mp hg'
    exact (mem_generations hG₁).mpr
      ⟨hgen, (hgd g').elim (fun h => (FS.isDir_congr h).mpr hd) (FS.isDir_of_get ·.2)⟩
  have hadd : ∀ g' ∈ G₁, g' ∉ G → g' = g ∧ ¬ w.fs.IsDir (generationDir g) := by
    intro g' hg₁ hg
    obtain ⟨hgen, hd⟩ := (mem_generations hG₁).mp hg₁
    have hw : ¬ w.fs.IsDir (generationDir g') := fun h' =>
      hg ((mem_generations hG).mpr ⟨hgen, h'⟩)
    rcases hgd g' with h | ⟨rfl, -⟩
    · exact absurd ((FS.isDir_congr h).mp hd) hw
    · exact ⟨rfl, hw⟩
  unfold retentionRemoves
  by_cases hq : G.any (generationRemoves [⟨"", "", g, i, 0, 0⟩] · q) = true
  · obtain ⟨g', hg', hr⟩ := List.any_eq_true.mp hq
    rw [if_pos hq, if_pos (List.any_eq_true.mpr ⟨g', hsub g' hg', hr⟩)]
  · rw [if_neg hq]
    split_ifs with hq₁
    · obtain ⟨g', hg₁, hr⟩ := List.any_eq_true.mp hq₁
      obtain ⟨rfl, hd⟩ := hadd g' hg₁ fun hm => hq (List.any_eq_true.mpr ⟨g', hm, hr⟩)
      rw [generationRemoves_forced, if_pos rfl] at hr
      exact (get_below_generation hd hr).symm
    · rfl

end Forced

/-! ## 8. What a pass that returned `nil` did -/

section Effect

variable {rd : Adapter} {r : FileReplica} {isGen : GenerationName} {w w' : World}
  {S : List SnapshotInfo}

/-- A replica whose window is an hour of the clock. -/
def hourReplica : FileReplica := ⟨"", 3600, false⟩

/-- Every directory below `generations` names a generation. -/
def anyGeneration : GenerationName := fun _ => true

/-- An empty destination at time `7200`, with `indexZeroSource` at `(g, 0, 2)`. -/
def emptyDst : World := World.fresh indexZeroSource 7200

/-- The destination a pass leaves when it forces snapshot `0` of `g` at time `7200`. -/
def forcedWorld : World :=
  { emptyDst with
    fs := ⟨[(snapshotPath "g" 0, .file (.gzip (.raw [7])) 7200), (snapshotDir "g", .dir 4096 7200),
      (generationDir "g", .dir 4096 7200), (["generations"], .dir 4096 7200)], by decide, by decide⟩ }

theorem retained_forced (hf : Forced r S w.clock) :
    retained r S w.clock w.src.pos = [⟨"", "", w.src.pos.generation, w.src.pos.index, 0, 0⟩] := by
  simp [retained, hf]

/-- **The exact effect of `EnforceRetention`**, over the listings `S` and `G` of the tree it
started from: outside the site of the snapshot it forces, a path is gone when
`retentionRemoves` names it and is untouched otherwise, and the forced snapshot is on disk. -/
theorem enforceRetention_effect {G : List String}
    (hS : Returns rd (snapshots r isGen) w (.ok S) w)
    (hG : Returns rd (generations isGen) w (.ok G) w)
    (h : Returns rd (enforceRetention r isGen) w (.ok ()) w') :
    (Forced r S w.clock → w'.fs.get (snapshotPath w.src.pos.generation w.src.pos.index) ≠ none) ∧
      ∀ q, (Forced r S w.clock → snapshotSite w.src.pos.generation w.src.pos.index q = false) →
        w'.fs.get q =
          if retentionRemoves (retained r S w.clock w.src.pos) G q then none else w.fs.get q := by
  obtain ⟨R, w₁, G₁, hR, hG₁, fs', rfl, hget⟩ := enforceRetention_ok h
  obtain ⟨rfl, hw₁⟩ := retainedSnapshots_ok hS hR
  by_cases hf : Forced r S w.clock
  · rw [if_pos hf] at hw₁
    rw [retained_forced hf] at hget ⊢
    refine ⟨fun _ => ?_, fun q hq => ?_⟩
    · rw [hget, retentionRemoves_forced_snapshot w.src.pos_index_lt, if_neg Bool.false_ne_true]
      exact snapshot_present hw₁
    · rw [hget, snapshot_frame hw₁ (hq hf)]
      exact retentionRemoves_listing hG hG₁ hw₁ q
  · rw [if_neg hf] at hw₁
    subst hw₁
    cases (Returns.det hG hG₁).1
    exact ⟨fun h' => absurd h' hf, fun q _ => hget q⟩

theorem enforceRetention_effect_fresh :
    Returns Source.shadowWALReader (snapshots hourReplica anyGeneration) emptyDst (.ok []) emptyDst ∧
      Returns Source.shadowWALReader (generations anyGeneration) emptyDst (.ok []) emptyDst ∧
      Returns Source.shadowWALReader (enforceRetention hourReplica anyGeneration) emptyDst (.ok ())
        forcedWorld ∧
      (Forced hourReplica [] emptyDst.clock →
        forcedWorld.fs.get (snapshotPath emptyDst.src.pos.generation emptyDst.src.pos.index) ≠ none) ∧
      ∀ q, (Forced hourReplica [] emptyDst.clock →
        snapshotSite emptyDst.src.pos.generation emptyDst.src.pos.index q = false) →
        forcedWorld.fs.get q = if retentionRemoves (retained hourReplica [] emptyDst.clock
          emptyDst.src.pos) [] q then none else emptyDst.fs.get q :=
  have hS : Returns Source.shadowWALReader (snapshots hourReplica anyGeneration) emptyDst (.ok [])
      emptyDst := Prog.run_sound 20 _ _ _ _ rfl
  have hG : Returns Source.shadowWALReader (generations anyGeneration) emptyDst (.ok []) emptyDst :=
    Prog.run_sound 20 _ _ _ _ rfl
  have h : Returns Source.shadowWALReader (enforceRetention hourReplica anyGeneration) emptyDst
      (.ok ()) forcedWorld := Prog.run_sound 80 _ _ _ _ rfl
  ⟨hS, hG, h, enforceRetention_effect hS hG h⟩

/-- A destination holding a stale temporary file of snapshot `0`, as a crash inside
`compressFile` at time `7200` leaves it. -/
def staleTmpWorld : World :=
  { emptyDst with
    fs := ⟨[(addExt (snapshotPath "g" 0) ".tmp", .file (.raw [9]) 7200),
      (snapshotDir "g", .dir 4096 7200), (generationDir "g", .dir 4096 7200),
      (["generations"], .dir 4096 7200)], by decide, by decide⟩ }

/-- **A pass consumes a stale temporary file.**  No snapshot is listed, so the pass forces
snapshot `0` of `g`; `compressFile` creates its temporary file over the stale one and renames it
into place.  The stale file, neither a snapshot nor a WAL file, is gone. -/
theorem enforceRetention_consumes_tmp :
    snapshotIndex (snapshotName 0 ++ ".tmp") = none ∧
      Returns Source.shadowWALReader (snapshots hourReplica anyGeneration) staleTmpWorld (.ok [])
        staleTmpWorld ∧
      Returns Source.shadowWALReader (generations anyGeneration) staleTmpWorld (.ok ["g"])
        staleTmpWorld ∧
      Returns Source.shadowWALReader (enforceRetention hourReplica anyGeneration) staleTmpWorld
        (.ok ()) forcedWorld ∧
      staleTmpWorld.fs.get (addExt (snapshotPath "g" 0) ".tmp") = some (.file (.raw [9]) 7200) ∧
      forcedWorld.fs.get (addExt (snapshotPath "g" 0) ".tmp") = none :=
  ⟨by simp [snapshotIndex], Prog.run_sound 20 _ _ _ _ rfl, Prog.run_sound 20 _ _ _ _ rfl,
    Prog.run_sound 80 _ _ _ _ rfl, rfl, rfl⟩

/-- **The retention window** (with a window that is not negative): every generation left has a
snapshot created in the window, unless the snapshot the pass forced was already on disk. -/
theorem enforceRetention_window (hI : 0 ≤ r.retentionInterval)
    (hS : Returns rd (snapshots r isGen) w (.ok S) w)
    (hfresh : Forced r S w.clock →
      w.fs.get (snapshotPath w.src.pos.generation w.src.pos.index) = none)
    (h : Returns rd (enforceRetention r isGen) w (.ok ()) w')
    {g : String} (hg : isGen g = true) (hd : w'.fs.IsDir (generationDir g)) :
    ∃ x n, snapshotIndex x ≠ none ∧ w'.fs.get (snapshotDir g ++ [x]) = some n ∧
      (n.info x).modTime ≥ w.clock - r.retentionInterval := by
  obtain ⟨R, w₁, G₁, hR, hG₁, fs', rfl, hget⟩ := enforceRetention_ok h
  obtain ⟨rfl, hw₁⟩ := retainedSnapshots_ok hS hR
  -- the generation survived, so the pass listed it and kept one of its snapshots
  have hkept : retentionRemoves (retained r S w.clock w.src.pos) G₁ (generationDir g) = false ∧
      w₁.fs.IsDir (generationDir g) := by
    obtain ⟨s, t, hd⟩ := hd
    rw [hget] at hd
    split_ifs at hd with hrm
    exact ⟨Bool.eq_false_iff.mpr hrm, FS.isDir_of_get hd⟩
  have hmem : g ∈ G₁ := (mem_generations hG₁).mpr ⟨hg, hkept.2⟩
  obtain ⟨m, hm⟩ : ∃ m, retainedMin (retained r S w.clock w.src.pos) g = some m := by
    have := List.any_eq_false.mp hkept.1 g hmem
    unfold generationRemoves at this
    split at this
    · simp [List.isPrefixOf_iff_prefix] at this
    · exact ⟨_, by assumption⟩
  by_cases hf : Forced r S w.clock
  · rw [if_pos hf] at hw₁
    rw [retained_forced hf, retainedMin_forced] at hm
    split_ifs at hm with hgp
    subst hgp
    obtain ⟨fs₁, rfl, -, hnew⟩ := snapshot_ok hw₁
    refine ⟨snapshotName w.src.pos.index, .file (.gzip (.raw w.src.db)) w.clock,
      by simp [snapshotIndex_snapshotName w.src.pos_index_lt], ?_, ?_⟩
    · rw [hget, retained_forced hf, ← snapshotPath,
        retentionRemoves_forced_snapshot w.src.pos_index_lt, if_neg Bool.false_ne_true]
      exact (hnew (hfresh hf)).1
    · simp [Node.info]
      omega
  · rw [if_neg hf] at hw₁
    subst hw₁
    obtain ⟨hmin, hle⟩ := List.min?_eq_some_iff'.mp hm
    obtain ⟨s, hs, rfl⟩ := List.mem_map.mp hmin
    obtain ⟨hsR, hsg⟩ := List.mem_filter.mp hs
    have hsg : s.generation = g := of_decide_eq_true hsg
    simp only [retained, List.length_eq_zero, if_neg hf] at hsR
    obtain ⟨hsS, hsT⟩ := List.mem_filter.mp hsR
    obtain ⟨hidx, n, hn, hct⟩ := mem_snapshots hS hsS
    rw [hsg] at hn
    refine ⟨s.name, n, by simp [hidx], ?_, ?_⟩
    · rw [hget, retentionRemoves_snapshot hm hidx le_rfl, if_neg Bool.false_ne_true, hn]
    · rw [← hct]
      exact of_decide_eq_true hsT

/-- A destination whose only snapshot, of index `0`, was made at time `0`. -/
def oldSnapshotWorld : World :=
  { emptyDst with
    fs := ⟨[(snapshotPath "g" 0, .file (.gzip (.raw [5])) 0), (snapshotDir "g", .dir 4096 0),
      (generationDir "g", .dir 4096 0), (["generations"], .dir 4096 0)], by decide, by decide⟩ }

/-- **A generation can survive with no snapshot in the window.**  At time `7200` with a window
of `3600` the snapshot of time `0` is not in the window, so the pass forces the snapshot at the
source's position `(g, 0)`; `snapshot` finds the old file there and keeps it, and the pass
changes nothing. -/
theorem enforceRetention_keeps_old_snapshot :
    Returns Source.shadowWALReader (enforceRetention hourReplica anyGeneration) oldSnapshotWorld
        (.ok ()) oldSnapshotWorld ∧
      oldSnapshotWorld.fs.IsDir (generationDir "g") ∧
      oldSnapshotWorld.fs.readDir (snapshotDir "g") =
        .ok [(Node.file (.gzip (.raw [5])) 0).info (snapshotName 0)] ∧
      0 < oldSnapshotWorld.clock - hourReplica.retentionInterval :=
  ⟨Prog.run_sound 80 _ _ _ _ rfl, ⟨_, _, rfl⟩, rfl, by decide⟩

end Effect

/-! ## 9. A snapshot reads back

What `snapshot` writes, `SnapshotReader` reads: the name it gives the file parses back to the
index, and the gzip stream it writes there decodes to the database it copied. -/

section ReadBack

variable {rd : Adapter} {w w' : World}

/-- The loop of `SnapshotReader` opens the first entry of its index: when that is the entry
`x`, the only one of the index, and holds a gzip stream, the loop returns the stream's bytes. -/
theorem snapshotReaderLoop_gzip {dir : Path} {i : Nat} {x : String} {d : Data} {t : Int}
    (hx : parseSnapshotPath x = some (i, ".snapshot.gz"))
    (hd : w.fs.get (dir ++ [x]) = some (.file (.gzip d) t)) :
    ∀ fis : List FileInfo, (∃ fi ∈ fis, fi.name = x) →
      (∀ fi ∈ fis, snapshotIndex fi.name = some i → fi.name = x) →
      Returns rd (snapshotReaderLoop dir i fis) w (.ok d.bytes) w
  | [], ⟨_, hfi, _⟩, _ => absurd hfi (List.not_mem_nil _)
  | fi :: fis, hmem, hu => by
    have hrest := snapshotReaderLoop_gzip hx hd fis
    have hu' := fun fi' hfi' => hu fi' (List.mem_cons_of_mem _ hfi')
    rw [snapshotReaderLoop]
    cases hp : parseSnapshotPath fi.name with
    | none =>
      have hne : fi.name ≠ x := fun h => by rw [h, hx] at hp; cases hp
      exact hrest ((List.exists_mem_cons_iff ..).mp hmem |>.resolve_left hne) hu'
    | some ie =>
      obtain ⟨idx, ext⟩ := ie
      dsimp only
      by_cases hidx : i = idx
      · subst hidx
        obtain rfl := hu fi (List.mem_cons_self _ _) (by simp [snapshotIndex, hp])
        obtain rfl : ext = ".snapshot.gz" := by rw [hx] at hp; cases hp; rfl
        simp [Returns.bind_lift, Call.run, FS.readFile, hd, gunzip]
      · have hne : fi.name ≠ x := fun h => by rw [h, hx] at hp; cases hp; exact hidx rfl
        rw [if_pos hidx]
        exact hrest ((List.exists_mem_cons_iff ..).mp hmem |>.resolve_left hne) hu'

/-- **A snapshot reads back as the database it copied.**  When `snapshot(g, i)` returns `nil`
and no entry of `g`'s snapshot directory had index `i` before it, `SnapshotReader(g, i)` then
returns the bytes of the database file. -/
theorem snapshotReader_snapshot {g : String} {i : Nat} (hi : i < 16 ^ 16)
    (honly : ∀ x, w.fs.get (snapshotDir g ++ [x]) ≠ none → snapshotIndex x ≠ some i)
    (h : Returns rd (snapshot g i) w (.ok ()) w') :
    Returns rd (snapshotReader g i) w' (.ok w.src.db) w' := by
  have hn : w.fs.get (snapshotPath g i) = none := by
    by_contra hc
    exact honly _ hc (snapshotIndex_snapshotName hi)
  obtain ⟨fs', rfl, -, hnew⟩ := snapshot_ok h
  obtain ⟨hfile, htmp, hrest⟩ := hnew hn
  obtain ⟨fis, hfis⟩ := fs'.readDir_of_dir (by simpa using FS.get_parent hfile (by simp [snapshotPath]))
  simp only [snapshotReader, Returns.bind_lift, Call.run, hfis]
  have hfile' : ({ w with fs := fs' } : World).fs.get (snapshotDir g ++ [snapshotName i]) = _ :=
    hfile
  refine snapshotReaderLoop_gzip (parseSnapshotPath_snapshotName hi) hfile' fis
    ⟨_, FS.info_mem_readDir _ hfis hfile', by simp⟩ fun fi hfi hidx => ?_
  obtain ⟨n, hget, -⟩ := (FS.mem_readDir _ hfis).mp hfi
  by_contra hne
  have hq₁ : snapshotDir g ++ [fi.name] ≠ snapshotPath g i := fun h' =>
    hne (List.singleton_inj.mp (List.append_cancel_left h'))
  have hq₂ : snapshotDir g ++ [fi.name] ≠ addExt (snapshotPath g i) ".tmp" := fun h' => by
    rw [h', htmp] at hget
    cases hget
  rw [hrest _ hq₁ hq₂, if_neg fun h' => absurd h'.1.length_le (by simp)] at hget
  exact honly _ (by simp [hget]) hidx

theorem snapshotReader_snapshot_fresh :
    (0 : Nat) < 16 ^ 16 ∧
      (∀ x, emptyDst.fs.get (snapshotDir "g" ++ [x]) ≠ none → snapshotIndex x ≠ some 0) ∧
      Returns Source.shadowWALReader (snapshot "g" 0) emptyDst (.ok ()) forcedWorld ∧
      Returns Source.shadowWALReader (snapshotReader "g" 0) forcedWorld (.ok [7]) forcedWorld :=
  have honly : ∀ x, emptyDst.fs.get (snapshotDir "g" ++ [x]) ≠ none → snapshotIndex x ≠ some 0 :=
    fun _ hx => absurd (by simp [emptyDst, World.fresh, FS.get, FS.empty]) hx
  have h : Returns Source.shadowWALReader (snapshot "g" 0) emptyDst (.ok ()) forcedWorld :=
    Prog.run_sound 20 _ _ _ _ rfl
  ⟨by decide, honly, h, snapshotReader_snapshot (by decide) honly h⟩

end ReadBack

end Litestream
