import Litestream.Mirror.Steps
/-!
# A failed retention pass keeps the snapshots of its window

`EnforceRetention` lists the snapshots, keeps those created within `RetentionInterval` of
`now` (forcing a new snapshot only when there is none), and then deletes, generation by
generation, what lies below the earliest snapshot it keeps.  The deletions are made one call at
a time, and any call may fail or be the last before a crash.  No run, complete or cut short,
deletes a snapshot of the window: every snapshot of a generation `Generations()` lists whose
time is not before `now - RetentionInterval` is afterwards on disk as it was.

This rests on two facts.  A listing that `Generations()` or `Snapshots()` returns under
failures is complete, since a failed `ReadDir` answers an error that ends the call, never
`os.ErrNotExist`; and every deletion of the pass is of another generation, or below the lowest
index it keeps, which is at most a window snapshot's.  `now` is the clock when the pass starts:
the environment moves neither the clock nor the tree between the calls of one pass.

* `ListsAll`, `generations_lists`, `snapshots_lists`: the listings are complete;
* `retainedSnapshots_window`: a window snapshot's generation and index are among those the pass
  keeps, and the tree has not changed;
* `enforceRetention_keeps_window`: the main theorem.
-/

namespace Litestream

/-! ## 1. Complete listings -/

/-- `S` lists every snapshot entry of `fs` in the generations `G`, with its index and time. -/
def ListsAll (fs : FS) (G : List String) (S : List SnapshotInfo) : Prop :=
  ∀ g ∈ G, ∀ x n i ext, fs.get (snapshotDir g ++ [x]) = some n →
    parseSnapshotPath x = some (i, ext) →
      ∃ s ∈ S, s.generation = g ∧ s.index = i ∧ s.createdAt = (n.info x).modTime

namespace ListsAll

variable {fs : FS} {G : List String} {S S' : List SnapshotInfo} {g : String}

theorem mono (h : ListsAll fs G S) (hS : S ⊆ S') : ListsAll fs G S' := fun g hg x n i ext hx hp =>
  let ⟨s, hs, h⟩ := h g hg x n i ext hx hp
  ⟨s, hS hs, h⟩

theorem append (h : ListsAll fs G S) (h' : ListsAll fs [g] S') : ListsAll fs (G ++ [g]) (S ++ S') :=
  fun g' hg' => (List.mem_append.mp hg').elim (fun hg => (h.mono (List.subset_append_left _ _)) g' hg)
    fun hg => (h'.mono (List.subset_append_right _ _)) g' hg

/-- The snapshots of one listing of a snapshot directory. -/
theorem of_readDir (r : FileReplica) {fis : List FileInfo}
    (h : fs.readDir (snapshotDir g) = .ok fis) : ListsAll fs [g] (snapshotInfos r g fis) := by
  intro g' hg' x n i ext hx hp
  obtain rfl := List.mem_singleton.mp hg'
  refine ⟨⟨x, r.Name, g', i, (n.info x).size, (n.info x).modTime⟩,
    List.mem_filterMap.mpr ⟨n.info x, FS.info_mem_readDir _ h hx, ?_⟩, rfl, rfl, rfl⟩
  rw [FS.Node.info_name, hp]
  rfl

/-- No snapshot below a snapshot directory that is not there. -/
theorem of_absent (h : fs.get (snapshotDir g) = none) : ListsAll fs [g] [] := by
  intro g' hg' x n i ext hx _
  obtain rfl := List.mem_singleton.mp hg'
  exact (FS.not_isDir_of_get_none h (by simpa using FS.get_parent hx (by simp))).elim

end ListsAll

section Listings

variable {rd : Adapter} {E : World → World → Prop} {P : World → Prop} {fs₀ : FS}
  (hP : Stable (Sem.faulty rd E) P) (hfs : ∀ w, P w → w.fs = fs₀)
include hP

/-- **A listing `Generations()` returns under failures is complete.** -/
theorem generations_lists {isGen : GenerationName} :
    Triple (Sem.faulty rd E) P P (generations isGen) fun res w => P w ∧
      ∀ G, res = .ok G → ∀ g, isGen g = true → w.fs.IsDir (generationDir g) → g ∈ G := by
  refine Triple.bind (Faulty.readDir_triple hP fun _ h => h) fun res => ?_
  split
  · refine Triple.pure fun w h => ⟨h.1, fun G _ g _ hg => ?_⟩
    obtain ⟨s, t, hg⟩ := hg
    exact (FS.not_isDir_of_get_none (h.2.1 rfl)
      (by simpa [generationDir] using FS.get_parent hg (by simp [generationDir]))).elim
  · exact Triple.pure fun _ h => ⟨h.1, fun _ h => by cases h⟩
  · rename_i fis
    refine Triple.pure fun w h => ⟨h.1, fun G hG g hgen hg => ?_⟩
    cases hG
    obtain ⟨s, t, hg⟩ := hg
    refine List.mem_map.mpr ⟨Node.info g (.dir s t), List.mem_filter.mpr ⟨?_, by simp [Node.info, hgen]⟩,
      rfl⟩
    exact FS.info_mem_readDir _ (h.2.2 fis rfl) hg

include hfs

/-- The loop of `Snapshots()` over the generations: each one whose directory it lists, it lists
whole, and a missing one has no snapshot. -/
theorem collectInfos_lists (r : FileReplica) (G₀ : List String) :
    ∀ gens acc, Triple (Sem.faulty rd E) P
      (fun w => P w ∧ ∃ G, G ++ gens = G₀ ∧ ListsAll fs₀ G acc)
      (collectInfos snapshotDir (snapshotInfos r) gens acc)
      fun res w => P w ∧ ∀ S, res = .ok S → ListsAll fs₀ G₀ S := by
  refine Triple.forRange (fun g gens acc => ?_) fun acc w ⟨hw, G, hG, h⟩ => ⟨hw, ?_⟩
  · refine Triple.bind (Faulty.readDir_triple (fun _ _ h hw => ⟨hP h hw.1, hw.2⟩) fun _ h => h.1)
      fun res => ?_
    split
    · refine Triple.pure fun w ⟨⟨hw, G, hG, h⟩, habs, _⟩ => ⟨hw, G ++ [g], by simpa using hG, ?_⟩
      simpa using h.append (ListsAll.of_absent (hfs w hw ▸ habs rfl))
    · exact Triple.pure fun _ h => ⟨h.1.1, fun _ h => by cases h⟩
    · rename_i fis
      refine Triple.pure fun w ⟨⟨hw, G, hG, h⟩, _, hok⟩ => ⟨hw, G ++ [g], by simpa using hG, ?_⟩
      exact h.append (ListsAll.of_readDir r (hfs w hw ▸ hok fis rfl))
  · rintro S ⟨⟩
    simpa [← hG] using h

/-- **A listing `Snapshots()` returns under failures is complete**: it has every snapshot entry
of the tree in a generation `Generations()` would list. -/
theorem snapshots_lists {r : FileReplica} {isGen : GenerationName} :
    Triple (Sem.faulty rd E) P P (snapshots r isGen) fun res w => P w ∧ ∀ S, res = .ok S →
      ∀ g x n i ext, isGen g = true → fs₀.get (snapshotDir g ++ [x]) = some n →
        parseSnapshotPath x = some (i, ext) →
          ∃ s ∈ S, s.generation = g ∧ s.index = i ∧ s.createdAt = (n.info x).modTime := by
  refine Triple.bind (generations_lists hP) fun res => ?_
  rcases res with e | G
  · exact Triple.pure fun _ h => ⟨h.1, fun _ h => by cases h⟩
  refine Triple.intro_pure (fun w h => hfs w h.1 ▸ h.2 G rfl) fun hG => ?_
  refine (collectInfos_lists hP hfs r G G [] |>.conseq (fun w h => ⟨h.1, [], rfl, ?_⟩)
    fun res w h => ⟨h.1, fun S hS g x n i ext hgen hx hp => ?_⟩)
  · intro _ hg; simp at hg
  · refine h.2 S hS g (hG g hgen ?_) x n i ext hx hp
    obtain ⟨s, t, h₁⟩ := FS.get_parent hx (by simp)
    simpa [snapshotDir] using FS.get_parent h₁ (by simp [snapshotDir, generationDir])

end Listings

/-! ## 2. The pass keeps the window

From here on the pass runs from a tree `fs₀` at a clock `c₀` that the environment leaves
alone, and `x` is a snapshot of generation `g` in the window, holding `n`. -/

section Window

variable {rd : Adapter} {E : World → World → Prop}
  (hE : ∀ w w', E w w' → w'.fs = w.fs ∧ w'.clock = w.clock)
  {r : FileReplica} {isGen : GenerationName} {fs₀ : FS} {c₀ : Int} {g x ext : String} {n : Node}
  {i : Nat}

/-- A retained list with a snapshot of index `i` in `g` has a lowest index there, at most `i`. -/
theorem retainedMin_le {R : List SnapshotInfo} {s : SnapshotInfo} (hs : s ∈ R) :
    ∃ m, retainedMin R s.generation = some m ∧ m ≤ s.index := by
  have hi : s.index ∈ (R.filter (·.generation = s.generation)).map (·.index) :=
    List.mem_map.mpr ⟨s, List.mem_filter.mpr ⟨hs, by simp⟩, rfl⟩
  obtain ⟨m, hm⟩ := Option.ne_none_iff_exists'.mp
    (mt List.min?_eq_none_iff.mp (List.ne_nil_of_mem hi))
  exact ⟨m, hm, (List.min?_eq_some_iff'.mp hm).2 _ hi⟩

/-- **Every deletion of the pass spares the window snapshot**, once the pass keeps a snapshot of
its generation at or below its index. -/
theorem retainGeneration_spares_window {R : List SnapshotInfo} {m : Nat}
    (hR : retainedMin R g = some m) (hm : m ≤ i) (hp : parseSnapshotPath x = some (i, ext))
    (g' : String) :
    Prog.Calls (Keeps (Sem.faulty rd E) fun w => w.fs.get (snapshotDir g ++ [x]) = some n)
      (retainGeneration R g') := by
  refine retainGeneration_keeps hR (fun g' hg' w u w' hw hs => ?_)
    (fun g' x' hx' w u w' hw hs => ?_) (fun g' x' _ w u w' hw hs => ?_) g'
  · obtain ⟨qs, hqs, rfl⟩ := Faulty.step_removeAll hs
    have hq : ¬((∃ q ∈ qs, q <+: snapshotDir g ++ [x]) ∧ snapshotDir g ++ [x] ≠ []) :=
      fun ⟨⟨q, hq, hqp⟩, _⟩ =>
        hg' (by simpa [snapshotDir, generationDir] using (hqs q hq).trans hqp)
    rwa [FS.get_foldl_prune, if_neg hq]
  · have hne : snapshotDir g ++ [x] ≠ snapshotDir g' ++ [x'] := by
      intro h
      obtain ⟨rfl, rfl⟩ : g = g' ∧ x = x' := by simpa [snapshotDir, generationDir] using h
      obtain ⟨k, hk, hlt⟩ := hx' rfl
      simp [snapshotIndex, hp] at hk
      omega
    rwa [Faulty.get_step_remove hs hne]
  · rwa [Faulty.get_step_remove hs fun h => by simp [walDir, snapshotDir, generationDir] at h]

include hE

/-- The tree and the clock of the start are kept between the calls. -/
theorem start_stable : Stable (Sem.faulty rd E) fun w => w.fs = fs₀ ∧ w.clock = c₀ :=
  fun w w' h hw => ⟨(hE w w' h).1.trans hw.1, (hE w w' h).2.trans hw.2⟩

/-- **The snapshots the pass keeps include the window's**: a window snapshot is listed, so the
pass keeps the snapshots of the window and forces none; nothing is written. -/
theorem retainedSnapshots_window (hgen : isGen g = true)
    (hx : fs₀.get (snapshotDir g ++ [x]) = some n) (hp : parseSnapshotPath x = some (i, ext))
    (ht : c₀ - r.retentionInterval ≤ (n.info x).modTime) (pos : Pos) :
    Triple (Sem.faulty rd E) (fun w => w.fs = fs₀ ∧ w.clock = c₀)
      (fun w => w.fs = fs₀ ∧ w.clock = c₀) (retainedSnapshots r isGen pos)
      fun res w => (w.fs = fs₀ ∧ w.clock = c₀) ∧
        ∀ R, res = .ok R → ∃ s ∈ R, s.generation = g ∧ s.index = i := by
  unfold retainedSnapshots
  refine Triple.bind (snapshots_lists (start_stable hE) fun _ h => h.1) fun res => ?_
  rcases res with e | S
  · exact Triple.pure fun _ h => ⟨h.1, fun _ h => by cases h⟩
  refine Triple.intro_pure (fun w h => h.2 S rfl g x n i ext hgen hx hp)
    fun ⟨s, hs, hsg, hsi, hst⟩ => Triple.conseq ?_ (fun w h => h.1) fun _ _ h => h
  refine Triple.bind (Q := fun now w => (w.fs = fs₀ ∧ w.clock = c₀) ∧ now = c₀)
    (Triple.call_stable (start_stable hE) (fun _ h => h) fun w now w' hw hs => ?_) fun now => ?_
  · obtain ⟨rfl, rfl⟩ := Faulty.step_now hs
    exact ⟨hw, hw.2⟩
  refine Triple.intro_pure (fun w h => h.2) fun hnow => ?_
  subst hnow
  have hmem : s ∈ filterSnapshotsAfter S (now - r.retentionInterval) :=
    List.mem_filter.mpr ⟨hs, by simpa [hst] using ht⟩
  dsimp only
  rw [if_neg (by simpa using List.ne_nil_of_mem hmem)]
  exact Triple.pure fun _ h => ⟨h.1, fun R hR => ⟨s, by cases hR; exact hmem, hsg, hsi⟩⟩

/-- **A failed retention pass keeps the snapshots of its window.**  On every run of
`EnforceRetention` from a tree at clock `now`, complete or cut short, with any of its calls
failing, and with the clock and the tree unmoved between its calls: a snapshot entry of a
generation `Generations()` lists, whose time is not before `now - RetentionInterval`, is still
on disk as it was. -/
theorem enforceRetention_keeps_window {w w' : World} {res : Option (Except Error Unit)}
    (h : Exec (Sem.faulty rd E) (enforceRetention r isGen) w res w') (hgen : isGen g = true)
    (hx : w.fs.get (snapshotDir g ++ [x]) = some n) (hp : parseSnapshotPath x = some (i, ext))
    (ht : w.clock - r.retentionInterval ≤ (n.info x).modTime) :
    w'.fs.get (snapshotDir g ++ [x]) = some n := by
  have hI : ∀ w' : World, w'.fs = w.fs ∧ w'.clock = w.clock → w'.fs.get (snapshotDir g ++ [x]) = some n :=
    fun w' h => h.1 ▸ hx
  have hkeep : Stable (Sem.faulty rd E) fun w' => w'.fs.get (snapshotDir g ++ [x]) = some n :=
    fun w₁ w₂ h hw => by simpa only [(hE w₁ w₂ h).1] using hw
  have hT : Triple (Sem.faulty rd E) (fun w' => w'.fs.get (snapshotDir g ++ [x]) = some n)
      (fun w' => w'.fs = w.fs ∧ w'.clock = w.clock) (enforceRetention r isGen)
      fun _ w' => w'.fs.get (snapshotDir g ++ [x]) = some n := by
    unfold enforceRetention
    refine Triple.bind (Triple.keeps (keeps_read rfl) (start_stable hE) hI) fun res => ?_
    rcases res with e | pos
    · exact Triple.pure hI
    dsimp only
    split
    · exact Triple.pure hI
    refine Triple.bind ((retainedSnapshots_window hE hgen hx hp ht pos).weaken hI) fun res => ?_
    rcases res with e | R
    · exact Triple.pure fun w h => hI w h.1
    refine Triple.intro_pure (fun w h => h.2 R rfl) fun ⟨s, hs, hsg, hsi⟩ => ?_
    obtain ⟨m, hR, hm⟩ := retainedMin_le hs
    rw [hsg] at hR
    rw [hsi] at hm
    refine (Triple.of_calls (.bind (.bind (.call (keeps_read (by rfl))) fun res => ?_) fun res => ?_)
      hkeep).conseq (fun w h => hI w h.1) fun _ _ h => h
    · rcases res with ((_ | _ | _ | _ | _) | _) <;> exact .pure
    · rcases res with e | gens
      · exact .pure
      · exact .forRange (fun _ _ => retainGeneration_spares_window hR hm hp _) _ _
  have := hT ⟨rfl, rfl⟩ h
  cases res <;> exact this

end Window

/-- A destination at time `7200` with snapshot `0` of `g`, made at time `0`, below the hour's
window, and snapshot `1`, made at time `7000`, in it. -/
def windowWorld : World :=
  { emptyDst with
    fs := ⟨[(snapshotPath "g" 1, .file (.gzip (.raw [6])) 7000),
      (snapshotPath "g" 0, .file (.gzip (.raw [5])) 0), (snapshotDir "g", .dir 4096 0),
      (generationDir "g", .dir 4096 0), (["generations"], .dir 4096 0)], by decide, by decide⟩ }

/-- The pass deletes snapshot `0` and keeps snapshot `1`. -/
theorem enforceRetention_keeps_window_hour :
    ∃ w', Exec (Sem.faulty Source.shadowWALReader fun _ _ => False)
        (enforceRetention hourReplica anyGeneration) windowWorld (some (.ok ())) w' ∧
      windowWorld.fs.get (snapshotPath "g" 0) = some (.file (.gzip (.raw [5])) 0) ∧
      w'.fs.get (snapshotPath "g" 0) = none ∧
      w'.fs.get (snapshotDir "g" ++ [snapshotName 1]) = some (.file (.gzip (.raw [6])) 7000) :=
  have h := Returns.faulty (E := fun _ _ => False)
    (Prog.run_sound 80 (enforceRetention hourReplica anyGeneration) windowWorld (.ok ()) _ rfl)
  ⟨_, h, rfl, rfl,
    enforceRetention_keeps_window (fun _ _ h => h.elim) h rfl rfl rfl (by decide)⟩

end Litestream
