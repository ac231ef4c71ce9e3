import Litestream.Lookup
import Litestream.RetentionEffect
/-!
# What the listings agree on

`Snapshots()` and `WALs()` list the directories of every generation that `Generations()`
lists, one generation after the other; `GenerationStats(g)` and `SnapshotIndexAt(g, t)` read
the directories of one generation.  This module shows that what the two per-generation
methods report about `g` is what the listings say about `g`:

* `collectInfos_filter`: the entries of `g` that `Snapshots()` and `WALs()` list are those of
  `g`'s own directory, none when it is missing;
* `generationStats_listings`: `GenerationStats(g)` counts the snapshots and WAL files the
  listings give for `g` and spans their times, when none of these times is Go's zero time,
  which both folds of the method read as "no time yet";
* `snapshotIndexAt_latest`: `SnapshotIndexAt(g, t)` returns a latest snapshot not after `t`,
  and with `t` zero one that `Snapshots()` lists with the greatest time, when no snapshot is
  older than Go's zero time.  `snapshotIndexAt_zero_time_sentinel` is a snapshot at Go's zero
  time followed by an older one, where the lookup returns the older.
-/

namespace Litestream

/-! ## 1. The loop over the generations -/

section Collect

variable {rd : Adapter} {β : Type} {dir : String → Path} {infos : String → List FileInfo → List β}

/-- **The loop of `Snapshots` and `WALs`**, when it returns `nil`: every directory it read was
there or missing, and it appended the entries of each generation in turn, none for a missing
directory. -/
theorem collectInfos_ok (hnil : ∀ g, infos g [] = []) :
    ∀ (gens : List String) {acc L : List β} {w w' : World},
      Returns rd (collectInfos dir infos gens acc) w (.ok L) w' →
      (∀ g ∈ gens, ∀ e, w.fs.readDir (dir g) = .error e → e = .notExist) ∧
        L = acc ++ gens.flatMap fun g => infos g ((w.fs.readDir (dir g)).toOption.getD [])
  | [], _, _, _, _, h => by
    obtain ⟨hL, -⟩ := Returns.pure.mp h
    cases hL
    simp
  | g :: gens, acc, L, w, w', h => by
    obtain ⟨r₁, w₁, h₁, h₂⟩ := Returns.bind.mp h
    simp only [Returns.bind_lift, Call.run] at h₁
    split at h₁ <;> obtain ⟨hr, rfl⟩ := Returns.pure.mp h₁ <;> subst hr
    · rename_i hd
      obtain ⟨hall, rfl⟩ := collectInfos_ok hnil gens h₂
      exact ⟨List.forall_mem_cons.mpr ⟨(fun e he => (Except.error.inj (hd.symm.trans he)).symm), hall⟩,
        by simp [hd, hnil, Except.toOption]⟩
    · simp at h₂
    · rename_i fis hd
      obtain ⟨hall, rfl⟩ := collectInfos_ok hnil gens h₂
      exact ⟨List.forall_mem_cons.mpr ⟨(fun e he => nomatch hd.symm.trans he), hall⟩,
        by simp [hd, Except.toOption]⟩

/-- Entries that each carry the generation they were listed under: keeping those of one
generation of a list without repeats keeps that generation's. -/
theorem filter_flatMap_of_nodup {F : String → List β} {gen : β → String} {g : String}
    (hgen : ∀ g', ∀ x ∈ F g', gen x = g') :
    ∀ {gens : List String}, gens.Nodup → g ∈ gens → (gens.flatMap F).filter (gen · = g) = F g
  | [], _, hg => absurd hg (List.not_mem_nil _)
  | g' :: gens, hnd, hg => by
    obtain ⟨hg', hnd⟩ := List.nodup_cons.mp hnd
    rw [List.flatMap_cons, List.filter_append]
    by_cases he : g' = g
    · subst he
      rw [List.filter_eq_self.mpr fun x hx => by simp [hgen _ x hx], List.append_right_eq_self,
        List.filter_eq_nil_iff]
      intro x hx
      obtain ⟨g'', hg'', hx⟩ := List.mem_flatMap.mp hx
      have hne : g'' ≠ g' := fun h => hg' (h ▸ hg'')
      simp [hgen _ x hx, hne]
    · rw [List.filter_eq_nil_iff.mpr fun x hx => by simp [hgen _ x hx, he], List.nil_append]
      exact filter_flatMap_of_nodup hgen hnd ((List.mem_cons.mp hg).resolve_left (Ne.symm he))

/-- **The entries of one generation** that the loop lists are those of its directory. -/
theorem collectInfos_filter {gen : β → String} (hnil : ∀ g, infos g [] = [])
    (hgen : ∀ g fis, ∀ x ∈ infos g fis, gen x = g) {gens : List String} {g : String}
    (hnd : gens.Nodup) (hg : g ∈ gens) {L : List β} {w w' : World}
    (h : Returns rd (collectInfos dir infos gens []) w (.ok L) w') :
    (∀ e, w.fs.readDir (dir g) = .error e → e = .notExist) ∧
      L.filter (gen · = g) = infos g ((w.fs.readDir (dir g)).toOption.getD []) := by
  obtain ⟨hall, rfl⟩ := collectInfos_ok hnil gens h
  exact ⟨hall g hg, filter_flatMap_of_nodup (fun g' => hgen g' _) hnd hg⟩

end Collect

section Listings

variable {rd : Adapter} {w w₁ w₂ : World} {r : FileReplica} {isGen : GenerationName}
  {G : List String} {g : String}

/-- `Generations()` lists each generation once. -/
theorem generations_nodup (h : Returns rd (generations isGen) w (.ok G) w₁) : G.Nodup := by
  simp only [generations, Returns.bind_lift, Call.run] at h
  split at h
  · cases (Returns.pure.mp h).1
    exact List.nodup_nil
  · simp at h
  · rename_i fis hfis
    cases (Returns.pure.mp h).1
    exact (FS.readDir_nodup _ hfis).sublist ((List.filter_sublist _).map _)

theorem generation_of_mem_snapshotInfos {fis : List FileInfo} {s : SnapshotInfo}
    (hs : s ∈ snapshotInfos r g fis) : s.generation = g := by
  obtain ⟨fi, -, hp⟩ := List.mem_filterMap.mp hs
  obtain ⟨_, -, rfl⟩ := Option.map_eq_some'.mp hp
  rfl

theorem generation_of_mem_walInfos {fis : List FileInfo} {f : WALInfo}
    (hf : f ∈ walInfos r g fis) : f.generation = g := by
  obtain ⟨fi, -, hp⟩ := List.mem_filterMap.mp hf
  obtain ⟨_, -, rfl⟩ := Option.map_eq_some'.mp hp
  rfl

/-- The snapshots `Snapshots()` lists for a listed generation are those of its directory. -/
theorem snapshots_of_generation {S : List SnapshotInfo}
    (hG : Returns rd (generations isGen) w (.ok G) w₁) (hg : g ∈ G)
    (hS : Returns rd (snapshots r isGen) w (.ok S) w₂) :
    (∀ e, w.fs.readDir (snapshotDir g) = .error e → e = .notExist) ∧
      S.filter (·.generation = g) = snapshotInfos r g ((w.fs.readDir (snapshotDir g)).toOption.getD []) := by
  obtain ⟨r₁, w₃, h₁, h₂⟩ := Returns.bind.mp hS
  cases generations_world h₁
  obtain ⟨rfl, -⟩ := Returns.det h₁ hG
  refine collectInfos_filter (fun _ => rfl) ?_ (generations_nodup hG) hg h₂
  exact fun _ _ _ => generation_of_mem_snapshotInfos

/-- The WAL files `WALs()` lists for a listed generation are those of its directory. -/
theorem wals_of_generation {W : List WALInfo}
    (hG : Returns rd (generations isGen) w (.ok G) w₁) (hg : g ∈ G)
    (hW : Returns rd (wals r isGen) w (.ok W) w₂) :
    (∀ e, w.fs.readDir (walDir g) = .error e → e = .notExist) ∧
      W.filter (·.generation = g) = walInfos r g ((w.fs.readDir (walDir g)).toOption.getD []) := by
  obtain ⟨r₁, w₃, h₁, h₂⟩ := Returns.bind.mp hW
  cases generations_world h₁
  obtain ⟨rfl, -⟩ := Returns.det h₁ hG
  refine collectInfos_filter (fun _ => rfl) ?_ (generations_nodup hG) hg h₂
  exact fun _ _ _ => generation_of_mem_walInfos

/-- The times of a listing's snapshots are those of its entries with a snapshot's name. -/
theorem snapshotInfos_createdAt (fis : List FileInfo) :
    (snapshotInfos r g fis).map (·.createdAt) =
      (fis.filter (isSnapshotPath ·.name)).map (·.modTime) := by
  induction fis with
  | nil => rfl
  | cons fi fis ih =>
    simp only [snapshotInfos, List.filterMap_cons, List.filter_cons, isSnapshotPath] at ih ⊢
    cases parseSnapshotPath fi.name <;> simp [ih]

/-- The times of a listing's WAL files are those of its entries with a WAL file's name. -/
theorem walInfos_createdAt (fis : List FileInfo) :
    (walInfos r g fis).map (·.createdAt) = (fis.filter (isWALPath ·.name)).map (·.modTime) := by
  induction fis with
  | nil => rfl
  | cons fi fis ih =>
    simp only [walInfos, List.filterMap_cons, List.filter_cons, isWALPath] at ih ⊢
    cases parseWALPath fi.name <;> simp [ih]

end Listings

/-! ## 2. `GenerationStats`

`snapshotStats` and `walStats` fold the earliest and latest time of the names they count, with
Go's zero time as "none yet", and `GenerationStats` merges the two in the same way.  When no
time is the zero time, the folds span the times exactly (`statsOf_range`, `addWALs_range`). -/

/-- `lo` and `hi` are the earliest and the latest of the times `ts`, both Go's zero time when
there is none. -/
def TimeRange (ts : List Int) (lo hi : Int) : Prop :=
  (ts = [] ∧ lo = 0 ∧ hi = 0) ∨ (lo ∈ ts ∧ hi ∈ ts ∧ ∀ t ∈ ts, lo ≤ t ∧ t ≤ hi)

instance (ts : List Int) (lo hi : Int) : Decidable (TimeRange ts lo hi) :=
  inferInstanceAs (Decidable (_ ∨ _))

theorem TimeRange.single (t : Int) : TimeRange [t] t t := Or.inr ⟨by simp, by simp, by simp⟩

/-- **A range takes in a later one** that is not empty, with Go's zero time read as "no time
yet": the merge of the two folds and of `GenerationStats`. -/
theorem TimeRange.append {ts₁ ts₂ : List Int} {a b c d : Int} (h₁ : TimeRange ts₁ a b)
    (h₂ : TimeRange ts₂ c d) (hne : ts₂ ≠ []) (hz : ∀ t ∈ ts₁, t ≠ 0) :
    TimeRange (ts₁ ++ ts₂) (if a = 0 ∨ c < a then c else a) (if b = 0 ∨ d > b then d else b) := by
  obtain ⟨hc, hd, hcd⟩ := h₂.resolve_left fun h => hne h.1
  rcases h₁ with ⟨rfl, rfl, rfl⟩ | ⟨ha, hb, hab⟩
  · simp only [List.nil_append, true_or, if_true]
    exact Or.inr ⟨hc, hd, hcd⟩
  · have ha0 := hz a ha
    have hb0 := hz b hb
    refine Or.inr ⟨by split_ifs <;> simp [*], by split_ifs <;> simp [*],
      List.forall_mem_append.mpr ⟨fun t ht => ?_, fun t ht => ?_⟩⟩
    · have := hab t ht
      split_ifs <;> omega
    · have := hcd t ht
      split_ifs <;> omega

/-- **`snapshotStats` and `walStats` count the names they accept and span their times**, when
none of these times is Go's zero time. -/
theorem statsOf_range (isName : String → Bool) (fis : List FileInfo)
    (hz : ∀ t ∈ (fis.filter (isName ·.name)).map (·.modTime), t ≠ 0) :
    (statsOf isName fis).1 = (fis.filter (isName ·.name)).length ∧
      TimeRange ((fis.filter (isName ·.name)).map (·.modTime)) (statsOf isName fis).2.1
        (statsOf isName fis).2.2 := by
  induction fis using List.reverseRecOn with
  | nil => exact ⟨rfl, Or.inl ⟨rfl, rfl, rfl⟩⟩
  | append_singleton fis fi ih =>
    rw [List.filter_append, List.map_append] at hz ⊢
    obtain ⟨hn, hr⟩ := ih fun t ht => hz t (List.mem_append_left _ ht)
    unfold statsOf at hn hr ⊢
    rw [List.foldl_append, List.length_append]
    generalize List.foldl _ ((0, 0, 0) : Nat × Int × Int) fis = acc at hn hr ⊢
    obtain ⟨n, lo, hi⟩ := acc
    dsimp only at hn hr
    subst hn
    cases hname : isName fi.name
    · simpa [hname] using hr
    · simp only [List.foldl_cons, List.foldl_nil, List.filter_cons, hname, Bool.not_true,
        if_true, List.filter_nil, List.length_singleton, List.map_cons, List.map_nil] at hz ⊢
      exact ⟨rfl, hr.append (.single _) (List.cons_ne_nil _ _)
        fun t ht => hz t (List.mem_append_left _ ht)⟩

/-- **The merge of `GenerationStats`** spans the times of both listings. -/
theorem addWALs_range {n : Nat} {a b : Int} {ts₁ ts₂ : List Int} {s : Nat × Int × Int}
    (h₁ : TimeRange ts₁ a b) (h₂ : TimeRange ts₂ s.2.1 s.2.2) (hn : s.1 = ts₂.length)
    (hz : ∀ t ∈ ts₁, t ≠ 0) :
    ((GenerationStats.mk n 0 a b).addWALs s).snapshotN = n ∧
      ((GenerationStats.mk n 0 a b).addWALs s).walN = ts₂.length ∧
      TimeRange (ts₁ ++ ts₂) ((GenerationStats.mk n 0 a b).addWALs s).createdAt
        ((GenerationStats.mk n 0 a b).addWALs s).updatedAt := by
  obtain ⟨m, c, d⟩ := s
  dsimp only at h₂ hn
  subst hn
  unfold GenerationStats.addWALs
  dsimp only
  by_cases h0 : ts₂.length = 0
  · rw [if_pos h0, List.length_eq_zero.mp h0, List.append_nil]
    exact ⟨rfl, rfl, h₁⟩
  · rw [if_neg h0]
    exact ⟨rfl, rfl, h₁.append h₂ (fun h => h0 (by simp [h])) hz⟩

section Stats

variable {rd : Adapter} {w w₁ w₂ w₃ : World} {r : FileReplica} {isGen : GenerationName}
  {G : List String} {g : String}

/-- `snapshotStats` and `walStats` on a directory that is there or missing: the fold of its
listing, of none when it is missing. -/
theorem dirStats_listing {dir : Path} {isName : String → Bool}
    (h : ∀ e, w.fs.readDir dir = .error e → e = .notExist) :
    Returns rd (dirStats dir isName) w (.ok (statsOf isName ((w.fs.readDir dir).toOption.getD []))) w := by
  simp only [dirStats, Returns.bind_lift, Call.run]
  cases hr : w.fs.readDir dir with
  | error e =>
    cases h e hr
    simp [Except.toOption, statsOf]
  | ok fis => simp [Except.toOption]

/-- **`GenerationStats` agrees with the listings.**  For a generation `Generations()` lists,
it counts the snapshots and the WAL files that `Snapshots()` and `WALs()` list for it, and its
`CreatedAt` and `UpdatedAt` are the earliest and latest of their times (both zero when there is
none, a missing directory counting as empty), when none of these times is Go's zero time. -/
theorem generationStats_listings {S : List SnapshotInfo} {W : List WALInfo}
    (hG : Returns rd (generations isGen) w (.ok G) w₁) (hg : g ∈ G)
    (hS : Returns rd (snapshots r isGen) w (.ok S) w₂) (hW : Returns rd (wals r isGen) w (.ok W) w₃)
    (hzs : ∀ s ∈ S, s.generation = g → s.createdAt ≠ 0)
    (hzw : ∀ f ∈ W, f.generation = g → f.createdAt ≠ 0) :
    ∃ stats, Returns rd (generationStats g) w (.ok stats) w ∧
      stats.snapshotN = (S.filter (·.generation = g)).length ∧
      stats.walN = (W.filter (·.generation = g)).length ∧
      TimeRange ((S.filter (·.generation = g)).map (·.createdAt) ++
        (W.filter (·.generation = g)).map (·.createdAt)) stats.createdAt stats.updatedAt := by
  obtain ⟨hs, hSg⟩ := snapshots_of_generation hG hg hS
  obtain ⟨hw, hWg⟩ := wals_of_generation hG hg hW
  have hds : Returns rd (dirStats (snapshotDir g) isSnapshotPath) w _ w := dirStats_listing hs
  have hdw : Returns rd (dirStats (walDir g) isWALPath) w _ w := dirStats_listing hw
  generalize (w.fs.readDir (snapshotDir g)).toOption.getD [] = LS at hds hSg
  generalize (w.fs.readDir (walDir g)).toOption.getD [] = LW at hdw hWg
  -- the listed times are the times the folds see
  have htS : (S.filter (·.generation = g)).map (·.createdAt) =
      (LS.filter (isSnapshotPath ·.name)).map (·.modTime) := by rw [hSg, snapshotInfos_createdAt]
  have htW : (W.filter (·.generation = g)).map (·.createdAt) =
      (LW.filter (isWALPath ·.name)).map (·.modTime) := by rw [hWg, walInfos_createdAt]
  have hzS : ∀ t ∈ (S.filter (·.generation = g)).map (·.createdAt), t ≠ 0 := by
    simpa only [List.forall_mem_map, List.forall_mem_filter, decide_eq_true_eq] using hzs
  have hzW : ∀ t ∈ (W.filter (·.generation = g)).map (·.createdAt), t ≠ 0 := by
    simpa only [List.forall_mem_map, List.forall_mem_filter, decide_eq_true_eq] using hzw
  rw [htS] at hzS ⊢
  rw [htW] at hzW ⊢
  rw [← List.length_map (S.filter _) (·.createdAt), ← List.length_map (W.filter _) (·.createdAt),
    htS, htW, List.length_map, List.length_map]
  obtain ⟨hn₁, hr₁⟩ := statsOf_range isSnapshotPath LS hzS
  obtain ⟨hn₂, hr₂⟩ := statsOf_range isWALPath LW hzW
  generalize statsOf isSnapshotPath LS = s₁ at hds hn₁ hr₁
  obtain ⟨n, lo, hi⟩ := s₁
  dsimp only at hn₁ hr₁
  obtain ⟨h₁, h₂, h₃⟩ := addWALs_range (n := n) hr₁ hr₂ (by rw [hn₂, List.length_map]) hzS
  exact ⟨_, Returns.bind.mpr ⟨_, _, hds, Returns.bind.mpr ⟨_, _, hdw, Returns.pure.mpr ⟨rfl, rfl⟩⟩⟩,
    h₁.trans hn₁, h₂.trans (List.length_map _ _), h₃⟩

/-- A destination whose generation `g` holds snapshot `0`, written at time `100`, and the WAL
files `0` and `1`, written at `150` and `200`. -/
def statsWorld : World :=
  { World.fresh Source.empty 0 with
    fs := ⟨[(walPath "g" 1, .file (.raw [3]) 200), (walPath "g" 0, .file (.raw [1, 2]) 150),
      (walDir "g", .dir 4096 0), (snapshotPath "g" 0, .file (.gzip (.raw [7])) 100),
      (snapshotDir "g", .dir 4096 0), (generationDir "g", .dir 4096 0), (["generations"], .dir 4096 0)],
      by decide, by decide⟩ }

/-- What `Snapshots()` lists in `statsWorld`. -/
def statsSnapshots : List SnapshotInfo := [⟨snapshotName 0, "file", "g", 0, 24, 100⟩]

/-- What `WALs()` lists in `statsWorld`. -/
def statsWALs : List WALInfo := [⟨walName 0, "file", "g", 0, 0, 2, 150⟩, ⟨walName 1, "file", "g", 1, 0, 1, 200⟩]

theorem generationStats_listings_statsWorld :
    ∃ stats, Returns Source.shadowWALReader (generationStats "g") statsWorld (.ok stats) statsWorld ∧
      stats.snapshotN = (statsSnapshots.filter (·.generation = "g")).length ∧
      stats.walN = (statsWALs.filter (·.generation = "g")).length ∧
      TimeRange ((statsSnapshots.filter (·.generation = "g")).map (·.createdAt) ++
        (statsWALs.filter (·.generation = "g")).map (·.createdAt)) stats.createdAt stats.updatedAt :=
  generationStats_listings (r := ⟨"", 0, false⟩)
    (Prog.run_sound 20 (generations anyGeneration) statsWorld (.ok ["g"]) statsWorld rfl)
    (List.mem_singleton_self _)
    (Prog.run_sound 40 (snapshots ⟨"", 0, false⟩ anyGeneration) statsWorld (.ok statsSnapshots)
      statsWorld rfl)
    (Prog.run_sound 40 (wals ⟨"", 0, false⟩ anyGeneration) statsWorld (.ok statsWALs) statsWorld rfl)
    (by decide) (by decide)

end Stats

/-! ## 3. `SnapshotIndexAt` and `Snapshots()` -/

/-- `ReadDir` answers a path that is there or missing: the path is a directory, or nothing and
below no file. -/
theorem absent_or_isDir_of_readDir {fs : FS} {p : Path}
    (h : ∀ e, fs.readDir p = .error e → e = .notExist) : fs.Absent p ∨ fs.IsDir p := by
  unfold FS.readDir at h
  split at h
  · exact .inl ⟨‹_›, h _ rfl⟩
  · cases h _ rfl
  · exact .inr (FS.isDir_of_get ‹_›)

section Latest

variable {rd : Adapter} {w w₁ w₂ : World} {g : String} {r : FileReplica} {isGen : GenerationName}
  {G : List String} {S : List SnapshotInfo}

/-- **The snapshots `SnapshotIndexAt(g, 0)` may pick are those `Snapshots()` lists for `g`**, with
their indices and times, when `Generations()` lists `g`. -/
theorem snapshotAt_iff_listed (hG : Returns rd (generations isGen) w (.ok G) w₁) (hg : g ∈ G)
    (hS : Returns rd (snapshots r isGen) w (.ok S) w₂) {i : Nat} {m : Int} :
    SnapshotAt w.fs g 0 i m ↔ ∃ s ∈ S, s.generation = g ∧ s.index = i ∧ s.createdAt = m := by
  constructor
  · rintro ⟨x, n, hn, hi, rfl, -⟩
    have hd : w.fs.IsDir (snapshotDir g) := by
      simpa using FS.get_parent hn (by simp)
    obtain ⟨fis, hfis⟩ := FS.readDir_of_dir _ hd
    have hSg := (snapshots_of_generation hG hg hS).2
    rw [hfis] at hSg
    obtain ⟨⟨i', ext⟩, hp, hi'⟩ := Option.map_eq_some'.mp hi
    cases hi'
    have hmem : (⟨x, r.Name, g, i', (n.info x).size, (n.info x).modTime⟩ : SnapshotInfo) ∈
        S.filter (·.generation = g) := by
      rw [hSg]
      exact List.mem_filterMap.mpr ⟨n.info x, FS.info_mem_readDir _ hfis hn, by
        simp [FS.Node.info_name, hp]⟩
    obtain ⟨hs, hsg⟩ := List.mem_filter.mp hmem
    exact ⟨_, hs, of_decide_eq_true hsg, rfl, rfl⟩
  · rintro ⟨s, hs, rfl, rfl, rfl⟩
    obtain ⟨hi, n, hn, hm⟩ := mem_snapshots hS hs
    exact ⟨s.name, n, hn, hi, hm.symm, .inl rfl⟩

/-- **`SnapshotIndexAt` returns a latest snapshot.**  For every timestamp, in a snapshot
directory that is there or missing, with no snapshot it may pick older than Go's zero time, it
returns `ErrNoSnapshots` exactly when the directory is missing or holds none it may pick, and
otherwise the index of one of them with the greatest time.  With the zero timestamp, for a
generation `Generations()` lists and no snapshot `Snapshots()` lists for it older than Go's zero
time, it returns the index of a snapshot `Snapshots()` lists for the generation with the
greatest `CreatedAt`. -/
theorem snapshotIndexAt_latest :
    (∀ timestamp, (w.fs.Absent (snapshotDir g) ∨ w.fs.IsDir (snapshotDir g)) →
      (∀ i m, SnapshotAt w.fs g timestamp i m → 0 ≤ m) →
      ∃ res, Returns rd (snapshotIndexAt g timestamp) w res w ∧
        (res = .error .noSnapshots ↔
          w.fs.Absent (snapshotDir g) ∨ ∀ i m, ¬ SnapshotAt w.fs g timestamp i m) ∧
        (res ≠ .error .noSnapshots → ∃ i m, res = .ok i ∧ SnapshotAt w.fs g timestamp i m ∧
          ∀ j m', SnapshotAt w.fs g timestamp j m' → m' ≤ m)) ∧
    ∀ (r : FileReplica) (isGen : GenerationName) (G : List String) (S : List SnapshotInfo)
      (w₁ w₂ : World), Returns rd (generations isGen) w (.ok G) w₁ → g ∈ G →
      Returns rd (snapshots r isGen) w (.ok S) w₂ →
      (∀ s ∈ S, s.generation = g → 0 ≤ s.createdAt) → (∃ s ∈ S, s.generation = g) →
      ∃ i, Returns rd (snapshotIndexAt g 0) w (.ok i) w ∧ ∃ s ∈ S, s.generation = g ∧
        s.index = i ∧ ∀ s' ∈ S, s'.generation = g → s'.createdAt ≤ s.createdAt := by
  refine ⟨fun _ hdir hz => snapshotIndexAt_spec hdir hz,
    fun r isGen G S w₁ w₂ hG hg hS hz ⟨s₀, hs₀, hg₀⟩ => ?_⟩
  have hiff : ∀ {i m}, SnapshotAt w.fs g 0 i m ↔ _ := snapshotAt_iff_listed hG hg hS
  have hat₀ : SnapshotAt w.fs g 0 s₀.index s₀.createdAt := hiff.mpr ⟨s₀, hs₀, hg₀, rfl, rfl⟩
  obtain ⟨res, hres, hno, hok⟩ : ∃ res, Returns rd (snapshotIndexAt g 0) w res w ∧ _ :=
    snapshotIndexAt_spec (absent_or_isDir_of_readDir (snapshots_of_generation hG hg hS).1) fun i m h => by
      obtain ⟨s, hs, hsg, -, rfl⟩ := hiff.mp h
      exact hz s hs hsg
  have hne : res ≠ .error .noSnapshots := by
    intro h
    rcases hno.mp h with habs | hnone
    · obtain ⟨x, n, hn, -⟩ := hat₀
      exact FS.not_isDir_of_get_none habs.1 (by simpa using FS.get_parent hn (by simp))
    · exact hnone _ _ hat₀
  obtain ⟨i, m, rfl, hat, hmax⟩ := hok hne
  obtain ⟨s, hs, hsg, rfl, rfl⟩ := hiff.mp hat
  exact ⟨_, hres, s, hs, hsg, rfl, fun s' hs' hsg' => hmax _ _ (hiff.mpr ⟨s', hs', hsg', rfl, rfl⟩)⟩

/-- A snapshot directory of `g` whose snapshot `0` has Go's zero time as its time and whose
snapshot `1` is five seconds older. -/
def zeroTimeWorld : World :=
  { World.fresh Source.empty 0 with
    fs := ⟨[(snapshotPath "g" 1, .file (.gzip (.raw [])) (-5)),
      (snapshotPath "g" 0, .file (.gzip (.raw [])) 0), (snapshotDir "g", .dir 4096 0),
      (generationDir "g", .dir 4096 0), (["generations"], .dir 4096 0)], by decide, by decide⟩ }

/-- **A zero time is read as "no time yet"**: `SnapshotIndexAt(g, 0)` keeps snapshot `0`, at Go's
zero time, then takes snapshot `1` in its place, which is older, while `Snapshots()` lists
snapshot `0` with the greater `CreatedAt`. -/
theorem snapshotIndexAt_zero_time_sentinel :
    Returns Source.shadowWALReader (snapshotIndexAt "g" 0) zeroTimeWorld (.ok 1) zeroTimeWorld ∧
      Returns Source.shadowWALReader (snapshots ⟨"", 0, false⟩ anyGeneration) zeroTimeWorld
        (.ok [⟨snapshotName 0, "file", "g", 0, 23, 0⟩, ⟨snapshotName 1, "file", "g", 1, 23, -5⟩])
        zeroTimeWorld :=
  ⟨Prog.run_sound 20 _ _ _ _ rfl, Prog.run_sound 40 _ _ _ _ rfl⟩

end Latest

end Litestream
