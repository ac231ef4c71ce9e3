import Litestream.Mirror.Sync
/-!
# `EnforceRetention` keeps the invariant

The retention pass under `Sem.faulty`, with a source that only grows between two calls.  The
pass deletes what lies below the lowest retained snapshot of each generation; it keeps the
mirror invariant because that snapshot is one the tree holds:

* `snapshots_triple`: every snapshot `Snapshots()` lists is one of the mirrored generation
  that the tree holds (`Listed`), since the tree has no other generation;
* `retainedSnapshots_triple`: the retained snapshots have a lowest index in the generation,
  and the tree holds that snapshot, listed or forced;
* `enforceRetention_triple`: the pass keeps the invariant on every run, complete or cut short.
-/

namespace Litestream

/-- Every snapshot of `S` is one of `g` that the tree holds. -/
def Listed (g : String) (fs : FS) (S : List SnapshotInfo) : Prop :=
  ∀ s ∈ S, s.generation = g ∧ HasSnap g fs s.index

theorem Listed.append {g : String} {fs : FS} {S S' : List SnapshotInfo} (h : Listed g fs S)
    (h' : Listed g fs S') : Listed g fs (S ++ S') := fun s hs =>
  (List.mem_append.mp hs).elim (h s) (h' s)

/-- A snapshot directory with an entry is the mirrored generation's. -/
theorem Tree.gen_of_snap {g g' x : String} {fs : FS} {sh : List (List UInt8)} {n : Node}
    (ht : Tree g fs sh) (h : fs.get (snapshotDir g' ++ [x]) = some n) : g' = g := by
  obtain ⟨s, t, hs⟩ := FS.get_parent h (by simp)
  obtain ⟨s', t', hd⟩ : fs.IsDir ["generations", g'] := by
    simpa [snapshotDir, generationDir] using FS.get_parent hs (by simp [snapshotDir, generationDir])
  exact ht.onlyGen g' (by simp [hd])

/-- What one listing of a snapshot directory adds is `Listed`. -/
theorem listed_snapshotInfos {g g' : String} {fs : FS} {sh : List (List UInt8)}
    {r : FileReplica} {fis : List FileInfo} (ht : Tree g fs sh)
    (h : fs.readDir (snapshotDir g') = .ok fis) : Listed g fs (snapshotInfos r g' fis) := by
  intro s hs
  obtain ⟨fi, hfi, hp⟩ := List.mem_filterMap.mp hs
  obtain ⟨⟨k, c⟩, hk, rfl⟩ := Option.map_eq_some'.mp hp
  obtain ⟨n, hn, -⟩ := (FS.mem_readDir _ h).mp hfi
  obtain rfl := ht.gen_of_snap hn
  exact ⟨rfl, fi.name, n, hn, by simp [snapshotIndex, hk]⟩

/-- Retained snapshots that are all `Listed` and not none have a lowest index in `g`, a
snapshot the tree holds. -/
theorem Listed.retainedMin {g : String} {fs : FS} {R : List SnapshotInfo} (h : Listed g fs R)
    (hne : R ≠ []) : ∃ m, retainedMin R g = some m ∧ HasSnap g fs m := by
  have hf : R.filter (·.generation = g) = R :=
    List.filter_eq_self.mpr fun s hs => by simpa using (h s hs).1
  obtain ⟨m, hm⟩ := Option.ne_none_iff_exists'.mp
    (mt List.min?_eq_none_iff.mp (by simpa using hne) : (R.map (·.index)).min? ≠ none)
  obtain ⟨s, hs, rfl⟩ := List.mem_map.mp (List.min?_eq_some_iff'.mp hm).1
  exact ⟨s.index, by rw [Litestream.retainedMin, hf, hm], (h s hs).2⟩

section Runs

variable {rd : Adapter} {E : World → World → Prop} (hE : ∀ w w', E w w' → World.Grows w w')
  {g : String}

/-! ## 1. The listings -/

section Listings

variable {P : World → Prop} (hP : Stable (Sem.faulty rd E) P) (hm : ∀ w, P w → Mirror g w)

include hE hP in
theorem Listed.stable {S : List SnapshotInfo} :
    Stable (Sem.faulty rd E) fun w => P w ∧ Listed g w.fs S :=
  fun _ _ h hw => ⟨hP h hw.1, (hE _ _ h).1 ▸ hw.2⟩

include hE hP hm in
/-- The loop of `Snapshots()` only adds `Listed` snapshots. -/
theorem collectInfos_triple {r : FileReplica} :
    ∀ (gens : List String) (acc : List SnapshotInfo),
      Triple (Sem.faulty rd E) P (fun w => P w ∧ Listed g w.fs acc)
        (collectInfos snapshotDir (snapshotInfos r) gens acc)
        fun res w => P w ∧ ∀ S, res = .ok S → Listed g w.fs S := by
  refine Triple.forRange (J := fun _ acc w => P w ∧ Listed g w.fs acc) (fun g' _ acc => ?_)
    fun acc w hw => ⟨hw.1, fun _ h => by cases h; exact hw.2⟩
  refine Triple.bind (Faulty.readDir_triple (Listed.stable hE hP) fun _ h => h.1) fun res => ?_
  rcases res with e | fis
  · cases e
    · exact Triple.pure fun w hw => hw.1
    all_goals exact Triple.pure fun w hw => ⟨hw.1.1, fun _ h => by cases h⟩
  · exact Triple.pure fun w hw =>
      ⟨hw.1.1, hw.1.2.append (listed_snapshotInfos (hm w hw.1.1).tree (hw.2.2 fis rfl))⟩

omit hm in
theorem generations_calls {isGen : GenerationName} :
    Prog.Calls (Keeps (Sem.faulty rd E) P) (generations isGen) :=
  .bind (.call (keeps_read rfl)) fun r => by rcases r with ((_ | _ | _ | _ | _) | _) <;> exact .pure

include hE hP hm in
/-- **Every snapshot `Snapshots()` lists is one the tree holds, of the mirrored generation.** -/
theorem snapshots_triple {r : FileReplica} {isGen : GenerationName} :
    Triple (Sem.faulty rd E) P P (snapshots r isGen)
      fun res w => P w ∧ ∀ S, res = .ok S → Listed g w.fs S := by
  unfold snapshots
  refine Triple.bind (Triple.of_calls generations_calls hP) fun res => ?_
  rcases res with e | gens
  · exact Triple.pure fun w hw => ⟨hw, fun _ h => by cases h⟩
  · exact (collectInfos_triple hE hP hm gens []).conseq (fun w hw => ⟨hw, fun _ h => by cases h⟩)
      fun _ _ h => h

end Listings

/-! ## 2. The pass -/

include hE in
/-- **The snapshots the pass retains have a lowest index in the generation, and the tree holds
that snapshot**: one listed, or the one the pass forces at the database's position. -/
theorem retainedSnapshots_triple {r : FileReplica} {isGen : GenerationName} {pos : Pos}
    (hpos : pos.generation = g) (hi : pos.index < 16 ^ 16) :
    Triple (Sem.faulty rd E) (Mirror g) (SnapAt g pos.index) (retainedSnapshots r isGen pos)
      fun res w => Mirror g w ∧
        ∀ R, res = .ok R → ∃ m, retainedMin R g = some m ∧ HasSnap g w.fs m := by
  have hS : Stable (Sem.faulty rd E) (SnapAt g pos.index) := SnapAt.stable hE
  unfold retainedSnapshots
  refine Triple.bind ((snapshots_triple hE hS fun _ h => h.1).weaken fun _ h => h.1) fun res => ?_
  rcases res with e | S
  · exact Triple.pure fun w hw => ⟨hw.1.1, fun _ h => by cases h⟩
  refine Triple.conseq (P := fun w => SnapAt g pos.index w ∧ Listed g w.fs S) ?_
    (fun w hw => ⟨hw.1, hw.2 S rfl⟩) fun _ _ h => h
  refine Triple.bind ((Triple.keeps (keeps_read rfl) (Listed.stable hE hS) fun _ h => h.1.1))
    fun now => ?_
  dsimp only
  rw [hpos]
  split
  · rename_i hlen
    refine Triple.bind (((snapshot_triple hE hi).weaken fun _ h => h.1).conseq (fun _ h => h.1)
      fun _ _ h => h) fun res => ?_
    rcases res with e | ⟨⟩
    · exact Triple.pure fun w hw => ⟨hw.1.1, fun _ h => by cases h⟩
    · refine Triple.pure fun w hw => ⟨hw.1.1, fun R hR => ?_⟩
      cases hR
      rw [List.length_eq_zero.mp hlen]
      exact ⟨pos.index, by simp [Litestream.retainedMin, hpos], hw.2 rfl⟩
  · rename_i hlen
    refine Triple.pure fun w hw => ⟨hw.1.1, fun R hR => ?_⟩
    cases hR
    exact Listed.retainedMin (fun s hs => hw.2 s (List.mem_of_mem_filter hs))
      fun h => hlen (by rw [h]; rfl)

include hE in
/-- **`EnforceRetention` keeps the invariant** on every run, complete or cut short: it deletes
only what lies below a snapshot that stays. -/
theorem enforceRetention_triple {r : FileReplica} {isGen : GenerationName} :
    Triple (Sem.faulty rd E) (Mirror g) (Mirror g) (enforceRetention r isGen)
      fun _ => Mirror g := by
  unfold enforceRetention
  refine Triple.bind (dbPos_triple hE) fun res => ?_
  rcases res with e | pos
  · exact Triple.pure fun _ h => h.1
  dsimp only
  split
  · exact Triple.pure fun _ h => h.1
  rename_i hz
  replace hz : pos.isZero = false := by simpa using hz
  refine Triple.intro_pure (φ := pos.generation = g ∧ pos.index < 16 ^ 16)
    (fun w hw => ⟨(hw.2 pos rfl hz).1, (hw.2 pos rfl hz).2.2⟩) fun ⟨hgen, hlt⟩ => ?_
  refine Triple.conseq (P := SnapAt g pos.index) ?_
    (fun w hw => ⟨hw.1, (hw.2 pos rfl hz).2.1⟩) fun _ _ h => h
  refine Triple.bind (retainedSnapshots_triple hE hgen hlt) fun res => ?_
  rcases res with e | R
  · exact Triple.pure fun _ h => h.1
  refine Triple.intro_pure (φ := ∃ m, retainedMin R g = some m)
    (fun w hw => (hw.2 R rfl).imp fun _ h => h.1) fun ⟨m, hR⟩ => ?_
  have hD : Stable (Sem.faulty rd E) (DropAt g m) := DropAt.stable hE
  refine Triple.conseq (P := DropAt g m) (Q := fun _ => DropAt g m) ?_ (fun w hw => ?_)
    fun _ _ h => h.1
  · refine Triple.bind ((Triple.of_calls generations_calls hD).weaken fun _ h => h.1)
      fun res => ?_
    rcases res with e | gens
    · exact Triple.pure fun _ h => h
    · exact (Triple.of_calls (.forRange (fun _ _ => retainGeneration_calls hR _) _ _) hD).weaken
        fun _ h => h.1
  · obtain ⟨m', hm', hs⟩ := hw.2 R rfl
    rw [hR] at hm'
    cases hm'
    exact ⟨hw.1, hs⟩

end Runs

end Litestream
