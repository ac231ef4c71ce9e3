import Litestream.Progress.Sync
/-!
# `EnforceRetention` succeeds when no call fails

The retention engine's side of `Litestream.Progress.Sync`: in every world a run of the replica
reaches, failed calls and crashes included, an `EnforceRetention` run alone returns `nil` once
the source is in a generation.  Its listings read directories the shape of the tree
(`Litestream.Shape`) makes directories, the snapshot it may force succeeds as `Sync`'s does, and
every entry its deletions remove is a file still there.

* `forRange_succeeds`: a loop whose turns succeed succeeds;
* `deleteBefore_succeeds`, `retainGeneration_succeeds`, `retainedSnapshots_succeeds`,
  `enforceRetention_succeeds`: run alone, each part returns `nil`;
* `enforceRetention_halts`: `EnforceRetention` run alone returns;
* `enforceRetention_progress`: the main theorem.
-/

namespace Litestream

/-! ## 1. Loops whose turns succeed -/

section Loops

variable {rd : Adapter}

/-- **A `forRange` whose turns never fail returns `.ok`**: each turn, from a world in `J` of the
elements left, returns `.ok` into `J` of the rest. -/
theorem forRange_succeeds {γ δ : Type} {body : δ → γ → Prog (Except Error δ)}
    {J : List γ → World → Prop}
    (hb : ∀ x xs acc w r w', J (x :: xs) w → Returns rd (body acc x) w r w' →
      ∃ acc', r = .ok acc' ∧ J xs w') :
    ∀ xs acc {w : World} {r : Except Error δ} {w' : World}, J xs w →
      Returns rd (Prog.forRange body xs acc) w r w' → ∃ acc', r = .ok acc' ∧ J [] w'
  | [], acc, w, r, w', hJ, h => by
    obtain ⟨rfl, rfl⟩ := Returns.pure.mp h
    exact ⟨acc, rfl, hJ⟩
  | x :: xs, acc, w, r, w', hJ, h => by
    obtain ⟨r₁, w₁, h₁, h₂⟩ := Returns.bind.mp h
    obtain ⟨acc', rfl, hJ'⟩ := hb x xs acc w r₁ w₁ hJ h₁
    exact forRange_succeeds hb xs acc' hJ' h₂

end Loops

/-! ## 2. Each part of `EnforceRetention` succeeds

As for `Sync`, a complete run alone is read backwards.  The deletions of a generation remove
entries of a listing taken just before: each is still there when its turn comes, since the names
of a listing differ, and each is a file, since the tree is shaped. -/

section Succeeds

variable {rd : Adapter} {w w' : World}

/-- The worlds of the loop of a deletion over the listing of `dir`: the tree is shaped, and
every entry still to visit is there, under a name no other one has. -/
structure Deleting (dir : Path) (fis : List FileInfo) (w : World) : Prop where
  shaped : Shaped w.fs
  listed : ∀ fi ∈ fis, w.fs.get (dir ++ [fi.name]) ≠ none
  nodup : (fis.map (·.name)).Nodup

/-- A turn of a deletion succeeds: an entry it removes is still there, and is a file. -/
theorem deleteEntry_succeeds {dir : Path} {parse : String → Option Nat} {index : Nat}
    {fi : FileInfo} {fis : List FileInfo} {r : Except Error Unit} (hlen : dir.length = 3)
    (hw : Deleting dir (fi :: fis) w) (h : Returns rd (deleteEntry dir parse index fi) w r w') :
    r = .ok () ∧ Deleting dir fis w' := by
  obtain ⟨hs, hthere, hnd⟩ := hw
  have hrest : Deleting dir fis w :=
    ⟨hs, fun fi' h' => hthere fi' (List.mem_cons_of_mem _ h'), (List.nodup_cons.mp hnd).2⟩
  unfold deleteEntry at h
  split at h
  · obtain ⟨rfl, rfl⟩ := Returns.pure.mp h
    exact ⟨rfl, hrest⟩
  split_ifs at h
  · obtain ⟨rfl, rfl⟩ := Returns.pure.mp h
    exact ⟨rfl, hrest⟩
  have hp := hthere fi (List.mem_cons_self _ _)
  obtain ⟨fs', hr⟩ := FS.remove_ok hp (FS.leaf_of_get (hs.not_dir (by simp [hlen])))
  have hget := (FS.remove_eq_ok hr).2.2
  simp only [Returns.check, Call.run, hr, World.withFs_ok] at h
  rcases h with ⟨e, he, -⟩ | ⟨-, h⟩
  · cases he
  obtain ⟨rfl, rfl⟩ := Returns.pure.mp h
  refine ⟨rfl, hs.of_sub fun q n hq => ?_, fun fi' h' => ?_, hrest.nodup⟩
  · rw [hget] at hq
    split_ifs at hq
    exact hq
  · have hne : fi'.name ≠ fi.name := fun he =>
      (List.nodup_cons.mp hnd).1 (List.mem_map.mpr ⟨fi', h', he⟩)
    rw [hget, if_neg fun hq => hne (by simpa using hq.1)]
    exact hrest.listed fi' h'

/-- On a shaped tree a deletion below a directory three deep succeeds. -/
theorem deleteBefore_succeeds {dir : Path} {parse : String → Option Nat} {index : Nat}
    {r : Except Error Unit} (hs : Shaped w.fs) (hlen : dir.length = 3)
    (h : Returns rd (deleteBefore dir parse index) w r w') : r = .ok () := by
  unfold deleteBefore at h
  simp only [Returns.bind_lift, Call.run] at h
  split at h
  · exact (Returns.pure.mp h).1.symm
  · next e he hr => exact absurd (hs.readDir_error hlen.le hr) he
  · next fis hfis =>
    have hw : Deleting dir fis w := ⟨hs, fun fi hfi => by
      obtain ⟨n, hn, -⟩ := (FS.mem_readDir _ hfis).mp hfi
      simp [hn], FS.readDir_nodup _ hfis⟩
    obtain ⟨⟨⟩, rfl, -⟩ := forRange_succeeds (fun _ _ _ _ _ _ hw h => by
      obtain ⟨rfl, hw'⟩ := deleteEntry_succeeds hlen hw h
      exact ⟨(), rfl, hw'⟩) fis () hw h
    rfl

/-- On a shaped tree the body of the loop over the generations succeeds: `RemoveAll` run alone
never fails, and the two deletions succeed one after the other. -/
theorem retainGeneration_succeeds {R : List SnapshotInfo} {g : String} {r : Except Error Unit}
    (hs : Shaped w.fs) (h : Returns rd (retainGeneration R g) w r w') : r = .ok () := by
  unfold retainGeneration at h
  split at h
  · simp [Call.run] at h
    exact h.1.symm
  obtain ⟨r₁, w₁, h₁, h⟩ := Returns.bind.mp h
  obtain rfl := deleteBefore_succeeds hs (by simp [snapshotDir, generationDir]) h₁
  have hs₁ := hs.returns (deleteBefore_shapes _ _ _) h₁
  obtain ⟨r₂, w₂, h₂, h⟩ := Returns.bind.mp h
  obtain rfl := deleteBefore_succeeds hs₁ (by simp [walDir, generationDir]) h₂
  exact (Returns.pure.mp h).1.symm

/-- On a shaped tree `Generations()` answers a list, and changes nothing. -/
theorem generations_succeeds {isGen : GenerationName} {res : Except Error (List String)}
    (hs : Shaped w.fs) (h : Returns rd (generations isGen) w res w') :
    w' = w ∧ ∃ gens, res = .ok gens := by
  simp only [generations, Returns.bind_lift, Call.run] at h
  split at h
  · obtain ⟨rfl, rfl⟩ := Returns.pure.mp h
    exact ⟨rfl, _, rfl⟩
  · next e he hr => exact absurd (hs.readDir_error (by simp) hr) he
  · obtain ⟨rfl, rfl⟩ := Returns.pure.mp h
    exact ⟨rfl, _, rfl⟩

/-- On a shaped tree `Snapshots()` answers a list, and changes nothing. -/
theorem snapshots_succeeds {r : FileReplica} {isGen : GenerationName}
    {res : Except Error (List SnapshotInfo)} (hs : Shaped w.fs)
    (h : Returns rd (snapshots r isGen) w res w') : w' = w ∧ ∃ snaps, res = .ok snaps := by
  obtain ⟨r₁, w₁, h₁, h⟩ := Returns.bind.mp h
  obtain ⟨hw₁, gens, rfl⟩ := generations_succeeds hs h₁
  rw [hw₁] at h
  obtain ⟨snaps, rfl, rfl⟩ := forRange_succeeds (J := fun _ w' => w' = w)
    (fun _ _ _ _ _ _ hw ht => by
      subst hw
      simp only [Returns.bind_lift, Call.run] at ht
      split at ht
      · obtain ⟨rfl, rfl⟩ := Returns.pure.mp ht
        exact ⟨_, rfl, rfl⟩
      · next e he hr =>
        exact absurd (hs.readDir_error (by simp [snapshotDir, generationDir]) hr) he
      · obtain ⟨rfl, rfl⟩ := Returns.pure.mp ht
        exact ⟨_, rfl, rfl⟩) gens [] rfl h
  exact ⟨rfl, _, rfl⟩

/-- On a shaped tree the snapshots to keep are found, forcing a snapshot when the window has
none. -/
theorem retainedSnapshots_succeeds {r : FileReplica} {isGen : GenerationName} {pos : Pos}
    {res : Except Error (List SnapshotInfo)} (hs : Shaped w.fs)
    (h : Returns rd (retainedSnapshots r isGen pos) w res w') : ∃ R, res = .ok R := by
  obtain ⟨r₁, w₁, h₁, h⟩ := Returns.bind.mp h
  obtain ⟨hw₁, snaps, rfl⟩ := snapshots_succeeds hs h₁
  rw [hw₁] at h
  simp only [Returns.bind_lift, Call.run] at h
  split_ifs at h
  · obtain ⟨r₂, w₂, h₂, h⟩ := Returns.bind.mp h
    obtain rfl := snapshot_succeeds hs h₂
    exact ⟨_, (Returns.pure.mp h).1.symm⟩
  · exact ⟨_, (Returns.pure.mp h).1.symm⟩

/-- **`EnforceRetention` fails only when a call fails**: run alone from a shaped tree, while the
source is in a generation, it returns `nil`. -/
theorem enforceRetention_succeeds {r : FileReplica} {isGen : GenerationName}
    {res : Except Error Unit} (hs : Shaped w.fs) (hg : w.src.generation ≠ "")
    (h : Returns rd (enforceRetention r isGen) w res w') : res = .ok () := by
  have hz : w.src.pos.isZero = false := by simp [Source.pos, hg, Pos.isZero, Pos.zero]
  simp only [enforceRetention, Returns.bind_lift, Call.run, hz] at h
  obtain ⟨r₁, w₁, h₁, h⟩ := Returns.bind.mp h
  obtain ⟨R, rfl⟩ := retainedSnapshots_succeeds hs h₁
  have hs₁ := hs.returns (retainedSnapshots_shapes _ _ _) h₁
  obtain ⟨r₂, w₂, h₂, h⟩ := Returns.bind.mp h
  obtain ⟨hw₂, gens, rfl⟩ := generations_succeeds hs₁ h₂
  rw [hw₂] at h
  obtain ⟨⟨⟩, rfl, -⟩ := forRange_succeeds (J := fun _ w => Shaped w.fs)
    (fun _ _ _ _ _ _ hw h => ⟨(), retainGeneration_succeeds hw h,
      hw.returns (retainGeneration_shapes _ _) h⟩) gens () hs₁ h
  rfl

/-- `EnforceRetention` run alone returns, from every world. -/
theorem enforceRetention_halts (r : FileReplica) (isGen : GenerationName) :
    Prog.Halts rd (enforceRetention r isGen) :=
  (enforceRetention_footprint r isGen).halts

end Succeeds

/-! ## 3. Progress -/

section Runs

variable {r : FileReplica} {isGen : GenerationName} {w w' : World}

/-- Every step of the replica leaves the source in its generation. -/
theorem generation_replicaStep (h : ReplicaStep r isGen w w') :
    w'.src.generation = w.src.generation := by
  have hE : Stable Sem.replica fun w' => w'.src.generation = w.src.generation :=
    fun _ _ h hw => h.2.2.1.trans hw
  have hstep : ∀ {β : Type} {c : Call β} {w₁ : World} {b : β} {w₂ : World}, True →
      Sem.replica.step c w₁ b w₂ → w₁.src.generation = w.src.generation →
        w₂.src.generation = w.src.generation :=
    fun _ hs hw => (congrArg Source.generation (Faulty.step_src hs)).trans hw
  cases h with
  | grow h => exact h.2.2.1
  | sync h => exact Exec.preserve hstep hE h (Prog.Calls.any _) rfl
  | retain h => exact Exec.preserve hstep hE h (Prog.Calls.any _) rfl
  | syncCrash h => exact (Exec.preserve hstep hE h (Prog.Calls.any _) rfl :)
  | retainCrash h => exact (Exec.preserve hstep hE h (Prog.Calls.any _) rfl :)

theorem generation_reach {src : Source} {clock : Int}
    (h : Relation.ReflTransGen (ReplicaStep r isGen) (World.fresh src clock) w) :
    w.src.generation = src.generation := by
  induction h with
  | refl => rfl
  | tail _ hs ih => exact (generation_replicaStep hs).trans ih

/-- **`EnforceRetention` without a failure succeeds.**  In every world a run of the replica
reaches from an empty destination, against a source in a generation, failed calls and crashes
included: an `EnforceRetention` in which no call fails returns `nil`. -/
theorem enforceRetention_progress {rd : Adapter} {src : Source} {clock : Int}
    (hg : src.generation ≠ "")
    (h : Relation.ReflTransGen (ReplicaStep r isGen) (World.fresh src clock) w) :
    ∃ w', Returns rd (enforceRetention r isGen) w (.ok ()) w' := by
  obtain ⟨res, w', hr⟩ := enforceRetention_halts r isGen w
  obtain rfl := enforceRetention_succeeds (Shaped.reach h) (by rwa [generation_reach h]) hr
  exact ⟨w', hr⟩

end Runs

/-- After two `Sync`s across the roll-over, retention succeeds. -/
theorem enforceRetention_progress_rollOver :
    indexZeroSource.generation ≠ "" ∧ ∃ w', Returns Source.shadowWALReader
      (enforceRetention hourReplica anyGeneration) rollOverWorld (.ok ()) w' :=
  ⟨by decide, enforceRetention_progress (by decide) rollOver_reach⟩

end Litestream
