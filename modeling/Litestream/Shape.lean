import Litestream.SoundSnapshots
import Litestream.SyncEffect
/-!
# The shape of the destination tree

The replica creates directories only with `MkdirAll`, along a generation's snapshot or WAL
directory, and files only below them: snapshots and their temporary files in the snapshot
directory, WAL files in the WAL directory, and, in `compress`, files two levels below it.  So in
every world a run of the replica reaches, failed calls and crashes included, directories stand
only down to the depth of a WAL or snapshot directory and files only below it (`Shaped`).

This is what keeps the calls of the replica from failing on the tree they find: no `MkdirAll`
meets a file in its way, no file is opened, created or renamed onto a directory, and no listed
directory is a file (`Litestream.Progress.Sync`, `Litestream.Progress.Retention`).

* `Call.Shapes`, `Shaped.step`: the calls that keep the shape keep it, done or failed part way;
* `sync_shaped`, `enforceRetention_shapes`: the two methods make only such calls;
* `Shaped.replicaStep`, `Shaped.reach`: the shape holds over every run.
-/

namespace Litestream

/-! ## 1. Shaped trees -/

/-- **The shape of the destination tree**: directories only down to the depth of a WAL or
snapshot directory, files only below it. -/
structure Shaped (fs : FS) : Prop where
  dirs : ∀ q, fs.IsDir q → q.length ≤ 3
  files : ∀ q d t, fs.get q = some (.file d t) → 4 ≤ q.length

/-- The calls that keep the shape: `MkdirAll` of a path no deeper than a WAL directory, and a
file opened, created or renamed onto below it. -/
def Call.Shapes {β : Type} (c : Call β) : Prop :=
  c.mkdirLen ≤ 3 ∧ ∀ p, c.fileAt = some p → 4 ≤ p.length

theorem Call.shapes_of_read {β : Type} {c : Call β} (h0 : c.mkdirLen = 0) (hf : c.fileAt = none) :
    c.Shapes :=
  ⟨h0 ▸ Nat.zero_le 3, fun _ h => by rw [hf] at h; cases h⟩

theorem Call.shapes_of_file {β : Type} {c : Call β} {p : Path} (h0 : c.mkdirLen = 0)
    (hf : c.fileAt = some p) (hp : 4 ≤ p.length) : c.Shapes :=
  ⟨h0 ▸ Nat.zero_le 3, fun _ h => by rw [hf] at h; cases h; exact hp⟩

namespace Shaped

variable {fs fs' : FS} {p : Path}

theorem not_dir (hs : Shaped fs) (hp : 4 ≤ p.length) : ¬ fs.IsDir p :=
  fun h => by have := hs.dirs p h; omega

theorem not_file (hs : Shaped fs) (hp : p.length ≤ 3) {d : Data} {t : Int} :
    fs.get p ≠ some (.file d t) :=
  fun h => by have := hs.files p d t h; omega

/-- Listing a directory no deeper than a WAL directory fails only when it is not there. -/
theorem readDir_error (hs : Shaped fs) (hp : p.length ≤ 3) {e : FsError}
    (h : fs.readDir p = .error e) : e = .notExist :=
  FS.readDir_error h fun _ hq _ _ => hs.not_file (hq.length_le.trans hp)

/-- A WAL directory of a shaped tree has no subdirectory. -/
theorem flat (hs : Shaped fs) (g : String) : walFlat g fs :=
  fun _ => hs.not_dir (by simp [walDir, generationDir])

theorem mkdirAll_ok (hs : Shaped fs) (hp : p.length ≤ 3) {t : Int} : ∃ fs', fs.mkdirAll p t = .ok fs' :=
  FS.mkdirAll_ok fun _ hq _ _ => hs.not_file (hq.length_le.trans hp)

/-- After `MkdirAll` of a path no deeper than a WAL directory, the path is a directory and the
tree keeps its shape. -/
theorem mkdirAll {t : Int} (hs : Shaped fs) (hm : fs.mkdirAll p t = .ok fs') (hp : p.length ≤ 3) :
    Shaped fs' ∧ fs'.IsDir p := by
  have hget := FS.mkdirAll_eq_ok hm
  refine ⟨⟨fun q ⟨s, m, hq⟩ => ?_, fun q d m hq => ?_⟩, ?_⟩
  · rw [hget] at hq
    split_ifs at hq with h
    · exact h.1.length_le.trans hp
    · exact hs.dirs q ⟨s, m, hq⟩
  · rw [hget] at hq
    split_ifs at hq
    · cases hq
    · exact hs.files q d m hq
  · rcases hn : fs.get p with _ | _ | ⟨d, m⟩
    · exact ⟨_, _, by rw [hget, if_pos ⟨List.prefix_refl p, hn⟩]⟩
    · exact ⟨_, _, by rw [hget, if_neg fun h => by simp [hn] at h, hn]⟩
    · exact absurd hn (hs.not_file hp)

variable {rd : Adapter} {E : World → World → Prop} {β : Type} {c : Call β} {w w' : World} {b : β}

/-- **A call that keeps the shape keeps it**, done or failed part way. -/
theorem step (hc : c.Shapes) (h : (Sem.faulty rd E).step c w b w') (hs : Shaped w.fs) :
    Shaped w'.fs where
  dirs q hq := (Faulty.step_dir h hq).elim (hs.dirs q) fun hl => hl.trans hc.1
  files q _ _ hq := (Faulty.step_file h hq).elim (fun ⟨_, _, h⟩ => hs.files q _ _ h) (hc.2 q)

theorem returns {α : Type} {p : Prog α} {a : α} (hc : Prog.Calls Call.Shapes p)
    (h : Returns rd p w a w') (hs : Shaped w.fs) : Shaped w'.fs :=
  h.preserve (fun hc hr hw => step (E := fun _ _ => False) hc (Or.inl hr) hw) hc hs

/-- A tree with no entry the shaped tree lacks is shaped. -/
theorem of_sub (hs : Shaped fs) (h : ∀ q n, fs'.get q = some n → fs.get q = some n) :
    Shaped fs' :=
  ⟨fun q ⟨s, m, hq⟩ => hs.dirs q ⟨s, m, h q _ hq⟩, fun q d t hq => hs.files q d t (h q _ hq)⟩

end Shaped

/-! ## 2. The calls of the two methods -/

section Footprints

variable {β : Type} {c : Call β}

theorem Call.OfCompressFile.shapes {src : FileRef} {dst : Path} (hd : 4 ≤ dst.length)
    (h : c.OfCompressFile src dst) : c.Shapes := by
  cases c
  case create p => subst h; exact Call.shapes_of_file rfl rfl (by simpa using hd)
  case rename a b => obtain ⟨rfl, rfl⟩ := h; exact Call.shapes_of_file rfl rfl hd
  all_goals first | exact h.elim | exact Call.shapes_of_read rfl rfl

theorem Call.OfSnapshot.shapes {g : String} {i : Nat} (h : c.OfSnapshot g i) : c.Shapes := by
  have hd : 4 ≤ (snapshotPath g i).length := by simp [snapshotPath, snapshotDir, generationDir]
  cases c
  case mkdirAll p => exact ⟨Call.OfSnapshot.mkdirLen_le h, fun _ h' => by cases h'⟩
  all_goals first | exact Call.shapes_of_read rfl rfl | exact @Call.OfCompressFile.shapes _ _ .db _ hd h

theorem Call.OfSyncPos.shapes (h : c.OfSyncPos) : c.Shapes := by
  cases c <;> first | exact h.elim | exact Call.shapes_of_read rfl rfl

theorem Call.OfSyncWAL.shapes (h : c.OfSyncWAL) : c.Shapes := by
  refine ⟨(Call.OfSyncWAL.quiet h).1, fun q hq => ?_⟩
  cases c <;> simp only [Call.fileAt, reduceCtorEq] at hq
  case openFile p =>
    obtain ⟨g, i, rfl⟩ := h
    cases hq
    simp [walPath, walDir, generationDir]
  all_goals exact h.elim

theorem Call.ReadsOrRemoves.shapes (h : c.ReadsOrRemoves) : c.Shapes := by
  cases c <;> first | exact h.elim | exact Call.shapes_of_read rfl rfl

theorem Call.OfRetention.shapes (h : c.OfRetention) : c.Shapes := by
  cases c
  case dbPos | now => exact Call.shapes_of_read rfl rfl
  all_goals
    obtain h | ⟨g, i, h⟩ := h
    exacts [h.shapes, h.shapes]

end Footprints

theorem compressFile_shapes (src : FileRef) {dst : Path} (h : 4 ≤ dst.length) :
    Prog.Calls Call.Shapes (compressFile src dst) :=
  (compressFile_footprint src dst).calls.mono (Call.OfCompressFile.shapes h)

theorem syncSnapshot_shapes (g : String) (i : Nat) : Prog.Calls Call.Shapes (syncSnapshot g i) :=
  (syncSnapshot_footprint g i).calls.mono Call.OfSnapshot.shapes

theorem syncPos_shapes (g : String) : Prog.Calls Call.Shapes (syncPos g) :=
  (syncPos_footprint g).calls.mono Call.OfSyncPos.shapes

theorem syncWAL_shapes : Prog.Calls Call.Shapes syncWAL :=
  syncWAL_footprint.calls.mono Call.OfSyncWAL.shapes

theorem syncWALLoop_shapes : Prog.Calls Call.Shapes syncWALLoop :=
  syncWALLoop_footprint.mono Call.OfSyncWAL.shapes

/-- `compress` on what its glob found, two levels below the WAL directory, keeps the shape. -/
theorem compressLoop_shapes :
    ∀ filenames : List Path, (∀ p ∈ filenames, p.length = 5) →
      Prog.Calls Call.Shapes (compressLoop filenames)
  | [], _ => .pure
  | filename :: filenames, h => .bind (.call (Call.shapes_of_read rfl rfl)) fun done => by
    have h₅ := h filename (List.mem_cons_self _ _)
    cases done
    · exact .bind (compressFile_shapes _ (by simp [h₅])) fun
        | .error _ => .pure
        | .ok () => .check (Call.shapes_of_read rfl rfl)
            (compressLoop_shapes filenames fun p hp => h p (List.mem_cons_of_mem _ hp))
    · exact .pure

theorem deleteBefore_shapes (dir : Path) (parse : String → Option Nat) (index : Nat) :
    Prog.Calls Call.Shapes (deleteBefore dir parse index) :=
  (deleteBefore_reads dir parse index).calls.mono Call.ReadsOrRemoves.shapes

theorem retainGeneration_shapes (R : List SnapshotInfo) (g : String) :
    Prog.Calls Call.Shapes (retainGeneration R g) :=
  (retainGeneration_reads R g).calls.mono Call.ReadsOrRemoves.shapes

theorem retainedSnapshots_shapes (r : FileReplica) (isGen : GenerationName) (pos : Pos) :
    Prog.Calls Call.Shapes (retainedSnapshots r isGen pos) :=
  (retainedSnapshots_footprint r isGen pos).calls.mono Call.OfRetention.shapes

theorem enforceRetention_shapes (r : FileReplica) (isGen : GenerationName) :
    Prog.Calls Call.Shapes (enforceRetention r isGen) :=
  (enforceRetention_footprint r isGen).calls.mono Call.OfRetention.shapes

/-! ## 3. Over every run -/

section Shape

variable {rd : Adapter} {E : World → World → Prop} (hE : ∀ w w', E w w' → w'.fs = w.fs)
include hE

theorem Shaped.stable : Stable (Sem.faulty rd E) fun w => Shaped w.fs :=
  fun _ _ h hw => by simpa only [hE _ _ h] using hw

theorem shaped_triple {α : Type} {p : Prog α} (hc : Prog.Calls Call.Shapes p) :
    Triple (Sem.faulty rd E) (fun w => Shaped w.fs) (fun w => Shaped w.fs) p
      fun _ w => Shaped w.fs :=
  Triple.of_calls (hc.mono fun hc _ _ _ hw hs => Shaped.step hc hs hw) (Shaped.stable hE)

/-- `Sync` keeps the shape on every run, complete or cut short: `compress` creates files only
at what its glob found. -/
theorem sync_shaped :
    Triple (Sem.faulty rd E) (fun w => Shaped w.fs) (fun w => Shaped w.fs) sync
      fun _ w => Shaped w.fs :=
  sync_triple_of (Shaped.stable hE) (fun g i => shaped_triple hE (syncSnapshot_shapes g i))
    (fun g => shaped_triple hE (syncPos_shapes g)) (shaped_triple hE syncWALLoop_shapes)
    fun _ => compress_triple_of (Shaped.stable hE) fun _ hps => shaped_triple hE
      (compressLoop_shapes _ fun p hp => FS.length_of_mem_glob _ (hps p hp).choose_spec)

end Shape

section Runs

variable {r : FileReplica} {isGen : GenerationName} {w w' : World}

/-- **Every step of the replica keeps the shape.** -/
theorem Shaped.replicaStep (hs : Shaped w.fs) (h : ReplicaStep r isGen w w') : Shaped w'.fs := by
  have hE : ∀ w w', World.Grows w w' → w'.fs = w.fs := fun _ _ h => h.1
  have hR : Triple Sem.replica (fun w => Shaped w.fs) (fun w => Shaped w.fs)
      (enforceRetention r isGen) fun _ w => Shaped w.fs :=
    shaped_triple hE (enforceRetention_shapes r isGen)
  cases h with
  | grow h => exact h.1 ▸ hs
  | sync h => exact sync_shaped hE hs h
  | retain h => exact hR hs h
  | syncCrash h => exact sync_shaped hE hs h
  | retainCrash h => exact hR hs h

/-- In every world a run of the replica reaches from an empty destination, the tree is shaped. -/
theorem Shaped.reach {src : Source} {clock : Int}
    (h : Relation.ReflTransGen (ReplicaStep r isGen) (World.fresh src clock) w) : Shaped w.fs := by
  induction h with
  | refl =>
    refine ⟨fun q hq => ?_, fun q d t hq => ?_⟩ <;> by_cases h0 : q = []
    · simp [h0]
    · exact absurd hq (FS.not_isDir_of_get_none (FS.get_empty h0))
    · simp [h0, rootNode] at hq
    · simp [World.fresh, FS.get_empty h0] at hq
  | tail _ hs ih => exact ih.replicaStep hs

end Runs

end Litestream
