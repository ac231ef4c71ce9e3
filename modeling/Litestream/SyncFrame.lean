import Litestream.Restore
/-!
# `Sync` changes no snapshot on disk

`Sync` writes a snapshot only when `snapshotN` found none in the generation's snapshot
directory, and every other file it writes is a WAL file, a temporary file, or, in `compress`, a
file two levels below the WAL directory.  So no run of `Sync`, complete or cut short, with any of
its calls failing, changes or removes a snapshot that was on disk when it started: what a restore
starts from is never touched by replication, only by `EnforceRetention`.

* `Call.Leaves`, `Faulty.get_step_leaves` (in `Litestream.Faulty`): the calls that keep an
  entry that is there;
* `snapshotN_triple`: `snapshotN` answers `0` only when no entry of the directory parses as a
  snapshot's;
* `syncSnapshot_keeps`, `compress_keeps_entry`, `sync_keeps_entry`: each part of `Sync` keeps a
  snapshot entry;
* `sync_keeps_snapshots`: the main theorem.
-/

namespace Litestream

section SyncFrame

variable {rd : Adapter} {E : World → World → Prop} {q : Path} {n : Node}

/-! ## 1. The calls -/

/-- `compressFile` writes its temporary file and renames it over `dst`, and nothing else. -/
theorem Call.OfCompressFile.leaves {β : Type} {c : Call β} {src : FileRef} {dst : Path}
    (hdst : q ≠ dst) (htmp : q ≠ addExt dst ".tmp") (h : c.OfCompressFile src dst) :
    c.Leaves q := by
  cases c
  case create p | writeAll p _ => subst h; exact htmp
  case rename a b => obtain ⟨rfl, rfl⟩ := h; exact ⟨htmp, hdst⟩
  all_goals first | exact h.elim | trivial

/-- Outside the snapshot directory of `g`, `snapshot(g, i)` leaves every entry alone. -/
theorem Call.OfSnapshot.leaves {β : Type} {c : Call β} {g : String} {i : Nat}
    (hq : ∀ x, q ≠ snapshotDir g ++ [x]) (h : c.OfSnapshot g i) : c.Leaves q := by
  have htmp : q ≠ addExt (snapshotPath g i) ".tmp" := by rw [snapshotPath, addExt_append]; exact hq _
  cases c <;> first | trivial | exact @Call.OfCompressFile.leaves _ _ _ .db _ (hq _) htmp h

theorem compressFile_leaves (src : FileRef) {dst : Path} (hdst : q ≠ dst)
    (htmp : q ≠ addExt dst ".tmp") : Prog.Calls (Call.Leaves q) (compressFile src dst) :=
  (compressFile_footprint src dst).calls.mono (Call.OfCompressFile.leaves hdst htmp)

theorem snapshot_leaves {g : String} (i : Nat) (hq : ∀ x, q ≠ snapshotDir g ++ [x]) :
    Prog.Calls (Call.Leaves q) (snapshot g i) :=
  (snapshot_footprint g i).calls.mono (Call.OfSnapshot.leaves hq)

/-- `compress` on what its glob found, two levels below the WAL directory, leaves every entry of
depth four alone. -/
theorem compressLoop_leaves (hq : q.length = 4) :
    ∀ filenames : List Path, (∀ p ∈ filenames, p.length = 5) →
      Prog.Calls (Call.Leaves q) (compressLoop filenames)
  | [], _ => .pure
  | filename :: filenames, h => .bind (.call trivial) fun done => by
    have hne (p : Path) (hp : p.length = 5) : q ≠ p := fun he => by simp [he, hp] at hq
    have h₅ := h filename (List.mem_cons_self _ _)
    cases done
    · exact .bind (compressFile_leaves _ (hne _ (by simp [h₅])) (hne _ (by simp [h₅]))) fun
        | .error _ => .pure
        | .ok () => .check (hne _ h₅)
            (compressLoop_leaves hq filenames fun p hp => h p (List.mem_cons_of_mem _ hp))
    · exact .pure

theorem syncPos_leaves (g : String) : Prog.Calls (Call.Leaves q) (syncPos g) :=
  (syncPos_footprint g).calls.mono fun {_ c} h => by cases c <;> first | exact h.elim | trivial

/-- Away from every WAL file, the WAL loop leaves every entry alone: it writes only WAL files. -/
theorem syncWALLoop_leaves (hq : ∀ g i, q ≠ walPath g i) :
    Prog.Calls (Call.Leaves q) syncWALLoop :=
  syncWALLoop_footprint.mono fun {_ c} h => by
    cases c
    case write p _ _ => obtain ⟨g, i, rfl⟩ := h; exact hq g i
    all_goals first | exact h.elim | trivial

/-! ## 2. The programs -/

variable (hE : ∀ w w', E w w' → w'.fs = w.fs)
include hE

theorem held_stable : Stable (Sem.faulty rd E) fun w => w.fs.get q = some n :=
  fun _ _ h hw => by simpa only [hE _ _ h] using hw

/-- A program all of whose calls leave `q` alone keeps its entry. -/
theorem triple_of_leaves {α : Type} {p : Prog α} (h : Prog.Calls (Call.Leaves q) p) :
    Triple (Sem.faulty rd E) (fun w => w.fs.get q = some n) (fun w => w.fs.get q = some n) p
      fun _ w => w.fs.get q = some n :=
  Triple.of_calls (h.mono Faulty.keeps_leaves) (held_stable hE)

omit hE in
/-- `snapshotN` answers `0` only when no entry of the snapshot directory parses as a
snapshot's; it changes nothing. -/
theorem snapshotN_triple {P : World → Prop} (hP : Stable (Sem.faulty rd E) P) (g : String) :
    Triple (Sem.faulty rd E) P P (snapshotN g) fun res w => P w ∧ (res = .ok 0 →
      ∀ x m, w.fs.get (snapshotDir g ++ [x]) = some m → parseSnapshotPath x = none) := by
  unfold snapshotN
  refine Triple.bind (Faulty.readDir_triple hP fun _ h => h) fun res => ?_
  split
  · refine Triple.pure fun w h => ⟨h.1, fun _ x m hx => ?_⟩
    exact (FS.not_isDir_of_get_none (h.2.1 rfl) (by simpa using FS.get_parent hx (by simp))).elim
  · exact Triple.pure fun _ h => ⟨h.1, fun h => by cases h⟩
  · rename_i fis
    refine Triple.pure fun w h => ⟨h.1, fun h0 x m hx => ?_⟩
    have := List.countP_eq_zero.mp (Except.ok.inj h0) _ (FS.info_mem_readDir _ (h.2.2 fis rfl) hx)
    simpa using this

/-- **The snapshot step keeps every snapshot entry**: it snapshots only a generation whose
directory `snapshotN` found without one. -/
theorem syncSnapshot_keeps (hq : SnapshotEntry q) (g : String) (i : Nat) :
    Triple (Sem.faulty rd E) (fun w => w.fs.get q = some n) (fun w => w.fs.get q = some n)
      (syncSnapshot g i) fun _ w => w.fs.get q = some n := by
  unfold syncSnapshot
  refine Triple.bind (snapshotN_triple (held_stable hE) g) fun res => ?_
  rcases res with e | k
  · exact Triple.pure fun _ h => h.1
  dsimp only
  split
  · rename_i hk
    subst hk
    refine Triple.intro_pure (fun w hw x he => ?_) fun (hq' : ∀ x, q ≠ snapshotDir g ++ [x]) =>
      (triple_of_leaves hE (snapshot_leaves i hq')).conseq (fun _ h => h.1) fun _ _ h => h
    obtain ⟨g', x', i', ext, rfl, hp⟩ := hq
    obtain ⟨rfl, rfl⟩ : g' = g ∧ x' = x := by simpa [snapshotDir, generationDir] using he
    simp [hw.2 rfl x' n hw.1] at hp
  · exact Triple.pure fun _ h => h.1

/-- `compress` keeps every entry of depth four: it writes only two levels below the WAL
directory. -/
theorem compress_keeps_entry (hq : q.length = 4) (g : String) :
    Triple (Sem.faulty rd E) (fun w => w.fs.get q = some n) (fun w => w.fs.get q = some n)
      (compress g) fun _ w => w.fs.get q = some n :=
  compress_triple_of (held_stable hE) fun _ hps => triple_of_leaves hE
    (compressLoop_leaves hq _ fun p hp => FS.length_of_mem_glob _ (hps p hp).choose_spec)

/-- `Sync` keeps every snapshot entry, on every run, complete or cut short. -/
theorem sync_keeps_entry (hq : SnapshotEntry q) :
    Triple (Sem.faulty rd E) (fun w => w.fs.get q = some n) (fun w => w.fs.get q = some n) sync
      fun _ w => w.fs.get q = some n :=
  sync_triple_of (held_stable hE) (syncSnapshot_keeps hE hq)
    (fun _ => triple_of_leaves hE (syncPos_leaves _))
    (triple_of_leaves hE (syncWALLoop_leaves fun g i he => not_snapshotEntry_walPath g i (he ▸ hq)))
    (fun _ => compress_keeps_entry hE hq.length _)

/-- **`Sync` never changes a snapshot on disk.**  On every run of `Sync`, complete or cut short,
with any of its calls failing and the tree unchanged between its calls: an entry of a snapshot
directory whose name parses as a snapshot's is afterwards as it was. -/
theorem sync_keeps_snapshots {w w' : World} {res : Option (Except Error Unit)}
    (h : Exec (Sem.faulty rd E) sync w res w') {g x ext : String} {i : Nat}
    (hp : parseSnapshotPath x = some (i, ext)) (hn : w.fs.get (snapshotDir g ++ [x]) = some n) :
    w'.fs.get (snapshotDir g ++ [x]) = some n := by
  have := sync_keeps_entry hE ⟨g, x, i, ext, rfl, hp⟩ hn h
  cases res <;> exact this

end SyncFrame

/-- The second `Sync` across the roll-over of `indexZeroSource` writes WAL `1` and leaves
snapshot `0` as it was. -/
theorem sync_keeps_snapshots_rollOver :
    Exec (Sem.faulty Source.shadowWALReader fun _ _ => False) sync
        { indexZeroReplica with src := indexOneSource } (some (.ok ())) rollOverWorld ∧
      rollOverWorld.fs.get (walPath "g" 1) = some (.file (.raw [3]) 0) ∧
      parseSnapshotPath (snapshotName 0) = some (0, ".snapshot.gz") ∧
      indexZeroReplica.fs.get (snapshotDir "g" ++ [snapshotName 0]) =
        some (.file (.gzip (.raw [7])) 0) ∧
      rollOverWorld.fs.get (snapshotDir "g" ++ [snapshotName 0]) =
        some (.file (.gzip (.raw [7])) 0) :=
  have h : Exec (Sem.faulty Source.shadowWALReader fun _ _ => False) sync
      { indexZeroReplica with src := indexOneSource } (some (.ok ())) rollOverWorld :=
    Returns.faulty (Returns.after 60 rfl)
  ⟨h, rfl, rfl, rfl, sync_keeps_snapshots (fun _ _ h => h.elim) h rfl rfl⟩

end Litestream
