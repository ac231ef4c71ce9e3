import Litestream.Replica.Retention
/-!
# What each part of the replica can call

The frame, shape and flatness results about `Sync` and `EnforceRetention` all ask one question
of a part: which calls can it make, and at which paths?  This module answers it once for each
part, as a predicate on calls (the part's footprint) and a `Prog.LoopFree` lemma that follows
the part's code branch by branch.  A property of calls then reaches a part by
`Prog.Calls.mono` and one case analysis on the footprint, in the module that needs the property,
and halting comes with the footprint (`Prog.LoopFree.halts`).

* `Call.OfCompressFile src dst`: open `src`, then create, fill, close, sync and rename `dst`'s
  temporary file onto `dst`;
* `Call.OfSnapshot g i`: a read transaction, listings, the snapshot directory of `g`, and
  `compressFile` of the database onto `SnapshotPath(g, i)`, for `snapshot` and `syncSnapshot`;
* `Call.OfSyncPos`: the position, listings and the position set, for `syncPos` with `calcPos`;
* `Call.OfSyncWAL`: the position, the adapter's reader, a WAL directory and a WAL file, for
  `syncWAL` and its loop, the one part with a loop;
* `Call.ReadsOrRemoves`: the listings and deletions of `EnforceRetention`, and
  `Call.OfRetention` for the whole of it, with the snapshot it may force.
-/

namespace Litestream

/-! ## 1. The footprints -/

/-- The calls of `compressFile src dst`: it opens `src`, writes its gzip into `dst`'s temporary
file, and renames that onto `dst`. -/
def Call.OfCompressFile (src : FileRef) (dst : Path) : {β : Type} → Call β → Prop
  | _, .open f => f = src
  | _, .create p | _, .writeAll p _ | _, .close p | _, .fsync p => p = addExt dst ".tmp"
  | _, .rename a b => a = addExt dst ".tmp" ∧ b = dst
  | _, _ => False

/-- The calls of `snapshot(g, i)` and of `syncSnapshot`, which lists the snapshot directory
first: a read transaction, listings, the snapshot directory of `g`, and `compressFile` of the
database onto `SnapshotPath(g, i)`. -/
def Call.OfSnapshot (g : String) (i : Nat) : {β : Type} → Call β → Prop
  | _, .beginRead | _, .readDir _ | _, .stat _ => True
  | _, .mkdirAll p => p = snapshotDir g
  | _, c => c.OfCompressFile .db (snapshotPath g i)

/-- The calls of `syncPos` with `calcPos`: the position, listings, and the position set. -/
def Call.OfSyncPos : {β : Type} → Call β → Prop
  | _, .lastPos | _, .readDir _ | _, .stat _ | _, .setPos _ => True
  | _, _ => False

/-- The calls of `syncWAL`: the position, the adapter's reader, and a WAL file of the layout with
its directory. -/
def Call.OfSyncWAL : {β : Type} → Call β → Prop
  | _, .lastPos | _, .shadowWALReader _ | _, .setPos _ => True
  | _, .mkdirAll p => ∃ g, p = walDir g
  | _, .openFile p | _, .seek p _ | _, .write p _ _ | _, .fsync p | _, .close p =>
    ∃ g i, p = walPath g i
  | _, _ => False

/-- The calls that only read the tree or remove from it. -/
def Call.ReadsOrRemoves : {β : Type} → Call β → Prop
  | _, .readDir _ | _, .remove _ | _, .removeAll _ => True
  | _, _ => False

/-- The calls of `EnforceRetention`: the database's position, the clock, listings, removals, and
the snapshot it may force. -/
def Call.OfRetention : {β : Type} → Call β → Prop
  | _, .dbPos | _, .now => True
  | _, c => c.ReadsOrRemoves ∨ ∃ g i, c.OfSnapshot g i

theorem Call.OfSnapshot.of_compressFile {β : Type} {c : Call β} {g : String} {i : Nat}
    (h : c.OfCompressFile .db (snapshotPath g i)) : c.OfSnapshot g i := by
  cases c <;> first | exact h | trivial

/-! ## 2. The sync engine -/

theorem compressFile_footprint (src : FileRef) (dst : Path) :
    Prog.LoopFree (Call.OfCompressFile src dst) (compressFile src dst) :=
  .bind (.call rfl) fun
    | .error _ => .pure
    | .ok _ => .check rfl <| .check rfl <| .check rfl <| .check rfl <| .check rfl <|
        .check ⟨rfl, rfl⟩ .pure

theorem snapshot_footprint (g : String) (i : Nat) :
    Prog.LoopFree (Call.OfSnapshot g i) (snapshot g i) :=
  .bind (.call trivial) fun
    | .error _ => .pure
    | .ok () => .bind (.call trivial) fun
      | .ok _ => .pure
      | .error _ => .check (snapshotPath_dropLast g i) <|
          (compressFile_footprint .db _).mono Call.OfSnapshot.of_compressFile

theorem syncSnapshot_footprint (g : String) (i : Nat) :
    Prog.LoopFree (Call.OfSnapshot g i) (syncSnapshot g i) :=
  .bind (.bind (.call trivial) fun _ => by split <;> exact .pure) fun
    | .error _ => .pure
    | .ok _ => by
      dsimp only
      split
      exacts [snapshot_footprint g i, .pure]

theorem syncPos_footprint (g : String) : Prog.LoopFree Call.OfSyncPos (syncPos g) := by
  have hmax : Prog.LoopFree Call.OfSyncPos (maxSnapshotIndex g) :=
    .bind (.call trivial) fun
      | .error _ => .pure
      | .ok _ => by dsimp only; split <;> exact .pure
  have hcalc : Prog.LoopFree Call.OfSyncPos (calcPos g) :=
    .bind hmax fun
      | .error _ => .pure
      | .ok _ => .bind (.call trivial) fun _ => by
        split
        · exact .pure
        · exact .pure
        · dsimp only
          split
          · exact .pure
          · exact .bind (.call trivial) fun _ => by split <;> exact .pure
  exact .bind (.call trivial) fun _ => by
    split
    · exact .bind hcalc fun
        | .error _ => .pure
        | .ok _ => .bind (.call trivial) fun _ => .pure
    · exact .pure

theorem syncWAL_footprint : Prog.LoopFree Call.OfSyncWAL syncWAL :=
  .bind (.call trivial) fun _ => .bind (.call trivial) fun _ => by
    split
    · exact .pure
    · exact .pure
    · exact .check ⟨_, walPath_dropLast _ _⟩ <| .check ⟨_, _, rfl⟩ <| .check ⟨_, _, rfl⟩ <|
        .check ⟨_, _, rfl⟩ <| .check ⟨_, _, rfl⟩ <| .check ⟨_, _, rfl⟩ <|
        .bind (.call trivial) fun _ => .pure

theorem syncWALLoop_footprint : Prog.Calls Call.OfSyncWAL syncWALLoop :=
  .loop fun _ => .bind syncWAL_footprint.calls fun _ => by split <;> exact .pure

/-! ## 3. The retention engine -/

theorem generations_reads (isGen : GenerationName) :
    Prog.LoopFree Call.ReadsOrRemoves (generations isGen) :=
  .bind (.call trivial) fun _ => by split <;> exact .pure

theorem snapshots_reads (r : FileReplica) (isGen : GenerationName) :
    Prog.LoopFree Call.ReadsOrRemoves (snapshots r isGen) :=
  .bind (generations_reads isGen) fun
    | .error _ => .pure
    | .ok _ => .forRange (fun _ _ => .bind (.call trivial) fun _ => by split <;> exact .pure) _ _

theorem deleteBefore_reads (dir : Path) (parse : String → Option Nat) (index : Nat) :
    Prog.LoopFree Call.ReadsOrRemoves (deleteBefore dir parse index) :=
  .bind (.call trivial) fun _ => by
    split
    · exact .pure
    · exact .pure
    · refine .forRange (fun _ _ => ?_) _ _
      unfold deleteEntry
      split
      · exact .pure
      · split
        exacts [.pure, .check trivial .pure]

theorem retainGeneration_reads (R : List SnapshotInfo) (g : String) :
    Prog.LoopFree Call.ReadsOrRemoves (retainGeneration R g) := by
  unfold retainGeneration
  split
  · exact .bind (.call trivial) fun _ => by split <;> exact .pure
  · exact .bind (deleteBefore_reads _ _ _) fun
      | .error _ => .pure
      | .ok () => .bind (deleteBefore_reads _ _ _) fun _ => by split <;> exact .pure

theorem Call.ReadsOrRemoves.ofRetention {β : Type} {c : Call β} (h : c.ReadsOrRemoves) :
    c.OfRetention := by
  cases c <;> first | exact h.elim | exact Or.inl h

theorem Call.OfSnapshot.ofRetention {β : Type} {c : Call β} {g : String} {i : Nat}
    (h : c.OfSnapshot g i) : c.OfRetention := by
  cases c <;> first | trivial | exact Or.inr ⟨g, i, h⟩

theorem retainedSnapshots_footprint (r : FileReplica) (isGen : GenerationName) (pos : Pos) :
    Prog.LoopFree Call.OfRetention (retainedSnapshots r isGen pos) :=
  .bind ((snapshots_reads r isGen).mono Call.ReadsOrRemoves.ofRetention) fun
    | .error _ => .pure
    | .ok _ => .bind (.call trivial) fun _ => by
      dsimp only
      split
      · exact .bind ((snapshot_footprint _ _).mono Call.OfSnapshot.ofRetention) fun _ => by
          split <;> exact .pure
      · exact .pure

theorem enforceRetention_footprint (r : FileReplica) (isGen : GenerationName) :
    Prog.LoopFree Call.OfRetention (enforceRetention r isGen) :=
  .bind (.call trivial) fun
    | .error _ => .pure
    | .ok _ => by
      dsimp only
      split
      · exact .pure
      · exact .bind (retainedSnapshots_footprint r isGen _) fun
          | .error _ => .pure
          | .ok _ => .bind ((generations_reads isGen).mono Call.ReadsOrRemoves.ofRetention) fun
            | .error _ => .pure
            | .ok _ => .forRange (fun _ _ =>
                (retainGeneration_reads _ _).mono Call.ReadsOrRemoves.ofRetention) _ _

end Litestream
