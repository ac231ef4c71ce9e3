import Litestream.Replica.Sync
/-!
# `FileReplica`: the retention engine

`EnforceRetention`, with `deleteGenerationSnapshotsBefore` and `deleteGenerationWALBefore`.
The two deletions differ only in the directory and the parser, so they are one loop,
`deleteBefore`, applied to each one's own directory and parser.
-/

namespace Litestream

/-- One turn of the loop of `deleteGenerationSnapshotsBefore` and `deleteGenerationWALBefore`:
remove the entry `fi` of `dir` when its name parses to an index below `index`. -/
def deleteEntry (dir : Path) (parse : String → Option Nat) (index : Nat) (fi : FileInfo) :
    Prog (Except Error Unit) :=
  match parse fi.name with
  | none => return .ok ()
  | some idx =>
    if idx ≥ index then return .ok ()
    else Prog.check (.remove (dir ++ [fi.name])) (return .ok ())

/-- The two deletions, which differ only in the directory and the parser: every entry of `dir`
whose name parses to an index below `index` is removed; nothing when `dir` does not exist. -/
def deleteBefore (dir : Path) (parse : String → Option Nat) (index : Nat) :
    Prog (Except Error Unit) := do
  match ← Call.readDir dir with
  | .error .notExist => return .ok ()
  | .error e => return .error (.fs e)
  | .ok fis => Prog.forRange (fun () => deleteEntry dir parse index) fis ()

/-- `deleteGenerationSnapshotsBefore(generation, index)`. -/
def deleteGenerationSnapshotsBefore (generation : String) (index : Nat) :
    Prog (Except Error Unit) :=
  deleteBefore (snapshotDir generation) snapshotIndex index

/-- `deleteGenerationWALBefore(generation, index)`. -/
def deleteGenerationWALBefore (generation : String) (index : Nat) : Prog (Except Error Unit) :=
  deleteBefore (walDir generation) walIndex index

/-- The body of the loop of `EnforceRetention` over the generations: remove a generation none
of whose snapshots is retained, else the snapshots and WAL files below its earliest retained
snapshot. -/
def retainGeneration (snapshots : List SnapshotInfo) (generation : String) :
    Prog (Except Error Unit) :=
  match findMinSnapshotByGeneration snapshots generation with
  | none => do
    match ← Call.removeAll (generationDir generation) with
    | .error e =>
      return .error (.wrap ("cannot delete generation " ++ quote generation ++ " dir") (.fs e))
    | .ok () => return .ok ()
  | some snapshot => do
    match ← deleteGenerationSnapshotsBefore generation snapshot.index with
    | .error e =>
      return .error (.wrap ("cannot delete generation " ++ quote generation ++
        " snapshots before index " ++ toString snapshot.index) e)
    | .ok () =>
      match ← deleteGenerationWALBefore generation snapshot.index with
      | .error e =>
        return .error (.wrap ("cannot delete generation " ++ quote generation ++
          " wal before index " ++ toString snapshot.index) e)
      | .ok () => return .ok ()

/-- The snapshots `EnforceRetention` keeps: those created in the window, or, when there is none,
the one it forces at the database's position (which it appends with only its generation and
index set). -/
def retainedSnapshots (r : FileReplica) (isGenerationName : GenerationName) (pos : Pos) :
    Prog (Except Error (List SnapshotInfo)) := do
  match ← snapshots r isGenerationName with
  | .error e => return .error (.wrap "cannot obtain snapshot list" e)
  | .ok snaps =>
    let now ← Call.now
    let snaps := filterSnapshotsAfter snaps (now - r.retentionInterval)
    if snaps.length = 0 then
      match ← snapshot pos.generation pos.index with
      | .error e => return .error (.wrap "cannot snapshot" e)
      | .ok () => return .ok (snaps ++ [⟨"", "", pos.generation, pos.index, 0, 0⟩])
    else return .ok snaps

/-- `EnforceRetention()`. -/
def enforceRetention (r : FileReplica) (isGenerationName : GenerationName) :
    Prog (Except Error Unit) := do
  match ← Call.dbPos with
  | .error e => return .error (.wrap "cannot determine current generation" e)
  | .ok pos =>
    if pos.isZero then return .error (.msg "no generation, waiting for data")
    else
      match ← retainedSnapshots r isGenerationName pos with
      | .error e => return .error e
      | .ok snaps =>
        match ← generations isGenerationName with
        | .error e => return .error (.wrap "cannot obtain generations" e)
        | .ok gens => Prog.forRange (fun () => retainGeneration snaps) gens ()

end Litestream
