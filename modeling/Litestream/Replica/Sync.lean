import Litestream.Replica.Listing
/-!
# `FileReplica`: the sync engine

`CalcPos`, `snapshot`, `snapshotN`, `Sync`, `syncWAL` and `compress`, as programs over the
calls of `Litestream.World`.  Each `if err != nil { return err }` is a `match` on the call's
answer.  The two blocks of `Sync` that fall through to the rest of the method when their
condition fails are the programs `syncSnapshot` and `syncPos`, which answer `.ok ()` then, so
that the rest is written once.
-/

namespace Litestream

/-- `CalcPos(generation)`: the highest snapshot index, then the highest WAL index and the size
of that WAL file when the WAL directory holds one. -/
def calcPos (generation : String) : Prog (Except Error Pos) := do
  match ← maxSnapshotIndex generation with
  | .error e => return .error e
  | .ok snapIndex =>
    match ← Call.readDir (walDir generation) with
    | .error .notExist => return .ok ⟨generation, snapIndex, 0⟩
    | .error e => return .error (.fs e)
    | .ok fis =>
      let index := maxIndexOf walIndex fis
      if index = -1 then return .ok ⟨generation, snapIndex, 0⟩
      else
        match ← Call.stat (walPath generation index.toNat) with
        | .error e => return .error (.fs e)
        | .ok fi => return .ok ⟨generation, index.toNat, fi.size⟩

/-- `snapshot(generation, index)`: under a read transaction, copy the database into
`SnapshotPath(generation, index)` unless a file is already there. -/
def snapshot (generation : String) (index : Nat) : Prog (Except Error Unit) := do
  match ← Call.beginRead with
  | .error e => return .error e
  | .ok () =>
    let snapshotPath := snapshotPath generation index
    match ← Call.stat snapshotPath with
    | .ok _ => return .ok ()
    | .error _ => Prog.check (.mkdirAll snapshotPath.dropLast) (compressFile .db snapshotPath)

/-- `snapshotN(generation)`: the number of snapshot names in the snapshot directory. -/
def snapshotN (generation : String) : Prog (Except Error Nat) := do
  match ← Call.readDir (snapshotDir generation) with
  | .error .notExist => return .ok 0
  | .error e => return .error (.fs e)
  | .ok fis => return .ok (fis.countP fun fi => (parseSnapshotPath fi.name).isSome)

/-- `syncWAL()`: copy what the adapter's reader at `LastPos()` yields into the WAL file of the
reader's index, at the reader's offset, then publish the reader's end position. -/
def syncWAL : Prog (Except Error Unit) := do
  let lastPos ← Call.lastPos
  match ← Call.shadowWALReader lastPos with
  | .error .eof => return .error .eof
  | .error e => return .error (.wrap "wal reader" e)
  | .ok rd =>
    let filename := walPath rd.pos.generation rd.pos.index
    Prog.check (.mkdirAll filename.dropLast) <| Prog.check (.openFile filename) <|
      Prog.check (.seek filename rd.pos.offset) <|
      Prog.check (.write filename rd.pos.offset rd.bytes) <|
      Prog.check (.fsync filename) <| Prog.check (.close filename) <| do
        Call.setPos rd.endPos
        return .ok ()

/-- The loop of `Sync`: `syncWAL` until it answers `io.EOF`. -/
def syncWALLoop : Prog (Except Error Unit) :=
  .loop (fun () => do
    match ← syncWAL with
    | .error .eof => return .inr (.ok ())
    | .error e => return .inr (.error e)
    | .ok () => return .inl ()) ()

/-- How `sort.Strings` orders the paths `filepath.Glob` returns: by their text. -/
def pathText (p : Path) : String := "/".intercalate p

/-- The loop of `compress` over the sealed files, oldest first.  On a cancelled context it
returns `err`, which is the `nil` of `filepath.Glob`. -/
def compressLoop : List Path → Prog (Except Error Unit)
  | [] => return .ok ()
  | filename :: filenames => do
    if ← Call.done then return .ok ()
    else
      match ← compressFile (.dst filename) (addExt filename ".gz") with
      | .error e => return .error e
      | .ok () => Prog.check (.remove filename) (compressLoop filenames)

/-- The pattern `compress` globs below a generation's WAL directory, `"**/*.wal"`. -/
def compressPattern : List String := ["**", "*.wal"]

/-- `compress(generation)`: gzip every WAL file the glob finds but the last in text order. -/
def compress (generation : String) : Prog (Except Error Unit) := do
  let filenames ← Call.glob (walDir generation) compressPattern
  if filenames.length ≤ 1 then return .ok ()
  else
    compressLoop ((filenames.insertionSort fun a b => FS.nameLe (pathText a).data (pathText b).data).dropLast)

/-- The first step of `Sync`: create a snapshot if no snapshots exist for the generation. -/
def syncSnapshot (generation : String) (index : Nat) : Prog (Except Error Unit) := do
  match ← snapshotN generation with
  | .error e => return .error e
  | .ok n => if n = 0 then snapshot generation index else return .ok ()

/-- The second step of `Sync`: determine the position, if necessary. -/
def syncPos (generation : String) : Prog (Except Error Unit) := do
  if (← Call.lastPos).isZero then
    match ← calcPos generation with
    | .error e => return .error (.wrap "cannot determine replica position" e)
    | .ok pos => do Call.setPos pos; return .ok ()
  else return .ok ()

/-- `Sync()`. -/
def sync : Prog (Except Error Unit) := do
  match ← Call.dbPos with
  | .error e => return .error (.wrap "cannot determine current generation" e)
  | .ok dpos =>
    if dpos.isZero then return .error (.msg "no generation, waiting for data")
    else
      let generation := dpos.generation
      match ← syncSnapshot generation dpos.index with
      | .error e => return .error e
      | .ok () =>
        match ← syncPos generation with
        | .error e => return .error e
        | .ok () =>
          match ← syncWALLoop with
          | .error e => return .error e
          | .ok () =>
            if generation ≠ "" then
              match ← compress generation with
              | .error e => return .error (.wrap "cannot compress" e)
              | .ok () => return .ok ()
            else return .ok ()

end Litestream
