import Litestream.Codec
import Litestream.Prog
/-!
# `FileReplica`: the replica, its layout and its file helpers

The fields of `FileReplica` that its methods read, the paths of a generation's directories
and files (`GenerationDir`, `SnapshotDir`, `SnapshotPath`, `WALDir`, `WALPath`), the records
the listings return, the helpers of the package that `replica.go` calls but that are not in
the source tree (each says so), and `compressFile`.

Paths are relative to `r.dst`, the root of the world's tree, so they do not depend on the
replica.  A Go string path `dir + ".gz"` changes the last component of the path, which is
`List.modifyLast` here.
-/

namespace Litestream

/-! ## 1. The replica -/

/-- `FileReplica`, the fields its methods read.  The database `db` is the world's source, `dst`
is the root of the world's tree and `pos` is `World.pos`; `mu`, `wg`, `ctx` and `cancel` belong
to the goroutines, which `Replica.Monitor` models. -/
structure FileReplica where
  /-- The replica name, optional. -/
  name : String
  /-- `RetentionInterval`, in the clock's unit. -/
  retentionInterval : Int
  /-- `MonitorEnabled`. -/
  monitorEnabled : Bool
  deriving DecidableEq, Repr

namespace FileReplica

/-- `NewFileReplica(db, name, dst)`.  `DefaultRetentionInterval` is not in the source tree, so
it is a parameter. -/
def newFileReplica (name : String) (defaultRetentionInterval : Int) : FileReplica :=
  ⟨name, defaultRetentionInterval, true⟩

/-- `Type()`. -/
def type : String := "file"

/-- `Name()`: the name, or the type when no name is set. -/
def Name (r : FileReplica) : String := if r.name ≠ "" then r.name else type

end FileReplica

/-! ## 2. The layout of a generation -/

/-- `GenerationDir(generation)`. -/
def generationDir (generation : String) : Path := ["generations", generation]

/-- `SnapshotDir(generation)`. -/
def snapshotDir (generation : String) : Path := generationDir generation ++ ["snapshots"]

/-- `SnapshotPath(generation, index)`. -/
def snapshotPath (generation : String) (index : Nat) : Path :=
  snapshotDir generation ++ [snapshotName index]

/-- `WALDir(generation)`. -/
def walDir (generation : String) : Path := generationDir generation ++ ["wal"]

/-- `WALPath(generation, index)`. -/
def walPath (generation : String) (index : Nat) : Path := walDir generation ++ [walName index]

/-- `path + ext` on a Go path string. -/
def addExt (p : Path) (ext : String) : Path := p.modifyLast (· ++ ext)

@[simp] theorem addExt_append (l : Path) (x ext : String) : addExt (l ++ [x]) ext = l ++ [x ++ ext] := by
  simp [addExt, List.modifyLast_append_one]

@[simp] theorem length_addExt (p : Path) (ext : String) : (addExt p ext).length = p.length := by
  rcases List.eq_nil_or_concat p with rfl | ⟨l, x, rfl⟩
  · rfl
  · simp

@[simp] theorem addExt_eq_nil {p : Path} {ext : String} : addExt p ext = [] ↔ p = [] := by
  rw [← List.length_eq_zero, length_addExt, List.length_eq_zero]

@[simp] theorem snapshotPath_dropLast (g : String) (i : Nat) :
    (snapshotPath g i).dropLast = snapshotDir g := List.dropLast_concat

@[simp] theorem walPath_dropLast (g : String) (i : Nat) : (walPath g i).dropLast = walDir g :=
  List.dropLast_concat

/-- **The layout's file names read back and sort as their indices.**  For every generation and
every index below `2 ^ 63` (every Go `int` that is not negative), the base name of `WALPath` is
a WAL name of the spec's grammar and parses back to the index, uncompressed; the base name of
`SnapshotPath` parses back to the index and `.snapshot.gz`; and the base names of two WAL files
compare as their indices, the order `compress`'s `sort.Strings` relies on. -/
theorem fileName_codec :
    (∀ g i, i < 2 ^ 63 → walNameGrammar ((walPath g i).getLast?.getD "") = true ∧
      parseWALPath ((walPath g i).getLast?.getD "") = some (i, 0, false)) ∧
    (∀ g i, i < 2 ^ 63 →
      parseSnapshotPath ((snapshotPath g i).getLast?.getD "") = some (i, ".snapshot.gz")) ∧
    ∀ g i j, i < j → j < 2 ^ 63 →
      FS.nameLe ((walPath g i).getLast?.getD "").data ((walPath g j).getLast?.getD "").data = true ∧
        FS.nameLe ((walPath g j).getLast?.getD "").data ((walPath g i).getLast?.getD "").data =
          false := by
  have h64 : ∀ i : Nat, i < 2 ^ 63 → i < 16 ^ 16 := fun i h => h.trans (by decide)
  simp only [walPath, snapshotPath, List.getLast?_concat, Option.getD_some]
  exact ⟨fun _ i hi => ⟨walNameGrammar_walName (h64 i hi), parseWALPath_walName (h64 i hi)⟩,
    fun _ i hi => parseSnapshotPath_snapshotName (h64 i hi),
    fun _ _ j hij hj => walName_nameLe hij (h64 j hj)⟩

theorem fileName_codec_indices :
    walNameGrammar ((walPath "g" 7).getLast?.getD "") = true ∧
      parseWALPath ((walPath "g" 7).getLast?.getD "") = some (7, 0, false) ∧
      parseSnapshotPath ((snapshotPath "g" 7).getLast?.getD "") = some (7, ".snapshot.gz") ∧
      FS.nameLe ((walPath "g" 1).getLast?.getD "").data ((walPath "g" 2).getLast?.getD "").data =
        true ∧
      FS.nameLe ((walPath "g" 2).getLast?.getD "").data ((walPath "g" 1).getLast?.getD "").data =
        false :=
  ⟨(fileName_codec.1 "g" 7 (by decide)).1, (fileName_codec.1 "g" 7 (by decide)).2,
    fileName_codec.2.1 "g" 7 (by decide), fileName_codec.2.2 "g" 1 2 (by decide) (by decide)⟩

/-! ## 3. What the listings return -/

/-- `SnapshotInfo`, with the fields the code sets. -/
structure SnapshotInfo where
  name : String
  replica : String
  generation : String
  index : Nat
  size : Nat
  createdAt : Int
  deriving DecidableEq, Repr

/-- `WALInfo`, with the fields the code sets. -/
structure WALInfo where
  name : String
  replica : String
  generation : String
  index : Nat
  offset : Nat
  size : Nat
  createdAt : Int
  deriving DecidableEq, Repr

/-- `GenerationStats`.  A time is `0` when it is Go's zero `time.Time`. -/
structure GenerationStats where
  snapshotN : Nat
  walN : Nat
  createdAt : Int
  updatedAt : Int
  deriving DecidableEq, Repr

/-- Modelled from the spec: `FilterSnapshotsAfter(a, t)`, the snapshots created at or after
`t`, in their order. -/
def filterSnapshotsAfter (a : List SnapshotInfo) (t : Int) : List SnapshotInfo :=
  a.filter fun s => decide (s.createdAt ≥ t)

/-- One turn of the loop of `findMinSnapshotByGeneration`. -/
def findMinStep (generation : String) (min : Option SnapshotInfo) (s : SnapshotInfo) :
    Option SnapshotInfo :=
  if s.generation ≠ generation then min
  else match min with
    | none => some s
    | some m => if s.index < m.index then some s else min

/-- Modelled from the spec: `FindMinSnapshotByGeneration(a, generation)`, the first snapshot
of the generation with the lowest index, `nil` when the generation has none. -/
def findMinSnapshotByGeneration (a : List SnapshotInfo) (generation : String) :
    Option SnapshotInfo :=
  a.foldl (findMinStep generation) none

/-! ## 4. File helpers -/

/-- `gzip.NewReader(f)` on a file's data, read to the end. On a file that is not gzip the
reader fails at the ten-byte header: `io.ReadFull` gives `io.EOF` on an empty file and
`io.ErrUnexpectedEOF` on a short one, and a full header without the magic number gives
`gzip.ErrHeader`. -/
def gunzip : Data → Except Error (List UInt8)
  | .gzip d => .ok d.bytes
  | .raw b =>
    if b = [] then .error .eof
    else if b.length < 10 then .error (.msg "unexpected EOF")
    else .error (.msg "gzip: invalid header")

/-- `compressFile(src, dst, uid, gid)`: gzip `src` into `dst + ".tmp"`, flush and close it,
then rename it over `dst`. -/
def compressFile (src : FileRef) (dst : Path) : Prog (Except Error Unit) := do
  match ← Call.open src with
  | .error e => return .error (.fs e)
  | .ok d =>
    let tmp := addExt dst ".tmp"
    Prog.check (.create tmp) <| Prog.check (.writeAll tmp (.gzip d)) <|
      Prog.check (.close tmp) <| Prog.check (.fsync tmp) <| Prog.check (.close tmp) <|
      Prog.check (.rename tmp dst) <| return .ok ()

end Litestream
