import Litestream.Replica.Layout
/-!
# `FileReplica`: listings, lookups and readers

The read-only methods of `FileReplica`: `Generations`, `GenerationStats` with
`snapshotStats`/`walStats`, `Snapshots`, `WALs`, `MaxSnapshotIndex`, `SnapshotIndexAt`,
`WALIndexAt`, `SnapshotReader` and `WALReader`.

Each loop over a directory listing that only folds a value is a pure function of the listing
(`maxIndexOf`, `statsOf`, `snapshotIndexAtOf`, `walIndexAtOf`), so that what the method
returns is stated about every listing at once; the method itself is the `readDir` call and the
handling of its error.  A time is an `Int`, `0` being Go's zero `time.Time`.
-/

namespace Litestream

/-- `IsGenerationName`, which the spec leaves to the repository ("opaque here"): every method
that lists generations takes it as a parameter. -/
abbrev GenerationName := String → Bool

/-! ## 1. Generations and their statistics -/

/-- `Generations()`: the directories of `generations` whose name is a generation's, in the
order `ReadDir` gives; none when `generations` does not exist. -/
def generations (isGenerationName : GenerationName) : Prog (Except Error (List String)) := do
  match ← Call.readDir ["generations"] with
  | .error .notExist => return .ok []
  | .error e => return .error (.fs e)
  | .ok fis => return .ok ((fis.filter fun fi => isGenerationName fi.name && fi.isDir).map (·.name))

/-- The loop of `snapshotStats` and `walStats`: the number of names the parser accepts, and
the earliest and latest of their modification times, `0` when there is none. -/
def statsOf (isName : String → Bool) (fis : List FileInfo) : Nat × Int × Int :=
  fis.foldl (fun (n, min, max) fi =>
    if !isName fi.name then (n, min, max)
    else (n + 1, if min = 0 ∨ fi.modTime < min then fi.modTime else min,
      if max = 0 ∨ fi.modTime > max then fi.modTime else max)) (0, 0, 0)

/-- `snapshotStats` and `walStats`, which differ only in the directory and the parser. -/
def dirStats (dir : Path) (isName : String → Bool) : Prog (Except Error (Nat × Int × Int)) := do
  match ← Call.readDir dir with
  | .error .notExist => return .ok (0, 0, 0)
  | .error e => return .error (.fs e)
  | .ok fis => return .ok (statsOf isName fis)

/-- `snapshotStats(generation)`. -/
def snapshotStats (generation : String) : Prog (Except Error (Nat × Int × Int)) :=
  dirStats (snapshotDir generation) isSnapshotPath

/-- `walStats(generation)`. -/
def walStats (generation : String) : Prog (Except Error (Nat × Int × Int)) :=
  dirStats (walDir generation) isWALPath

/-- The merge at the end of `GenerationStats`, once the WAL files are counted. -/
def GenerationStats.addWALs (stats : GenerationStats) : Nat × Int × Int → GenerationStats
  | (n, min, max) =>
    if n = 0 then stats
    else { snapshotN := stats.snapshotN, walN := n,
           createdAt := if stats.createdAt = 0 ∨ min < stats.createdAt then min else stats.createdAt,
           updatedAt := if stats.updatedAt = 0 ∨ max > stats.updatedAt then max else stats.updatedAt }

/-- `GenerationStats(generation)`.  On an error Go also returns the statistics gathered so far;
every caller drops them. -/
def generationStats (generation : String) : Prog (Except Error GenerationStats) := do
  match ← snapshotStats generation with
  | .error e => return .error e
  | .ok (n, min, max) =>
    match ← walStats generation with
    | .error e => return .error e
    | .ok w => return .ok ((GenerationStats.mk n 0 min max).addWALs w)

/-! ## 2. Snapshots and WAL files of every generation -/

/-- The snapshots of one generation's listing, in its order. -/
def snapshotInfos (r : FileReplica) (generation : String) (fis : List FileInfo) :
    List SnapshotInfo :=
  fis.filterMap fun fi => (parseSnapshotPath fi.name).map fun (index, _) =>
    { name := fi.name, replica := r.Name, generation := generation, index := index,
      size := fi.size, createdAt := fi.modTime }

/-- The WAL files of one generation's listing, in its order. -/
def walInfos (r : FileReplica) (generation : String) (fis : List FileInfo) : List WALInfo :=
  fis.filterMap fun fi => (parseWALPath fi.name).map fun (index, offset, _) =>
    { name := fi.name, replica := r.Name, generation := generation, index := index,
      offset := offset, size := fi.size, createdAt := fi.modTime }

/-- The loop of `Snapshots` and `WALs` over the generations: list `dir g` for each, skip a
directory that does not exist, append what `infos` reads from the listing. -/
def collectInfos {β : Type} (dir : String → Path) (infos : String → List FileInfo → List β) :
    List String → List β → Prog (Except Error (List β)) :=
  Prog.forRange fun acc generation => do
    match ← Call.readDir (dir generation) with
    | .error .notExist => return .ok acc
    | .error e => return .error (.fs e)
    | .ok fis => return .ok (acc ++ infos generation fis)

/-- `Snapshots()`. -/
def snapshots (r : FileReplica) (isGenerationName : GenerationName) :
    Prog (Except Error (List SnapshotInfo)) := do
  match ← generations isGenerationName with
  | .error e => return .error e
  | .ok gens => collectInfos snapshotDir (snapshotInfos r) gens []

/-- `WALs()`. -/
def wals (r : FileReplica) (isGenerationName : GenerationName) :
    Prog (Except Error (List WALInfo)) := do
  match ← generations isGenerationName with
  | .error e => return .error e
  | .ok gens => collectInfos walDir (walInfos r) gens []

/-! ## 3. Index lookups -/

/-- One turn of the loop of `MaxSnapshotIndex`, and of `CalcPos` over WAL names: the running
index takes an index a name parses to when it is above it. -/
def maxIndexStep (parse : String → Option Nat) (index : Int) (fi : FileInfo) : Int :=
  match parse fi.name with
  | none => index
  | some idx => if index = -1 ∨ idx > index then idx else index

/-- The loop of `MaxSnapshotIndex`, and of `CalcPos` over WAL names: the highest index a name
parses to, `-1` when none does. -/
def maxIndexOf (parse : String → Option Nat) (fis : List FileInfo) : Int :=
  fis.foldl (maxIndexStep parse) (-1)

/-- The fold of `maxIndexOf` from any running index: it only grows, it ends at the running
index or at an index some name parses to, and at or above every such index. -/
theorem maxIndexOf_foldl (parse : String → Option Nat) : ∀ (fis : List FileInfo) (acc : Int),
    -1 ≤ acc → acc ≤ fis.foldl (maxIndexStep parse) acc ∧
      (fis.foldl (maxIndexStep parse) acc = acc ∨ ∃ fi ∈ fis,
        parse fi.name = some (fis.foldl (maxIndexStep parse) acc).toNat ∧
          0 ≤ fis.foldl (maxIndexStep parse) acc) ∧
      ∀ fi ∈ fis, ∀ k, parse fi.name = some k → (k : Int) ≤ fis.foldl (maxIndexStep parse) acc
  | [], acc, _ => ⟨le_rfl, .inl rfl, by simp⟩
  | fi :: fis, acc, hacc => by
    have h₁ : acc ≤ maxIndexStep parse acc fi ∧ (maxIndexStep parse acc fi = acc ∨
        parse fi.name = some (maxIndexStep parse acc fi).toNat ∧ 0 ≤ maxIndexStep parse acc fi) ∧
        ∀ k, parse fi.name = some k → (k : Int) ≤ maxIndexStep parse acc fi := by
      unfold maxIndexStep
      cases hp : parse fi.name with
      | none => simp
      | some idx => dsimp only; split_ifs <;> simp <;> omega
    obtain ⟨ih₁, ih₂, ih₃⟩ := maxIndexOf_foldl parse fis (maxIndexStep parse acc fi) (by omega)
    rw [List.foldl_cons]
    refine ⟨h₁.1.trans ih₁, ?_, fun fi' hfi' k hk => ?_⟩
    · rcases ih₂ with h | ⟨fi', hfi', hp, h0⟩
      · rcases h₁.2.1 with h' | ⟨hp, h0⟩
        · exact .inl (h.trans h')
        · exact .inr ⟨fi, List.mem_cons_self _ _, by rw [h]; exact hp, by rw [h]; exact h0⟩
      · exact .inr ⟨fi', List.mem_cons_of_mem _ hfi', hp, h0⟩
    · rcases List.mem_cons.mp hfi' with rfl | hfi'
      · exact (h₁.2.2 k hk).trans ih₁
      · exact ih₃ fi' hfi' k hk

theorem le_maxIndexOf {parse : String → Option Nat} {fis : List FileInfo} {fi : FileInfo}
    {k : Nat} (hfi : fi ∈ fis) (hk : parse fi.name = some k) : (k : Int) ≤ maxIndexOf parse fis :=
  (maxIndexOf_foldl parse fis (-1) le_rfl).2.2 fi hfi k hk

/-- **`maxIndexOf` finds the highest index**: `-1` when no name parses, else an index some
name parses to. -/
theorem maxIndexOf_mem {parse : String → Option Nat} {fis : List FileInfo}
    (h : maxIndexOf parse fis ≠ -1) :
    ∃ fi ∈ fis, parse fi.name = some (maxIndexOf parse fis).toNat ∧ 0 ≤ maxIndexOf parse fis :=
  (maxIndexOf_foldl parse fis (-1) le_rfl).2.1.resolve_left h

theorem maxIndexOf_eq_neg_one {parse : String → Option Nat} {fis : List FileInfo}
    (h : maxIndexOf parse fis = -1) {fi : FileInfo} (hfi : fi ∈ fis) : parse fi.name = none := by
  cases hk : parse fi.name with
  | none => rfl
  | some k => have := le_maxIndexOf hfi hk; omega

/-- The index a snapshot name parses to. -/
def snapshotIndex (name : String) : Option Nat := (parseSnapshotPath name).map Prod.fst

/-- The index a WAL name parses to. -/
def walIndex (name : String) : Option Nat := (parseWALPath name).map Prod.fst

theorem snapshotIndex_snapshotName {i : Nat} (h : i < 16 ^ 16) :
    snapshotIndex (snapshotName i) = some i := by
  rw [snapshotIndex, parseSnapshotPath_snapshotName h]
  rfl

theorem walIndex_walName {i : Nat} (h : i < 16 ^ 16) : walIndex (walName i) = some i := by
  rw [walIndex, parseWALPath_walName h]
  rfl

/-- `MaxSnapshotIndex(generation)`. -/
def maxSnapshotIndex (generation : String) : Prog (Except Error Nat) := do
  match ← Call.readDir (snapshotDir generation) with
  | .error e => return .error (.fs e)
  | .ok fis =>
    let index := maxIndexOf snapshotIndex fis
    if index = -1 then return .error (.msg "no snapshots found") else return .ok index.toNat

/-- The loop of `SnapshotIndexAt`: the index and time of the snapshot with the latest time
not after `timestamp` (any time when `timestamp` is zero), the first one on a tie. -/
def snapshotIndexAtOf (timestamp : Int) (fis : List FileInfo) : Int × Int :=
  fis.foldl (fun (index, max) fi =>
    match parseSnapshotPath fi.name with
    | none => (index, max)
    | some (idx, _) =>
      if timestamp ≠ 0 ∧ fi.modTime > timestamp then (index, max)
      else if max = 0 ∨ fi.modTime > max then (idx, fi.modTime) else (index, max)) (-1, 0)

/-- `SnapshotIndexAt(generation, timestamp)`. -/
def snapshotIndexAt (generation : String) (timestamp : Int) : Prog (Except Error Nat) := do
  match ← Call.readDir (snapshotDir generation) with
  | .error .notExist => return .error .noSnapshots
  | .error e => return .error (.fs e)
  | .ok fis =>
    let index := (snapshotIndexAtOf timestamp fis).1
    if index = -1 then return .error .noSnapshots else return .ok index.toNat

/-- `math.MaxInt64`. -/
def maxInt64 : Int := 2 ^ 63 - 1

/-- One turn of the loop of `WALIndexAt`: the running `index` takes a WAL index not above
`maxIndex`, not below itself, of a file not modified after `timestamp`. -/
def walIndexStep (maxIndex timestamp : Int) (index : Int) (fi : FileInfo) : Int :=
  match parseWALPath fi.name with
  | none => index
  | some (idx, _, _) =>
    if timestamp ≠ 0 ∧ fi.modTime > timestamp then index
    else if (idx : Int) > maxIndex then index
    else if (idx : Int) < index then index
    else idx

/-- The loop of `WALIndexAt`, from a running index of `0`. -/
def walIndexAtOf (maxIndex timestamp : Int) (fis : List FileInfo) : Int :=
  fis.foldl (walIndexStep maxIndex timestamp) 0

/-- The error `WALIndexAt` returns when `maxIndex` is not found. -/
def indexNotFound (generation : String) (maxIndex index : Int) : Error :=
  .msg ("unable to locate index " ++ toString maxIndex ++ " in generation " ++ quote generation ++
    ", highest index was " ++ toString index)

/-- `WALIndexAt(generation, maxIndex, timestamp)`: Go returns the index together with the
error, so the result is a pair. -/
def walIndexAt (generation : String) (maxIndex timestamp : Int) : Prog (Int × Option Error) := do
  match ← Call.readDir (walDir generation) with
  | .error .notExist => return (0, none)
  | .error e => return (0, some (.fs e))
  | .ok fis =>
    let index := walIndexAtOf maxIndex timestamp fis
    if maxIndex ≠ maxInt64 ∧ index ≠ maxIndex then
      return (index, some (indexNotFound generation maxIndex index))
    else return (index, none)

/-! ## 4. Readers

A reader is modelled by the bytes it yields when read to the end. -/

/-- The loop of `SnapshotReader`: open the first entry whose name parses to `index`. -/
def snapshotReaderLoop (dir : Path) (index : Nat) : List FileInfo → Prog (Except Error (List UInt8))
  | [] => return .error (.fs .notExist)
  | fi :: fis =>
    match parseSnapshotPath fi.name with
    | some (idx, ext) =>
      if index ≠ idx then snapshotReaderLoop dir index fis
      else do
        match ← Call.open (.dst (dir ++ [fi.name])) with
        | .error e => return .error (.fs e)
        | .ok d => if ext = ".snapshot" then return .ok d.bytes else return gunzip d
    | none => snapshotReaderLoop dir index fis

/-- `SnapshotReader(generation, index)`. -/
def snapshotReader (generation : String) (index : Nat) : Prog (Except Error (List UInt8)) := do
  match ← Call.readDir (snapshotDir generation) with
  | .error e => return .error (.fs e)
  | .ok fis => snapshotReaderLoop (snapshotDir generation) index fis

/-- `WALReader(generation, index)`: the uncompressed file, else the compressed one. -/
def walReader (generation : String) (index : Nat) : Prog (Except Error (List UInt8)) := do
  let filename := walPath generation index
  match ← Call.open (.dst filename) with
  | .ok d => return .ok d.bytes
  | .error .notExist =>
    match ← Call.open (.dst (addExt filename ".gz")) with
    | .error e => return .error (.fs e)
    | .ok d => return gunzip d
  | .error e => return .error (.fs e)

end Litestream
