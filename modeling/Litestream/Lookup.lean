import Litestream.Replica.Listing
/-!
# Restore lookups: `WALIndexAt` and `SnapshotIndexAt`

`WALIndexAt(generation, maxIndex, timestamp)` is what a restore asks for the last WAL file it
may replay.  Its comment and the spec (§4.5) say that a `maxIndex` that is given but not found
is an error.  The loop keeps the greatest index of the files it accepts (`walCandidates`), but
from a running index that starts at `0`, and the method returns before the not-found test
when the WAL directory does not exist.  So:

* `walIndexAtOf_eq`: the loop computes the greatest accepted index, or `0` when there is none;
* `walIndexAt_of_absent`: with no WAL directory, every lookup succeeds with index `0`,
  whatever `maxIndex` it was asked for (below a regular file `ReadDir` fails with `ENOTDIR`
  instead, and so does the lookup: `walIndexAt_below_file`);
* `walIndexAt_zero_unmatched`: asked for index `0` in a directory that has no such file, the
  lookup succeeds too;
* `walIndexAt_found`: in every other case the lookup keeps its word.

`SnapshotIndexAt(generation, timestamp)` picks the snapshot a restore at `timestamp` starts
from: the latest one not modified after it.  Its loop keeps the latest time seen, with Go's
zero time standing for "none yet", so it finds a latest snapshot whenever no snapshot is older
than the zero time and the directory is there or absent with no file on its path
(`snapshotIndexAt_spec`); below a regular file it fails with `ENOTDIR`
(`snapshotIndexAt_below_file`).
-/

namespace Litestream

/-! ## 1. The loop -/

/-- The WAL indices `WALIndexAt` accepts from a listing: not above `maxIndex`, of files not
modified after `timestamp` (at any time when `timestamp` is zero). -/
def walCandidates (maxIndex timestamp : Int) (fis : List FileInfo) : List Nat :=
  fis.filterMap fun fi =>
    match parseWALPath fi.name with
    | none => none
    | some (idx, _, _) =>
      if (timestamp ≠ 0 ∧ fi.modTime > timestamp) ∨ (idx : Int) > maxIndex then none else some idx

theorem walIndexAtOf_foldl (maxIndex timestamp : Int) (fis : List FileInfo) (i : Nat) :
    fis.foldl (walIndexStep maxIndex timestamp) (i : Int) =
      ((walCandidates maxIndex timestamp fis).foldl max i : Nat) := by
  unfold walCandidates
  induction fis generalizing i with
  | nil => rfl
  | cons fi fis ih =>
    simp only [List.foldl_cons, List.filterMap_cons, walIndexStep]
    rcases parseWALPath fi.name with _ | ⟨idx, _, _⟩
    · exact ih i
    · dsimp only
      by_cases hc : (timestamp ≠ 0 ∧ fi.modTime > timestamp) ∨ (idx : Int) > maxIndex
      · rw [if_pos hc]
        dsimp only
        rw [← ih i]
        congr 1
        split_ifs <;> omega
      · rw [if_neg hc]
        dsimp only
        rw [List.foldl_cons, ← ih]
        congr 1
        split_ifs <;> omega

/-- **The loop of `WALIndexAt` keeps the greatest accepted index**, or `0` when it accepts
none. -/
theorem walIndexAtOf_eq (maxIndex timestamp : Int) (fis : List FileInfo) :
    walIndexAtOf maxIndex timestamp fis = ((walCandidates maxIndex timestamp fis).max?.getD 0 : Nat) := by
  rw [walIndexAtOf, ← Nat.zero_max ((walCandidates maxIndex timestamp fis).max?.getD 0),
    ← List.foldl_max]
  exact walIndexAtOf_foldl maxIndex timestamp fis 0

/-! ## 2. The lookup -/

section Lookup

variable {rd : Adapter} {generation : String} {maxIndex timestamp : Int} {w w' : World}

/-- **With no WAL directory, every lookup succeeds with index `0`**: `ReadDir` fails with
`ENOENT`, which the method takes for an empty directory. -/
theorem walIndexAt_of_absent (h : w.fs.Absent (walDir generation)) :
    Returns rd (walIndexAt generation maxIndex timestamp) w (0, none) w := by
  simp [walIndexAt, Call.run, FS.readDir_of_absent _ h]

/-- The lookup of index `5` in a new replica's empty destination. -/
theorem walIndexAt_of_absent_empty :
    FS.empty.Absent (walDir "g") ∧
      Returns Source.shadowWALReader (walIndexAt "g" 5 0) (World.fresh Source.empty 0) (0, none)
        (World.fresh Source.empty 0) :=
  ⟨⟨rfl, rfl⟩, walIndexAt_of_absent ⟨rfl, rfl⟩⟩

/-- Below a regular file the lookup fails with the `ENOTDIR` of `ReadDir`. -/
theorem walIndexAt_below_file (h : w.fs.get (walDir generation) = none)
    (hf : w.fs.lookupError (walDir generation) = .notDir) :
    Returns rd (walIndexAt generation maxIndex timestamp) w (0, some (.fs .notDir)) w := by
  simp [walIndexAt, Call.run, FS.readDir_of_get_none _ h, hf]

/-- What the lookup returns on a listing of the WAL directory. -/
theorem walIndexAt_listing {fis : List FileInfo} {r : Int × Option Error}
    (h : w.fs.readDir (walDir generation) = .ok fis) :
    Returns rd (walIndexAt generation maxIndex timestamp) w r w' ↔ w' = w ∧
      r = (walIndexAtOf maxIndex timestamp fis,
        if maxIndex ≠ maxInt64 ∧ walIndexAtOf maxIndex timestamp fis ≠ maxIndex
        then some (indexNotFound generation maxIndex (walIndexAtOf maxIndex timestamp fis))
        else none) := by
  simp only [walIndexAt, Returns.bind_lift, Call.run, h]
  split_ifs <;> simp [eq_comm, and_comm]

/-- **Index `0`, asked for and absent, is found**: in a WAL directory none of whose accepted
files has index `0`, the lookup of index `0` succeeds. -/
theorem walIndexAt_zero_unmatched {fis : List FileInfo}
    (h : w.fs.readDir (walDir generation) = .ok fis) (h0 : 0 ∉ walCandidates 0 timestamp fis) :
    Returns rd (walIndexAt generation 0 timestamp) w (0, none) w := by
  have hnil : walCandidates 0 timestamp fis = [] := by
    refine List.eq_nil_iff_forall_not_mem.mpr fun j hj => ?_
    have : (j : Int) ≤ 0 := by
      obtain ⟨fi, -, hfi⟩ := List.mem_filterMap.mp hj
      split at hfi
      · cases hfi
      · split_ifs at hfi with hc
        cases hfi
        omega
    exact h0 (by rwa [show j = 0 by omega] at hj)
  rw [walIndexAt_listing h, walIndexAtOf_eq, hnil]
  simp

/-- **Otherwise the lookup keeps its word**: in an existing WAL directory, the lookup of an
index other than `0` and `MaxInt64` succeeds only with that index, and only when an accepted
file has it. -/
theorem walIndexAt_found {fis : List FileInfo} {i : Int}
    (h : w.fs.readDir (walDir generation) = .ok fis) (hm : maxIndex ≠ maxInt64) (h0 : maxIndex ≠ 0)
    (hr : Returns rd (walIndexAt generation maxIndex timestamp) w (i, none) w') :
    i = maxIndex ∧ maxIndex.toNat ∈ walCandidates maxIndex timestamp fis := by
  obtain ⟨-, hr⟩ := (walIndexAt_listing h).mp hr
  obtain ⟨rfl, hnone⟩ := Prod.mk.inj hr
  have heq : walIndexAtOf maxIndex timestamp fis = maxIndex := by
    by_contra hne
    rw [if_pos ⟨hm, hne⟩] at hnone
    cases hnone
  refine ⟨heq, ?_⟩
  rw [walIndexAtOf_eq] at heq
  cases hq : (walCandidates maxIndex timestamp fis).max? with
  | none =>
    rw [hq, Option.getD_none] at heq
    omega
  | some k =>
    rw [hq, Option.getD_some] at heq
    rw [show maxIndex.toNat = k by omega]
    exact List.max?_mem (fun a b => by omega) hq

/-- A destination whose generation `g` holds one WAL file, of index `3`. -/
def walThreeWorld : World :=
  { World.fresh Source.empty 0 with
    fs := ⟨[(walPath "g" 3, .file (.raw []) 0), (walDir "g", .dir 4096 0),
      (generationDir "g", .dir 4096 0), (["generations"], .dir 4096 0)], by decide, by decide⟩ }

theorem walIndexAt_found_three :
    walThreeWorld.fs.readDir (walDir "g") = .ok [⟨walName 3, false, 0, 0⟩] ∧
      (3 : Int) ≠ maxInt64 ∧ (3 : Int) ≠ 0 ∧
      Returns Source.shadowWALReader (walIndexAt "g" 3 0) walThreeWorld (3, none) walThreeWorld ∧
      ((3 : Int) = 3 ∧ (3 : Int).toNat ∈ walCandidates 3 0 [⟨walName 3, false, 0, 0⟩]) :=
  have h : walThreeWorld.fs.readDir (walDir "g") = .ok [⟨walName 3, false, 0, 0⟩] := rfl
  have hr : Returns Source.shadowWALReader (walIndexAt "g" 3 0) walThreeWorld (3, none)
      walThreeWorld := (walIndexAt_listing h).mpr ⟨rfl, by decide⟩
  ⟨h, by decide, by decide, hr, walIndexAt_found h (by decide) (by decide) hr⟩

/-- **`MaxInt64` finds the greatest accepted index.** -/
theorem walIndexAt_max {fis : List FileInfo} {j : Nat}
    (h : w.fs.readDir (walDir generation) = .ok fis) (hj : j ∈ walCandidates maxInt64 timestamp fis)
    (hmax : ∀ k ∈ walCandidates maxInt64 timestamp fis, k ≤ j) :
    Returns rd (walIndexAt generation maxInt64 timestamp) w (j, none) w := by
  rw [walIndexAt_listing h, walIndexAtOf_eq, List.max?_eq_some_iff'.mpr ⟨hj, hmax⟩]
  simp

theorem walIndexAt_max_three :
    walThreeWorld.fs.readDir (walDir "g") = .ok [⟨walName 3, false, 0, 0⟩] ∧
      3 ∈ walCandidates maxInt64 0 [⟨walName 3, false, 0, 0⟩] ∧
      (∀ k ∈ walCandidates maxInt64 0 [⟨walName 3, false, 0, 0⟩], k ≤ 3) ∧
      Returns Source.shadowWALReader (walIndexAt "g" maxInt64 0) walThreeWorld (3, none)
        walThreeWorld :=
  ⟨rfl, by decide, by decide, walIndexAt_max rfl (by decide) (by decide)⟩

end Lookup

/-! ## 3. `SnapshotIndexAt`

The loop keeps the index of the latest snapshot it accepts, with Go's zero time as "none yet":
a snapshot replaces the one kept when the time kept is zero or when it is later.  So, as long as
no accepted snapshot is older than Go's zero time, the loop ends at a latest one
(`snapshotIndexAtOf_latest`); a zero time kept before an older one is replaced regardless. -/

/-- The snapshots `SnapshotIndexAt` accepts from a listing, as index and time: the entries whose
name parses as a snapshot's, not modified after `timestamp` (at any time when it is zero). -/
def snapshotCandidates (timestamp : Int) (fis : List FileInfo) : List (Nat × Int) :=
  fis.filterMap fun fi =>
    match parseSnapshotPath fi.name with
    | none => none
    | some (idx, _) => if timestamp ≠ 0 ∧ fi.modTime > timestamp then none else some (idx, fi.modTime)

/-- `(index, max)` is a member of `ms` with the greatest time, or `(-1, 0)` when `ms` is empty. -/
def LatestOf (ms : List (Nat × Int)) : Int × Int → Prop
  | (index, max) => (ms = [] ∧ index = -1 ∧ max = 0) ∨
      (0 ≤ index ∧ (index.toNat, max) ∈ ms ∧ ∀ q ∈ ms, q.2 ≤ max)

/-- One accepted snapshot, from a time not before Go's zero time, keeps `LatestOf`. -/
theorem LatestOf.push {ms : List (Nat × Int)} {index max : Int} {idx : Nat} {m : Int}
    (h : LatestOf ms (index, max)) (hm : 0 ≤ m) :
    LatestOf (ms ++ [(idx, m)]) (if max = 0 ∨ m > max then ((idx : Int), m) else (index, max)) := by
  rcases h with ⟨rfl, rfl, rfl⟩ | ⟨h₀, hmem, hle⟩
  · simp only [LatestOf, List.nil_append, true_or, if_true]
    exact .inr ⟨by omega, List.mem_singleton_self _, by simp⟩
  · split_ifs with hc
    · refine .inr ⟨by omega, by simp, List.forall_mem_append.mpr ⟨fun q hq => ?_, by simp⟩⟩
      have := hle q hq
      omega
    · refine .inr ⟨h₀, List.mem_append_left _ hmem, List.forall_mem_append.mpr ⟨hle, ?_⟩⟩
      simp only [List.mem_singleton, forall_eq]
      omega

/-- **The loop of `SnapshotIndexAt` keeps a latest accepted snapshot**, when none of them is
older than Go's zero time. -/
theorem snapshotIndexAtOf_latest (timestamp : Int) (fis : List FileInfo)
    (hz : ∀ q ∈ snapshotCandidates timestamp fis, 0 ≤ q.2) :
    LatestOf (snapshotCandidates timestamp fis) (snapshotIndexAtOf timestamp fis) := by
  induction fis using List.reverseRecOn with
  | nil => exact .inl ⟨rfl, rfl, rfl⟩
  | append_singleton fis fi ih =>
    simp only [snapshotCandidates, List.filterMap_append, List.mem_append] at hz ih ⊢
    have ih := ih fun q hq => hz q (.inl hq)
    unfold snapshotIndexAtOf at ih ⊢
    rw [List.foldl_append]
    generalize List.foldl _ ((-1, 0) : Int × Int) fis = acc at ih ⊢
    obtain ⟨index, max⟩ := acc
    simp only [List.foldl_cons, List.foldl_nil, List.filterMap_cons, List.filterMap_nil] at hz ⊢
    rcases hp : parseSnapshotPath fi.name with _ | ⟨idx, ext⟩
    · simpa only [hp, List.append_nil] using ih
    · by_cases hc : timestamp ≠ 0 ∧ fi.modTime > timestamp
      · simpa only [hp, if_pos hc, List.append_nil] using ih
      · simp only [hp, if_neg hc] at hz ⊢
        exact ih.push (hz _ (.inr (List.mem_singleton_self _)))

section SnapshotLookup

variable {rd : Adapter} {g : String} {timestamp : Int} {w : World}

/-- An entry of `g`'s snapshot directory that `SnapshotIndexAt(g, timestamp)` may pick: its
name parses to index `i`, and its time `m` is not after `timestamp` (any time when it is
zero). -/
def SnapshotAt (fs : FS) (g : String) (timestamp : Int) (i : Nat) (m : Int) : Prop :=
  ∃ x n, fs.get (snapshotDir g ++ [x]) = some n ∧ snapshotIndex x = some i ∧
    (n.info x).modTime = m ∧ (timestamp = 0 ∨ m ≤ timestamp)

/-- The accepted snapshots of a listing are the entries of the directory that may be picked. -/
theorem mem_snapshotCandidates {fis : List FileInfo} (h : w.fs.readDir (snapshotDir g) = .ok fis)
    {i : Nat} {m : Int} : (i, m) ∈ snapshotCandidates timestamp fis ↔ SnapshotAt w.fs g timestamp i m := by
  simp only [snapshotCandidates, List.mem_filterMap]
  constructor
  · rintro ⟨fi, hfi, hq⟩
    obtain ⟨n, hn, hfi'⟩ := (FS.mem_readDir _ h).mp hfi
    split at hq
    · cases hq
    · rename_i idx ext hp
      split_ifs at hq with hc
      cases hq
      refine ⟨fi.name, n, hn, by simp [snapshotIndex, hp], by rw [← hfi'], by omega⟩
  · rintro ⟨x, n, hn, hi, rfl, hm⟩
    obtain ⟨⟨i', ext⟩, hp, hi'⟩ := Option.map_eq_some'.mp hi
    cases hi'
    refine ⟨n.info x, FS.info_mem_readDir _ h hn, ?_⟩
    simp only [FS.Node.info_name, hp]
    rw [if_neg (by omega)]

/-- With no snapshot directory, `SnapshotIndexAt` returns `ErrNoSnapshots`. -/
theorem snapshotIndexAt_of_absent (h : w.fs.Absent (snapshotDir g)) :
    Returns rd (snapshotIndexAt g timestamp) w (.error .noSnapshots) w := by
  simp [snapshotIndexAt, Call.run, FS.readDir_of_absent _ h]

/-- Below a regular file `SnapshotIndexAt` fails with the `ENOTDIR` of `ReadDir`, not with
`ErrNoSnapshots`. -/
theorem snapshotIndexAt_below_file (h : w.fs.get (snapshotDir g) = none)
    (hf : w.fs.lookupError (snapshotDir g) = .notDir) :
    Returns rd (snapshotIndexAt g timestamp) w (.error (.fs .notDir)) w := by
  simp [snapshotIndexAt, Call.run, FS.readDir_of_get_none _ h, hf]

/-- What `SnapshotIndexAt` returns on a listing of the snapshot directory. -/
theorem snapshotIndexAt_listing {fis : List FileInfo} (h : w.fs.readDir (snapshotDir g) = .ok fis) :
    Returns rd (snapshotIndexAt g timestamp) w
      (if (snapshotIndexAtOf timestamp fis).1 = -1 then .error .noSnapshots
        else .ok (snapshotIndexAtOf timestamp fis).1.toNat) w := by
  simp only [snapshotIndexAt, Returns.bind_lift, Call.run, h]
  split_ifs <;> simp

/-- **`SnapshotIndexAt` finds a latest snapshot not after the timestamp.**  In a snapshot
directory that is absent or a directory, with no snapshot it may pick older than Go's zero
time, it returns `ErrNoSnapshots` exactly when the directory is absent or holds none it may
pick, and otherwise the index of one whose time is the greatest. -/
theorem snapshotIndexAt_spec
    (hdir : w.fs.Absent (snapshotDir g) ∨ w.fs.IsDir (snapshotDir g))
    (hz : ∀ i m, SnapshotAt w.fs g timestamp i m → 0 ≤ m) :
    ∃ r, Returns rd (snapshotIndexAt g timestamp) w r w ∧
      (r = .error .noSnapshots ↔
        w.fs.Absent (snapshotDir g) ∨ ∀ i m, ¬ SnapshotAt w.fs g timestamp i m) ∧
      (r ≠ .error .noSnapshots → ∃ i m, r = .ok i ∧ SnapshotAt w.fs g timestamp i m ∧
        ∀ j m', SnapshotAt w.fs g timestamp j m' → m' ≤ m) := by
  rcases hdir with habs | hd
  · exact ⟨_, snapshotIndexAt_of_absent habs, iff_of_true rfl (.inl habs), fun h => (h rfl).elim⟩
  obtain ⟨fis, hfis⟩ := FS.readDir_of_dir _ hd
  refine ⟨_, snapshotIndexAt_listing hfis, ?_⟩
  have hlatest := snapshotIndexAtOf_latest timestamp fis fun q hq =>
    hz q.1 q.2 ((mem_snapshotCandidates hfis).mp hq)
  generalize snapshotIndexAtOf timestamp fis = acc at hlatest
  obtain ⟨index, max⟩ := acc
  rcases hlatest with ⟨hnil, rfl, rfl⟩ | ⟨h₀, hmem, hle⟩
  · refine ⟨iff_of_true rfl (.inr fun i m hs => ?_), fun h => (h rfl).elim⟩
    have := (mem_snapshotCandidates hfis).mpr hs
    simp [hnil] at this
  · have hne : index ≠ -1 := by omega
    simp only [if_neg hne]
    refine ⟨iff_of_false (by simp) ?_, fun _ => ⟨_, max, rfl, (mem_snapshotCandidates hfis).mp hmem,
      fun j m' hs => hle (j, m') ((mem_snapshotCandidates hfis).mpr hs)⟩⟩
    rintro (h | h)
    · exact FS.not_isDir_of_get_none h.1 hd
    · exact h _ _ ((mem_snapshotCandidates hfis).mp hmem)

end SnapshotLookup

end Litestream
