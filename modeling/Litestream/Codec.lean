import Mathlib.Data.Nat.Defs
import Mathlib.Data.List.Basic
import Litestream.Fs
import Mathlib.Data.Nat.Digits
/-!
# File names: the index codec

Every snapshot and WAL file the replica writes is named after its index,
`fmt.Sprintf("%016x", index)` (`SnapshotPath`, `WALPath`), and every listing reads the index
back with `ParseSnapshotPath` or `ParseWALPath`.  The two parsers are not in the source tree;
they are modelled here from the spec (§4.1): a name is exactly sixteen lowercase hex digits,
then `.snapshot`/`.snapshot.gz` or `.wal`/`.wal.gz`.

`Nat.toDigits` has no lemma on this toolchain that reads a number back from its digits, so
the formatting is first shown equal to a fixed-width digit function `hexDigits` on every index
below `16 ^ 16` (every Go `int` that is not negative is), and the round trips are proved on
`hexDigits`, as is the order of the names: WAL names sort as their indices
(`walName_nameLe`), which `compress` relies on.
-/

namespace Litestream

/-! ## 1. `%016x` -/

/-- `fmt.Sprintf("%016x", i)`: the lowercase hex digits of `i`, padded with `0` to sixteen. -/
def sprintf016x (i : Nat) : String :=
  ⟨List.replicate (16 - (Nat.toDigits 16 i).length) '0' ++ Nat.toDigits 16 i⟩

/-- The `w` lowest hex digits of `i`, most significant first. -/
def hexDigits : Nat → Nat → List Char
  | 0, _ => []
  | w + 1, i => hexDigits w (i / 16) ++ [Nat.digitChar (i % 16)]

@[simp] theorem hexDigits_length (w i : Nat) : (hexDigits w i).length = w := by
  induction w generalizing i with
  | zero => rfl
  | succ w ih => simp [hexDigits, ih]

theorem hexDigits_zero (w : Nat) : hexDigits w 0 = List.replicate w '0' := by
  induction w with
  | zero => rfl
  | succ w ih => simp [hexDigits, ih, List.replicate_succ']; rfl

/-- `Nat.toDigitsCore` keeps its accumulator at the end. -/
theorem toDigitsCore_acc (b f m : Nat) (ds : List Char) :
    Nat.toDigitsCore b f m ds = Nat.toDigitsCore b f m [] ++ ds := by
  induction f generalizing m ds with
  | zero => rfl
  | succ f ih =>
    simp only [Nat.toDigitsCore]
    split
    · rfl
    · rw [ih, ih _ [_]]; simp

/-- Any fuel above the number gives the same digits. -/
theorem toDigitsCore_fuel (f f' m : Nat) (ds : List Char) (hf : m < f) (hf' : m < f') :
    Nat.toDigitsCore 16 f m ds = Nat.toDigitsCore 16 f' m ds := by
  induction f generalizing m f' ds with
  | zero => omega
  | succ f ih =>
    obtain ⟨f', rfl⟩ : ∃ g, f' = g + 1 := ⟨f' - 1, by omega⟩
    simp only [Nat.toDigitsCore]
    split
    · rfl
    · exact ih _ _ _ (by omega) (by omega)

/-- The last digit comes off the end. -/
theorem toDigits_16 (n : Nat) :
    Nat.toDigits 16 n =
      (if n / 16 = 0 then [] else Nat.toDigits 16 (n / 16)) ++ [Nat.digitChar (n % 16)] := by
  rw [Nat.toDigits, Nat.toDigitsCore]
  split
  · simp [*]
  · rw [toDigitsCore_acc, Nat.toDigits, toDigitsCore_fuel n (n / 16 + 1) _ _ (by omega) (by omega)]

theorem padded_toDigits (w n : Nat) (hn : n < 16 ^ (w + 1)) :
    List.replicate (w + 1 - (Nat.toDigits 16 n).length) '0' ++ Nat.toDigits 16 n =
      hexDigits (w + 1) n := by
  induction w generalizing n with
  | zero =>
    rw [toDigits_16, if_pos (by omega)]
    rfl
  | succ w ih =>
    rw [toDigits_16, hexDigits]
    split
    · rename_i h0
      rw [h0, hexDigits_zero]
      simp [List.replicate_succ']
    · have hlt : n / 16 < 16 ^ (w + 1) := by
        rw [Nat.pow_succ] at hn; omega
      rw [← ih _ hlt, List.length_append, List.length_singleton, ← List.append_assoc,
        Nat.add_sub_add_right]

/-- **`%016x` is sixteen digits** for every index below `16 ^ 16`. -/
theorem sprintf016x_data {i : Nat} (h : i < 16 ^ 16) : (sprintf016x i).data = hexDigits 16 i :=
  padded_toDigits 15 i h

/-! ## 2. Reading an index back -/

/-- The value of a lowercase hex digit. -/
def hexVal (c : Char) : Option Nat :=
  if '0'.toNat ≤ c.toNat ∧ c.toNat ≤ '9'.toNat then some (c.toNat - '0'.toNat)
  else if 'a'.toNat ≤ c.toNat ∧ c.toNat ≤ 'f'.toNat then some (c.toNat - 'a'.toNat + 10) else none

/-- The value of a run of lowercase hex digits, most significant first. -/
def parseHex (cs : List Char) : Option Nat :=
  cs.foldl (fun acc c => acc.bind fun a => (hexVal c).map (16 * a + ·)) (some 0)

/-- Sixteen lowercase hex digits, read as an index. -/
def parseIndex (cs : List Char) : Option Nat :=
  if cs.length = 16 then parseHex cs else none

theorem hexVal_digitChar : ∀ d < 16, hexVal (Nat.digitChar d) = some d := by decide

theorem parseHex_hexDigits (w i : Nat) : parseHex (hexDigits w i) = some (i % 16 ^ w) := by
  induction w generalizing i with
  | zero => simp [parseHex, hexDigits, Nat.mod_one]
  | succ w ih =>
    have hd := hexVal_digitChar (i % 16) (Nat.mod_lt _ (by omega))
    have ih' := ih (i / 16)
    simp only [parseHex] at ih' ⊢
    rw [hexDigits, List.foldl_append, ih']
    simp only [List.foldl_cons, List.foldl_nil, Option.some_bind, hd, Option.map_some']
    rw [Nat.pow_succ', Nat.mod_mul, Nat.add_comm]

theorem parseIndex_hexDigits {i : Nat} (h : i < 16 ^ 16) : parseIndex (hexDigits 16 i) = some i := by
  rw [parseIndex, if_pos (hexDigits_length _ _), parseHex_hexDigits, Nat.mod_eq_of_lt h]

/-! ## 3. Snapshot and WAL names -/

/-- Modelled from the spec: `ParseSnapshotPath`, sixteen lowercase hex digits, then
`.snapshot` or `.snapshot.gz`; it yields the index and the extension. -/
def parseSnapshotPath (name : String) : Option (Nat × String) :=
  (parseIndex (name.data.take 16)).bind fun i =>
    if name.data.drop 16 = ".snapshot".data then some (i, ".snapshot")
    else if name.data.drop 16 = ".snapshot.gz".data then some (i, ".snapshot.gz")
    else none

/-- Modelled from the spec: `ParseWALPath`, sixteen lowercase hex digits, then `.wal` or
`.wal.gz`; it yields the index, the offset (always `0` in this layout) and whether the file is
compressed. -/
def parseWALPath (name : String) : Option (Nat × Nat × Bool) :=
  (parseIndex (name.data.take 16)).bind fun i =>
    if name.data.drop 16 = ".wal".data then some (i, 0, false)
    else if name.data.drop 16 = ".wal.gz".data then some (i, 0, true)
    else none

/-- Modelled from the spec: `IsSnapshotPath`, the name parses as a snapshot's. -/
def isSnapshotPath (name : String) : Bool := (parseSnapshotPath name).isSome

/-- Modelled from the spec: `IsWALPath`, the name parses as a WAL file's. -/
def isWALPath (name : String) : Bool := (parseWALPath name).isSome

/-- The base name of `SnapshotPath(generation, index)`. -/
def snapshotName (i : Nat) : String := sprintf016x i ++ ".snapshot.gz"

/-- The base name of `WALPath(generation, index)`. -/
def walName (i : Nat) : String := sprintf016x i ++ ".wal"

section RoundTrip

variable {i : Nat} (h : i < 16 ^ 16)
include h

theorem take_sprintf016x (l : List Char) : ((sprintf016x i).data ++ l).take 16 = hexDigits 16 i := by
  rw [sprintf016x_data h, List.take_left' (hexDigits_length _ _)]

theorem drop_sprintf016x (l : List Char) : ((sprintf016x i).data ++ l).drop 16 = l := by
  rw [sprintf016x_data h, List.drop_left' (hexDigits_length _ _)]

@[simp] theorem parseSnapshotPath_snapshotName :
    parseSnapshotPath (snapshotName i) = some (i, ".snapshot.gz") := by
  rw [parseSnapshotPath, snapshotName, String.data_append, take_sprintf016x h, drop_sprintf016x h,
    parseIndex_hexDigits h]
  rfl

@[simp] theorem parseWALPath_walName : parseWALPath (walName i) = some (i, 0, false) := by
  rw [parseWALPath, walName, String.data_append, take_sprintf016x h, drop_sprintf016x h,
    parseIndex_hexDigits h]
  rfl

/-- A temporary file of `compressFile` does not parse as a snapshot. -/
@[simp] theorem parseSnapshotPath_tmp : parseSnapshotPath (snapshotName i ++ ".tmp") = none := by
  rw [parseSnapshotPath, snapshotName, String.data_append, String.data_append, List.append_assoc,
    take_sprintf016x h, drop_sprintf016x h, parseIndex_hexDigits h]
  rfl

end RoundTrip

/-- A name that parses as a snapshot's is sixteen characters followed by its extension. -/
theorem parseSnapshotPath_ext {name ext : String} {i : Nat}
    (h : parseSnapshotPath name = some (i, ext)) :
    name.data.drop 16 = ext.data ∧ (ext = ".snapshot" ∨ ext = ".snapshot.gz") := by
  obtain ⟨j, -, h⟩ := Option.bind_eq_some.mp h
  split_ifs at h with h₁ h₂ <;> cases h
  · exact ⟨h₁, .inl rfl⟩
  · exact ⟨h₂, .inr rfl⟩

/-- A name ending in `suffix` parses as a snapshot only with an extension that ends in it. -/
theorem suffix_ext_of_parseSnapshotPath {name suffix ext : String} {i : Nat}
    (h : parseSnapshotPath name = some (i, ext)) (hs : suffix.data <:+ name.data)
    (hl : suffix.data.length ≤ ext.data.length) : suffix.data <:+ ext.data :=
  List.suffix_of_suffix_length_le hs ((parseSnapshotPath_ext h).1 ▸ List.drop_suffix 16 _) hl

/-- **The temporary file of `compressFile` is no snapshot**, whatever it is named after. -/
@[simp] theorem parseSnapshotPath_append_tmp (s : String) :
    parseSnapshotPath (s ++ ".tmp") = none := by
  cases hp : parseSnapshotPath (s ++ ".tmp") with
  | none => rfl
  | some r =>
    obtain ⟨i, ext⟩ := r
    have hs : ".tmp".data <:+ (s ++ ".tmp").data := by
      rw [String.data_append]
      exact List.suffix_append _ _
    rcases (parseSnapshotPath_ext hp).2 with rfl | rfl <;>
      exact absurd (suffix_ext_of_parseSnapshotPath hp hs (by decide)) (by decide)

/-- A name ending in `.gz` parses as a snapshot only as a compressed one. -/
theorem ext_of_parseSnapshotPath_gz {name ext : String} {i : Nat}
    (hs : ".gz".data <:+ name.data) (h : parseSnapshotPath name = some (i, ext)) :
    ext = ".snapshot.gz" := by
  rcases (parseSnapshotPath_ext h).2 with rfl | rfl
  · exact absurd (suffix_ext_of_parseSnapshotPath h hs (by decide)) (by decide)
  · rfl

theorem gz_suffix_snapshotName (i : Nat) : ".gz".data <:+ (snapshotName i).data := by
  rw [snapshotName, String.data_append]
  exact (by decide : ".gz".data <:+ ".snapshot.gz".data).trans (List.suffix_append _ _)

/-! ## 4. Distinct indices have distinct names -/

/-- A hex digit's character gives the digit back. -/
theorem digitChar_inj : ∀ a < 16, ∀ b < 16, Nat.digitChar a = Nat.digitChar b → a = b := by decide

theorem toDigits_ne_nil (n : Nat) : Nat.toDigits 16 n ≠ [] := by
  rw [toDigits_16]
  simp

/-- Distinct numbers have distinct hex digits. -/
theorem toDigits_16_inj : ∀ n m : Nat, Nat.toDigits 16 n = Nat.toDigits 16 m → n = m := by
  intro n
  induction n using Nat.strong_induction_on with
  | _ n ih =>
    intro m h
    rw [toDigits_16 n, toDigits_16 m] at h
    obtain ⟨h₁, h₂⟩ := List.append_inj' h rfl
    have hd := digitChar_inj _ (Nat.mod_lt n (by decide)) _ (Nat.mod_lt m (by decide))
      (List.singleton_inj.mp h₂)
    split_ifs at h₁ with hn hm hm
    · omega
    · exact absurd h₁.symm (toDigits_ne_nil _)
    · exact absurd h₁ (toDigits_ne_nil _)
    · have := ih (n / 16) (by omega) (m / 16) h₁
      omega

/-- A number of at least `16 ^ e` has more than `e` hex digits. -/
theorem toDigits_16_length : ∀ (e n : Nat), 16 ^ e ≤ n → e + 1 ≤ (Nat.toDigits 16 n).length
  | 0, n, _ => List.length_pos.mpr (toDigits_ne_nil n)
  | e + 1, n, h => by
    have h16 : 16 ^ e ≤ n / 16 := by rw [Nat.le_div_iff_mul_le (by decide), ← Nat.pow_succ]; exact h
    have := toDigits_16_length e (n / 16) h16
    rw [toDigits_16, if_neg (by have := Nat.pos_pow_of_pos e (show 0 < 16 by decide); omega)]
    simp only [List.length_append, List.length_singleton]
    omega

theorem sprintf016x_length_ge {n : Nat} (h : 16 ^ 16 ≤ n) : 17 ≤ (sprintf016x n).data.length := by
  have := toDigits_16_length 16 n h
  simp only [sprintf016x, List.length_append, List.length_replicate]
  omega

/-- **`%016x` is injective** on every index, those past sixteen digits included. -/
theorem sprintf016x_inj {n m : Nat} (h : sprintf016x n = sprintf016x m) : n = m := by
  rcases lt_or_le n (16 ^ 16) with hn | hn <;> rcases lt_or_le m (16 ^ 16) with hm | hm
  · have := congrArg (fun s => parseIndex s.data) h
    simp only [sprintf016x_data hn, sprintf016x_data hm, parseIndex_hexDigits hn, parseIndex_hexDigits hm] at this
    exact Option.some.inj this
  · have h₁ := congrArg (fun s => s.data.length) h
    have := sprintf016x_length_ge hm
    simp only [sprintf016x_data hn, hexDigits_length] at h₁
    omega
  · have h₁ := congrArg (fun s => s.data.length) h
    have := sprintf016x_length_ge hn
    simp only [sprintf016x_data hm, hexDigits_length] at h₁
    omega
  · have ln := toDigits_16_length 16 n hn
    have lm := toDigits_16_length 16 m hm
    have h₁ := congrArg String.data h
    simp only [sprintf016x, Nat.sub_eq_zero_of_le (by omega : 16 ≤ (Nat.toDigits 16 n).length),
      Nat.sub_eq_zero_of_le (by omega : 16 ≤ (Nat.toDigits 16 m).length), List.replicate_zero,
      List.nil_append] at h₁
    exact toDigits_16_inj n m h₁

/-- Two WAL files of distinct indices have distinct names. -/
theorem walName_inj {n m : Nat} (h : walName n = walName m) : n = m := by
  have := congrArg String.data h
  simp only [walName, String.data_append] at this
  exact sprintf016x_inj (String.ext (List.append_cancel_right this))

/-! ## 5. The spec's grammar, and the order of names

`compress` sorts the names it globs with `sort.Strings`, byte by byte; on the ASCII names here
that is `FS.nameLe`, which compares their character codes in turn. -/

/-- A lowercase hex digit, `[0-9a-f]`. -/
def isLowerHexDigit (c : Char) : Bool :=
  ('0'.toNat ≤ c.toNat && c.toNat ≤ '9'.toNat) || ('a'.toNat ≤ c.toNat && c.toNat ≤ 'f'.toNat)

/-- Modelled from the spec (§4.1): a WAL file name is exactly sixteen lowercase hex digits
followed by `.wal` or `.wal.gz`. -/
def walNameGrammar (name : String) : Bool :=
  (name.data.take 16).length = 16 && (name.data.take 16).all isLowerHexDigit &&
    (name.data.drop 16 = ".wal".data || name.data.drop 16 = ".wal.gz".data)

theorem isLowerHexDigit_digitChar : ∀ d < 16, isLowerHexDigit (Nat.digitChar d) = true := by
  decide

theorem isLowerHexDigit_hexDigits (w i : Nat) : (hexDigits w i).all isLowerHexDigit = true := by
  induction w generalizing i with
  | zero => rfl
  | succ w ih =>
    simp [hexDigits, ih, isLowerHexDigit_digitChar _ (Nat.mod_lt i (by decide))]

theorem walNameGrammar_walName {i : Nat} (h : i < 16 ^ 16) : walNameGrammar (walName i) = true := by
  simp [walNameGrammar, walName, take_sprintf016x h, drop_sprintf016x h,
    isLowerHexDigit_hexDigits]

/-- Hex digits in the order of their values. -/
theorem digitChar_lt : ∀ a < 16, ∀ b < 16, a < b → (Nat.digitChar a).toNat < (Nat.digitChar b).toNat := by
  decide

/-- **`w` hex digits sort as the numbers they write**, below `16 ^ w`, whatever follows them. -/
theorem hexDigits_nameLe : ∀ (w : Nat) {i j : Nat} (s t : List Char), i < j → j < 16 ^ w →
    FS.nameLe (hexDigits w i ++ s) (hexDigits w j ++ t) = true ∧
      FS.nameLe (hexDigits w j ++ t) (hexDigits w i ++ s) = false
  | 0, _, _, _, _, hij, hj => by simp at hj; omega
  | w + 1, i, j, s, t, hij, hj => by
    have hj' : j / 16 < 16 ^ w := by rw [Nat.pow_succ] at hj; omega
    simp only [hexDigits, List.append_assoc, List.singleton_append]
    rcases Nat.lt_or_ge (i / 16) (j / 16) with hq | hq
    · exact hexDigits_nameLe w _ _ hq hj'
    · have hd := digitChar_lt _ (Nat.mod_lt i (by decide)) _ (Nat.mod_lt j (by decide)) (by omega)
      rw [show i / 16 = j / 16 by omega, FS.nameLe_append_left, FS.nameLe_append_left]
      simp [FS.nameLe, hd, hd.ne', Nat.lt_asymm hd]

/-- **WAL names sort as their indices**, in the order of `sort.Strings`. -/
theorem walName_nameLe {i j : Nat} (hij : i < j) (hj : j < 16 ^ 16) :
    FS.nameLe (walName i).data (walName j).data = true ∧
      FS.nameLe (walName j).data (walName i).data = false := by
  simp only [walName, String.data_append, sprintf016x_data (hij.trans hj), sprintf016x_data hj]
  exact hexDigits_nameLe 16 _ _ hij hj

end Litestream
