import Mathlib.Data.List.Sort
import Mathlib.Data.List.Infix
/-!
# The destination tree

`FileReplica` keeps everything it writes below one directory, `r.dst`.  This module is the
model of that directory: a finite tree of directories and regular files named by paths below
`dst`, with the calls of the `os` package the replica makes on it, each as POSIX answers it
when the device does not fail.  Device failures are added in `Litestream.World`, as a
relation beside these functions.

A tree is a list of entries, one per path, carrying the two facts that make it a tree: no
path occurs twice, and every entry's parent is a directory of the tree (the root `dst` is not
an entry and is always a directory).  Every operation keeps both, so a value of `FS` is never
a heap of orphans.  Four primitives change the entries (`put`, `drop`, `prune`, `setData`),
each with one lemma saying what `get` answers afterwards; the `os` calls are built from them,
and later modules reason through `get` alone.
-/

namespace Litestream

/-- A path below `r.dst`, one element per component: `filepath.Join(r.dst, "generations", g)`
is `["generations", g]`. -/
abbrev Path := List String

/-- The contents of a regular file: bytes that are not a gzip stream, or a gzip stream, kept as
the data it decompresses to. -/
inductive Data where
  | raw (bytes : List UInt8)
  | gzip (inner : Data)
  deriving DecidableEq, Repr

/-- The length of a gzip stream holding `n` bytes as `gzip.Writer` frames them in stored deflate
blocks: a 10-byte header, a 5-byte header for each block of at most 65535 bytes (one block when
there are none), the bytes, and an 8-byte trailer.  The model's writer stores where Go's
compresses, so the stream holds the same data and may be longer. -/
def gzipLength (n : Nat) : Nat := 10 + 5 * max 1 ((n + 65534) / 65535) + n + 8

namespace Data

/-- The bytes of the file, a gzip stream counted as its content. -/
def bytes : Data → List UInt8
  | raw b => b
  | gzip d => d.bytes

/-- `fi.Size()`: the length of the file, a gzip stream's own. -/
def size : Data → Nat
  | raw b => b.length
  | gzip d => gzipLength d.size

@[simp] theorem size_raw (b : List UInt8) : (raw b).size = b.length := rfl

/-- A file is no shorter than its content. -/
theorem bytes_length_le_size : ∀ d : Data, d.bytes.length ≤ d.size
  | raw _ => le_rfl
  | gzip d => (bytes_length_le_size d).trans (by show d.size ≤ gzipLength d.size; unfold gzipLength; omega)

end Data

/-- The bytes of a file after `bs` is written at offset `off`: what lies before `off` is kept,
a gap past the old end reads as zeros, and what lies past the written range is kept. -/
def overwrite (b : List UInt8) (off : Nat) (bs : List UInt8) : List UInt8 :=
  b.take off ++ List.replicate (off - b.length) 0 ++ bs ++ b.drop (off + bs.length)

theorem overwrite_length (b : List UInt8) (off : Nat) (bs : List UInt8) :
    (overwrite b off bs).length = max (off + bs.length) b.length := by
  simp only [overwrite, List.length_append, List.length_take, List.length_replicate, List.length_drop]
  omega

/-- Writing into a prefix of `b`, within it, bytes that `b` has there leaves a prefix of `b`. -/
theorem overwrite_eq_take {b d bs : List UInt8} {off : Nat} (hd : d <+: b) (hoff : off ≤ d.length)
    (hbs : bs <+: b.drop off) :
    overwrite d off bs = b.take (max (off + bs.length) d.length) := by
  obtain ⟨t, rfl⟩ := hd
  rw [List.prefix_iff_eq_take, List.drop_append_of_le_length hoff] at hbs
  rw [overwrite, Nat.sub_eq_zero_of_le hoff, List.replicate_zero, List.append_nil]
  generalize bs.length = n at hbs
  subst hbs
  by_cases hle : off + n ≤ d.length
  · rw [max_eq_right hle, List.take_append_of_le_length le_rfl, List.take_of_length_le le_rfl,
      List.take_append_of_le_length (by simp; omega), ← List.take_add, List.take_append_drop]
  · rw [max_eq_left (by omega), (List.drop_eq_nil_of_le (by omega) : d.drop (off + n) = []),
      List.append_nil, List.take_add, List.take_append_of_le_length hoff,
      List.drop_append_of_le_length hoff]

/-- What a path of the tree names: a directory or a regular file, each with the size and the
modification time `os.Stat` reports for it. -/
inductive Node where
  | dir (size : Nat) (mtime : Int)
  | file (data : Data) (mtime : Int)
  deriving DecidableEq, Repr

/-- `n` is a directory. -/
def Node.isDir : Node → Bool
  | .dir _ _ => true
  | .file _ _ => false

/-- `n` is a regular file. -/
def Node.isFile (n : Node) : Bool := !n.isDir

/-- The size a directory gets when `MkdirAll` creates it: a block of ext4 or xfs. -/
def newDirSize : Nat := 4096

/-- `r.dst` itself, which no call of the replica lists or stats: its size and time are not
modelled. -/
def rootNode : Node := .dir 0 0

/-- Why an `os` call failed, as far as the replica tells failures apart: `os.IsNotExist` is the
only test it makes, and `io` stands for every failure of the device itself. -/
inductive FsError where
  | notExist
  | notDir
  | isDir
  | notEmpty
  | io
  deriving DecidableEq, Repr

/-- `os.FileInfo`, the four methods the replica calls. -/
structure FileInfo where
  name : String
  isDir : Bool
  size : Nat
  modTime : Int
  deriving DecidableEq, Repr

/-- The `os.FileInfo` of a node named `name`. -/
def Node.info (name : String) : Node → FileInfo
  | .dir s t => ⟨name, true, s, t⟩
  | .file d t => ⟨name, false, d.size, t⟩

/-- A destination tree: its entries, with no path twice and every entry below a directory. -/
structure FS where
  entries : List (Path × Node)
  nodup : (entries.map Prod.fst).Nodup
  parent : ∀ e ∈ entries, e.1 ≠ [] ∧
    (e.1.dropLast = [] ∨ ∃ d ∈ entries, d.1 = e.1.dropLast ∧ d.2.isDir = true)

namespace FS

/-- The empty destination: `dst` and nothing below it. -/
def empty : FS := ⟨[], List.nodup_nil, fun _ h => absurd h (List.not_mem_nil _)⟩

/-- What `p` names, if anything; the root is always a directory. -/
def get (fs : FS) (p : Path) : Option Node :=
  if p = [] then some rootNode else (fs.entries.find? (fun e => e.1 = p)).map Prod.snd

/-- `p` names a directory. -/
def IsDir (fs : FS) (p : Path) : Prop := ∃ s t, fs.get p = some (.dir s t)

instance (fs : FS) (p : Path) : Decidable (fs.IsDir p) :=
  match h : fs.get p with
  | some (.dir s t) => isTrue ⟨s, t, h⟩
  | some (.file _ _) => isFalse fun ⟨_, _, h'⟩ => by rw [h] at h'; cases h'
  | none => isFalse fun ⟨_, _, h'⟩ => by rw [h] at h'; cases h'

/-- No entry of `fs` lies directly below `p`. -/
def Leaf (fs : FS) (p : Path) : Prop := ∀ e ∈ fs.entries, e.1.dropLast ≠ p

instance (fs : FS) (p : Path) : Decidable (fs.Leaf p) :=
  inferInstanceAs (Decidable (∀ e ∈ fs.entries, e.1.dropLast ≠ p))

/-! ## 1. `get` reads the entries -/

section Get

variable {fs : FS} {p q : Path} {n : Node}

theorem eq_of_mem {m : Node} (h₁ : (p, n) ∈ fs.entries) (h₂ : (p, m) ∈ fs.entries) : n = m :=
  congrArg Prod.snd (List.inj_on_of_nodup_map fs.nodup h₁ h₂ rfl)

@[simp] theorem get_nil : fs.get [] = some rootNode := rfl

theorem isDir_nil : fs.IsDir [] := ⟨0, 0, rfl⟩

theorem isDir_of_get {s : Nat} {t : Int} (h : fs.get p = some (.dir s t)) : fs.IsDir p := ⟨s, t, h⟩

theorem not_isDir_of_get_file {d : Data} {t : Int} (h : fs.get p = some (.file d t)) :
    ¬ fs.IsDir p := fun ⟨_, _, h'⟩ => by rw [h] at h'; cases h'

theorem not_isDir_of_get_none (h : fs.get p = none) : ¬ fs.IsDir p :=
  fun ⟨_, _, h'⟩ => by rw [h] at h'; cases h'

theorem get_eq_some_iff (hp : p ≠ []) : fs.get p = some n ↔ (p, n) ∈ fs.entries := by
  simp only [get, hp, if_false, Option.map_eq_some']
  constructor
  · rintro ⟨e, he, rfl⟩
    have hk : e.1 = p := by simpa using List.find?_some he
    exact hk ▸ List.mem_of_find?_eq_some he
  · intro h
    cases hf : fs.entries.find? (fun e => e.1 = p) with
    | none => exact absurd (List.find?_eq_none.mp hf _ h) (by simp)
    | some e =>
      have hk : e.1 = p := by simpa using List.find?_some hf
      have he : (p, e.2) ∈ fs.entries := hk ▸ List.mem_of_find?_eq_some hf
      exact ⟨e, rfl, eq_of_mem he h⟩

/-- Two trees with the same entries at `p` answer alike there. -/
theorem get_congr {fs' : FS} (h : ∀ m, (p, m) ∈ fs'.entries ↔ (p, m) ∈ fs.entries) :
    fs'.get p = fs.get p := by
  by_cases hp : p = []
  · simp [hp]
  · exact Option.ext fun m => by
      rw [Option.mem_def, Option.mem_def, get_eq_some_iff hp, get_eq_some_iff hp, h]

theorem isDir_congr {fs' : FS} (h : fs'.get p = fs.get p) : fs'.IsDir p ↔ fs.IsDir p := by
  simp only [IsDir, h]

theorem mem_entries_ne_nil {e : Path × Node} (h : e ∈ fs.entries) : e.1 ≠ [] := (fs.parent e h).1

/-- The parent of an entry is a directory. -/
theorem get_dropLast (h : (p, n) ∈ fs.entries) : fs.IsDir p.dropLast := by
  rcases (fs.parent _ h).2 with hd | ⟨⟨q, m⟩, hm, rfl, hdir⟩
  · exact hd ▸ isDir_nil
  · cases m with
    | dir s t => exact ⟨s, t, (get_eq_some_iff (mem_entries_ne_nil hm)).mpr hm⟩
    | file => cases hdir

/-- The parent of a path that names something is a directory. -/
theorem get_parent (h : fs.get p = some n) (hp : p ≠ []) : fs.IsDir p.dropLast :=
  get_dropLast ((get_eq_some_iff hp).mp h)

/-- Nothing lies below a path that is not a directory. -/
theorem get_below {x : String} (h : ¬ fs.IsDir p) : fs.get (p ++ [x]) = none := by
  cases hx : fs.get (p ++ [x]) with
  | none => rfl
  | some m => exact absurd (by simpa using get_parent hx (by simp)) h

/-- Only a directory has entries below it. -/
theorem leaf_of_get (h : ¬ fs.IsDir p) : fs.Leaf p := by
  intro e he hep
  exact h (hep ▸ get_dropLast (n := e.2) he)

theorem dropLast_ne_self (hp : p ≠ []) : p.dropLast ≠ p := fun h => by
  have := congrArg List.length h
  simp only [List.length_dropLast] at this
  have : p.length ≠ 0 := by simpa using hp
  omega

end Get

/-! ## 2. The four primitives -/

section Primitives

variable (fs : FS)

/-- `fs` with the entry at `p` set to `n`.  The parent must be a directory, and a path that
still has entries below it must stay a directory. -/
def put (p : Path) (n : Node) (hp : p ≠ []) (hpar : fs.IsDir p.dropLast)
    (hleaf : n.isDir = true ∨ fs.Leaf p) : FS where
  entries := (p, n) :: fs.entries.filter (fun e => e.1 ≠ p)
  nodup := by
    refine List.nodup_cons.mpr ⟨fun h => ?_, fs.nodup.sublist ((List.filter_sublist _).map _)⟩
    obtain ⟨e, he, hep⟩ := List.mem_map.mp h
    exact of_decide_eq_true (List.mem_filter.mp he).2 hep
  parent := by
    intro e he
    rcases List.mem_cons.mp he with rfl | he
    · refine ⟨hp, ?_⟩
      by_cases h0 : p.dropLast = []
      · exact .inl h0
      · obtain ⟨s, t, hg⟩ := hpar
        exact .inr ⟨_, List.mem_cons_of_mem _ (List.mem_filter.mpr
          ⟨(get_eq_some_iff h0).mp hg, by simpa using dropLast_ne_self hp⟩), rfl, rfl⟩
    · obtain ⟨he, hne⟩ := List.mem_filter.mp he
      refine ⟨mem_entries_ne_nil he, ?_⟩
      rcases (fs.parent e he).2 with h | ⟨d, hd, hd1, hd2⟩
      · exact .inl h
      · by_cases hq : e.1.dropLast = p
        · rcases hleaf with hn | hl
          · exact .inr ⟨_, List.mem_cons_self _ _, hq.symm, hn⟩
          · exact absurd hq (hl e he)
        · exact .inr ⟨d, List.mem_cons_of_mem _ (List.mem_filter.mpr ⟨hd, by simpa [hd1] using hq⟩),
            hd1, hd2⟩

/-- `fs` without the entry at `p`, which has nothing below it. -/
def drop (p : Path) (hleaf : fs.Leaf p) : FS where
  entries := fs.entries.filter (fun e => e.1 ≠ p)
  nodup := fs.nodup.sublist ((List.filter_sublist _).map _)
  parent := by
    intro e he
    obtain ⟨he, -⟩ := List.mem_filter.mp he
    refine ⟨mem_entries_ne_nil he, ?_⟩
    rcases (fs.parent e he).2 with h | ⟨d, hd, hd1, hd2⟩
    · exact .inl h
    · exact .inr ⟨d, List.mem_filter.mpr ⟨hd, by simpa [hd1] using hleaf e he⟩, hd1, hd2⟩

/-- `fs` without `p` and everything below it. -/
def prune (p : Path) : FS where
  entries := fs.entries.filter (fun e => !(p <+: e.1))
  nodup := fs.nodup.sublist ((List.filter_sublist _).map _)
  parent := by
    intro e he
    obtain ⟨he, hk⟩ := List.mem_filter.mp he
    refine ⟨mem_entries_ne_nil he, ?_⟩
    rcases (fs.parent e he).2 with h | ⟨d, hd, hd1, hd2⟩
    · exact .inl h
    · refine .inr ⟨d, List.mem_filter.mpr ⟨hd, ?_⟩, hd1, hd2⟩
      simp only [Bool.not_eq_true', decide_eq_false_iff_not] at hk ⊢
      exact fun hp => hk (hp.trans (hd1 ▸ List.dropLast_prefix _))

/-- The entry `e` with its file contents passed through `f` and its time set to `t`, when `e`
is the file at `p`. -/
def touch (p : Path) (f : Data → Data) (t : Int) : Path × Node → Path × Node
  | (q, .file d m) => if q = p then (q, .file (f d) t) else (q, .file d m)
  | (q, .dir s m) => (q, .dir s m)

theorem touch_fst (p : Path) (f : Data → Data) (t : Int) (e : Path × Node) :
    (touch p f t e).1 = e.1 := by
  rcases e with ⟨q, _ | ⟨d, m⟩⟩
  · rfl
  · simp only [touch]; split_ifs <;> rfl

theorem touch_isDir (p : Path) (f : Data → Data) (t : Int) (e : Path × Node) :
    (touch p f t e).2.isDir = e.2.isDir := by
  rcases e with ⟨q, _ | ⟨d, m⟩⟩
  · rfl
  · simp only [touch]; split_ifs <;> rfl

/-- `fs` with the file at `p` rewritten by `f` at time `t`; nothing happens if `p` is not a
file. -/
def setData (p : Path) (f : Data → Data) (t : Int) : FS where
  entries := fs.entries.map (touch p f t)
  nodup := by
    have : (fs.entries.map (touch p f t)).map Prod.fst = fs.entries.map Prod.fst := by
      simp only [List.map_map]
      exact List.map_congr_left fun e _ => touch_fst p f t e
    rw [this]; exact fs.nodup
  parent := by
    intro e he
    obtain ⟨e₀, he₀, rfl⟩ := List.mem_map.mp he
    rw [touch_fst]
    refine ⟨mem_entries_ne_nil he₀, ?_⟩
    rcases (fs.parent e₀ he₀).2 with h | ⟨d, hd, hd1, hd2⟩
    · exact .inl h
    · exact .inr ⟨touch p f t d, List.mem_map_of_mem _ hd, (touch_fst p f t d).trans hd1,
        (touch_isDir p f t d).trans hd2⟩

end Primitives

/-! ## 3. What `get` answers after each primitive -/

section GetPrimitives

variable {fs : FS} {p q : Path}

@[simp] theorem get_put {n : Node} {hp : p ≠ []} {hpar} {hleaf} :
    (fs.put p n hp hpar hleaf).get q = if q = p then some n else fs.get q := by
  by_cases hq : q = p
  · subst hq; simp [get_eq_some_iff hp, put]
  · rw [if_neg hq]
    exact get_congr fun m => by simp [put, hq]

@[simp] theorem get_drop {hleaf : fs.Leaf p} :
    (fs.drop p hleaf).get q = if q = p ∧ q ≠ [] then none else fs.get q := by
  by_cases hq : q = p ∧ q ≠ []
  · rw [if_pos hq, get, if_neg hq.2, Option.map_eq_none', List.find?_eq_none]
    intro e he
    simpa [drop, hq.1] using (List.mem_filter.mp he).2
  · rw [if_neg hq]
    by_cases h0 : q = []
    · simp [h0]
    · exact get_congr fun m => by
        have : q ≠ p := fun h => hq ⟨h, h0⟩
        simp [drop, this]

@[simp] theorem get_prune :
    (fs.prune p).get q = if p <+: q ∧ q ≠ [] then none else fs.get q := by
  by_cases hq : p <+: q ∧ q ≠ []
  · rw [if_pos hq, get, if_neg hq.2, Option.map_eq_none', List.find?_eq_none]
    intro e he hk
    have : e.1 = q := by simpa using hk
    simp [prune, this, hq.1] at he
  · rw [if_neg hq]
    by_cases h0 : q = []
    · simp [h0]
    · exact get_congr fun m => by
        have : ¬ p <+: q := fun h => hq ⟨h, h0⟩
        simp [prune, this]

/-- `os.RemoveAll` cut short: the subtrees it reached are gone. -/
theorem get_foldl_prune : ∀ (qs : List Path) (fs : FS),
    (qs.foldl prune fs).get q = if (∃ r ∈ qs, r <+: q) ∧ q ≠ [] then none else fs.get q
  | [], fs => by simp
  | r :: qs, fs => by
    rw [List.foldl_cons, get_foldl_prune qs, get_prune]
    by_cases h0 : q = [] <;> by_cases hr : r <+: q <;> simp [h0, hr]

/-- What `touch` leaves at an entry of path `q`. -/
def touchNode (p : Path) (f : Data → Data) (t : Int) (q : Path) : Node → Node
  | .file d m => if q = p then .file (f d) t else .file d m
  | .dir s m => .dir s m

theorem touch_eq {f : Data → Data} {t : Int} (n : Node) :
    FS.touch p f t (q, n) = (q, touchNode p f t q n) := by
  cases n with
  | dir => rfl
  | file d m => simp only [touch, touchNode]; split_ifs <;> rfl

@[simp] theorem get_setData {f : Data → Data} {t : Int} :
    (fs.setData p f t).get q = (fs.get q).map (touchNode p f t q) := by
  by_cases h0 : q = []
  · simp [h0, touchNode, rootNode]
  · refine Option.ext fun m => ?_
    rw [Option.mem_def, get_eq_some_iff h0, Option.mem_def, Option.map_eq_some']
    simp only [setData, List.mem_map, get_eq_some_iff h0]
    constructor
    · rintro ⟨⟨e1, n⟩, he, hm⟩
      rw [touch_eq] at hm
      obtain ⟨rfl, rfl⟩ := Prod.mk.inj hm
      exact ⟨n, he, rfl⟩
    · rintro ⟨n, hn, rfl⟩
      exact ⟨(q, n), hn, touch_eq n⟩

/-- Writing into a file keeps every directory as it is, and makes none. -/
theorem get_setData_dir {f : Data → Data} {t : Int} {s : Nat} {m : Int} :
    (fs.setData p f t).get q = some (.dir s m) ↔ fs.get q = some (.dir s m) := by
  rw [get_setData]
  cases fs.get q with
  | none => simp
  | some n =>
    cases n with
    | dir => simp [touchNode]
    | file d m => simp only [touchNode, Option.map_some']; split_ifs <;> simp

theorem isDir_setData {f : Data → Data} {t : Int} : (fs.setData p f t).IsDir q ↔ fs.IsDir q :=
  exists_congr fun _ => exists_congr fun _ => get_setData_dir

/-- Writing into a file changes no other path. -/
theorem get_setData_ne {f : Data → Data} {t : Int} (hq : q ≠ p) : (fs.setData p f t).get q = fs.get q := by
  rw [get_setData]
  cases fs.get q with
  | none => rfl
  | some n => cases n <;> simp [touchNode, hq]

theorem get_setData_eq_none {f : Data → Data} {t : Int} :
    (fs.setData p f t).get q = none ↔ fs.get q = none := by
  rw [get_setData, Option.map_eq_none']

/-- Writing into a file makes no file where there was none. -/
theorem get_setData_file {f : Data → Data} {t m : Int} {d : Data}
    (h : (fs.setData p f t).get q = some (.file d m)) : ∃ d' m', fs.get q = some (.file d' m') := by
  rcases hq : fs.get q with _ | ⟨s, m₀⟩ | ⟨d', m'⟩
  · rw [get_setData_eq_none.mpr hq] at h
    cases h
  · rw [get_setData_dir.mpr hq] at h
    cases h
  · exact ⟨d', m', rfl⟩

end GetPrimitives

/-! ## 4. The `os` calls -/

section Calls

variable (fs : FS)

/-- The name of `q` when `q` lies directly below `p`. -/
def childName (p q : Path) : Option String := if q.dropLast = p then q.getLast? else none

theorem childName_eq_some {p q : Path} {x : String} : childName p q = some x ↔ q = p ++ [x] := by
  unfold childName
  constructor
  · intro h
    split_ifs at h with hd
    have hq : q ≠ [] := fun h0 => by simp [h0] at h
    have hx : q.getLast hq = x := by
      rw [List.getLast?_eq_getLast q hq] at h
      exact Option.some.inj h
    rw [← List.dropLast_append_getLast hq, hd, hx]
  · rintro rfl
    simp

/-- The entries directly below `p`, by name. -/
def children (p : Path) : List (String × Node) :=
  fs.entries.filterMap fun e => (childName p e.1).map (·, e.2)

theorem mem_children {p : Path} {x : String} {n : Node} :
    (x, n) ∈ fs.children p ↔ fs.get (p ++ [x]) = some n := by
  rw [get_eq_some_iff (by simp), children, List.mem_filterMap]
  constructor
  · rintro ⟨e, he, h⟩
    obtain ⟨y, hy, hxy⟩ := Option.map_eq_some'.mp h
    obtain ⟨rfl, rfl⟩ := Prod.mk.inj hxy
    exact childName_eq_some.mp hy ▸ he
  · intro h
    exact ⟨_, h, by simp [childName_eq_some.mpr rfl]⟩

/-- The order of `sort.Strings`, and of the names `ioutil.ReadDir` returns: character by
character, a prefix first.  It compares character codes, so that it computes. -/
def nameLe : List Char → List Char → Bool
  | [], _ => true
  | _ :: _, [] => false
  | a :: as, b :: bs => decide (a.toNat < b.toNat) || (decide (a.toNat = b.toNat) && nameLe as bs)

/-- A common prefix leaves the order to what follows it. -/
@[simp] theorem nameLe_append_left (l as bs : List Char) : nameLe (l ++ as) (l ++ bs) = nameLe as bs := by
  induction l with
  | nil => rfl
  | cons c l ih => simp [nameLe, ih]

/-- The error of a call on a path that names nothing: `ENOTDIR` when resolving it meets a
regular file, `ENOENT` otherwise. -/
def lookupError (p : Path) : FsError :=
  if p.dropLast.inits.any fun q => (fs.get q).any Node.isFile then .notDir else .notExist

/-- Nothing is at `p`, and resolving `p` meets no regular file: a call on `p` fails with
`ENOENT`, which `os.IsNotExist` matches. -/
def Absent (p : Path) : Prop := fs.get p = none ∧ fs.lookupError p = .notExist

/-- `ioutil.ReadDir`: the entries below the directory `p`, sorted by name. -/
def readDir (p : Path) : Except FsError (List FileInfo) :=
  match fs.get p with
  | none => .error (fs.lookupError p)
  | some (.file _ _) => .error .notDir
  | some (.dir _ _) =>
    .ok (((fs.children p).map fun c => c.2.info c.1).insertionSort fun a b => nameLe a.name.data b.name.data)

/-- Resolving `p` meets no regular file when none of its ancestors is one. -/
theorem lookupError_eq_notExist {p : Path}
    (h : ∀ q, q <+: p.dropLast → ∀ d t, fs.get q ≠ some (.file d t)) :
    fs.lookupError p = .notExist := by
  rw [lookupError, if_neg]
  simp only [List.any_eq_true, List.mem_inits _ p.dropLast, not_exists, not_and, Bool.not_eq_true]
  intro q hq
  cases hg : fs.get q with
  | none => rfl
  | some n =>
    cases n with
    | dir => rfl
    | file d t => exact absurd hg (h q hq d t)

theorem readDir_of_get_none {p : Path} (h : fs.get p = none) :
    fs.readDir p = .error (fs.lookupError p) := by
  simp [readDir, h]

theorem readDir_of_absent {p : Path} (h : fs.Absent p) : fs.readDir p = .error .notExist := by
  rw [readDir_of_get_none fs h.1, h.2]

theorem readDir_of_dir {p : Path} (h : fs.IsDir p) : ∃ fis, fs.readDir p = .ok fis := by
  obtain ⟨s, t, h⟩ := h
  simp [readDir, h]

@[simp] theorem Node.info_name (x : String) (n : Node) : (n.info x).name = x := by
  cases n <;> rfl

/-- What `ReadDir` lists: an entry for each path directly below `p`. -/
theorem mem_readDir {p : Path} {fis : List FileInfo} (h : fs.readDir p = .ok fis) {fi : FileInfo} :
    fi ∈ fis ↔ ∃ n, fs.get (p ++ [fi.name]) = some n ∧ fi = n.info fi.name := by
  unfold readDir at h
  split at h <;> cases h
  rw [List.mem_insertionSort, List.mem_map]
  constructor
  · rintro ⟨⟨x, n⟩, hx, rfl⟩
    exact ⟨n, by simpa using (mem_children fs).mp hx, by simp⟩
  · rintro ⟨n, hn, hfi⟩
    exact ⟨(fi.name, n), (mem_children fs).mpr hn, hfi.symm⟩

/-- An entry below `p` is listed under its name. -/
theorem info_mem_readDir {p : Path} {fis : List FileInfo} (h : fs.readDir p = .ok fis) {x : String}
    {n : Node} (hx : fs.get (p ++ [x]) = some n) : n.info x ∈ fis :=
  (mem_readDir fs h).mpr ⟨n, by simpa using hx, by simp⟩

/-- `ReadDir` lists each name once. -/
theorem readDir_nodup {p : Path} {fis : List FileInfo} (h : fs.readDir p = .ok fis) :
    (fis.map (·.name)).Nodup := by
  unfold readDir at h
  split at h <;> cases h
  have hc : ((fs.children p).map Prod.fst).Nodup := by
    have : (fs.children p).map Prod.fst = (fs.entries.map Prod.fst).filterMap (childName p) := by
      simp [children, List.map_filterMap, List.filterMap_map, Function.comp_def]
    rw [this]
    exact fs.nodup.filterMap fun q q' x hq hq' =>
      (childName_eq_some.mp hq).trans (childName_eq_some.mp hq').symm
  refine ((List.perm_insertionSort _ _).map _).nodup_iff.mpr ?_
  simpa [List.map_map, Function.comp_def] using hc

theorem get_dir_of_readDir {p : Path} {fis : List FileInfo} (h : fs.readDir p = .ok fis) :
    fs.IsDir p := by
  unfold readDir at h
  split at h
  · cases h
  · cases h
  · exact isDir_of_get ‹_›

/-- `os.Stat` (and `os.Lstat`: the tree has no links). -/
def stat (p : Path) : Except FsError FileInfo :=
  match fs.get p with
  | none => .error (fs.lookupError p)
  | some n => .ok (n.info (p.getLast?.getD ""))

/-- `mkdirAll` below the directory `base`, one component at a time: a missing directory is
created, at time `t`, and a file in the way is an error. -/
def mkdirAllFrom (t : Int) : (fs : FS) → (base : Path) → fs.IsDir base →
    List String → Except FsError FS
  | fs, _, _, [] => .ok fs
  | fs, base, hbase, c :: cs =>
    match h : fs.get (base ++ [c]) with
    | some (.dir _ _) => mkdirAllFrom t fs (base ++ [c]) (isDir_of_get h) cs
    | some (.file _ _) => .error .notDir
    | none =>
      let fs' := fs.put (base ++ [c]) (.dir newDirSize t) (by simp) (by simpa using hbase) (.inl rfl)
      mkdirAllFrom t fs' (base ++ [c]) ⟨newDirSize, t, by simp [fs']⟩ cs

/-- Modelled from the spec: the package's `mkdirAll(path, mode, uid, gid)`, "Directory
creation is recursive"; modes and owners are not modelled. -/
def mkdirAll (p : Path) (t : Int) : Except FsError FS := mkdirAllFrom t fs [] isDir_nil p

/-- `p` set to a file holding `d`, modified at `t`, when `p` is not a directory and its
parent is one. -/
def writeFile (p : Path) (d : Data) (t : Int) : Except FsError FS :=
  if hd : fs.IsDir p then .error .isDir else
  match hpar : fs.get p.dropLast with
  | some (.dir _ _) =>
    if hp : p = [] then .error .isDir
    else .ok (fs.put p (.file d t) hp (isDir_of_get hpar) (.inr (leaf_of_get hd)))
  | some (.file _ _) => .error .notDir
  | none => .error (fs.lookupError p)

/-- `os.OpenFile(p, os.O_RDWR|os.O_CREATE, 0600)`: an existing file is kept as it is. -/
def openFile (p : Path) (t : Int) : Except FsError FS :=
  match fs.get p with
  | some (.file _ _) => .ok fs
  | _ => fs.writeFile p (.raw []) t

/-- `os.Create(p)`: the file at `p`, created or truncated. -/
def create (p : Path) (t : Int) : Except FsError FS := fs.writeFile p (.raw []) t

/-- Writing `bs` at offset `off` through a handle on `p`.  If `p` was removed since it was
opened the bytes go to the unlinked file and the tree does not change. -/
def writeAt (p : Path) (off : Nat) (bs : List UInt8) (t : Int) : FS :=
  fs.setData p (fun d => .raw (overwrite d.bytes off bs)) t

/-- `os.Rename(a, b)` of a file: `b`, if a file, is replaced, and keeps `a`'s time. -/
def rename (a b : Path) : Except FsError FS :=
  match ha : fs.get a with
  | none => .error (fs.lookupError a)
  | some (.dir _ _) => .error .isDir
  | some (.file d t) =>
    if a = b then .ok fs
    else (fs.drop a (leaf_of_get (not_isDir_of_get_file ha))).writeFile b d t

/-- `os.Remove(p)`: a file, or a directory with nothing below it. -/
def remove (p : Path) : Except FsError FS :=
  match fs.get p with
  | none => .error (fs.lookupError p)
  | some _ => if h : fs.Leaf p then .ok (fs.drop p h) else .error .notEmpty

/-- `os.RemoveAll(p)`: `p` and everything below it; a missing `p` is no error. -/
def removeAll (p : Path) : FS := fs.prune p

/-- `filepath.Match` for a pattern whose only meta-character is `*`, the only one the code's
patterns (`**`, `*.wal`) use: `*` matches any run of characters, and names hold no
separator. -/
def starMatch : List Char → List Char → Bool
  | [], s => s = []
  | '*' :: p, s => (List.range (s.length + 1)).any fun k => starMatch p (s.drop k)
  | c :: p, d :: s => c = d && starMatch p s
  | _ :: _, [] => false

/-- `filepath.Glob` of the pattern `dir` joined with the components `pat`: the paths whose
components below `dir` match `pat` one by one, each but the last through a directory, in
name order at each level. -/
def glob : Path → List String → List Path
  | dir, [] => [dir]
  | dir, c :: cs =>
    match fs.get dir with
    | some (.dir _ _) =>
      (((fs.children dir).map Prod.fst).filter (fun x => starMatch c.toList x.toList)
        |>.insertionSort fun a b => nameLe a.data b.data).flatMap fun x => glob (dir ++ [x]) cs
    | _ => []

end Calls

/-! ## 5. What `get` answers after each call that succeeded -/

section CallEffects

variable {fs fs' : FS} {p q : Path}

/-- `Stat` succeeds on an entry, with that entry's `FileInfo`, and fails only where there is
none. -/
theorem stat_eq_ok {fi : FileInfo} (h : fs.stat p = .ok fi) :
    ∃ n, fs.get p = some n ∧ fi = n.info (p.getLast?.getD "") := by
  unfold stat at h
  split at h
  · cases h
  · cases h
    exact ⟨_, ‹_›, rfl⟩

theorem get_of_stat_error {e : FsError} (h : fs.stat p = .error e) : fs.get p = none := by
  unfold stat at h
  split at h
  · assumption
  · cases h

/-- `Glob` answers paths below its directory, one component below it for each of the
pattern's. -/
theorem length_of_mem_glob : ∀ {dir q : Path} (pat : List String), q ∈ fs.glob dir pat →
    q.length = dir.length + pat.length
  | dir, q, [], h => by
    rw [glob, List.mem_singleton] at h
    simp [h]
  | dir, q, c :: cs, h => by
    unfold glob at h
    split at h
    · obtain ⟨x, -, hx⟩ := List.mem_flatMap.mp h
      rw [length_of_mem_glob cs hx, List.length_append, List.length_singleton, List.length_cons]
      omega
    · simp at h

theorem writeFile_eq_ok {d : Data} {t : Int} (h : fs.writeFile p d t = .ok fs') :
    ¬ fs.IsDir p ∧ fs.IsDir p.dropLast ∧ p ≠ [] ∧
      ∀ q, fs'.get q = if q = p then some (.file d t) else fs.get q := by
  unfold writeFile at h
  split at h
  · cases h
  · split at h
    · split at h
      · cases h
      · cases h
        exact ⟨‹_›, isDir_of_get ‹_›, ‹_›, fun q => get_put⟩
    · cases h
    · cases h

/-- `os.OpenFile` with `O_CREATE` creates an empty file where there was none. -/
theorem openFile_eq_ok {t : Int} (h : fs.openFile p t = .ok fs') :
    ∀ q, fs'.get q = if q = p ∧ fs.get p = none then some (.file (.raw []) t) else fs.get q := by
  unfold openFile at h
  split at h
  · cases h
    intro q
    rw [if_neg fun hq => by simp_all]
  · obtain ⟨hd, -, -, hget⟩ := writeFile_eq_ok h
    intro q
    rw [hget]
    by_cases hq : q = p
    · subst hq
      cases hp : fs.get q with
      | none => simp
      | some n =>
        cases n with
        | dir s t => exact absurd (isDir_of_get hp) hd
        | file => simp_all
    · simp [hq]

theorem rename_eq_ok {a b : Path} (h : fs.rename a b = .ok fs') :
    ∃ d t, fs.get a = some (.file d t) ∧
      ∀ q, fs'.get q = if q = b then some (.file d t) else if q = a then none else fs.get q := by
  unfold rename at h
  split at h
  · cases h
  · cases h
  · rename_i d t ha
    have ha0 : a ≠ [] := fun h0 => by simp [h0, rootNode] at ha
    refine ⟨d, t, ha, fun q => ?_⟩
    split_ifs at h with hab
    · cases h
      subst hab
      split_ifs with hq
      · rw [hq, ha]
      · rfl
    · obtain ⟨-, -, -, hget⟩ := writeFile_eq_ok h
      rw [hget, get_drop]
      split_ifs with h1 h2 h3 <;> simp_all

theorem remove_eq_ok (h : fs.remove p = .ok fs') :
    fs.get p ≠ none ∧ fs.Leaf p ∧ ∀ q, fs'.get q = if q = p ∧ q ≠ [] then none else fs.get q := by
  unfold remove at h
  split at h
  · cases h
  · split_ifs at h with hl
    cases h
    exact ⟨by simp_all, hl, fun q => get_drop⟩

/-- A path between `base` and `base ++ c :: cs` is `base` or lies below `base ++ [c]`. -/
theorem prefix_step {base : Path} {c : String} {cs : List String} (h₁ : base <+: q)
    (h₂ : q <+: base ++ c :: cs) : q = base ∨ base ++ [c] <+: q := by
  obtain ⟨t, rfl⟩ := h₁
  rcases t with _ | ⟨c', t⟩
  · exact .inl (List.append_nil _)
  · obtain ⟨rfl, -⟩ := List.cons_prefix_cons.mp ((List.prefix_append_right_inj base).mp h₂)
    exact .inr ⟨t, by simp⟩

/-- The directories `mkdirAllFrom` may create below `base ++ [c]` are those it may create below
`base`, when `base` is there. -/
theorem mkdir_range_step {base : Path} {c : String} {cs : List String} (hb : fs.get base ≠ none) :
    (base <+: q ∧ q <+: base ++ c :: cs ∧ fs.get q = none) ↔
      (base ++ [c] <+: q ∧ q <+: base ++ [c] ++ cs ∧ fs.get q = none) := by
  rw [List.append_assoc, List.singleton_append]
  constructor
  · rintro ⟨h₁, h₂, h₃⟩
    rcases prefix_step h₁ h₂ with rfl | h
    · exact absurd h₃ hb
    · exact ⟨h, h₂, h₃⟩
  · rintro ⟨h₁, h₂, h₃⟩
    exact ⟨(List.prefix_append _ _).trans h₁, h₂, h₃⟩

/-- `mkdirAll` creates the missing directories between `base` and `base ++ cs`. -/
theorem mkdirAllFrom_eq_ok {t : Int} : ∀ {fs : FS} {base : Path} {hbase : fs.IsDir base}
    {cs : List String}, mkdirAllFrom t fs base hbase cs = .ok fs' →
    ∀ q, fs'.get q = if base <+: q ∧ q <+: base ++ cs ∧ fs.get q = none then
      some (.dir newDirSize t) else fs.get q
  | fs, base, hbase, [], h, q => by
    cases h
    rw [if_neg]
    rintro ⟨h₁, h₂, h₃⟩
    rw [List.append_nil] at h₂
    obtain ⟨s, t, hb⟩ := hbase
    rw [h₂.eq_of_length (Nat.le_antisymm h₂.length_le h₁.length_le), hb] at h₃
    cases h₃
  | fs, base, hbase, c :: cs, h, q => by
    have hb : fs.get base ≠ none := fun h0 => not_isDir_of_get_none h0 hbase
    unfold mkdirAllFrom at h
    split at h
    · rw [mkdirAllFrom_eq_ok h q]
      simp only [mkdir_range_step hb]
    · cases h
    · rename_i hc
      rw [mkdirAllFrom_eq_ok h q, get_put]
      by_cases hq : q = base ++ [c]
      · subst hq
        rw [if_neg (by simp), if_pos rfl, if_pos ⟨List.prefix_append _ _, ⟨cs, by simp⟩, hc⟩]
      · simp only [hq, if_false, mkdir_range_step hb]

/-- `mkdirAll` creates the missing directories on the path `p`. -/
theorem mkdirAll_eq_ok {t : Int} (h : fs.mkdirAll p t = .ok fs') :
    ∀ q, fs'.get q = if q <+: p ∧ fs.get q = none then some (.dir newDirSize t) else fs.get q := by
  intro q
  rw [mkdirAllFrom_eq_ok h q]
  simp only [List.nil_prefix, true_and, List.nil_append]

end CallEffects

/-! ## 6. When a call succeeds

The converse of section 5, for the calls the replica makes with a path it built itself: each
succeeds when nothing of the wrong kind stands on the path.
-/

section CallSucceeds

variable {fs : FS} {p : Path}

/-- `MkdirAll` succeeds when no file stands on its path. -/
theorem mkdirAllFrom_ok {t : Int} : ∀ {fs : FS} {base : Path} {hbase : fs.IsDir base}
    {cs : List String}, (∀ q, q <+: base ++ cs → ∀ d t, fs.get q ≠ some (.file d t)) →
    ∃ fs', mkdirAllFrom t fs base hbase cs = .ok fs'
  | fs, _, _, [], _ => ⟨fs, rfl⟩
  | fs, base, hbase, c :: cs, h => by
    have h' : ∀ q, q <+: base ++ [c] ++ cs → ∀ d t, fs.get q ≠ some (.file d t) :=
      fun q hq => h q (by simpa using hq)
    unfold mkdirAllFrom
    split
    · exact mkdirAllFrom_ok h'
    · next d t hc => exact absurd hc (h' _ ⟨cs, rfl⟩ d t)
    · refine mkdirAllFrom_ok fun q hq d t => ?_
      rw [get_put]
      split_ifs
      · simp
      · exact h' q hq d t

theorem mkdirAll_ok {t : Int} (h : ∀ q, q <+: p → ∀ d t, fs.get q ≠ some (.file d t)) :
    ∃ fs', fs.mkdirAll p t = .ok fs' :=
  mkdirAllFrom_ok (by simpa using h)

/-- `ReadDir` fails only with `ErrNotExist` where no file stands on the path. -/
theorem readDir_error {e : FsError} (h : fs.readDir p = .error e)
    (hp : ∀ q, q <+: p → ∀ d t, fs.get q ≠ some (.file d t)) : e = .notExist := by
  unfold readDir at h
  split at h
  · rw [← Except.error.inj h]
    exact fs.lookupError_eq_notExist fun q hq => hp q (hq.trans (List.dropLast_prefix p))
  · next d t hq => exact absurd hq (hp p (List.prefix_refl p) d t)
  · cases h

/-- A file is written when its path is not a directory and its parent is one. -/
theorem writeFile_ok {d : Data} {t : Int} (hd : ¬ fs.IsDir p)
    (hdir : fs.IsDir p.dropLast) (hp : p ≠ []) : ∃ fs', fs.writeFile p d t = .ok fs' := by
  unfold writeFile
  rw [dif_neg hd]
  obtain ⟨s, m, hdir⟩ := hdir
  split
  · exact ⟨_, dif_neg hp⟩
  · next h => simp [hdir] at h
  · next h => simp [hdir] at h

theorem openFile_ok {t : Int} (hd : ¬ fs.IsDir p) (hdir : fs.IsDir p.dropLast)
    (hp : p ≠ []) : ∃ fs', fs.openFile p t = .ok fs' := by
  unfold openFile
  split
  · exact ⟨_, rfl⟩
  · exact writeFile_ok hd hdir hp

/-- A file is renamed onto another path that is not a directory and whose parent is one. -/
theorem rename_ok {a b : Path} {d : Data} {t : Int} (ha : fs.get a = some (.file d t)) (hab : a ≠ b)
    (hb : ¬ fs.IsDir b) (hdir : fs.IsDir b.dropLast) (hb0 : b ≠ []) :
    ∃ fs', fs.rename a b = .ok fs' := by
  unfold rename
  split
  · next h => simp [ha] at h
  · next h => simp [ha] at h
  · rw [if_neg hab]
    refine writeFile_ok (fun ⟨s, m, h⟩ => hb ⟨s, m, ?_⟩) ?_ hb0
    · rwa [get_drop, if_neg fun h => hab h.1.symm] at h
    · obtain ⟨s, m, h⟩ := hdir
      refine ⟨s, m, ?_⟩
      rwa [get_drop, if_neg fun h' => by simp [h'.1, ha] at h]

/-- A leaf that is there is removed. -/
theorem remove_ok (h : fs.get p ≠ none) (hl : fs.Leaf p) : ∃ fs', fs.remove p = .ok fs' := by
  unfold remove
  split
  · contradiction
  · exact ⟨_, dif_pos hl⟩

end CallSucceeds

end FS

end Litestream
