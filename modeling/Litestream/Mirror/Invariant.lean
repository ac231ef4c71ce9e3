import Litestream.Faulty
import Litestream.Replica.Retention
/-!
# The mirror invariant

What the destination holds while one replica copies a generation `g` of a source whose shadow
WAL only grows, whatever failed and wherever the process died on the way.  It is stated on the
tree against the shadow WAL `sh` (`Tree`), and on the replica's cached position (`Cached`):

* every WAL file is an uncompressed `WALPath` of an index of the shadow, no longer than it;
* from the latest snapshot on (`Above`), a WAL file holds a prefix of its index, and every
  index below a WAL file is `Complete`: its file holds exactly the shadow's bytes, or it is the
  latest snapshot's index, empty in the shadow, with no file;
* a non-zero `LastPos()` is within the shadow, every index below it from the latest snapshot
  on is complete, its own file holds at least `offset` bytes, and no WAL file lies above it
  but, after a sealed index, the next one.

Only two kinds of change to the tree happen in a run, and each keeps the invariant whatever
else it does: one that adds snapshots of indices of the shadow and touches nothing else of
`g`'s copy (`MoreSnaps`), and one that removes snapshots and WAL files below a snapshot that
stays (`DropBelow`).  The writes of `syncWAL` are the third kind, in `Litestream.Mirror.Copy`.
-/

namespace Litestream

/-! ## 1. A source whose shadow WAL only grows -/

/-- The shadow WAL `sh'` is `sh` grown: it has every index of `sh`; the bytes of every index
but the highest are unchanged (writing a higher index sealed them), and the highest index's
bytes may have been appended to. -/
def ShadowLe (sh sh' : List (List UInt8)) : Prop :=
  sh.length ≤ sh'.length ∧ ∀ j b, sh[j]? = some b →
    ∃ b', sh'[j]? = some b' ∧ b <+: b' ∧ (j + 1 < sh.length → b' = b)

theorem lt_of_getElem? {sh : List (List UInt8)} {j : Nat} {b : List UInt8} (h : sh[j]? = some b) :
    j < sh.length :=
  (List.getElem?_eq_some_iff.mp h).1

namespace ShadowLe

variable {sh sh' sh'' : List (List UInt8)} {j : Nat} {b : List UInt8}

theorem refl (sh : List (List UInt8)) : ShadowLe sh sh :=
  ⟨le_rfl, fun _ b h => ⟨b, h, List.prefix_refl b, fun _ => rfl⟩⟩

theorem trans (h₁ : ShadowLe sh sh') (h₂ : ShadowLe sh' sh'') : ShadowLe sh sh'' := by
  refine ⟨h₁.1.trans h₂.1, fun j b hj => ?_⟩
  obtain ⟨b', hj', hp', hs'⟩ := h₁.2 j b hj
  obtain ⟨b'', hj'', hp'', hs''⟩ := h₂.2 j b' hj'
  exact ⟨b'', hj'', hp'.trans hp'', fun hlt => (hs'' (by have := h₁.1; omega)).trans (hs' hlt)⟩

theorem get (h : ShadowLe sh sh') (hb : sh[j]? = some b) : ∃ b', sh'[j]? = some b' ∧ b <+: b' :=
  let ⟨b', hb', hp, _⟩ := h.2 j b hb
  ⟨b', hb', hp⟩

/-- An index below the highest is sealed. -/
theorem sealed (h : ShadowLe sh sh') (hb : sh[j]? = some b) (hj : j + 1 < sh.length) :
    sh'[j]? = some b :=
  let ⟨_, hb', _, hs⟩ := h.2 j b hb
  hs hj ▸ hb'

/-- Beginning new indices: the highest index is sealed as it was. -/
theorem append (sh ext : List (List UInt8)) : ShadowLe sh (sh ++ ext) :=
  ⟨by simp, fun _ b hb => ⟨b, by rw [List.getElem?_append_left (lt_of_getElem? hb)]; exact hb,
    List.prefix_refl b, fun _ => rfl⟩⟩

/-- Appending bytes to the highest index. -/
theorem extend (sh : List (List UInt8)) (b bs : List UInt8) :
    ShadowLe (sh ++ [b]) (sh ++ [b ++ bs]) := by
  refine ⟨by simp, fun j c hc => ?_⟩
  rcases Nat.lt_or_ge j sh.length with hj | hj
  · rw [List.getElem?_append_left hj] at hc ⊢
    exact ⟨c, hc, List.prefix_refl c, fun _ => rfl⟩
  · obtain rfl : j = sh.length := by have := lt_of_getElem? hc; simp at this; omega
    obtain rfl : c = b := by simpa using hc.symm
    exact ⟨c ++ bs, by simp, List.prefix_append c bs, fun h => by simp at h⟩

end ShadowLe

/-- **What the source does between two calls of the replica**: it writes to its generation's
shadow WAL, which only grows, and checkpoints into the database file; the clock moves on and
the context may be cancelled.  The source stays in its generation, and the destination and the
cached position are the replica's own. -/
def World.Grows (w w' : World) : Prop :=
  w'.fs = w.fs ∧ w'.pos = w.pos ∧ w'.src.generation = w.src.generation ∧
    ShadowLe (w.src.shadow w.src.generation) (w'.src.shadow w.src.generation)

/-! ## 2. The copy of a generation -/

section Copy

variable (g : String)

/-- A snapshot of index `k` is on disk: an entry of `g`'s snapshot directory whose name parses
to `k`. -/
def HasSnap (fs : FS) (k : Nat) : Prop :=
  ∃ x n, fs.get (snapshotDir g ++ [x]) = some n ∧ snapshotIndex x = some k

/-- Every snapshot of `g` is at or below `j`: `j` is at or above the latest snapshot. -/
def Above (fs : FS) (j : Nat) : Prop := ∀ k, HasSnap g fs k → k ≤ j

/-- WAL index `j` is complete: its file holds exactly the shadow's bytes of `j`, or `j` is a
snapshot's index, empty in the shadow, and has no file. -/
def Complete (fs : FS) (sh : List (List UInt8)) (j : Nat) : Prop :=
  ∃ b, sh[j]? = some b ∧ ((∃ t, fs.get (walPath g j) = some (.file (.raw b) t)) ∨
    (fs.get (walPath g j) = none ∧ b = [] ∧ HasSnap g fs j))

/-- **The tree holds a copy of `g`'s shadow WAL `sh`.** -/
structure Tree (fs : FS) (sh : List (List UInt8)) : Prop where
  /-- `g` is the only generation on disk. -/
  onlyGen : ∀ x, fs.get ["generations", x] ≠ none → x = g
  /-- The WAL directory holds uncompressed WAL files only, each named for its index. -/
  walNames : ∀ x n, fs.get (walDir g ++ [x]) = some n →
    ∃ k d t, k < 16 ^ 16 ∧ x = walName k ∧ n = .file (.raw d) t
  /-- A WAL file is no longer than its index of the shadow. -/
  walBound : ∀ k d t, fs.get (walPath g k) = some (.file (.raw d) t) →
    ∃ b, sh[k]? = some b ∧ d.length ≤ b.length
  /-- From the latest snapshot on, a WAL file holds a prefix of its index of the shadow. -/
  walPrefix : ∀ k d t, fs.get (walPath g k) = some (.file (.raw d) t) → Above g fs k →
    ∃ b, sh[k]? = some b ∧ d <+: b
  /-- Every index below a WAL file, from the latest snapshot on, is complete. -/
  walComplete : ∀ k, fs.get (walPath g k) ≠ none → ∀ j < k, Above g fs j → Complete g fs sh j
  /-- Every snapshot is of an index of the shadow. -/
  snapBound : ∀ k, HasSnap g fs k → k < sh.length
  /-- A WAL file is written only once a snapshot is there. -/
  walSnap : ∀ k, fs.get (walPath g k) ≠ none → ∃ j, HasSnap g fs j
  /-- Neither the WAL directory nor a directory above it is a file. -/
  walDirOk : ∀ q, q <+: walDir g → ∀ d t, fs.get q ≠ some (.file d t)

/-- **The cached position `p` is where the copy stands.** -/
structure Cached (fs : FS) (sh : List (List UInt8)) (p : Pos) : Prop where
  gen : p.generation = g
  /-- The position is within the shadow. -/
  bound : ∃ b, sh[p.index]? = some b ∧ p.offset ≤ b.length
  /-- Every index below it, from the latest snapshot on, is complete. -/
  complete : ∀ j < p.index, Above g fs j → Complete g fs sh j
  /-- Its own file holds at least `offset` bytes; or it is the latest snapshot's index, at
  offset `0`, and no WAL file is at or below it. -/
  current : Above g fs p.index →
    (∃ d t, fs.get (walPath g p.index) = some (.file (.raw d) t) ∧ p.offset ≤ d.length) ∨
      (p.offset = 0 ∧ HasSnap g fs p.index ∧ ∀ k ≤ p.index, fs.get (walPath g k) = none)
  /-- Above it, only the next index may have a file, once its own index is sealed at its
  offset. -/
  above : ∀ k, p.index < k → fs.get (walPath g k) ≠ none →
    k = p.index + 1 ∧ k < sh.length ∧ ∃ b, sh[p.index]? = some b ∧ p.offset = b.length
  hasSnap : ∃ k, HasSnap g fs k

end Copy

/-- **The mirror invariant of a world**: the source is in `g` with a shadow WAL, the tree holds
a copy of it, and the cached position is zero or where the copy stands. -/
structure Mirror (g : String) (w : World) : Prop where
  gen : w.src.generation = g
  shadow_ne : w.src.shadow g ≠ []
  tree : Tree g w.fs (w.src.shadow g)
  cached : w.pos.isZero = true ∨ Cached g w.fs (w.src.shadow g) w.pos

section Basics

variable {g : String} {fs : FS} {sh : List (List UInt8)} {k j : Nat}

theorem Tree.wal_file (ht : Tree g fs sh) (h : fs.get (walPath g k) ≠ none) :
    ∃ d t, fs.get (walPath g k) = some (.file (.raw d) t) := by
  obtain ⟨n, hn⟩ := Option.ne_none_iff_exists'.mp h
  obtain ⟨-, d, t, -, -, rfl⟩ := ht.walNames _ n hn
  exact ⟨d, t, hn⟩

theorem Tree.wal_lt (ht : Tree g fs sh) (h : fs.get (walPath g k) ≠ none) : k < sh.length := by
  obtain ⟨d, t, hf⟩ := ht.wal_file h
  obtain ⟨b, hb, -⟩ := ht.walBound k d t hf
  exact lt_of_getElem? hb

/-- A directory on the WAL directory's path is no WAL file. -/
theorem walDir_prefix_ne_walPath {q : Path} (hq : q <+: walDir g) : q ≠ walPath g k := by
  rintro rfl
  simpa [walPath, walDir, generationDir] using hq.length_le

/-- Resolving a path of the WAL directory, or the directory itself, meets no file. -/
theorem Tree.lookupError_wal (ht : Tree g fs sh) {q : Path} (hq : q.dropLast <+: walDir g) :
    fs.lookupError q = .notExist :=
  fs.lookupError_eq_notExist fun q' hq' => ht.walDirOk q' (hq'.trans hq)

theorem Complete.lt (h : Complete g fs sh j) : j < sh.length :=
  let ⟨_, hb, _⟩ := h
  lt_of_getElem? hb

theorem Cached.index_lt {p : Pos} (hc : Cached g fs sh p) : p.index < sh.length :=
  let ⟨_, hb, _⟩ := hc.bound
  lt_of_getElem? hb

end Basics

/-! ## 3. The source's growth keeps the invariant -/

section Grow

variable {g : String} {fs : FS} {sh sh' : List (List UInt8)} (hs : ShadowLe sh sh')
include hs

theorem Complete.grow {j : Nat} (hc : Complete g fs sh j) (hj : j + 1 < sh.length) :
    Complete g fs sh' j :=
  let ⟨b, hb, h⟩ := hc
  ⟨b, hs.sealed hb hj, h⟩

theorem Tree.grow (ht : Tree g fs sh) : Tree g fs sh' where
  onlyGen := ht.onlyGen
  walNames := ht.walNames
  walBound k d t hk := by
    obtain ⟨b, hb, hl⟩ := ht.walBound k d t hk
    obtain ⟨b', hb', hp⟩ := hs.get hb
    exact ⟨b', hb', hl.trans hp.length_le⟩
  walPrefix k d t hk ha := by
    obtain ⟨b, hb, hp⟩ := ht.walPrefix k d t hk ha
    obtain ⟨b', hb', hp'⟩ := hs.get hb
    exact ⟨b', hb', hp.trans hp'⟩
  walComplete k hk j hj ha :=
    (ht.walComplete k hk j hj ha).grow hs (by have := ht.wal_lt hk; omega)
  snapBound k hk := (ht.snapBound k hk).trans_le hs.1
  walSnap := ht.walSnap
  walDirOk := ht.walDirOk

theorem Cached.grow {p : Pos} (hc : Cached g fs sh p) : Cached g fs sh' p where
  gen := hc.gen
  bound := by
    obtain ⟨b, hb, hl⟩ := hc.bound
    obtain ⟨b', hb', hp⟩ := hs.get hb
    exact ⟨b', hb', hl.trans hp.length_le⟩
  complete j hj ha := (hc.complete j hj ha).grow hs (by have := hc.index_lt; omega)
  current := hc.current
  above k hk hf := by
    obtain ⟨rfl, hlt, b, hb, hoff⟩ := hc.above k hk hf
    exact ⟨rfl, hlt.trans_le hs.1, b, hs.sealed hb hlt, hoff⟩
  hasSnap := hc.hasSnap

end Grow

theorem Mirror.grow {g : String} {w w' : World} (hm : Mirror g w) (h : World.Grows w w') :
    Mirror g w' := by
  obtain ⟨hfs, hpos, hgen, hs⟩ := h
  rw [hm.gen] at hgen hs
  refine ⟨hgen, fun h0 => hm.shadow_ne ?_, ?_, ?_⟩
  · exact List.length_eq_zero.mp (Nat.le_zero.mp (by simpa [h0] using hs.1))
  · rw [hfs]
    exact hm.tree.grow hs
  · rw [hfs, hpos]
    exact hm.cached.imp id (Cached.grow hs)

/-! ## 4. The changes of the tree that keep the invariant -/

section Change

variable {g : String} {sh : List (List UInt8)} {fs fs' : FS} {m j k : Nat}

/-- `fs'` holds `g`'s copy of `fs` with more snapshots, each of an index of the shadow `sh`:
the WAL directory is unchanged, and no generation but `g` appeared. -/
structure MoreSnaps (g : String) (sh : List (List UInt8)) (fs fs' : FS) : Prop where
  wal : ∀ x, fs'.get (walDir g ++ [x]) = fs.get (walDir g ++ [x])
  walDirOk : ∀ q, q <+: walDir g → ∀ d t, fs'.get q = some (.file d t) → fs.get q = some (.file d t)
  gens : ∀ x, fs'.get ["generations", x] ≠ none → fs.get ["generations", x] ≠ none ∨ x = g
  snap : ∀ k, HasSnap g fs k → HasSnap g fs' k
  snap_new : ∀ k, HasSnap g fs' k → HasSnap g fs k ∨ k < sh.length

/-- `fs'` holds `g`'s copy of `fs` less some snapshots and WAL files of indices below `m`,
while a snapshot of index `m` stays. -/
structure DropBelow (g : String) (m : Nat) (fs fs' : FS) : Prop where
  kept : ∀ q n, fs'.get q = some n → fs.get q = some n
  wal : ∀ k, fs'.get (walPath g k) = fs.get (walPath g k) ∨
    (fs'.get (walPath g k) = none ∧ k < m)
  gens : ∀ x, fs'.get ["generations", x] ≠ none → fs.get ["generations", x] ≠ none
  snap : ∀ k, HasSnap g fs' k → HasSnap g fs k
  snap_drop : ∀ k, HasSnap g fs k → HasSnap g fs' k ∨ k < m
  keep : HasSnap g fs' m

namespace MoreSnaps

variable (hm : MoreSnaps g sh fs fs')
include hm

theorem wal_eq (k : Nat) : fs'.get (walPath g k) = fs.get (walPath g k) := hm.wal (walName k)

theorem above (ha : Above g fs' j) : Above g fs j := fun k hk => ha k (hm.snap k hk)

theorem complete (hc : Complete g fs sh j) : Complete g fs' sh j := by
  obtain ⟨b, hb, h⟩ := hc
  refine ⟨b, hb, ?_⟩
  rw [hm.wal_eq]
  exact h.imp_right fun ⟨hn, hb0, hs⟩ => ⟨hn, hb0, hm.snap j hs⟩

theorem tree (ht : Tree g fs sh) : Tree g fs' sh where
  onlyGen x hx := (hm.gens x hx).elim (ht.onlyGen x) id
  walNames x n hx := ht.walNames x n (by rwa [← hm.wal])
  walBound k d t hk := ht.walBound k d t (by rwa [← hm.wal_eq])
  walPrefix k d t hk ha := ht.walPrefix k d t (by rwa [← hm.wal_eq]) (hm.above ha)
  walComplete k hk j hj ha :=
    hm.complete (ht.walComplete k (by rwa [← hm.wal_eq]) j hj (hm.above ha))
  snapBound k hk := (hm.snap_new k hk).elim (ht.snapBound k) id
  walSnap k hk :=
    let ⟨j, hj⟩ := ht.walSnap k (by rwa [← hm.wal_eq])
    ⟨j, hm.snap j hj⟩
  walDirOk q hq d t h := ht.walDirOk q hq d t (hm.walDirOk q hq d t h)

theorem cached {p : Pos} (hc : Cached g fs sh p) : Cached g fs' sh p where
  gen := hc.gen
  bound := hc.bound
  complete j hj ha := hm.complete (hc.complete j hj (hm.above ha))
  current ha := by
    simp only [hm.wal_eq]
    exact (hc.current (hm.above ha)).imp_right fun ⟨h0, hs, hn⟩ => ⟨h0, hm.snap _ hs, hn⟩
  above k hk hf := hc.above k hk (by rwa [← hm.wal_eq])
  hasSnap :=
    let ⟨k, hk⟩ := hc.hasSnap
    ⟨k, hm.snap k hk⟩

end MoreSnaps

namespace DropBelow

variable (hd : DropBelow g m fs fs')
include hd

theorem le (ha : Above g fs j) : m ≤ j := ha m (hd.snap m hd.keep)

theorem above_iff : Above g fs' j ↔ Above g fs j :=
  ⟨fun ha k hk => (hd.snap_drop k hk).elim (ha k) fun hlt => (hlt.trans_le (ha m hd.keep)).le,
    fun ha k hk => ha k (hd.snap k hk)⟩

theorem wal_eq (hk : m ≤ k) : fs'.get (walPath g k) = fs.get (walPath g k) :=
  (hd.wal k).resolve_right fun h => by omega

theorem wal_some {n : Node} (h : fs'.get (walPath g k) = some n) : fs.get (walPath g k) = some n :=
  hd.kept _ n h

theorem wal_ne (h : fs'.get (walPath g k) ≠ none) : fs.get (walPath g k) ≠ none := by
  obtain ⟨n, hn⟩ := Option.ne_none_iff_exists'.mp h
  rw [hd.wal_some hn]
  exact Option.some_ne_none n

theorem wal_none (h : fs.get (walPath g k) = none) : fs'.get (walPath g k) = none := by
  by_contra hn
  exact hd.wal_ne hn h

theorem complete (hc : Complete g fs sh j) (hj : m ≤ j) : Complete g fs' sh j := by
  obtain ⟨b, hb, h⟩ := hc
  refine ⟨b, hb, ?_⟩
  rw [hd.wal_eq hj]
  exact h.imp_right fun ⟨hn, hb0, hs⟩ => ⟨hn, hb0, (hd.snap_drop j hs).resolve_right (by omega)⟩

theorem tree (ht : Tree g fs sh) : Tree g fs' sh where
  onlyGen x hx := ht.onlyGen x (hd.gens x hx)
  walNames x n hx := ht.walNames x n (hd.kept _ n hx)
  walBound k d t hk := ht.walBound k d t (hd.wal_some hk)
  walPrefix k d t hk ha := ht.walPrefix k d t (hd.wal_some hk) (hd.above_iff.mp ha)
  walComplete k hk j hj ha :=
    hd.complete (ht.walComplete k (hd.wal_ne hk) j hj (hd.above_iff.mp ha))
      (hd.le (hd.above_iff.mp ha))
  snapBound k hk := ht.snapBound k (hd.snap k hk)
  walSnap _ _ := ⟨m, hd.keep⟩
  walDirOk q hq d t h := ht.walDirOk q hq d t (hd.kept _ _ h)

theorem cached {p : Pos} (hc : Cached g fs sh p) : Cached g fs' sh p where
  gen := hc.gen
  bound := hc.bound
  complete j hj ha :=
    hd.complete (hc.complete j hj (hd.above_iff.mp ha)) (hd.le (hd.above_iff.mp ha))
  current ha := by
    have ha' := hd.above_iff.mp ha
    rw [hd.wal_eq (hd.le ha')]
    exact (hc.current ha').imp_right fun ⟨h0, hs, hn⟩ =>
      ⟨h0, (hd.snap_drop _ hs).resolve_right (by have := hd.le ha'; omega),
        fun k hk => hd.wal_none (hn k hk)⟩
  above k hk hf := hc.above k hk (hd.wal_ne hf)
  hasSnap := ⟨m, hd.keep⟩

end DropBelow

/-- A change at `q` that `g`'s copy does not see, or that adds a snapshot of an index of the
shadow `sh`. -/
def Harmless (g : String) (sh : List (List UInt8)) (fs' : FS) (q : Path) : Prop :=
  (∀ x, q ≠ walDir g ++ [x]) ∧ (∀ x, q = ["generations", x] → x = g ∨ fs'.get q = none) ∧
    (∀ x k, q = snapshotDir g ++ [x] → snapshotIndex x = some k →
      fs'.get q ≠ none ∧ k < sh.length) ∧
    ∀ d t, q <+: walDir g → fs'.get q ≠ some (.file d t)

theorem MoreSnaps.of_changes (h : ∀ q, fs'.get q ≠ fs.get q → Harmless g sh fs' q) :
    MoreSnaps g sh fs fs' where
  wal x := by
    by_contra hx
    exact (h _ hx).1 x rfl
  walDirOk q hq d t hd := by
    by_contra hx
    exact (h _ (fun he => hx (he ▸ hd))).2.2.2 d t hq hd
  gens x hx := by
    by_cases hq : fs'.get ["generations", x] = fs.get ["generations", x]
    · exact .inl (hq ▸ hx)
    · exact .inr (((h _ hq).2.1 x rfl).resolve_right hx)
  snap k := by
    rintro ⟨x, n, hx, hk⟩
    by_cases hq : fs'.get (snapshotDir g ++ [x]) = fs.get (snapshotDir g ++ [x])
    · exact ⟨x, n, hq.trans hx, hk⟩
    · obtain ⟨n', hn'⟩ := Option.ne_none_iff_exists'.mp ((h _ hq).2.2.1 x k rfl hk).1
      exact ⟨x, n', hn', hk⟩
  snap_new k := by
    rintro ⟨x, n, hx, hk⟩
    by_cases hq : fs'.get (snapshotDir g ++ [x]) = fs.get (snapshotDir g ++ [x])
    · exact .inl ⟨x, n, hq ▸ hx, hk⟩
    · exact .inr ((h _ hq).2.2.1 x k rfl hk).2

/-- A change at `q` that removes a snapshot or a WAL file of an index below `m`, or a path
`g`'s copy does not see. -/
def DropsBelow (g : String) (m : Nat) (fs' : FS) (q : Path) : Prop :=
  fs'.get q = none ∧ (∀ k, q = walPath g k → k < m) ∧
    ∀ x k, q = snapshotDir g ++ [x] → snapshotIndex x = some k → k < m

theorem DropBelow.of_changes (h : ∀ q, fs'.get q ≠ fs.get q → DropsBelow g m fs' q)
    (hm : HasSnap g fs' m) : DropBelow g m fs fs' := by
  have kept : ∀ {q n}, fs'.get q = some n → fs.get q = some n := fun {q n} hq => by
    by_cases he : fs'.get q = fs.get q
    · rwa [← he]
    · rw [(h q he).1] at hq
      cases hq
  refine ⟨fun q n hq => kept hq, fun k => ?_, fun x hx => ?_, fun k ⟨x, n, hx, hk⟩ => ⟨x, n, kept hx, hk⟩,
    fun k ⟨x, n, hx, hk⟩ => ?_, hm⟩
  · by_cases he : fs'.get (walPath g k) = fs.get (walPath g k)
    · exact .inl he
    · exact .inr ⟨(h _ he).1, (h _ he).2.1 k rfl⟩
  · obtain ⟨n, hn⟩ := Option.ne_none_iff_exists'.mp hx
    rw [kept hn]
    exact Option.some_ne_none n
  · by_cases he : fs'.get (snapshotDir g ++ [x]) = fs.get (snapshotDir g ++ [x])
    · exact .inl ⟨x, n, he.trans hx, hk⟩
    · exact .inr ((h _ he).2.2 x k rfl hk)

end Change

section MirrorChange

variable {g : String} {w : World} {fs' : FS} {m : Nat}

theorem Mirror.more (hm : Mirror g w) (hc : MoreSnaps g (w.src.shadow g) w.fs fs') :
    Mirror g { w with fs := fs' } :=
  ⟨hm.gen, hm.shadow_ne, hc.tree hm.tree, hm.cached.imp id hc.cached⟩

theorem Mirror.drop (hm : Mirror g w) (hc : DropBelow g m w.fs fs') :
    Mirror g { w with fs := fs' } :=
  ⟨hm.gen, hm.shadow_ne, hc.tree hm.tree, hm.cached.imp id hc.cached⟩

end MirrorChange

/-! ## 5. The start: an empty destination -/

theorem FS.get_empty {q : Path} (hq : q ≠ []) : FS.empty.get q = none := by
  simp [FS.get, FS.empty, hq]

/-- **The invariant holds at the start**: an empty destination and a fresh replica, against a
source in `g` whose shadow WAL has an index. -/
theorem Mirror.fresh {g : String} {src : Source} (clock : Int) (hg : src.generation = g)
    (hne : src.shadow g ≠ []) : Mirror g (World.fresh src clock) := by
  have he : ∀ {q : Path}, q ≠ [] → (World.fresh src clock).fs.get q = none := FS.get_empty
  have hw : ∀ k, (World.fresh src clock).fs.get (walPath g k) = none := fun k => he (by simp [walPath])
  have hs : ∀ k, ¬ HasSnap g FS.empty k := fun k ⟨x, n, hx, _⟩ => by
    rw [FS.get_empty (by simp [snapshotDir])] at hx
    cases hx
  refine ⟨hg, hne, ⟨fun x hx => absurd (he (by simp)) hx, fun x n hx => ?_,
    fun k d t hk => ?_, fun k d t hk _ => ?_, fun k hk => absurd (hw k) hk,
    fun k hk => absurd hk (hs k), fun k hk => absurd (hw k) hk, fun q _ d t hd => ?_⟩, .inl rfl⟩
  · rw [he (by simp [walDir])] at hx
    cases hx
  iterate 2 rw [hw] at hk; cases hk
  · by_cases hq : q = []
    · simp [hq, rootNode] at hd
    · rw [he hq] at hd
      cases hd

end Litestream
