import Litestream.Mirror.Steps
import Mathlib.Data.List.Infix
/-!
# The copy step of `syncWAL` keeps the invariant

`syncWAL` asks the adapter for a reader at `LastPos()`, then writes what it yields into the
WAL file of the reader's index, at the reader's offset, and publishes the reader's end
position.  With the repository's adapter the reader is a `ReaderAt`: bytes of the shadow at
`LastPos()`, or at the start of the next index once `LastPos()`'s index is sealed at its
offset.  This module proves what each of the three changes does to the invariant, whatever
the source appended meanwhile:

* `open_wal`: `os.OpenFile` with `O_CREATE` creates an empty WAL file;
* `write_wal`: the copy, complete or cut short, leaves a prefix of the shadow's index (the
  seek-then-copy into a file that is not truncated only ever rewrites the bytes it had);
* `Cached.advance`: once the file holds the reader's bytes, the reader's end is a position
  where the copy stands;
* `caughtUp_of_eof`: at the position where the adapter answers `io.EOF`, the copy has caught
  up with the shadow.

All three writes are one change, a WAL file set to some bytes, and `Tree.setWal` and
`Cached.setWal` say once what such a change must satisfy.
-/

namespace Litestream

theorem walPath_inj {g : String} {k k' : Nat} (h : walPath g k = walPath g k') : k = k' :=
  walName_inj (List.singleton_inj.mp (List.append_cancel_left h))

/-! ## 1. The reader -/

/-- A reader the repository's adapter answered at `p`, in a form the source's growth keeps:
bytes of the shadow `sh` at the reader's position, which is `p` when `p`'s index has bytes past
its offset, else the start of the next index, `p`'s index being sealed at its offset. -/
structure ReaderAt (sh : List (List UInt8)) (p : Pos) (r : Reader) : Prop where
  gen : r.pos.generation = p.generation
  segment : ∃ b, sh[r.pos.index]? = some b ∧ r.pos.offset ≤ b.length ∧
    r.bytes <+: b.drop r.pos.offset
  at_pos : (r.pos.index = p.index ∧ r.pos.offset = p.offset ∧
      ∃ b, sh[p.index]? = some b ∧ p.offset < b.length) ∨
    (r.pos.index = p.index + 1 ∧ r.pos.offset = 0 ∧ ∃ b, sh[p.index]? = some b ∧ p.offset = b.length)

section Reader

variable {sh sh' : List (List UInt8)} {p : Pos} {r : Reader}

/-- **The repository's adapter answers a `ReaderAt`** at a position within the shadow. -/
theorem readerAt_of_ok {s : Source} (h : Source.shadowWALReader s p = .ok r)
    (hb : ∃ b, (s.shadow p.generation)[p.index]? = some b ∧ p.offset ≤ b.length) :
    ReaderAt (s.shadow p.generation) p r := by
  obtain ⟨b₀, hb₀, hle⟩ := hb
  unfold Source.shadowWALReader at h
  dsimp only at h
  split at h
  · rename_i b hb
    rw [hb] at hb₀
    cases hb₀
    split_ifs at h with hlt
    · cases h
      exact ⟨rfl, ⟨b₀, hb, hlt.le, List.prefix_refl _⟩, .inl ⟨rfl, rfl, b₀, hb, hlt⟩⟩
    · split at h
      · rename_i b' hb'
        cases h
        exact ⟨rfl, ⟨b', hb', Nat.zero_le _, by simp⟩,
          .inr ⟨rfl, rfl, b₀, hb, le_antisymm hle (not_lt.mp hlt)⟩⟩
      · cases h
  · cases h

theorem ReaderAt.grow (hs : ShadowLe sh sh') (hr : ReaderAt sh p r) : ReaderAt sh' p r := by
  obtain ⟨hgen, ⟨b, hb, hle, hbs⟩, hat⟩ := hr
  obtain ⟨b', hb', hp⟩ := hs.get hb
  refine ⟨hgen, ⟨b', hb', hle.trans hp.length_le, hbs.trans (hp.drop _)⟩, ?_⟩
  rcases hat with ⟨h₁, h₂, bp, hbp, hlt⟩ | ⟨h₁, h₂, bp, hbp, heq⟩
  · obtain ⟨bp', hbp', hpp⟩ := hs.get hbp
    exact .inl ⟨h₁, h₂, bp', hbp', hlt.trans_le hpp.length_le⟩
  · have := lt_of_getElem? hb
    exact .inr ⟨h₁, h₂, bp, hs.sealed hbp (by omega), heq⟩

/-- The reader's index is `p`'s, or the next one once `p`'s index is sealed at its offset. -/
theorem ReaderAt.index_eq (hr : ReaderAt sh p r) :
    r.pos.index = p.index ∨ (r.pos.index = p.index + 1 ∧ r.pos.index < sh.length ∧
      ∃ b, sh[p.index]? = some b ∧ p.offset = b.length) := by
  obtain ⟨b, hb, -⟩ := hr.segment
  exact hr.at_pos.imp (fun h => h.1) fun h => ⟨h.1, lt_of_getElem? hb, h.2.2⟩

end Reader

section Copy

variable {g : String} {fs : FS} {sh : List (List UInt8)} {p : Pos} {r : Reader}

/-- `p`'s index, sealed at `p`'s offset, is complete from the latest snapshot on. -/
theorem Cached.complete_sealed (ht : Tree g fs sh) (hc : Cached g fs sh p) {b : List UInt8}
    (hb : sh[p.index]? = some b) (hoff : p.offset = b.length) (ha : Above g fs p.index) :
    Complete g fs sh p.index := by
  rcases hc.current ha with ⟨d, t, hF, hle⟩ | ⟨h0, hs, hn⟩
  · obtain ⟨b', hb', hp⟩ := ht.walPrefix _ d t hF ha
    rw [hb] at hb'
    cases hb'
    have hd : d = b := hp.eq_of_length (le_antisymm hp.length_le (hoff ▸ hle))
    exact ⟨b, hb, .inl ⟨t, hd ▸ hF⟩⟩
  · exact ⟨b, hb, .inr ⟨hn _ le_rfl, List.length_eq_zero.mp (hoff ▸ h0), hs⟩⟩

/-- Every index below the reader's, from the latest snapshot on, is complete. -/
theorem ReaderAt.complete_below (ht : Tree g fs sh) (hc : Cached g fs sh p) (hr : ReaderAt sh p r) :
    ∀ j < r.pos.index, Above g fs j → Complete g fs sh j := by
  intro j hj ha
  rcases hr.index_eq with h | ⟨h, -, b, hb, hoff⟩
  · exact hc.complete j (h ▸ hj) ha
  · rcases Nat.lt_or_ge j p.index with hlt | hge
    · exact hc.complete j hlt ha
    · obtain rfl : j = p.index := by omega
      exact hc.complete_sealed ht hb hoff ha

/-- From the latest snapshot on, the reader's file holds at least the reader's offset. -/
theorem ReaderAt.offset_le (hc : Cached g fs sh p) (hr : ReaderAt sh p r) {d : List UInt8}
    {t : Int} (hF : fs.get (walPath g r.pos.index) = some (.file (.raw d) t))
    (ha : Above g fs r.pos.index) : r.pos.offset ≤ d.length := by
  rcases hr.at_pos with ⟨h₁, h₂, -⟩ | ⟨-, h₂, -⟩
  · rw [h₁] at hF ha
    rcases hc.current ha with ⟨d', t', hF', hle⟩ | ⟨-, -, hn⟩
    · rw [hF] at hF'
      cases hF'
      omega
    · rw [hn _ le_rfl] at hF
      cases hF
  · omega

/-! ## 2. Setting one WAL file -/

section SetWal

variable {idx : Nat} {fs' : FS} {d' : List UInt8} {t' : Int}
  (hget : ∀ q, q ≠ walPath g idx → fs'.get q = fs.get q)
include hget

theorem setWal_wal {k : Nat} (hk : k ≠ idx) : fs'.get (walPath g k) = fs.get (walPath g k) :=
  hget _ fun h => hk (walPath_inj h)

theorem setWal_hasSnap {k : Nat} : HasSnap g fs' k ↔ HasSnap g fs k := by
  have : ∀ x, fs'.get (snapshotDir g ++ [x]) = fs.get (snapshotDir g ++ [x]) := fun x =>
    hget _ (by simp [walPath, walDir, snapshotDir])
  simp only [HasSnap, this]

theorem setWal_above {j : Nat} : Above g fs' j ↔ Above g fs j := by
  simp only [Above, setWal_hasSnap hget]

variable (hidx : fs'.get (walPath g idx) = some (.file (.raw d') t'))
include hidx

/-- Setting the file of `idx` keeps an index complete, `idx` itself when it gets the shadow's
bytes. -/
theorem setWal_complete {j : Nat} (hc : Complete g fs sh j)
    (hj : j = idx → ∃ b, sh[j]? = some b ∧ d' = b) : Complete g fs' sh j := by
  by_cases hji : j = idx
  · subst hji
    obtain ⟨b, hb, rfl⟩ := hj rfl
    exact ⟨d', hb, .inl ⟨t', hidx⟩⟩
  · obtain ⟨b, hb, h⟩ := hc
    refine ⟨b, hb, ?_⟩
    rw [setWal_wal hget hji, setWal_hasSnap hget]
    exact h

/-- **What setting a WAL file needs to keep the tree a copy**: its index is a WAL name's, its
bytes fit the shadow's index and are a prefix of it from the latest snapshot on, every index
below it from the latest snapshot on is complete, and a complete index stays complete. -/
theorem Tree.setWal (ht : Tree g fs sh) (hlt : idx < 16 ^ 16)
    (hbound : ∃ b, sh[idx]? = some b ∧ d'.length ≤ b.length)
    (hpre : Above g fs idx → ∃ b, sh[idx]? = some b ∧ d' <+: b)
    (hbelow : ∀ j < idx, Above g fs j → Complete g fs sh j)
    (hkeep : Complete g fs sh idx → Above g fs idx → ∃ b, sh[idx]? = some b ∧ d' = b)
    (hsnap : ∃ s, HasSnap g fs s) : Tree g fs' sh where
  onlyGen x hx := ht.onlyGen x (by rwa [hget _ (by simp [walPath, walDir, generationDir])] at hx)
  walNames x n hx := by
    by_cases hxi : walDir g ++ [x] = walPath g idx
    · rw [hxi, hidx] at hx
      cases hx
      exact ⟨idx, d', t', hlt, List.singleton_inj.mp (List.append_cancel_left hxi), rfl⟩
    · exact ht.walNames x n (by rwa [hget _ hxi] at hx)
  walBound k d t hk := by
    by_cases hki : k = idx
    · subst hki
      rw [hidx] at hk
      cases hk
      exact hbound
    · exact ht.walBound k d t (by rwa [setWal_wal hget hki] at hk)
  walPrefix k d t hk ha := by
    rw [setWal_above hget] at ha
    by_cases hki : k = idx
    · subst hki
      rw [hidx] at hk
      cases hk
      exact hpre ha
    · exact ht.walPrefix k d t (by rwa [setWal_wal hget hki] at hk) ha
  walComplete k hk j hj ha := by
    rw [setWal_above hget] at ha
    have hc : Complete g fs sh j := by
      by_cases hki : k = idx
      · exact hbelow j (hki ▸ hj) ha
      · exact ht.walComplete k (by rwa [setWal_wal hget hki] at hk) j hj ha
    exact setWal_complete hget hidx hc fun hji => by subst hji; exact hkeep hc ha
  snapBound k hk := ht.snapBound k ((setWal_hasSnap hget).mp hk)
  walSnap k _ :=
    let ⟨s, hs⟩ := hsnap
    ⟨s, (setWal_hasSnap hget).mpr hs⟩
  walDirOk q hq d t h := ht.walDirOk q hq d t (by rwa [hget _ (walDir_prefix_ne_walPath hq)] at h)

/-- **What setting a WAL file needs to keep the cached position**: the file is `p`'s own,
holding at least its offset, or the next one's once `p`'s index is sealed at its offset. -/
theorem Cached.setWal (hc : Cached g fs sh p)
    (hoff : Above g fs p.index → idx = p.index → p.offset ≤ d'.length)
    (hnext : idx = p.index ∨
      (idx = p.index + 1 ∧ idx < sh.length ∧ ∃ b, sh[p.index]? = some b ∧ p.offset = b.length)) :
    Cached g fs' sh p where
  gen := hc.gen
  bound := hc.bound
  complete j hj ha := by
    rw [setWal_above hget] at ha
    exact setWal_complete hget hidx (hc.complete j hj ha) fun hji => by omega
  current ha := by
    rw [setWal_above hget] at ha
    by_cases hpi : idx = p.index
    · exact .inl ⟨d', t', hpi ▸ hidx, hoff ha hpi⟩
    · have hne : ∀ k ≤ p.index, k ≠ idx := fun k hk => by omega
      rw [setWal_wal hget (hne _ le_rfl)]
      exact (hc.current ha).imp_right fun ⟨h0, hs, hn⟩ =>
        ⟨h0, (setWal_hasSnap hget).mpr hs, fun k hk => by
          rw [setWal_wal hget (hne k hk)]
          exact hn k hk⟩
  above k hk hF := by
    by_cases hki : k = idx
    · subst hki
      exact (hnext.resolve_left (by omega)).imp_left fun h => h
    · exact hc.above k hk (by rwa [setWal_wal hget hki] at hF)
  hasSnap :=
    let ⟨s, hs⟩ := hc.hasSnap
    ⟨s, (setWal_hasSnap hget).mpr hs⟩

end SetWal

/-! ## 3. The three writes -/

variable (ht : Tree g fs sh) (hc : Cached g fs sh p) (hr : ReaderAt sh p r)
  (hgen : r.pos.generation = g) (hlt : r.pos.index < 16 ^ 16)
include ht hc hr hgen hlt

omit hgen in
/-- **`os.OpenFile` of the reader's WAL file keeps the invariant**, and the file is there
afterwards. -/
theorem open_wal {t : Int} {fs' : FS} (h : fs.openFile (walPath g r.pos.index) t = .ok fs') :
    Tree g fs' sh ∧ Cached g fs' sh p ∧ fs'.get (walPath g r.pos.index) ≠ none := by
  have hget := FS.openFile_eq_ok h
  by_cases hnone : fs.get (walPath g r.pos.index) = none
  · have hidx : fs'.get (walPath g r.pos.index) = some (.file (.raw []) t) := by
      rw [hget, if_pos ⟨rfl, hnone⟩]
    have hne : ∀ q, q ≠ walPath g r.pos.index → fs'.get q = fs.get q := fun q hq => by
      rw [hget, if_neg fun h => hq h.1]
    obtain ⟨b, hb, -⟩ := hr.segment
    refine ⟨ht.setWal hne hidx hlt ⟨b, hb, Nat.zero_le _⟩ (fun _ => ⟨b, hb, List.nil_prefix⟩)
      (hr.complete_below ht hc) (fun hcomp _ => ?_) hc.hasSnap,
      hc.setWal hne hidx (fun ha hpi => ?_) hr.index_eq, by rw [hidx]; simp⟩
    · obtain ⟨b', hb', ⟨_, hF⟩ | ⟨-, rfl, -⟩⟩ := hcomp
      · rw [hnone] at hF
        cases hF
      · exact ⟨[], hb', rfl⟩
    · rcases hc.current ha with ⟨d, t, hF, -⟩ | ⟨h0, -⟩
      · rw [← hpi, hnone] at hF
        cases hF
      · exact h0 ▸ Nat.zero_le _
  · have hsame : ∀ q, fs'.get q = fs.get q := fun q => by
      rw [hget, if_neg fun h => hnone h.2]
    have hm : MoreSnaps g sh fs fs' := MoreSnaps.of_changes fun q hq => absurd (hsame q) hq
    exact ⟨hm.tree ht, hm.cached hc, by rwa [hsame]⟩

omit hgen in
/-- **The copy into the reader's WAL file keeps the invariant**, whether it stored all the
reader's bytes or a prefix of them; the file then holds at least the reader's offset and the
bytes stored. -/
theorem write_wal {t : Int} {bs : List UInt8} (hbs : bs <+: r.bytes)
    (hF : fs.get (walPath g r.pos.index) ≠ none) :
    Tree g (fs.writeAt (walPath g r.pos.index) r.pos.offset bs t) sh ∧
      Cached g (fs.writeAt (walPath g r.pos.index) r.pos.offset bs t) sh p ∧
      ∃ d t', (fs.writeAt (walPath g r.pos.index) r.pos.offset bs t).get (walPath g r.pos.index) =
        some (.file (.raw d) t') ∧ r.pos.offset + bs.length ≤ d.length := by
  obtain ⟨d, t₀, hd⟩ := ht.wal_file hF
  obtain ⟨b, hb, hoffb, hseg⟩ := hr.segment
  have hbs' : bs <+: b.drop r.pos.offset := hbs.trans hseg
  have hbsl : r.pos.offset + bs.length ≤ b.length := by
    have := hbs'.length_le
    simp only [List.length_drop] at this
    omega
  have hidx : (fs.writeAt (walPath g r.pos.index) r.pos.offset bs t).get (walPath g r.pos.index) =
      some (.file (.raw (overwrite d r.pos.offset bs)) t) := by
    simp [FS.writeAt, hd, FS.touchNode, Data.bytes]
  have hne : ∀ q, q ≠ walPath g r.pos.index →
      (fs.writeAt (walPath g r.pos.index) r.pos.offset bs t).get q = fs.get q :=
    fun q hq => FS.get_setData_ne hq
  have hlen := overwrite_length d r.pos.offset bs
  obtain ⟨b', hb', hdb⟩ := ht.walBound _ d t₀ hd
  rw [hb] at hb'
  cases hb'
  refine ⟨ht.setWal hne hidx hlt ⟨b, hb, by omega⟩ (fun ha => ?_) (hr.complete_below ht hc)
    (fun hcomp ha => ?_) hc.hasSnap,
    hc.setWal hne hidx (fun ha hpi => ?_) hr.index_eq, _, t, hidx, by omega⟩
  · obtain ⟨b', hb', hp⟩ := ht.walPrefix _ d t₀ hd ha
    rw [hb] at hb'
    cases hb'
    rw [overwrite_eq_take hp (hr.offset_le hc hd ha) hbs']
    exact ⟨b, hb, List.take_prefix _ _⟩
  · obtain ⟨b', hb', ⟨t₁, hF'⟩ | ⟨hn, -⟩⟩ := hcomp
    · rw [hb] at hb'
      cases hb'
      rw [hd] at hF'
      cases hF'
      refine ⟨d, hb, ?_⟩
      rw [overwrite_eq_take (List.prefix_refl d) hoffb hbs', max_eq_right hbsl,
        List.take_of_length_le le_rfl]
    · rw [hd] at hn
      cases hn
  · rcases hc.current ha with ⟨d₁, t₁, hF₁, hle⟩ | ⟨-, -, hn⟩
    · rw [← hpi, hd] at hF₁
      cases hF₁
      omega
    · rw [hpi, hn _ le_rfl] at hd
      cases hd

omit hlt in
/-- **Publishing the reader's end**: once the reader's WAL file holds its bytes, the reader's
end is a position where the copy stands. -/
theorem Cached.advance {d : List UInt8} {t : Int}
    (hF : fs.get (walPath g r.pos.index) = some (.file (.raw d) t))
    (hlen : r.pos.offset + r.bytes.length ≤ d.length) : Cached g fs sh r.endPos where
  gen := hgen
  bound :=
    let ⟨b, hb, hle, hseg⟩ := hr.segment
    ⟨b, hb, by
      have := hseg.length_le
      simp only [List.length_drop] at this
      show r.pos.offset + r.bytes.length ≤ b.length
      omega⟩
  complete := hr.complete_below ht hc
  current _ := .inl ⟨d, t, hF, hlen⟩
  above k hk hFk := by
    rcases hr.at_pos with ⟨h₁, -, b, hb, hlt'⟩ | ⟨h₁, -⟩
    · obtain ⟨-, -, b', hb', heq⟩ := hc.above k (h₁ ▸ hk) hFk
      rw [hb] at hb'
      cases hb'
      omega
    · have := (hc.above k (by change r.pos.index < k at hk; omega) hFk).1
      change r.pos.index < k at hk
      omega
  hasSnap := hc.hasSnap

end Copy

/-! ## 4. The end of the stream -/

/-- The replica has caught up with the copy: every snapshot is at or below `LastPos()`'s index,
no WAL file lies above it, and its WAL file, if any, holds exactly `offset` bytes. -/
structure CaughtUp (g : String) (fs : FS) (p : Pos) : Prop where
  above : Above g fs p.index
  none_above : ∀ k, p.index < k → fs.get (walPath g k) = none
  size : ∀ d t, fs.get (walPath g p.index) = some (.file (.raw d) t) → d.length = p.offset

/-- **At `io.EOF` the copy has caught up**: the repository's adapter answers `io.EOF` at a
position within the shadow only at its end. -/
theorem caughtUp_of_eof {g : String} {s : Source} {fs : FS} {p : Pos}
    (ht : Tree g fs (s.shadow g)) (hc : Cached g fs (s.shadow g) p)
    (h : Source.shadowWALReader s p = .error .eof) : CaughtUp g fs p := by
  obtain ⟨b, hb, hle⟩ := hc.bound
  have hend : p.offset = b.length ∧ p.index + 1 = (s.shadow g).length := by
    unfold Source.shadowWALReader at h
    rw [hc.gen] at h
    dsimp only at h
    rw [hb] at h
    dsimp only at h
    split_ifs at h with hlt
    split at h
    · cases h
    · rename_i hn
      have := List.getElem?_eq_none_iff.mp hn
      have := lt_of_getElem? hb
      omega
  have ha : Above g fs p.index := fun k hk => by have := ht.snapBound k hk; omega
  refine ⟨ha, fun k hk => ?_, fun d t hF => ?_⟩
  · by_contra hF
    have := (hc.above k hk hF).2.1
    omega
  · obtain ⟨b', hb', hp⟩ := ht.walPrefix _ d t hF ha
    rw [hb] at hb'
    cases hb'
    rcases hc.current ha with ⟨d₁, t₁, hF₁, hle₁⟩ | ⟨-, -, hn⟩
    · rw [hF] at hF₁
      cases hF₁
      have := hp.length_le
      omega
    · rw [hn _ le_rfl] at hF
      cases hF

end Litestream
