import Litestream.Mirror.Copy
/-!
# `Sync` keeps the invariant, and a `Sync` that returns `nil` has caught up

The triples of `Sync` and its parts under `Sem.faulty`, with a source that only grows between
two calls.  Each part keeps the mirror invariant on every run, complete or cut short:

* `calcPos_triple`: the position `CalcPos` computes from the tree is one where the copy stands;
* `syncWAL_triple`: the copy step keeps the cached position where the copy stands, and at
  `io.EOF` the copy has caught up;
* `sync_triple`: a `Sync` that returns `nil` leaves the cached position where the copy stands,
  caught up with the shadow as it was when the adapter answered `io.EOF`.
-/

namespace Litestream

section Runs

variable {E : World → World → Prop} (hE : ∀ w w', E w w' → World.Grows w w') {g : String}

/-- The invariant while `Sync` copies: the mirror invariant, and the cached position where the
copy stands. -/
def Syncing (g : String) (w : World) : Prop :=
  Mirror g w ∧ Cached g w.fs (w.src.shadow g) w.pos

omit hE in
theorem World.Grows.shadow {w w' : World} (h : World.Grows w w') (hg : w.src.generation = g) :
    ShadowLe (w.src.shadow g) (w'.src.shadow g) :=
  hg ▸ h.2.2.2

omit hE in
theorem Syncing.of_tree {w : World} {fs' : FS} (hm : Mirror g w) (ht : Tree g fs' (w.src.shadow g))
    (hc : Cached g fs' (w.src.shadow g) w.pos) : Syncing g { w with fs := fs' } :=
  ⟨⟨hm.gen, hm.shadow_ne, ht, .inr hc⟩, hc⟩

theorem hasSnap_of_listed {fs : FS} {fis : List FileInfo} {fi : FileInfo} {k : Nat}
    (h : fs.readDir (snapshotDir g) = .ok fis) (hfi : fi ∈ fis) (hk : snapshotIndex fi.name = some k) :
    HasSnap g fs k :=
  let ⟨n, hn, _⟩ := (FS.mem_readDir _ h).mp hfi
  ⟨fi.name, n, hn, hk⟩

include hE

theorem Mirror.stable_and {rd : Adapter} (X : FS → Prop) :
    Stable (Sem.faulty rd E) fun w => Mirror g w ∧ X w.fs :=
  fun _ _ h hw => ⟨hw.1.grow (hE _ _ h), (hE _ _ h).1 ▸ hw.2⟩

theorem Syncing.stable {rd : Adapter} : Stable (Sem.faulty rd E) (Syncing g) := by
  intro w w' h ⟨hm, hc⟩
  have hg := hE _ _ h
  refine ⟨hm.grow hg, ?_⟩
  rw [hg.1, hg.2.1]
  exact hc.grow (hg.shadow hm.gen)

/-! ## 1. `CalcPos` -/

theorem maxSnapshotIndex_triple {rd : Adapter} :
    Triple (Sem.faulty rd E) (Mirror g) (Mirror g) (maxSnapshotIndex g)
      fun r w => Mirror g w ∧ ∀ i, r = .ok i → HasSnap g w.fs i := by
  unfold maxSnapshotIndex
  refine Triple.bind (Faulty.readDir_triple (Mirror.stable hE) fun _ h => h) fun r => ?_
  rcases r with e | fis
  · exact Triple.pure fun w hw => ⟨hw.1, fun _ h => by cases h⟩
  · dsimp only
    split
    · exact Triple.pure fun w hw => ⟨hw.1, fun _ h => by cases h⟩
    · rename_i hne
      refine Triple.pure fun w hw => ⟨hw.1, fun i hi => ?_⟩
      cases hi
      obtain ⟨fi, hfi, hk, -⟩ := maxIndexOf_mem hne
      exact hasSnap_of_listed (hw.2.2 fis rfl) hfi hk

omit hE in
/-- With no WAL file, `CalcPos` stands at a snapshot's index, offset `0`. -/
theorem Cached.of_no_wal {fs : FS} {sh : List (List UInt8)} {s : Nat} (ht : Tree g fs sh)
    (hs : HasSnap g fs s) (hnone : ∀ k, fs.get (walPath g k) = none) : Cached g fs sh ⟨g, s, 0⟩ where
  gen := rfl
  bound := by
    obtain ⟨b, hb⟩ := Option.ne_none_iff_exists'.mp
      (List.getElem?_eq_none_iff.not.mpr (not_le.mpr (ht.snapBound s hs)))
    exact ⟨b, hb, Nat.zero_le _⟩
  complete j hj ha := absurd (ha s hs) (by simpa using hj)
  current _ := .inr ⟨rfl, hs, fun k _ => hnone k⟩
  above k _ hF := absurd (hnone k) hF
  hasSnap := ⟨s, hs⟩

omit hE in
/-- At the highest WAL file, `CalcPos` stands at its index and size. -/
theorem Cached.of_max_wal {fs : FS} {sh : List (List UInt8)} {k : Nat} {d : List UInt8} {t : Int}
    (ht : Tree g fs sh) (hF : fs.get (walPath g k) = some (.file (.raw d) t))
    (hmax : ∀ k', fs.get (walPath g k') ≠ none → k' ≤ k) : Cached g fs sh ⟨g, k, d.length⟩ where
  gen := rfl
  bound :=
    let ⟨b, hb, hle⟩ := ht.walBound k d t hF
    ⟨b, hb, hle⟩
  complete := ht.walComplete k (by rw [hF]; simp)
  current _ := .inl ⟨d, t, hF, le_rfl⟩
  above k' hk hF' := absurd (hmax k' hF') (by simpa using hk)
  hasSnap := ht.walSnap k (by rw [hF]; simp)

/-- **`CalcPos` answers a position where the copy stands.** -/
theorem calcPos_triple {rd : Adapter} :
    Triple (Sem.faulty rd E) (Mirror g) (Mirror g) (calcPos g)
      fun r w => Mirror g w ∧ ∀ pos, r = .ok pos → Cached g w.fs (w.src.shadow g) pos := by
  have hM := @Mirror.stable_and E hE g rd
  unfold calcPos
  refine Triple.bind (maxSnapshotIndex_triple hE) fun r => ?_
  rcases r with e | s
  · exact Triple.pure fun w hw => ⟨hw.1, fun _ h => by cases h⟩
  refine Triple.conseq (P := fun w => Mirror g w ∧ HasSnap g w.fs s) ?_
    (fun w hw => ⟨hw.1, hw.2 s rfl⟩) fun _ _ h => h
  refine Triple.bind (Faulty.readDir_triple (hM fun fs => HasSnap g fs s) fun _ h => h.1)
    fun r => ?_
  rcases r with e | fis
  · cases e <;> refine Triple.pure fun w hw => ⟨hw.1.1, fun pos hp => ?_⟩ <;> cases hp
    exact Cached.of_no_wal hw.1.1.tree hw.1.2 fun k => FS.get_below (FS.not_isDir_of_get_none (hw.2.1 rfl))
  dsimp only
  split
  · rename_i hneg
    refine Triple.pure fun w hw => ⟨hw.1.1, fun pos hp => ?_⟩
    cases hp
    refine Cached.of_no_wal hw.1.1.tree hw.1.2 fun k => ?_
    by_contra hF
    obtain ⟨n, hn⟩ := Option.ne_none_iff_exists'.mp hF
    have hk := index_lt_of_shadow (hw.1.1.tree.wal_lt hF)
    have hmem : n.info (walName k) ∈ fis := FS.info_mem_readDir _ (hw.2.2 fis rfl) hn
    have := maxIndexOf_eq_neg_one hneg hmem
    simp [walIndex_walName hk] at this
  · rename_i hne
    refine Triple.conseq (P := fun w => Mirror g w ∧ w.fs.readDir (walDir g) = .ok fis) ?_
      (fun w hw => ⟨hw.1.1, hw.2.2 fis rfl⟩) fun _ _ h => h
    refine Triple.bind (Faulty.stat_triple (hM fun fs => fs.readDir (walDir g) = .ok fis)
      fun _ h => h.1) fun r => ?_
    rcases r with e | fi
    · exact Triple.pure fun w hw => ⟨hw.1.1, fun _ h => by cases h⟩
    refine Triple.pure fun w hw => ⟨hw.1.1, fun pos hp => ?_⟩
    cases hp
    have ht := hw.1.1.tree
    obtain ⟨n, hn, rfl⟩ := FS.stat_eq_ok (hw.2 fi rfl)
    obtain ⟨d, t, rfl⟩ : ∃ d t, n = .file (.raw d) t := by
      obtain ⟨-, d, t, -, -, h⟩ := ht.walNames _ n hn
      exact ⟨d, t, h⟩
    refine Cached.of_max_wal ht hn fun k hF => ?_
    obtain ⟨n', hn'⟩ := Option.ne_none_iff_exists'.mp hF
    have hk := index_lt_of_shadow (ht.wal_lt hF)
    have hmem : n'.info (walName k) ∈ fis := FS.info_mem_readDir _ hw.1.2 hn'
    have := @le_maxIndexOf walIndex _ _ _ hmem (by simpa using walIndex_walName hk)
    omega

/-! ## 2. The copy step -/

omit hE in
theorem Syncing.more {w : World} {fs' : FS} (h : Syncing g w)
    (hc : MoreSnaps g (w.src.shadow g) w.fs fs') : Syncing g { w with fs := fs' } :=
  ⟨h.1.more hc, hc.cached h.2⟩

/-- The worlds of one copy step, between the adapter's answer `r` at `p` and the publication of
its end: `Sync`'s invariant, the cached position still `p`, the reader a `ReaderAt`, and a fact
`X` of the tree. -/
def Copying (g : String) (p : Pos) (r : Reader) (X : FS → Prop) (w : World) : Prop :=
  Syncing g w ∧ w.pos = p ∧ ReaderAt (w.src.shadow g) p r ∧ X w.fs

theorem Copying.stable {rd : Adapter} {p : Pos} {r : Reader} {X : FS → Prop} :
    Stable (Sem.faulty rd E) (Copying g p r X) := by
  intro w w' h ⟨hs, hp, hr, hx⟩
  have hg := hE _ _ h
  exact ⟨Syncing.stable hE h hs, hg.2.1.trans hp, hr.grow (hg.shadow hs.1.gen), hg.1 ▸ hx⟩

/-- **`syncWAL` keeps the cached position where the copy stands**, and when it answers `io.EOF`
the copy has caught up. -/
theorem syncWAL_triple :
    Triple (Sem.faulty Source.shadowWALReader E) (Mirror g) (Syncing g) syncWAL
      fun r w => Syncing g w ∧ (r = .error .eof → CaughtUp g w.fs w.pos) := by
  have hS : Stable (Sem.faulty Source.shadowWALReader E) (Syncing g) := Syncing.stable hE
  unfold syncWAL
  refine Triple.bind (Q := fun p w => Syncing g w ∧ w.pos = p) ?_ fun p => ?_
  · refine Triple.call_stable hS (fun _ h => h.1) fun w p w' hw hs => ?_
    obtain ⟨rfl, rfl⟩ := Faulty.step_lastPos hs
    exact ⟨hw, rfl⟩
  refine Triple.bind (Q := fun res w => Syncing g w ∧ w.pos = p ∧
    (res = .error .eof → CaughtUp g w.fs w.pos) ∧
    ∀ r, res = .ok r → ReaderAt (w.src.shadow g) p r) ?_ fun res => ?_
  · refine Triple.call_stable (fun w w' h hw => ⟨hS h hw.1, (hE _ _ h).2.1.trans hw.2⟩)
      (fun _ h => h.1.1) fun w res w' hw hs => ?_
    obtain ⟨rfl, hres⟩ := Faulty.step_shadowWALReader hs
    obtain ⟨⟨hm, hc⟩, rfl⟩ := hw
    refine ⟨⟨hm, hc⟩, rfl, fun he => ?_, fun r hr => ?_⟩ <;> rcases hres with rfl | rfl
    · exact caughtUp_of_eof hm.tree hc he
    · cases he
    · have := readerAt_of_ok hr (by rw [hc.gen]; exact hc.bound)
      rwa [hc.gen] at this
    · cases hr
  rcases res with e | r
  · cases e <;> first
      | exact Triple.pure fun w hw => ⟨hw.1, fun _ => hw.2.2.1 rfl⟩
      | exact Triple.pure fun w hw => ⟨hw.1, fun he => by cases he⟩
  refine Triple.conseq (P := Copying g p r fun _ => True) ?_
    (fun w hw => ⟨hw.1, hw.2.1, hw.2.2.2 r rfl, trivial⟩) fun _ _ h => h
  refine Triple.intro_pure (φ := r.pos.generation = g ∧ r.pos.index < 16 ^ 16)
    (fun w hw => ?_) fun ⟨hgen, hlt⟩ => ?_
  · obtain ⟨⟨hm, hc⟩, rfl, hr, -⟩ := hw
    obtain ⟨b, hb, -⟩ := hr.segment
    exact ⟨hr.gen.trans hc.gen, index_lt_of_shadow (lt_of_getElem? hb)⟩
  dsimp only
  rw [hgen, walPath_dropLast]
  have hC : ∀ X, Stable (Sem.faulty Source.shadowWALReader E) (Copying g p r X) :=
    fun _ => Copying.stable hE
  have hI : ∀ X w, Copying g p r X w → Mirror g w := fun _ _ h => h.1.1
  have herr : ∀ X (e : FsError) w, Copying g p r X w →
      Syncing g w ∧ ((.error (.fs e) : Except Error Unit) = .error .eof → CaughtUp g w.fs w.pos) :=
    fun _ _ _ h => ⟨h.1, fun he => by cases he⟩
  refine Triple.check_keeps (fun w u w' hw hs => ?_) (hC _) (hI _) (herr _) ?_
  · rcases mkdirAll_more (.inl rfl) hs with rfl | ⟨fs', hc, rfl⟩
    · exact hw
    · exact ⟨hw.1.more hc, hw.2.1, hw.2.2.1, trivial⟩
  refine Triple.check (Q := fun u => Copying g p r fun fs =>
      u = .ok () → fs.get (walPath g r.pos.index) ≠ none)
    (Triple.call_stable (hC _) (hI _) fun w u w' hw hs => ?_) (fun e => herr _ e) ?_
  · rcases Faulty.step_openFile hs with ⟨hu, rfl⟩ | ⟨fs', hfs, rfl, rfl⟩
    · exact ⟨hw.1, hw.2.1, hw.2.2.1, fun h => absurd h hu⟩
    · obtain ⟨⟨hm, hc⟩, rfl, hr, -⟩ := hw
      obtain ⟨ht', hc', hF⟩ := open_wal hm.tree hc hr hlt hfs
      exact ⟨Syncing.of_tree hm ht' hc', rfl, hr, fun _ => hF⟩
  refine Triple.check_keeps (keeps_read rfl) (hC _) (hI _) (herr _) ?_
  refine Triple.check (Q := fun u => Copying g p r fun fs => u = .ok () →
      ∃ d t, fs.get (walPath g r.pos.index) = some (.file (.raw d) t) ∧
        r.pos.offset + r.bytes.length ≤ d.length)
    (Triple.call_stable (hC _) (hI _) fun w u w' hw hs => ?_) (fun e => herr _ e) ?_
  · obtain ⟨bs, hbs, hu, rfl⟩ := Faulty.step_write hs
    obtain ⟨⟨hm, hc⟩, rfl, hr, hF⟩ := hw
    obtain ⟨ht', hc', d, t, hd, hlen⟩ := write_wal hm.tree hc hr hlt hbs (hF rfl)
    exact ⟨Syncing.of_tree hm ht' hc', rfl, hr, fun h => ⟨d, t, hd, hu h ▸ hlen⟩⟩
  refine Triple.check_keeps (keeps_read rfl) (hC _) (hI _) (herr _) <|
    Triple.check_keeps (keeps_read rfl) (hC _) (hI _) (herr _) ?_
  refine Triple.bind (Q := fun _ => Syncing g)
    (Triple.call_stable (hC _) (hI _) fun w u w' hw hs => ?_)
    fun _ => Triple.pure fun w hw => ⟨hw, fun h => by cases h⟩
  obtain rfl := Faulty.step_setPos hs
  obtain ⟨⟨hm, hc⟩, rfl, hr, hF⟩ := hw
  obtain ⟨d, t, hd, hlen⟩ := hF rfl
  have hc' := Cached.advance hm.tree hc hr hgen hd hlen
  exact ⟨⟨hm.gen, hm.shadow_ne, hm.tree, .inr hc'⟩, hc'⟩

/-- **The loop of `Sync`**: it keeps the cached position where the copy stands, and when it
returns `nil` the copy has caught up. -/
theorem syncWALLoop_triple :
    Triple (Sem.faulty Source.shadowWALReader E) (Mirror g) (Syncing g) syncWALLoop
      fun r w => Syncing g w ∧ (r = .ok () → CaughtUp g w.fs w.pos) := by
  unfold syncWALLoop
  refine Triple.loop (J := fun _ => Syncing g) (fun _ => ?_) ()
  refine Triple.bind (syncWAL_triple hE) fun r => ?_
  rcases r with e | ⟨⟩
  · cases e <;> first
      | exact Triple.pure fun w hw => ⟨hw.1, fun _ => hw.2 rfl⟩
      | exact Triple.pure fun w hw => ⟨hw.1, fun h => by cases h⟩
  · exact Triple.pure fun w hw => hw.1


/-! ## 3. `Sync` -/

theorem Mirror.stable_cached {rd : Adapter} (p : Pos) :
    Stable (Sem.faulty rd E) fun w => Mirror g w ∧ Cached g w.fs (w.src.shadow g) p := by
  intro w w' h ⟨hm, hc⟩
  have hg := hE _ _ h
  exact ⟨hm.grow hg, hg.1 ▸ hc.grow (hg.shadow hm.gen)⟩

theorem Syncing.stable_caughtUp {rd : Adapter} :
    Stable (Sem.faulty rd E) fun w => Syncing g w ∧ CaughtUp g w.fs w.pos := by
  intro w w' h ⟨hs, hc⟩
  have hg := hE _ _ h
  exact ⟨Syncing.stable hE h hs, by rw [hg.1, hg.2.1]; exact hc⟩

/-- `syncPos` leaves a cached position where the copy stands. -/
theorem syncPos_triple {rd : Adapter} :
    Triple (Sem.faulty rd E) (Mirror g) (Mirror g) (syncPos g)
      fun r w => Mirror g w ∧ (r = .ok () → Syncing g w) := by
  unfold syncPos
  refine Triple.bind (Q := fun p w => Mirror g w ∧ w.pos = p) ?_ fun p => ?_
  · refine Triple.call_stable (Mirror.stable hE) (fun _ h => h) fun w p w' hw hs => ?_
    obtain ⟨rfl, rfl⟩ := Faulty.step_lastPos hs
    exact ⟨hw, rfl⟩
  split
  · refine Triple.conseq (P := Mirror g) ?_ (fun _ h => h.1) fun _ _ h => h
    refine Triple.bind (calcPos_triple hE) fun r => ?_
    rcases r with e | pos
    · exact Triple.pure fun w hw => ⟨hw.1, fun h => by cases h⟩
    refine Triple.conseq (P := fun w => Mirror g w ∧ Cached g w.fs (w.src.shadow g) pos) ?_
      (fun w hw => ⟨hw.1, hw.2 pos rfl⟩) fun _ _ h => h
    refine Triple.bind (Q := fun _ => Syncing g)
      (Triple.call_stable (Mirror.stable_cached hE pos) (fun _ h => h.1) fun w u w' hw hs => ?_)
      fun _ => Triple.pure fun w hw => ⟨hw.1, fun _ => hw⟩
    obtain rfl := Faulty.step_setPos hs
    exact ⟨⟨hw.1.gen, hw.1.shadow_ne, hw.1.tree, .inr hw.2⟩, hw.2⟩
  · rename_i hz
    refine Triple.pure fun w hw => ⟨hw.1, fun _ => ⟨hw.1, ?_⟩⟩
    exact hw.1.cached.resolve_left (by rw [hw.2]; exact hz)

/-- `syncSnapshot` keeps the invariant. -/
theorem syncSnapshot_triple {rd : Adapter} {i : Nat} (hi : i < 16 ^ 16) :
    Triple (Sem.faulty rd E) (Mirror g) (SnapAt g i) (syncSnapshot g i) fun _ => Mirror g := by
  have hP : Stable (Sem.faulty rd E) (SnapAt g i) := SnapAt.stable hE
  have hN : Prog.Calls (Keeps (Sem.faulty rd E) (SnapAt g i)) (snapshotN g) :=
    .bind (.call (keeps_read rfl)) fun r => by rcases r with ((_ | _ | _ | _ | _) | _) <;> exact .pure
  unfold syncSnapshot
  refine Triple.bind ((Triple.of_calls hN hP).weaken fun _ h => h.1) fun r => ?_
  rcases r with e | n
  · exact Triple.pure fun _ h => h.1
  dsimp only
  split
  · exact ((snapshot_triple hE hi).conseq (fun _ h => h) fun _ _ h => h.1.1).weaken fun _ h => h.1
  · exact Triple.pure fun _ h => h.1

/-- Compression finds no file to compress: the WAL directory has no subdirectory. -/
theorem compress_triple {rd : Adapter} :
    Triple (Sem.faulty rd E) (Mirror g) (fun w => Syncing g w ∧ CaughtUp g w.fs w.pos)
      (compress g) fun _ w => Syncing g w ∧ CaughtUp g w.fs w.pos := by
  unfold compress
  refine Triple.bind (Q := fun fns w => (Syncing g w ∧ CaughtUp g w.fs w.pos) ∧ fns = [])
    (Triple.call_stable (Syncing.stable_caughtUp hE) (fun _ h => h.1.1) fun w fns w' hw hs => ?_)
    fun fns => ?_
  · obtain ⟨rfl, hsub⟩ := Faulty.step_glob hs
    refine ⟨hw, List.sublist_nil.mp ?_⟩
    rwa [glob_compressPattern fun x hx => ?_] at hsub
    obtain ⟨_, _, hx⟩ := hx
    obtain ⟨k, d, t, -, -, hn⟩ := hw.1.1.tree.walNames x _ hx
    cases hn
  split
  · exact Triple.pure fun _ h => h.1
  · rename_i hlen
    exact fun w r w' hw _ => (hlen (by rw [hw.2]; simp)).elim

omit hE in
theorem Mirror.pos_index_lt {w : World} (hm : Mirror g w) (hz : w.src.pos.isZero = false) :
    w.src.pos.index < (w.src.shadow g).length := by
  have hne := hm.shadow_ne
  have hg := Source.pos_generation_ne _ hz
  rw [Source.pos] at hg ⊢
  rw [if_neg fun h => hg (by rw [if_pos h]; rfl), hm.gen]
  exact Nat.sub_lt (List.length_pos.mpr hne) Nat.one_pos

/-- The database's position, when it is not zero, is in the mirrored generation and within its
shadow WAL. -/
theorem dbPos_triple {rd : Adapter} :
    Triple (Sem.faulty rd E) (Mirror g) (Mirror g) (.call .dbPos) fun r w => Mirror g w ∧
      ∀ dpos, r = .ok dpos → dpos.isZero = false →
        dpos.generation = g ∧ dpos.index < (w.src.shadow g).length ∧ dpos.index < 16 ^ 16 := by
  refine Triple.call_stable (Mirror.stable hE) (fun _ h => h) fun w r w' hw hs => ?_
  obtain ⟨rfl, hr⟩ := Faulty.step_dbPos hs
  refine ⟨hw, fun dpos hd hz => ?_⟩
  rcases hr with rfl | rfl
  · cases hd
    exact ⟨(Source.pos_generation _ hz).trans hw.gen, hw.pos_index_lt hz, Source.pos_index_lt _⟩
  · cases hd

/-- **`Sync` keeps the invariant**; when it returns `nil`, the cached position is where the copy
stands, and the copy has caught up with the shadow WAL as the adapter last answered. -/
theorem sync_triple :
    Triple (Sem.faulty Source.shadowWALReader E) (Mirror g) (Mirror g) sync
      fun r w => Mirror g w ∧ (r = .ok () → Syncing g w ∧ CaughtUp g w.fs w.pos) := by
  unfold sync
  refine Triple.bind (dbPos_triple hE) fun r => ?_
  rcases r with e | dpos
  · exact Triple.pure fun w hw => ⟨hw.1, fun h => by cases h⟩
  dsimp only
  split
  · exact Triple.pure fun w hw => ⟨hw.1, fun h => by cases h⟩
  rename_i hz
  replace hz : dpos.isZero = false := by simpa using hz
  refine Triple.intro_pure (φ := dpos.generation = g ∧ dpos.index < 16 ^ 16)
    (fun w hw => ⟨(hw.2 dpos rfl hz).1, (hw.2 dpos rfl hz).2.2⟩) fun ⟨hgen, hlt⟩ => ?_
  rw [hgen]
  refine Triple.conseq (P := SnapAt g dpos.index) ?_
    (fun w hw => ⟨hw.1, (hw.2 dpos rfl hz).2.1⟩) fun _ _ h => h
  refine Triple.bind (syncSnapshot_triple hE hlt) fun r => ?_
  rcases r with e | ⟨⟩
  · exact Triple.pure fun w hw => ⟨hw, fun h => by cases h⟩
  refine Triple.bind (syncPos_triple hE) fun r => ?_
  rcases r with e | ⟨⟩
  · exact Triple.pure fun w hw => ⟨hw.1, fun h => by cases h⟩
  refine Triple.conseq (P := Syncing g) ?_ (fun w hw => hw.2 rfl) fun _ _ h => h
  refine Triple.bind (syncWALLoop_triple hE) fun r => ?_
  rcases r with e | ⟨⟩
  · exact Triple.pure fun w hw => ⟨hw.1.1, fun h => by cases h⟩
  refine Triple.conseq (P := fun w => Syncing g w ∧ CaughtUp g w.fs w.pos) ?_
    (fun w hw => ⟨hw.1, hw.2 rfl⟩) fun _ _ h => h
  dsimp only
  split
  · refine Triple.bind (compress_triple hE) fun r => ?_
    rcases r with e | ⟨⟩
    · exact Triple.pure fun w hw => ⟨hw.1.1, fun h => by cases h⟩
    · exact Triple.pure fun w hw => ⟨hw.1.1, fun _ => hw⟩
  · exact Triple.pure fun w hw => ⟨hw.1.1, fun _ => hw⟩

end Runs

end Litestream
