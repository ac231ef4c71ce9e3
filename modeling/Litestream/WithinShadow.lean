import Litestream.Guarded
/-!
# The replica stays within the shadow WAL, with both goroutines running

`lastPos_within_shadow` says that, with `Sync` and `EnforceRetention` called one at a time,
`LastPos()` never runs ahead of what the source has written.  Here the two run side by side as
`Start` runs them, one small step of either at a time, with failed calls, the source's writes
and restarts anywhere, and the same holds, with what the tree holds of the WAL along with it:
every WAL file of the generation is no longer than its index of the shadow WAL, and every name
in the generation's WAL and snapshot directories parses to an index the shadow has.

No single call keeps that whatever its arguments: `syncWAL` may write past the end of the shadow
unless the bytes are the ones its reader gave it, and `SetPos` may set any position unless it is
one `CalcPos` computed from the tree or the reader's end.  The proof is by rely and guarantee
(`Litestream.Guarded`): each goroutine knows, between two calls, facts about what it read that
the other goroutine cannot spoil (the shadow only grows, and only the monitor sets the position),
and each call, by what the goroutine knows when it makes it, keeps the invariant (`Call.Fits`).

* `Within`: the invariant, and `Within.step`: a call that fits keeps it, done or failed part way;
* the monitor's loop and the retainer's loop are guarded (`monitorLoop_guarded`,
  `retainerLoop_guarded`);
* `within_start`: the invariant holds in every world a run of `Start` reaches from an empty
  destination;
* `snapshot_race_empties_snapshot`: the snapshots, though, are not sound in every such world: the
  monitor and the retainer race on one temporary file, and an empty snapshot lands.
-/

namespace Litestream

/-! ## 1. The invariant, and the calls that keep it -/

section Invariant

variable (g : String)

/-- A position of generation `g` within the shadow WAL `sh`: at one of its indices, no further
into it than its bytes. -/
def PosWithin (sh : List (List UInt8)) (p : Pos) : Prop :=
  p.generation = g ∧ ∃ b, sh[p.index]? = some b ∧ p.offset ≤ b.length

/-- A path whose name, in `g`'s WAL or snapshot directory, parses to an index of `sh`. -/
def NameWithin (sh : List (List UInt8)) (q : Path) : Prop :=
  (∀ x k, q = walDir g ++ [x] → walIndex x = some k → k < sh.length) ∧
    ∀ x k, q = snapshotDir g ++ [x] → snapshotIndex x = some k → k < sh.length

/-- **The replica within the source's shadow WAL**, for a source in generation `g`. -/
structure Within (w : World) : Prop where
  gen : w.src.generation = g
  /-- The shadow has an index, so that `DB.Pos()` names one. -/
  ne : w.src.shadow g ≠ []
  /-- `LastPos()` is zero or within the shadow. -/
  pos : w.pos = Pos.zero ∨ PosWithin g (w.src.shadow g) w.pos
  /-- Every name of the WAL and snapshot directories parses to an index of the shadow. -/
  names : ∀ q n, w.fs.get q = some n → NameWithin g (w.src.shadow g) q
  /-- Every WAL file is no longer than its index of the shadow. -/
  sizes : ∀ k d t, w.fs.get (walPath g k) = some (.file d t) →
    ∃ b, (w.src.shadow g)[k]? = some b ∧ d.size ≤ b.length
  /-- No WAL directory has a subdirectory (`walFlat_start`). -/
  flat : walFlat g w.fs

/-- **What a call may do and keep the replica within `sh`**: create directories no deeper than
a WAL directory, create entries whose names parse within the shadow, write into a WAL file only
up to the end of its index, copy or rename onto no WAL file, and set a position within the
shadow. -/
def Call.Fits (sh : List (List UInt8)) : {β : Type} → Call β → Prop
  | _, .mkdirAll p => p.length ≤ 3
  | _, .openFile p | _, .create p => NameWithin g sh p ∧ ∀ k, p = walPath g k → k < sh.length
  | _, .write p off bs => ∀ k, p = walPath g k → ∃ b, sh[k]? = some b ∧ off + bs.length ≤ b.length
  | _, .writeAll p _ => ∀ k, p ≠ walPath g k
  | _, .rename _ q => NameWithin g sh q ∧ ∀ k, q ≠ walPath g k
  | _, .setPos p => p = Pos.zero ∨ PosWithin g sh p
  | _, _ => True

end Invariant

section Step

variable {g : String} {sh : List (List UInt8)} {β : Type} {c : Call β} {w w' : World} {b : β}

theorem NameWithin.of_length {q : Path} (h : q.length < 4) : NameWithin g sh q :=
  ⟨fun x _ hq => by simp [hq, walDir, generationDir] at h,
    fun x _ hq => by simp [hq, snapshotDir, generationDir] at h⟩

theorem Call.Fits.mkdirLen (h : c.Fits g sh) : c.mkdirLen ≤ 3 := by
  cases c <;> first | exact h | exact Nat.zero_le 3

theorem Call.Fits.fileAt {q : Path} (h : c.Fits g sh) (hq : c.fileAt = some q) :
    NameWithin g sh q := by
  cases c <;> simp only [Call.fileAt, Option.some.injEq, reduceCtorEq] at hq <;> subst hq <;>
    exact h.1

/-- A WAL file of the tree after a call that fits is within its index of the shadow. -/
theorem Call.Fits.sizes (hc : c.Fits g sh) (h : Sem.replica.step c w b w')
    (hs : ∀ k d t, w.fs.get (walPath g k) = some (.file d t) →
      ∃ b, sh[k]? = some b ∧ d.size ≤ b.length) {k : Nat} {d : Data} {t : Int} (hk : w'.fs.get (walPath g k) = some (.file d t)) :
    ∃ b, sh[k]? = some b ∧ d.size ≤ b.length := by
  have hnew : k < sh.length → ∃ b, sh[k]? = some b ∧ (Data.raw []).size ≤ b.length := fun hk =>
    ⟨_, List.getElem?_eq_getElem hk, Nat.zero_le _⟩
  cases c with
  | write p off bs =>
    obtain ⟨bs', hbs, -, rfl⟩ := Faulty.step_write h
    dsimp only [FS.writeAt] at hk
    by_cases hp : walPath g k = p
    · subst hp
      rw [FS.get_setData] at hk
      rcases hq : w.fs.get (walPath g k) with _ | _ | ⟨d₀, t₀⟩ <;> rw [hq] at hk <;>
        simp only [Option.map_none', Option.map_some', FS.touchNode, reduceCtorEq, if_true,
          Option.some.injEq, Node.file.injEq] at hk
      obtain ⟨rfl, -⟩ := hk
      obtain ⟨b₁, hb₁, hle₁⟩ := hc _ rfl
      obtain ⟨b₂, hb₂, hle₂⟩ := hs _ _ _ hq
      obtain rfl : b₁ = b₂ := Option.some.inj (hb₁.symm.trans hb₂)
      refine ⟨b₁, hb₁, ?_⟩
      have h₀ := (Data.bytes_length_le_size d₀).trans hle₂
      simp only [Data.size_raw, overwrite_length]
      have := hbs.length_le
      omega
    · exact hs k d t (by rwa [FS.get_setData_ne hp] at hk)
  | openFile p =>
    rcases Faulty.step_openFile h with ⟨-, rfl⟩ | ⟨fs, hm, -, rfl⟩
    · exact hs k d t hk
    dsimp only at hk
    rw [FS.openFile_eq_ok hm] at hk
    split_ifs at hk with hq
    · cases hk
      exact hnew (hc.2 k hq.1.symm)
    · exact hs k d t hk
  | create p =>
    rcases Faulty.step_create h with ⟨-, rfl⟩ | ⟨fs, hm, -, rfl⟩
    · exact hs k d t hk
    dsimp only at hk
    rw [(FS.writeFile_eq_ok hm).2.2.2] at hk
    split_ifs at hk with hq
    · cases hk
      exact hnew (hc.2 k hq.symm)
    · exact hs k d t hk
  | writeAll p _ => exact hs k d t (by rwa [Faulty.get_step_writeAll h (hc k).symm] at hk)
  | rename a q =>
    by_cases ha : walPath g k = a
    · rcases Faulty.step_rename h with ⟨-, rfl⟩ | ⟨fs, hm, -, rfl⟩
      · exact hs k d t hk
      obtain ⟨_, _, _, hget⟩ := FS.rename_eq_ok hm
      dsimp only at hk
      rw [hget, if_neg (hc.2 k).symm, if_pos ha] at hk
      cases hk
    · exact hs k d t (by rwa [Faulty.get_step_rename h ha (hc.2 k).symm] at hk)
  | remove p =>
    rcases Faulty.step_remove h with ⟨-, rfl⟩ | ⟨fs, hm, -, rfl⟩
    · exact hs k d t hk
    dsimp only at hk
    rw [(FS.remove_eq_ok hm).2.2] at hk
    split_ifs at hk
    exact hs k d t hk
  | removeAll p =>
    obtain ⟨qs, -, rfl⟩ := Faulty.step_removeAll h
    dsimp only at hk
    rw [FS.get_foldl_prune] at hk
    split_ifs at hk
    exact hs k d t hk
  | mkdirAll p =>
    rcases Faulty.step_mkdirAll h with rfl | ⟨j, fs, hm, rfl⟩
    · exact hs k d t hk
    dsimp only at hk
    rw [FS.mkdirAll_eq_ok hm] at hk
    split_ifs at hk
    · cases hk
    · exact hs k d t hk
  | setPos p => rw [Faulty.step_setPos h] at hk; exact hs k d t hk
  | _ => rw [Faulty.step_read (by rfl) h] at hk; exact hs k d t hk

/-- **A call that fits keeps the replica within the shadow**, done or failed part way. -/
theorem Within.step (hw : Within g w) (hc : c.Fits g (w.src.shadow g))
    (h : Sem.replica.step c w b w') : Within g w' := by
  have hsrc := Faulty.step_src h
  refine ⟨hsrc ▸ hw.gen, hsrc ▸ hw.ne, ?_, fun q n hq => ?_, fun k d t hk => ?_,
    walFlat_step_faulty hc.mkdirLen h hw.flat⟩
  · rw [hsrc]
    cases c with
    | setPos p => rw [Faulty.step_setPos h]; exact hc
    | _ => rw [congrArg World.pos (Faulty.step_treeOnly (by rfl) h)]; exact hw.pos
  · rw [hsrc]
    rcases Faulty.step_some h hq with ⟨n', hn'⟩ | hf | hl
    · exact hw.names q n' hn'
    · exact hc.fileAt hf
    · exact NameWithin.of_length (by have := hc.mkdirLen; omega)
  · rw [hsrc]
    exact hc.sizes h hw.sizes hk

/-- `DB.Pos()`, when not zero, names an index of the shadow of `g`. -/
theorem Within.dbPos (hw : Within g w) (h : w.src.pos.isZero = false) :
    w.src.pos.generation = g ∧ w.src.pos.generation ≠ "" ∧
      w.src.pos.index < (w.src.shadow g).length := by
  refine ⟨(w.src.pos_generation h).trans hw.gen, w.src.pos_generation_ne h, ?_⟩
  have hne := List.length_pos.mpr hw.ne
  rw [← hw.gen] at hne ⊢
  unfold Source.pos at h ⊢
  split_ifs at h ⊢
  · simp [Pos.isZero] at h
  · show _ - 1 < _
    omega

end Step

/-! ## 2. Rely and guarantee

Between two calls of a goroutine, the source may write (its shadow WAL only grows) and the other
goroutine may call anything that keeps `Within`; only the monitor sets the position. -/

section RelyGuarantee

variable (g : String)

/-- The source stays in its generation and its shadow WAL of `g` only grows. -/
def SrcGrows (w w' : World) : Prop :=
  w'.src.generation = w.src.generation ∧ ShadowLe (w.src.shadow g) (w'.src.shadow g)

/-- What may happen between two calls of the monitor: the source grows, and the retainer does
not set the position. -/
def MonitorRely (w w' : World) : Prop := w'.pos = w.pos ∧ SrcGrows g w w'

/-- What each call of the monitor does: it leaves the source alone and keeps `Within`. -/
def MonitorGuar (w w' : World) : Prop := w'.src = w.src ∧ Within g w'

/-- What each call of the retainer does: it leaves the source and the position alone and keeps
`Within`. -/
def RetainerGuar (w w' : World) : Prop := w'.src = w.src ∧ w'.pos = w.pos ∧ Within g w'

variable {g}

theorem SrcGrows.of_src {w w' : World} (h : w'.src = w.src) : SrcGrows g w w' :=
  ⟨congrArg Source.generation h, h ▸ ShadowLe.refl _⟩

theorem PosWithin.grow {sh sh' : List (List UInt8)} {p : Pos} (hs : ShadowLe sh sh')
    (h : PosWithin g sh p) : PosWithin g sh' p :=
  let ⟨hg, _, hb, hle⟩ := h
  let ⟨b', hb', hp⟩ := hs.get hb
  ⟨hg, b', hb', hle.trans hp.length_le⟩

theorem NameWithin.grow {sh sh' : List (List UInt8)} {q : Path} (hs : ShadowLe sh sh')
    (h : NameWithin g sh q) : NameWithin g sh' q :=
  ⟨fun x k hq hk => (h.1 x k hq hk).trans_le hs.1, fun x k hq hk => (h.2 x k hq hk).trans_le hs.1⟩

/-- The source's writes keep the replica within the shadow: the tree and the position stay,
and the shadow only grows. -/
theorem Within.grow {w w' : World} (hw : Within g w) (hs : SrcGrows g w w') (hfs : w'.fs = w.fs)
    (hpos : w'.pos = w.pos) : Within g w' where
  gen := hs.1.trans hw.gen
  ne := fun h => hw.ne (List.eq_nil_of_length_eq_zero (by simpa [h] using hs.2.1))
  pos := hpos ▸ hw.pos.imp_right (PosWithin.grow hs.2)
  names q n hq := (hw.names q n (hfs ▸ hq)).grow hs.2
  sizes k d t hk :=
    let ⟨_, hb, hle⟩ := hw.sizes k d t (hfs ▸ hk)
    let ⟨b', hb', hp⟩ := hs.2.get hb
    ⟨b', hb', hle.trans hp.length_le⟩
  flat := hfs ▸ hw.flat

/-- `World.Grows` is within both relies. -/
theorem Within.of_grows {w w' : World} (hw : Within g w) (h : World.Grows w w') :
    Within g w' ∧ MonitorRely g w w' ∧ SrcGrows g w w' := by
  have hs : SrcGrows g w w' := ⟨h.2.2.1, hw.gen ▸ h.2.2.2⟩
  exact ⟨hw.grow hs h.1 h.2.1, ⟨h.2.1, hs⟩, hs⟩

end RelyGuarantee

/-! ## 3. The calls of the two goroutines

Most calls fit whatever the goroutine knows: they read, remove, or create directories no deeper
than a WAL directory.  A snapshot fits once its index is one of the shadow's. -/

section Fits

variable {g : String} {sh : List (List UInt8)}

/-- A call that sets no position and fits every shadow (of a Go `int`'s length at most) that
has index `i`. -/
def Call.FitsFrom (g : String) (i : Nat) {β : Type} (c : Call β) : Prop :=
  c.isSetPos = false ∧ ∀ sh : List (List UInt8), sh.length ≤ 2 ^ 63 → i < sh.length → c.Fits g sh

theorem Call.ReadsOrRemoves.fitsFrom {β : Type} {c : Call β} (h : c.ReadsOrRemoves) (i : Nat) :
    c.FitsFrom g i := by
  cases c <;> first | exact ⟨rfl, fun _ _ _ => trivial⟩ | exact h.elim

theorem snapshotDir_ne_walDir {g' x y : String} : snapshotDir g' ++ [x] ≠ walDir g ++ [y] := by
  simp [snapshotDir, walDir, generationDir]

/-- A name of `g`'s snapshot directory that parses within the shadow, or not at all. -/
theorem NameWithin.snapshot {x : String} (h : ∀ k, snapshotIndex x = some k → k < sh.length) :
    NameWithin g sh (snapshotDir g ++ [x]) :=
  ⟨fun _ _ hq => absurd hq snapshotDir_ne_walDir, fun y k hq hk => by
    obtain rfl : x = y := by simpa [snapshotDir, generationDir] using hq
    exact h k hk⟩

/-- **A snapshot of an index of the shadow fits**: its temporary file parses as no snapshot,
and the file it renames onto parses to its index. -/
theorem snapshot_fits (g : String) (i : Nat) : Prog.Calls (Call.FitsFrom g i) (snapshot g i) := by
  have hi : ∀ sh : List (List UInt8), sh.length ≤ 2 ^ 63 → i < sh.length → i < 16 ^ 16 :=
    fun _ hl hlt => by omega
  have hread : ∀ {β : Type} {c : Call β}, c.isRead = true → c.FitsFrom g i := fun {_ c} hc => by
    cases c <;> first | exact ⟨rfl, fun _ _ _ => trivial⟩ | cases hc
  unfold snapshot compressFile
  refine .bind (.call (hread rfl)) fun r => ?_
  rcases r with _ | ⟨⟩
  · exact .pure
  refine .bind (.call (hread rfl)) fun r => ?_
  rcases r with _ | _
  · refine .check ⟨rfl, fun _ _ _ => by simp [Call.Fits, snapshotDir, generationDir]⟩ ?_
    refine .bind (.call (hread rfl)) fun r => ?_
    rcases r with _ | d
    · exact .pure
    dsimp only [snapshotPath, addExt_append]
    refine .check ⟨rfl, fun sh hl hlt => ⟨NameWithin.snapshot fun k hk => ?_,
      fun k hk => absurd hk snapshotDir_ne_walDir⟩⟩ <|
      .check ⟨rfl, fun _ _ _ k hk => snapshotDir_ne_walDir hk⟩ <|
      .check (hread rfl) <| .check (hread rfl) <| .check (hread rfl) <|
      .check ⟨rfl, fun sh hl hlt => ⟨NameWithin.snapshot fun k hk => ?_,
        fun k hk => snapshotDir_ne_walDir hk⟩⟩ .pure
    · simp [snapshotIndex, parseSnapshotPath_tmp (hi sh hl hlt)] at hk
    · rw [snapshotIndex_snapshotName (hi sh hl hlt)] at hk
      cases hk
      exact hlt
  · exact .pure

/-- A WAL file of an index of the shadow is named within it. -/
theorem NameWithin.wal {j : Nat} (hj : j < sh.length) (hb : sh.length ≤ 2 ^ 63) :
    NameWithin g sh (walPath g j) :=
  ⟨fun x k hq hk => by
    obtain rfl : walName j = x := by simpa [walPath] using hq
    rw [walIndex_walName (by omega)] at hk
    cases hk
    exact hj, fun _ _ hq => absurd hq.symm snapshotDir_ne_walDir⟩

/-- The retainer's listings, its forced snapshot of `DB.Pos()` and its deletions fit. -/
theorem retainedSnapshots_fits (r : FileReplica) (isGen : GenerationName) {pos : Pos}
    (hp : pos.generation = g) :
    Prog.Calls (Call.FitsFrom g pos.index) (retainedSnapshots r isGen pos) := by
  unfold retainedSnapshots
  refine .bind ((snapshots_reads r isGen).calls.mono fun h => h.fitsFrom _) fun res => ?_
  rcases res with _ | snaps
  · exact .pure
  refine .bind (.call ⟨rfl, fun _ _ _ => trivial⟩) fun now => ?_
  dsimp only
  split
  · exact .bind (hp ▸ snapshot_fits g pos.index) fun res => by rcases res <;> exact .pure
  · exact .pure

end Fits

/-! ## 4. Guarded calls

For either goroutine: its rely lets the source grow and contains the calls that leave the
source and the position alone; its guarantee contains every call that leaves them alone and
keeps `Within`. -/

section Guard

variable {g : String} {R G : World → World → Prop}
  (hR : ∀ w w', w'.src = w.src → w'.pos = w.pos → R w w')
  (hRg : ∀ w w', R w w' → SrcGrows g w w')
  (hG : ∀ w w', w'.src = w.src → w'.pos = w.pos → Within g w' → G w w')

include hRg in
theorem stable_index (i : Nat) : Stable (Sem.rely R) fun w => i < (w.src.shadow g).length :=
  fun w w' h hw => hw.trans_le (hRg w w' h).2.1

include hR hG in
/-- **A call that fits from every world of a stable `P` and sets no position** is a step of
the guarantee and keeps `P`. -/
theorem keeps_of_fits {β : Type} {c : Call β} {P : World → Prop} (hP : Stable (Sem.rely R) P)
    (hsp : c.isSetPos = false) (hc : ∀ w, P w → c.Fits g (w.src.shadow g)) :
    ∀ w b w', Within g w → P w → (Sem.rely R).step c w b w' → G w w' ∧ P w' :=
  fun w _ w' hI hw hs =>
    have hsrc := Faulty.step_src hs
    have hpos := congrArg World.pos (Faulty.step_treeOnly hsp hs)
    ⟨hG w w' hsrc hpos (hI.step (hc w hw) hs), hP (hR w w' hsrc hpos) hw⟩

include hR hRg hG in
/-- A program whose calls fit once the shadow has index `i` is guarded from there. -/
theorem guarded_of_fitsFrom {α : Type} {i : Nat} {p : Prog α}
    (hp : Prog.Calls (Call.FitsFrom g i) p) :
    Guarded (Sem.rely R) (Within g) G (fun w => i < (w.src.shadow g).length) p
      fun _ w => i < (w.src.shadow g).length :=
  Guarded.of_calls (stable_index hRg i) <| hp.mono fun h =>
    keeps_of_fits hR hG (stable_index hRg i) h.1 fun w hw => h.2 _ (w.src.index_bound g) hw

include hG in
/-- A call that only reads answers as `Call.run` or fails, and changes nothing. -/
theorem guarded_read {β : Type} {c : Call β} (hc : c.isRead = true) {P : World → Prop}
    {Q : β → World → Prop} (h : ∀ w b, Within g w → P w → Sem.replica.step c w b w → Q b w) :
    Guarded (Sem.rely R) (Within g) G P (.call c) Q :=
  .call fun w b w' hI hw hs => by
    obtain rfl := Faulty.step_read hc hs
    exact ⟨hG w' w' rfl rfl hI, h w' b hI hw hs⟩

include hG in
/-- `DB.Pos()`, when not zero, names an index of the shadow of `g`. -/
theorem dbPos_guarded {P : World → Prop} :
    Guarded (Sem.rely R) (Within g) G P (.call .dbPos) fun res w =>
      ∀ p, res = .ok p → p.isZero = false →
        p.generation = g ∧ p.generation ≠ "" ∧ p.index < (w.src.shadow g).length :=
  guarded_read hG (by rfl) fun _ _ hI _ hs p hp hz => by
    rcases (Faulty.step_dbPos hs).2 with rfl | rfl
    · cases hp
      exact hI.dbPos hz
    · cases hp

/-- An entry a listing of the tree names is within the shadow. -/
theorem Within.listed {w : World} {p : Path} {fis : List FileInfo} {fi : FileInfo}
    (hw : Within g w) (h : w.fs.readDir p = .ok fis) (hfi : fi ∈ fis) :
    NameWithin g (w.src.shadow g) (p ++ [fi.name]) :=
  let ⟨n, hn, _⟩ := (FS.mem_readDir _ h).mp hfi
  hw.names _ n hn

include hG in
/-- `ReadDir` lists only names within the shadow. -/
theorem readDir_guarded (p : Path) {P : World → Prop} :
    Guarded (Sem.rely R) (Within g) G P (.call (.readDir p)) fun res w =>
      P w ∧ ∀ fis, res = .ok fis → ∀ fi ∈ fis, NameWithin g (w.src.shadow g) (p ++ [fi.name]) :=
  guarded_read hG (by rfl) fun _ _ hI hw hs =>
    ⟨hw, fun _ hr _ hfi => hI.listed (Faulty.step_readDir (hr ▸ hs)).2 hfi⟩

include hRg in
theorem stable_listed {P : World → Prop} (hP : Stable (Sem.rely R) P) (p : Path)
    (res : Except FsError (List FileInfo)) : Stable (Sem.rely R) fun w =>
      P w ∧ ∀ fis, res = .ok fis → ∀ fi ∈ fis, NameWithin g (w.src.shadow g) (p ++ [fi.name]) :=
  fun w w' h hw => ⟨hP h hw.1, fun fis hr fi hfi => (hw.2 fis hr fi hfi).grow (hRg w w' h).2⟩

theorem PosWithin.start {sh : List (List UInt8)} {i : Nat} (h : i < sh.length) :
    PosWithin g sh ⟨g, i, 0⟩ :=
  ⟨rfl, _, List.getElem?_eq_getElem h, Nat.zero_le _⟩

include hRg hG in
/-- `MaxSnapshotIndex` answers an index of the shadow. -/
theorem maxSnapshotIndex_guarded :
    Guarded (Sem.rely R) (Within g) G (fun _ => True) (maxSnapshotIndex g) fun res w =>
      ∀ i, res = .ok i → i < (w.src.shadow g).length := by
  unfold maxSnapshotIndex
  refine .bind (readDir_guarded hG _) (stable_listed hRg (fun _ _ _ h => h) _) fun res => ?_
  rcases res with _ | fis
  · exact .pure fun _ _ _ h => by cases h
  dsimp only
  split
  · exact .pure fun _ _ _ h => by cases h
  · rename_i hne
    refine .pure fun w hw i hi => ?_
    cases hi
    obtain ⟨fi, hfi, hk, -⟩ := maxIndexOf_mem hne
    exact (hw.2 fis rfl fi hfi).2 fi.name _ rfl hk

include hRg hG in
/-- **`CalcPos` answers a position within the shadow**: the latest snapshot's index, or the
highest WAL file's index and size, each read from a tree within the shadow. -/
theorem calcPos_guarded :
    Guarded (Sem.rely R) (Within g) G (fun _ => True) (calcPos g) fun res w =>
      ∀ pos, res = .ok pos → PosWithin g (w.src.shadow g) pos := by
  unfold calcPos
  refine .bind (maxSnapshotIndex_guarded hRg hG) (fun res w w' h hw i hi =>
    (hw i hi).trans_le (hRg w w' h).2.1) fun res => ?_
  rcases res with _ | s
  · exact .pure fun _ _ _ h => by cases h
  have hs : Stable (Sem.rely R) fun w => ∀ i, (.ok s : Except Error Nat) = .ok i →
      i < (w.src.shadow g).length := fun w w' h hw i hi => (hw i hi).trans_le (hRg w w' h).2.1
  refine .bind (readDir_guarded hG _) (stable_listed hRg hs _) fun res => ?_
  rcases res with e | fis
  · cases e <;> exact .pure fun w hw pos hp => by
      cases hp <;> exact PosWithin.start (hw.1 s rfl)
  dsimp only
  split
  · exact .pure fun w hw pos hp => by
      cases hp
      exact PosWithin.start (hw.1 s rfl)
  rename_i hne
  obtain ⟨fi, hfi, hk, -⟩ := maxIndexOf_mem hne
  refine .bind (guarded_read hG (by rfl) (Q := fun res w => ∀ fi, res = .ok fi →
      ∃ b, (w.src.shadow g)[(maxIndexOf walIndex fis).toNat]? = some b ∧ fi.size ≤ b.length)
    fun w res hI hw hst fi' hr => ?_) (fun res w w' h hw fi' hr => ?_) fun res => ?_
  · have hlt := (hw.2 fis rfl fi hfi).1 fi.name _ rfl hk
    obtain ⟨n, hn, rfl⟩ := FS.stat_eq_ok (Faulty.step_stat (hr ▸ hst)).2
    cases n with
    | dir => exact absurd (FS.isDir_of_get hn) (hI.flat _)
    | file d t => exact hI.sizes _ d t hn
  · obtain ⟨b, hb, hle⟩ := hw fi' hr
    obtain ⟨b', hb', hp⟩ := (hRg w w' h).2.get hb
    exact ⟨b', hb', hle.trans hp.length_le⟩
  · rcases res with _ | fi'
    · exact .pure fun _ _ _ h => by cases h
    · exact .pure fun w hw pos hp => by
        cases hp
        exact ⟨rfl, hw fi' rfl⟩

include hG in
/-- **`compress` does nothing**: the WAL directory is flat, so the glob finds no file. -/
theorem compress_guarded :
    Guarded (Sem.rely R) (Within g) G (fun _ => True) (compress g) fun _ _ => True := by
  unfold compress
  refine .bind (guarded_read hG (by rfl) (Q := fun ps _ => ps = []) fun w ps hI _ hs => ?_)
    (fun _ _ _ _ h => h) fun ps => Guarded.intro (fun _ h => h) fun hps => ?_
  · have := (Faulty.step_glob hs).2
    rw [glob_compressPattern hI.flat] at this
    exact List.eq_nil_of_sublist_nil this
  · subst hps
    exact .pure fun _ _ => trivial

include hRg in
theorem stable_dbPos (res : Except Error Pos) : Stable (Sem.rely R) fun w =>
    ∀ p, res = .ok p → p.isZero = false →
      p.generation = g ∧ p.generation ≠ "" ∧ p.index < (w.src.shadow g).length :=
  fun w w' h hw p hp hz =>
    (hw p hp hz).imp_right (And.imp_right fun hlt => hlt.trans_le (hRg w w' h).2.1)

include hR hRg hG in
/-- **`EnforceRetention` is guarded**: past `DB.Pos()`, every call it makes fits, its forced
snapshot being of an index of the shadow. -/
theorem enforceRetention_guarded (r : FileReplica) (isGen : GenerationName) :
    Guarded (Sem.rely R) (Within g) G (fun _ => True) (enforceRetention r isGen) fun _ _ => True := by
  unfold enforceRetention
  refine .bind (dbPos_guarded hG) (stable_dbPos hRg) fun res => ?_
  rcases res with _ | pos
  · exact .pure fun _ _ => trivial
  dsimp only
  split
  · exact .pure fun _ _ => trivial
  rename_i hz
  refine Guarded.intro (fun w hw => (hw pos rfl (by simpa using hz)).1) fun hp => ?_
  refine (guarded_of_fitsFrom hR hRg hG (i := pos.index) ?_).conseq
    (fun w hw => (hw pos rfl (by simpa using hz)).2.2) fun _ _ _ => trivial
  refine .bind (retainedSnapshots_fits r isGen hp) fun res => ?_
  rcases res with _ | snaps
  · exact .pure
  refine .bind ((generations_reads isGen).calls.mono fun h => h.fitsFrom _) fun res => ?_
  rcases res with _ | gens
  · exact .pure
  exact .forRange (fun _ _ => (retainGeneration_reads snaps _).calls.mono fun h => h.fitsFrom _) _ _

end Guard

/-! ## 5. The monitor

Only the monitor sets the position, so what it knows of the position between two of its calls
stays true: after `CalcPos`, that the position is set; inside `syncWAL`, that the reader it holds
reads the shadow from the position. -/

section Monitor

variable {g : String}

theorem MonitorRely.of_frame (w w' : World) (hs : w'.src = w.src) (hp : w'.pos = w.pos) :
    MonitorRely g w w' :=
  ⟨hp, SrcGrows.of_src hs⟩

theorem MonitorGuar.of_frame (w w' : World) (hs : w'.src = w.src) (_ : w'.pos = w.pos)
    (hw : Within g w') : MonitorGuar g w w' :=
  ⟨hs, hw⟩

theorem MonitorRely.grows (w w' : World) (h : MonitorRely g w w') : SrcGrows g w w' := h.2

/-- What the monitor knows of the position and of the shadow is kept between its calls. -/
theorem MonitorRely.stable {X : Pos → List (List UInt8) → Prop}
    (hX : ∀ p sh sh', ShadowLe sh sh' → X p sh → X p sh') :
    Stable (Sem.rely (MonitorRely g)) fun w => X w.pos (w.src.shadow g) :=
  fun _ w' (h : MonitorRely g _ w') hw => by
    show X w'.pos _
    rw [h.1]
    exact hX _ _ _ h.2.2 hw

theorem syncSnapshot_fits (g : String) (i : Nat) :
    Prog.Calls (Call.FitsFrom g i) (syncSnapshot g i) := by
  unfold syncSnapshot snapshotN
  refine .bind (.bind (.call ⟨rfl, fun _ _ _ => trivial⟩) fun r => ?_) fun r => ?_
  · rcases r with ((_ | _ | _ | _ | _) | _) <;> exact .pure
  · rcases r with _ | n
    · exact .pure
    · dsimp only
      split
      · exact snapshot_fits g i
      · exact .pure

/-- A reader's bytes end within their index of the shadow. -/
theorem ReaderAt.end_le {sh : List (List UInt8)} {p : Pos} {rd : Reader} (hr : ReaderAt sh p rd) :
    ∃ b, sh[rd.pos.index]? = some b ∧ rd.pos.offset + rd.bytes.length ≤ b.length :=
  let ⟨b, hb, hle, hbs⟩ := hr.segment
  ⟨b, hb, by simpa only [List.length_drop, Nat.le_sub_iff_add_le' hle] using hbs.length_le⟩

/-- **`SetPos` of a position within the shadow** keeps `Within`, and sets a non-zero position
when it is one. -/
theorem setPos_guarded {pos : Pos} {P : World → Prop} (hp : pos ≠ Pos.zero)
    (hw : ∀ w, P w → PosWithin g (w.src.shadow g) pos) :
    Guarded (Sem.rely (MonitorRely g)) (Within g) (MonitorGuar g) P (.call (.setPos pos))
      fun _ w => w.pos ≠ Pos.zero :=
  .call fun w _ w' hI hP hs => by
    refine ⟨⟨Faulty.step_src hs, hI.step (c := .setPos pos) (Or.inr (hw w hP)) hs⟩, ?_⟩
    rw [Faulty.step_setPos hs]
    exact hp

/-- **The second step of `Sync`**: when it returns `nil`, the position is set. -/
theorem syncPos_guarded (hg : g ≠ "") :
    Guarded (Sem.rely (MonitorRely g)) (Within g) (MonitorGuar g) (fun _ => True) (syncPos g)
      fun res w => res = .ok () → w.pos ≠ Pos.zero := by
  have hR := MonitorRely.of_frame (g := g)
  have hG := MonitorGuar.of_frame (g := g)
  unfold syncPos
  refine .bind (guarded_read hG (by rfl) (Q := fun p w => w.pos = p)
    fun _ _ _ _ hs => (Faulty.step_lastPos hs).2.symm)
    (fun p => MonitorRely.stable (X := fun q _ => q = p) fun _ _ _ _ h => h) fun p => ?_
  dsimp only
  split
  · refine .bind ((calcPos_guarded MonitorRely.grows hG).conseq (fun _ _ => trivial)
      fun _ _ h => h) (fun res w w' h hw pos hp => (hw pos hp).grow (h.2.2)) fun res => ?_
    rcases res with _ | pos
    · exact .pure fun _ _ h => by cases h
    · refine Guarded.intro (fun w hw => (hw pos rfl).1) fun hgen => ?_
      exact .bind (setPos_guarded (fun h => hg (hgen.symm.trans (congrArg Pos.generation h)))
        fun w hw => hw pos rfl) (fun _ => MonitorRely.stable (X := fun q _ => q ≠ Pos.zero)
          fun _ _ _ _ h => h) fun _ => .pure fun _ h _ => h
  · rename_i hz
    exact .pure fun w hw _ => by
      rw [hw]
      simpa [Pos.isZero] using hz

/-- `ShadowWALReader(LastPos())`, at a set position, answers a reader of the shadow from there
whose end is set. -/
theorem shadowWALReader_guarded {p : Pos} :
    Guarded (Sem.rely (MonitorRely g)) (Within g) (MonitorGuar g)
      (fun w => w.pos = p ∧ p ≠ Pos.zero) (.call (.shadowWALReader p)) fun res w =>
        (w.pos = p ∧ p ≠ Pos.zero) ∧ ∀ rd, res = .ok rd →
          ReaderAt (w.src.shadow g) p rd ∧ rd.pos.generation = g ∧ rd.endPos.isZero = false :=
  guarded_read (MonitorGuar.of_frame (g := g)) (by rfl) fun w res hI hw hs => ⟨hw, fun rd hr => by
    obtain ⟨-, hres | rfl⟩ := Faulty.step_shadowWALReader hs
    · rw [hres] at hr
      obtain ⟨hgen, hb⟩ := hI.pos.resolve_left (hw.1 ▸ hw.2)
      rw [hw.1] at hgen hb
      have hra := readerAt_of_ok hr (by rw [hgen]; exact hb)
      rw [hgen] at hra
      exact ⟨hra, hra.gen.trans hgen, Source.shadowWALReader_endPos hr⟩
    · cases hr⟩

/-- **`syncWAL` writes only what its reader read**: the bytes of an index of the shadow past
the reader's offset, into that index's WAL file, and then it sets the reader's end. -/
theorem syncWAL_guarded :
    Guarded (Sem.rely (MonitorRely g)) (Within g) (MonitorGuar g) (fun w => w.pos ≠ Pos.zero)
      syncWAL fun _ w => w.pos ≠ Pos.zero := by
  have hR := MonitorRely.of_frame (g := g)
  have hG := MonitorGuar.of_frame (g := g)
  unfold syncWAL
  refine .bind (guarded_read hG (by rfl) (Q := fun p w => w.pos = p ∧ p ≠ Pos.zero)
    fun _ _ _ hw hs => by obtain ⟨-, rfl⟩ := Faulty.step_lastPos hs; exact ⟨rfl, hw⟩)
    (fun p => MonitorRely.stable (X := fun q _ => q = p ∧ p ≠ Pos.zero) fun _ _ _ _ h => h)
    fun p => ?_
  refine .bind shadowWALReader_guarded
    (fun res => MonitorRely.stable (X := fun q sh => (q = p ∧ p ≠ Pos.zero) ∧ ∀ rd,
      res = .ok rd → ReaderAt sh p rd ∧ rd.pos.generation = g ∧ rd.endPos.isZero = false)
      fun _ _ _ hs h => ⟨h.1, fun rd hr => (h.2 rd hr).imp_left (ReaderAt.grow hs)⟩) fun res => ?_
  rcases res with e | rd
  · cases e <;> exact .pure fun w hw => hw.1.1 ▸ hw.1.2
  refine Guarded.intro (fun w hw => (hw.2 rd rfl).2) fun ⟨hgen, hend⟩ => ?_
  have hA : Stable (Sem.rely (MonitorRely g)) fun w =>
      w.pos ≠ Pos.zero ∧ ReaderAt (w.src.shadow g) p rd :=
    MonitorRely.stable (X := fun q sh => q ≠ Pos.zero ∧ ReaderAt sh p rd)
      fun _ _ _ hs h => ⟨h.1, h.2.grow hs⟩
  have hcall : ∀ {c : Call (Except FsError Unit)}, c.isSetPos = false →
      (∀ w : World, w.pos ≠ Pos.zero ∧ ReaderAt (w.src.shadow g) p rd →
        c.Fits g (w.src.shadow g)) →
      Guarded (Sem.rely (MonitorRely g)) (Within g) (MonitorGuar g)
        (fun w => w.pos ≠ Pos.zero ∧ ReaderAt (w.src.shadow g) p rd) (.call c)
        fun _ w => w.pos ≠ Pos.zero ∧ ReaderAt (w.src.shadow g) p rd :=
    fun hsp hc => .call (keeps_of_fits hR hG hA hsp hc)
  refine Guarded.conseq (P := fun w => w.pos ≠ Pos.zero ∧ ReaderAt (w.src.shadow g) p rd) ?_
    (fun w hw => ⟨hw.1.1 ▸ hw.1.2, (hw.2 rd rfl).1⟩) fun _ _ h => h
  dsimp only
  rw [hgen, walPath_dropLast]
  refine .check (hcall rfl fun _ _ => by simp [Call.Fits, walDir, generationDir])
    (fun _ => hA) (fun _ _ hw => hw.1) ?_
  refine .check (hcall rfl fun w hw => ?_) (fun _ => hA) (fun _ _ hw => hw.1) ?_
  · obtain ⟨b, hb, -⟩ := hw.2.segment
    have hj := lt_of_getElem? hb
    exact ⟨NameWithin.wal hj (w.src.index_bound g), fun k hk => walPath_inj hk ▸ hj⟩
  refine .check (hcall rfl fun _ _ => trivial) (fun _ => hA) (fun _ _ hw => hw.1) ?_
  refine .check (hcall rfl fun w hw k hk => walPath_inj hk ▸ hw.2.end_le) (fun _ => hA)
    (fun _ _ hw => hw.1) ?_
  refine .check (hcall rfl fun _ _ => trivial) (fun _ => hA) (fun _ _ hw => hw.1) ?_
  refine .check (hcall rfl fun _ _ => trivial) (fun _ => hA) (fun _ _ hw => hw.1) ?_
  exact .bind (setPos_guarded (by simpa [Pos.isZero] using hend) fun w hw =>
      let ⟨b, hb, hle⟩ := hw.2.end_le
      ⟨hgen, b, hb, hle⟩)
    (fun _ => MonitorRely.stable (X := fun q _ => q ≠ Pos.zero) fun _ _ _ _ h => h)
    fun _ => .pure fun _ h => h

theorem syncWALLoop_guarded :
    Guarded (Sem.rely (MonitorRely g)) (Within g) (MonitorGuar g) (fun w => w.pos ≠ Pos.zero)
      syncWALLoop fun _ _ => True := by
  have hJ : Stable (Sem.rely (MonitorRely g)) fun w => w.pos ≠ Pos.zero :=
    MonitorRely.stable (X := fun q _ => q ≠ Pos.zero) fun _ _ _ _ h => h
  exact .loop (J := fun _ w => w.pos ≠ Pos.zero) (fun _ h => h) (fun _ => hJ) fun _ =>
    .bind syncWAL_guarded (fun _ => hJ) fun r => by
      split <;> first | exact .pure fun _ _ => trivial | exact .pure fun _ h => h

/-- **`Sync` is guarded**: `DB.Pos()` names an index of the shadow, which the snapshot takes;
the position `Sync` sets is one `CalcPos` computed or its reader's end; `compress` does
nothing. -/
theorem sync_guarded :
    Guarded (Sem.rely (MonitorRely g)) (Within g) (MonitorGuar g) (fun _ => True) sync
      fun _ _ => True := by
  have hR := MonitorRely.of_frame (g := g)
  have hG := MonitorGuar.of_frame (g := g)
  have hRg := MonitorRely.grows (g := g)
  unfold sync
  refine .bind (dbPos_guarded hG) (stable_dbPos hRg) fun res => ?_
  rcases res with _ | dpos
  · exact .pure fun _ _ => trivial
  dsimp only
  split
  · exact .pure fun _ _ => trivial
  rename_i hz
  have hz' : dpos.isZero = false := by simpa using hz
  refine Guarded.intro (fun w hw => (hw dpos rfl hz').imp_right And.left) fun ⟨hp, hg⟩ => ?_
  rw [hp] at hg ⊢
  refine .bind ((guarded_of_fitsFrom hR hRg hG (syncSnapshot_fits g dpos.index)).conseq
    (fun w hw => (hw dpos rfl hz').2.2) fun _ _ _ => trivial) (fun _ _ _ _ h => h) fun res => ?_
  rcases res with _ | ⟨⟩
  · exact .pure fun _ _ => trivial
  refine .bind ((syncPos_guarded hg).conseq (fun _ _ => trivial) fun _ _ h => h)
    (fun res => MonitorRely.stable (X := fun q _ => res = .ok () → q ≠ Pos.zero)
      fun _ _ _ _ h => h) fun res => ?_
  rcases res with _ | ⟨⟩
  · exact .pure fun _ _ => trivial
  refine .bind (syncWALLoop_guarded.conseq (fun w hw => hw rfl) fun _ _ h => h)
    (fun _ _ _ _ h => h) fun res => ?_
  rcases res with _ | ⟨⟩
  · exact .pure fun _ _ => trivial
  dsimp only
  rw [if_pos hg]
  exact .bind (compress_guarded hG) (fun _ _ _ _ h => h) fun res => by
    rcases res <;> exact .pure fun _ _ => trivial

theorem monitorTurn_guarded :
    Guarded (Sem.rely (MonitorRely g)) (Within g) (MonitorGuar g) (fun _ => True) monitorTurn
      fun _ _ => True :=
  .bind (guarded_read (MonitorGuar.of_frame (g := g)) (by rfl) (Q := fun _ _ => True)
    fun _ _ _ _ _ => trivial) (fun _ _ _ _ h => h) fun _ =>
      .bind sync_guarded (fun _ _ _ _ h => h) fun _ => .pure fun _ _ => trivial

/-- **The monitor's loop is guarded**: each turn, `Notify()` and then `Sync`. -/
theorem monitorLoop_guarded :
    Guarded (Sem.rely (MonitorRely g)) (Within g) (MonitorGuar g) (fun _ => True) monitorLoop
      fun _ _ => True :=
  .loop (J := fun _ _ => True) (fun _ h => h) (fun _ _ _ _ h => h) fun _ =>
    .bind monitorTurn_guarded (fun _ _ _ _ h => h) fun _ => .pure fun _ _ => trivial

end Monitor

/-- **The retainer's loop is guarded**: each tick, `EnforceRetention`, which never sets the
position. -/
theorem retainerLoop_guarded {g : String} (r : FileReplica) (isGen : GenerationName) :
    Guarded (Sem.rely (SrcGrows g)) (Within g) (RetainerGuar g) (fun _ => True)
      (retainerLoop r isGen) fun _ _ => True := by
  unfold retainerLoop
  exact .loop (J := fun _ _ => True) (fun _ h => h) (fun _ _ _ _ h => h) fun _ =>
    .bind (enforceRetention_guarded (fun _ _ hs _ => SrcGrows.of_src hs) (fun _ _ h => h)
      (fun _ _ hs hp hw => ⟨hs, hp, hw⟩) r isGen) (fun _ _ _ _ h => h) fun _ =>
        .pure fun _ _ => trivial

/-! ## 6. Every run of `Start` -/

/-- An empty destination, with no position, is within any shadow that has an index. -/
theorem Within.fresh {src : Source} (hne : src.shadow src.generation ≠ []) (clock : Int) :
    Within src.generation (World.fresh src clock) where
  gen := rfl
  ne := hne
  pos := .inl rfl
  names q n hq := by
    rcases q with _ | ⟨x, q⟩
    · exact NameWithin.of_length (by simp)
    · simp [World.fresh, FS.get, FS.empty] at hq
  sizes k d t hq := by simp [World.fresh, FS.get, FS.empty, walPath, walDir, generationDir] at hq
  flat _ := FS.not_isDir_of_get_none rfl

variable {r : FileReplica} {isGen : GenerationName}

/-- **The replica stays within the shadow WAL, with both goroutines running.**  In every run of
`Start` from an empty destination, whatever the schedule of the monitor and the retainer, with
failed calls, the source's writes and restarts anywhere: `LastPos()` is zero or within the
source's shadow WAL, every WAL file of the source's generation is no longer than its index of the
shadow WAL, and every name in the generation's WAL and snapshot directories parses to an index
the shadow WAL has. -/
theorem within_start {src : Source} {clock : Int} (hne : src.shadow src.generation ≠ [])
    {s : Prog Unit × Prog Unit × World}
    (h : Relation.ReflTransGen (StartStep r isGen)
      (monitorLoop, retainerLoop r isGen, World.fresh src clock) s) :
    Within src.generation s.2.2 :=
  StartStep.guarded monitorLoop_guarded (retainerLoop_guarded r isGen)
    (fun _ _ _ h => h) (fun _ _ _ h => h)
    (fun _ _ _ ⟨hs, hw⟩ => ⟨hw, SrcGrows.of_src hs⟩)
    (fun _ _ _ ⟨hs, hp, hw⟩ => ⟨hw, MonitorRely.of_frame _ _ hs hp⟩)
    (fun _ _ hI hg => hI.of_grows hg)
    (fun _ hI => ⟨⟨hI.gen, hI.ne, .inl rfl, hI.names, hI.sizes, hI.flat⟩, trivial, trivial⟩)
    ⟨Within.fresh hne clock, trivial, trivial⟩ h

/-- In the race of `startRace`, `LastPos()` has reached the end of the bytes of index `0`. -/
theorem within_start_race :
    indexZeroSource.shadow indexZeroSource.generation ≠ [] ∧
      startRace.2.2.pos = ⟨"g", 0, 2⟩ ∧ Within indexZeroSource.generation startRace.2.2 :=
  ⟨by decide, rfl, within_start (by decide) (StartStep.of_interleave (interleave_sound _ _))⟩

/-! ## 7. Two snapshots through one temporary file

`within_start` is about names and sizes, and it is all that survives of the soundness of the
snapshots (`snapshots_complete`) once the two goroutines run side by side.  The monitor's first
snapshot and the retainer's forced one are of the same index, and `compressFile` names its
temporary file after its destination, so the two goroutines share it. -/

/-- The monitor writes snapshot `0`'s temporary file in full; the retainer, which lists no
snapshot, forces one of the same index and creates the same temporary file, empty; the monitor
renames it over snapshot `0`. -/
def snapshotRace : Prog Unit × Prog Unit × World :=
  interleave Source.shadowWALReader [(true, 26), (false, 21), (true, 1)]
    (monitorLoop, retainerLoop hourReplica anyGeneration, World.fresh indexZeroSource 0)

/-- The process then restarts, and the monitor runs a whole `Sync`. -/
def snapshotRaceRestart : Prog Unit × Prog Unit × World :=
  interleave Source.shadowWALReader [(true, 80)]
    (monitorLoop, retainerLoop hourReplica anyGeneration, { snapshotRace.2.2 with pos := Pos.zero })

/-- **The monitor's snapshot and the retainer's forced snapshot race on one temporary file.**
From an empty destination, with no failed call and no write of the source: snapshot `0` lands
as an empty file; after a restart `Sync` finds a snapshot there, takes none, and copies WAL `0`
in full; the snapshots are not sound (`snapshots_complete` fails), and `SnapshotReader` answers
the `io.EOF` of `gzip.NewReader` on an empty file. -/
theorem snapshot_race_empties_snapshot :
    Relation.ReflTransGen (StartStep hourReplica anyGeneration)
        (monitorLoop, retainerLoop hourReplica anyGeneration, World.fresh indexZeroSource 0)
        snapshotRaceRestart ∧
      snapshotRaceRestart.2.2.fs.get (snapshotPath "g" 0) = some (.file (.raw []) 0) ∧
      snapshotRaceRestart.2.2.pos = ⟨"g", 0, 2⟩ ∧
      ¬ SoundSnapshots (fun _ => True) snapshotRaceRestart.2.2.fs ∧
      Returns Source.shadowWALReader (snapshotReader "g" 0) snapshotRaceRestart.2.2
        (.error .eof) snapshotRaceRestart.2.2 := by
  have hget : snapshotRaceRestart.2.2.fs.get (snapshotPath "g" 0) = some (.file (.raw []) 0) := rfl
  refine ⟨((StartStep.of_interleave (interleave_sound _ _)).tail (StartStep.crash
      (p := snapshotRace.1) (q := snapshotRace.2.1) (w := snapshotRace.2.2))).trans
      (StartStep.of_interleave (interleave_sound _ _)), hget, rfl, fun h => ?_,
    Prog.run_sound 50 _ _ _ _ rfl⟩
  obtain ⟨-, d, t, hn, -⟩ := h "g" (snapshotName 0) 0 _ _ hget
    (parseSnapshotPath_snapshotName (by decide))
  cases hn

end Litestream
