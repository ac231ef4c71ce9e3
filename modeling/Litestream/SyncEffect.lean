import Litestream.RetentionEffect
import Litestream.Footprint
/-!
# Where a `Sync` stops

`Sync` run alone (`Returns`), for every adapter.  Its loop calls `syncWAL` until the adapter
answers `io.EOF`, and nothing after the loop moves the position, so a `Sync` that returns `nil`
stops at a position where the adapter's reader is exhausted (`sync_ends_at_eof`).  Nothing in
`Sync` asks the database which generation it is in once the position is cached; what that means
for a new generation is in `Litestream.NewGeneration`.

With the repository's reader the loop ends from every world: each turn that goes on moves the
position forward in the order (index, offset), to the end of an index of the shadow WAL
(`syncWALLoop_terminates`).
-/

namespace Litestream

/-! ## 1. The calls of `compress` -/

section Calls

theorem Call.OfCompressFile.quiet {β : Type} {c : Call β} {src : FileRef} {dst : Path}
    (h : c.OfCompressFile src dst) : c.isSetPos = false ∧ c.mkdirLen = 0 := by
  cases c <;> first | exact h.elim | exact ⟨rfl, rfl⟩

/-- `compressFile` neither moves the position nor creates a directory. -/
theorem compressFile_calls (src : FileRef) (dst : Path) :
    Prog.LoopFree (fun c => c.isSetPos = false ∧ c.mkdirLen = 0) (compressFile src dst) :=
  (compressFile_footprint src dst).mono Call.OfCompressFile.quiet

theorem compressLoop_calls : ∀ filenames,
    Prog.LoopFree (fun c => c.isSetPos = false ∧ c.mkdirLen = 0) (compressLoop filenames)
  | [] => .pure
  | filename :: filenames => .bind (.call ⟨rfl, rfl⟩) fun done => by
    cases done
    · exact .bind (compressFile_calls _ _) fun
        | .error _ => .pure
        | .ok () => .check ⟨rfl, rfl⟩ (compressLoop_calls filenames)
    · exact .pure

theorem compress_calls (generation : String) :
    Prog.LoopFree (fun c => c.isSetPos = false ∧ c.mkdirLen = 0) (compress generation) :=
  .bind (.call ⟨rfl, rfl⟩) fun filenames => by
    split
    · exact .pure
    · exact compressLoop_calls _

end Calls

/-! ## 2. The loop stops at the end of the adapter's stream -/

section Loop

variable {rd : Adapter} {w w' : World}

/-- **`syncWAL` answers `io.EOF` only when the adapter did**, at the cached position, and then
it changed nothing. -/
theorem syncWAL_eof (h : Returns rd syncWAL w (.error .eof) w') :
    w' = w ∧ rd w.src w.pos = .error .eof := by
  simp only [syncWAL, Returns.bind_lift, Call.run] at h
  split at h
  · rename_i heq
    exact ⟨(Returns.pure.mp h).2.symm, heq⟩
  · simp at h
  · simp at h

/-- **Induction over the turns of the loop of `Sync`**: what every `syncWAL` that returns `nil`
keeps holds where the loop returns `nil`, and there the adapter answered `io.EOF`. -/
theorem syncWALLoop_inv {J : World → Prop} (h : Returns rd syncWALLoop w (.ok ()) w') (hJ : J w)
    (hturn : ∀ v v', J v → Returns rd syncWAL v (.ok ()) v' → J v') :
    J w' ∧ rd w'.src w'.pos = .error .eof := by
  refine Returns.loop_inv (J := J) (Q := fun r v => r = .ok () → J v ∧ rd v.src v.pos = .error .eof)
    h hJ (fun _ _ v _ hv hb => ?_) (fun _ _ v _ hv hb hr => ?_) rfl
  · obtain ⟨r, v₁, h₁, h₂⟩ := Returns.bind.mp hb
    split at h₂ <;> obtain ⟨hr, rfl⟩ := Returns.pure.mp h₂
    · cases hr
    · cases hr
    · exact hturn v _ hv h₁
  · obtain ⟨r, v₁, h₁, h₂⟩ := Returns.bind.mp hb
    subst hr
    split at h₂
    · obtain ⟨-, rfl⟩ := Returns.pure.mp h₂
      obtain ⟨rfl, heof⟩ := syncWAL_eof h₁
      exact ⟨hv, heof⟩
    all_goals simp at h₂

/-- **The loop of `Sync` ends where the adapter answered `io.EOF`.** -/
theorem syncWALLoop_eof (h : Returns rd syncWALLoop w (.ok ()) w') :
    rd w'.src w'.pos = .error .eof :=
  (syncWALLoop_inv (J := fun _ => True) h trivial fun _ _ _ _ => trivial).2

end Loop

/-! ## 3. A `Sync` that returned `nil` -/

section Sync

variable {rd : Adapter} {w w' : World}

/-- **What a `Sync` that returned `nil` did**: the source had a generation, and the snapshot
step, the position step, the loop and `compress` each returned `nil` in turn. -/
theorem sync_ok (h : Returns rd sync w (.ok ()) w') :
    w.src.pos.isZero = false ∧ ∃ w₁ w₂ w₃,
      Returns rd (syncSnapshot w.src.pos.generation w.src.pos.index) w (.ok ()) w₁ ∧
      Returns rd (syncPos w.src.pos.generation) w₁ (.ok ()) w₂ ∧
      Returns rd syncWALLoop w₂ (.ok ()) w₃ ∧
      if w.src.pos.generation ≠ "" then Returns rd (compress w.src.pos.generation) w₃ (.ok ()) w'
      else w' = w₃ := by
  simp only [sync, Returns.bind_lift, Call.run] at h
  by_cases hz : w.src.pos.isZero
  · simp [hz] at h
  rw [if_neg hz] at h
  refine ⟨Bool.eq_false_iff.mpr hz, ?_⟩
  obtain ⟨r₁, w₁, h₁, h₂⟩ := Returns.bind.mp h
  cases r₁ with
  | error e => simp at h₂
  | ok u =>
    obtain ⟨r₂, w₂, h₃, h₄⟩ := Returns.bind.mp h₂
    cases r₂ with
    | error e => simp at h₄
    | ok u =>
      obtain ⟨r₃, w₃, h₅, h₆⟩ := Returns.bind.mp h₄
      cases r₃ with
      | error e => simp at h₆
      | ok u =>
        refine ⟨w₁, w₂, w₃, h₁, h₃, h₅, ?_⟩
        split_ifs at h₆ ⊢
        · obtain ⟨r₄, w₄, h₇, h₈⟩ := Returns.bind.mp h₆
          cases r₄ with
          | error e => simp at h₈
          | ok u => exact (Returns.pure.mp h₈).2 ▸ h₇
        · exact (Returns.pure.mp h₆).2.symm

/-- **A `Sync` that returned `nil` stops where the adapter's stream ends**, whatever the
adapter: `ShadowWALReader` answers `io.EOF` at the position it leaves. -/
theorem sync_ends_at_eof (h : Returns rd sync w (.ok ()) w') : rd w'.src w'.pos = .error .eof := by
  obtain ⟨-, w₁, w₂, w₃, -, -, hl, hc⟩ := sync_ok h
  have heof := syncWALLoop_eof hl
  split_ifs at hc
  · rw [Returns.treeOnly hc ((compress_calls _).calls.mono (·.1))]
    exact heof
  · rw [hc]
    exact heof

end Sync

/-! ## 4. The parts of a `Sync` -/

/-- The WAL directory of `g` has no subdirectory, as in the layout `WALPath` writes. -/
def walFlat (g : String) (fs : FS) : Prop := ∀ x, ¬ fs.IsDir (walDir g ++ [x])

section Parts

variable {rd : Adapter} {w w' : World}

theorem Call.OfSnapshot.mkdirLen_le {β : Type} {c : Call β} {g : String} {i : Nat}
    (h : c.OfSnapshot g i) : c.mkdirLen ≤ 3 := by
  cases c
  case mkdirAll p => cases h; simp [Call.mkdirLen, snapshotDir, generationDir]
  all_goals exact Nat.zero_le 3

theorem Call.OfSyncPos.quiet {β : Type} {c : Call β} (h : c.OfSyncPos) :
    c.mkdirLen ≤ 3 ∧ c.removes = false := by
  cases c <;> first | exact h.elim | exact ⟨Nat.zero_le 3, rfl⟩

theorem Call.OfSyncWAL.quiet {β : Type} {c : Call β} (h : c.OfSyncWAL) :
    c.mkdirLen ≤ 3 ∧ c.removes = false := by
  cases c
  case mkdirAll p =>
    obtain ⟨g, rfl⟩ := h
    exact ⟨by simp [Call.mkdirLen, walDir, generationDir], rfl⟩
  all_goals first | exact h.elim | exact ⟨Nat.zero_le 3, rfl⟩

theorem syncSnapshot_calls (generation : String) (index : Nat) :
    Prog.Calls (fun c => c.mkdirLen ≤ 3) (syncSnapshot generation index) :=
  (syncSnapshot_footprint generation index).calls.mono Call.OfSnapshot.mkdirLen_le

theorem syncPos_calls (generation : String) :
    Prog.Calls (fun c => c.mkdirLen ≤ 3 ∧ c.removes = false) (syncPos generation) :=
  (syncPos_footprint generation).calls.mono Call.OfSyncPos.quiet

theorem syncWALLoop_calls :
    Prog.Calls (fun c => c.mkdirLen ≤ 3 ∧ c.removes = false) syncWALLoop :=
  syncWALLoop_footprint.mono Call.OfSyncWAL.quiet

/-- A call that creates no directory deeper than a WAL directory keeps WAL directories flat. -/
theorem walFlat_step {β : Type} {c : Call β} {b : β} {g : String} (hc : c.mkdirLen ≤ 3)
    (h : c.run rd w = (b, w')) (hf : walFlat g w.fs) : walFlat g w'.fs := fun x hx => by
  rcases Call.run_dir h hx with h' | h'
  · exact hf x h'
  · simp only [walDir, generationDir, List.length_append, List.length_cons,
      List.length_singleton] at h'
    omega

/-- `syncWAL` that returned `nil`: the adapter gave a reader at the cached position, its WAL
directory was made, its WAL file opened (created when absent) and written at the reader's
offset, and the position moved to the reader's end. -/
theorem syncWAL_ok (h : Returns rd syncWAL w (.ok ()) w') :
    ∃ r, rd w.src w.pos = .ok r ∧ ∃ fs₁ fs₂,
      w.fs.mkdirAll (walDir r.pos.generation) w.clock = .ok fs₁ ∧
      fs₁.openFile (walPath r.pos.generation r.pos.index) w.clock = .ok fs₂ ∧
      w' = { w with
        fs := (fs₂.writeAt (walPath r.pos.generation r.pos.index) r.pos.offset r.bytes w.clock)
        pos := r.endPos } := by
  simp only [syncWAL, Returns.bind_lift, Call.run] at h
  split at h
  · simp at h
  · simp at h
  · rename_i r hr
    refine ⟨r, hr, ?_⟩
    cases hm : w.fs.mkdirAll (walDir r.pos.generation) w.clock with
    | error e => simp [hm, Returns.check, Call.run] at h
    | ok fs₁ =>
      cases ho : fs₁.openFile (walPath r.pos.generation r.pos.index) w.clock with
      | error e => simp [hm, ho, Returns.check, Call.run] at h
      | ok fs₂ =>
        simp [hm, ho, Returns.check, Call.run] at h
        exact ⟨fs₁, fs₂, rfl, ho, h.symm⟩

theorem calcPos_generation {g : String} {pos : Pos} (h : Returns rd (calcPos g) w (.ok pos) w') :
    pos.generation = g := by
  obtain ⟨r, w₁, -, h₂⟩ := Returns.bind.mp h
  cases r with
  | error e => simp at h₂
  | ok index =>
    simp only [Returns.bind_lift, Call.run] at h₂
    split at h₂
    · cases (Returns.pure.mp h₂).1; rfl
    · simp at h₂
    · split_ifs at h₂
      · cases (Returns.pure.mp h₂).1; rfl
      · simp only [Returns.bind_lift, Call.run] at h₂
        split at h₂
        · simp at h₂
        · cases (Returns.pure.mp h₂).1; rfl

/-- After the position step the cached position is not zero. -/
theorem syncPos_nonzero {g : String} (h : Returns rd (syncPos g) w (.ok ()) w') (hg : g ≠ "") :
    w'.pos.isZero = false := by
  simp only [syncPos, Returns.bind_lift, Call.run] at h
  split_ifs at h with hz
  · obtain ⟨r, w₁, h₁, h₂⟩ := Returns.bind.mp h
    cases r with
    | error e => simp at h₂
    | ok pos =>
      simp only [Returns.bind_lift, Call.run, Returns.pure, true_and] at h₂
      subst h₂
      simp only [Pos.isZero, decide_eq_false_iff_not]
      exact fun h0 => hg ((calcPos_generation h₁).symm.trans (congrArg Pos.generation h0))
  · obtain ⟨-, rfl⟩ := Returns.pure.mp h
    simpa using hz

/-- With the repository's reader, the loop never leaves the position at zero. -/
theorem syncWALLoop_nonzero (h : Returns Source.shadowWALReader syncWALLoop w (.ok ()) w')
    (hw : w.pos.isZero = false) : w'.pos.isZero = false := by
  refine (syncWALLoop_inv (J := fun v => v.pos.isZero = false) h hw fun _ _ _ h₁ => ?_).1
  obtain ⟨rdr, hrd, -, -, -, -, rfl⟩ := syncWAL_ok h₁
  exact Source.shadowWALReader_endPos hrd

/-- **The snapshot step leaves a snapshot of the generation on disk.** -/
theorem syncSnapshot_present {g : String} {i : Nat} (h : Returns rd (syncSnapshot g i) w (.ok ()) w')
    (hi : i < 16 ^ 16) :
    ∃ x, snapshotIndex x ≠ none ∧ w'.fs.get (snapshotDir g ++ [x]) ≠ none := by
  obtain ⟨r, w₁, h₁, h₂⟩ := Returns.bind.mp h
  simp only [snapshotN, Returns.bind_lift, Call.run] at h₁
  have hsnap : Returns rd (snapshot g i) w (.ok ()) w' →
      ∃ x, snapshotIndex x ≠ none ∧ w'.fs.get (snapshotDir g ++ [x]) ≠ none := fun hs =>
    ⟨snapshotName i, by simp [snapshotIndex_snapshotName hi], snapshot_present hs⟩
  split at h₁ <;> obtain ⟨rfl, rfl⟩ := Returns.pure.mp h₁
  · exact hsnap h₂
  · simp at h₂
  · rename_i fis hr
    dsimp only at h₂
    split_ifs at h₂ with hn
    · exact hsnap h₂
    · obtain ⟨-, rfl⟩ := Returns.pure.mp h₂
      obtain ⟨fi, hfi, hp⟩ := List.countP_pos_iff.mp (Nat.pos_of_ne_zero hn)
      obtain ⟨n, hn', -⟩ := (FS.mem_readDir _ hr).mp hfi
      exact ⟨fi.name, by simpa [snapshotIndex, ← Option.isSome_iff_ne_none] using hp, by simp [hn']⟩

end Parts

/-! ## 5. A second `Sync` changes nothing -/

section Idempotent

variable {rd : Adapter} {w w' : World}

theorem sync_calls : Prog.Calls (fun c => c.mkdirLen ≤ 3) sync := by
  refine .bind (.call (Nat.zero_le 3)) fun r => ?_
  rcases r with _ | dpos
  · exact .pure
  dsimp only
  split
  · exact .pure
  refine .bind (syncSnapshot_calls _ _) fun r => ?_
  rcases r with _ | ⟨⟩
  · exact .pure
  refine .bind ((syncPos_calls _).mono (·.1)) fun r => ?_
  rcases r with _ | ⟨⟩
  · exact .pure
  refine .bind (syncWALLoop_calls.mono (·.1)) fun r => ?_
  rcases r with _ | ⟨⟩
  · exact .pure
  dsimp only
  split
  · exact .bind ((compress_calls _).calls.mono fun h => h.2 ▸ Nat.zero_le 3) fun r => by
      rcases r <;> exact .pure
  · exact .pure

/-- **A `Sync` keeps the WAL directory of every generation flat**: it creates directories only
up to the depth of a WAL directory. -/
theorem sync_walFlat {g : String} {r : Except Error Unit} (h : Returns rd sync w r w')
    (hf : walFlat g w.fs) : walFlat g w'.fs :=
  h.preserve (fun hc hs hw => walFlat_step hc hs hw) sync_calls hf

/-- With a snapshot of the generation on disk, the snapshot step does nothing. -/
theorem syncSnapshot_skip {g : String} {i : Nat} {x : String} (hx : snapshotIndex x ≠ none)
    (he : w.fs.get (snapshotDir g ++ [x]) ≠ none) : Returns rd (syncSnapshot g i) w (.ok ()) w := by
  obtain ⟨n, hn⟩ := Option.ne_none_iff_exists'.mp he
  obtain ⟨fis, hr⟩ := w.fs.readDir_of_dir (by simpa using FS.get_parent hn (by simp))
  have hpos : 0 < fis.countP fun fi => (parseSnapshotPath fi.name).isSome :=
    List.countP_pos_iff.mpr ⟨n.info x, FS.info_mem_readDir _ hr hn,
      by simpa [snapshotIndex, Option.isSome_iff_ne_none] using hx⟩
  unfold syncSnapshot
  refine Returns.bind.mpr ⟨.ok (fis.countP fun fi => (parseSnapshotPath fi.name).isSome), w,
    by simp [snapshotN, Call.run, hr], ?_⟩
  simp [Nat.pos_iff_ne_zero.mp hpos]

theorem syncPos_skip {g : String} (hp : w.pos.isZero = false) :
    Returns rd (syncPos g) w (.ok ()) w := by
  simp [syncPos, Call.run, hp]

theorem syncWALLoop_at_eof (he : rd w.src w.pos = .error .eof) :
    Returns rd syncWALLoop w (.ok ()) w :=
  .loopDone (Returns.bind.mpr ⟨.error .eof, w, by simp [syncWAL, Call.run, he], by simp⟩)

/-- A `Sync` is its four parts in turn. -/
theorem sync_of_parts {w₁ w₂ w₃ : World} (hz : w.src.pos.isZero = false)
    (h₁ : Returns rd (syncSnapshot w.src.pos.generation w.src.pos.index) w (.ok ()) w₁)
    (h₂ : Returns rd (syncPos w.src.pos.generation) w₁ (.ok ()) w₂)
    (h₃ : Returns rd syncWALLoop w₂ (.ok ()) w₃)
    (h₄ : Returns rd (compress w.src.pos.generation) w₃ (.ok ()) w') :
    Returns rd sync w (.ok ()) w' := by
  simp only [sync, Returns.bind_lift, Call.run, hz, Bool.false_eq_true, if_false]
  refine Returns.bind.mpr ⟨_, _, h₁, Returns.bind.mpr ⟨_, _, h₂, Returns.bind.mpr ⟨_, _, h₃, ?_⟩⟩⟩
  rw [if_pos (w.src.pos_generation_ne hz)]
  exact Returns.bind.mpr ⟨_, _, h₄, by simp⟩

/-- The worlds a replica reaches by `Sync`s that return `nil`, from a destination whose WAL
directory of `g` has no subdirectory (an empty one, for instance), the source changing between
two `Sync`s and staying in generation `g`. -/
inductive SyncReach (g : String) : World → Prop
  | start {w : World} : walFlat g w.fs → SyncReach g w
  | sync {w w' : World} : SyncReach g w → w.src.generation = g →
      Returns Source.shadowWALReader sync w (.ok ()) w' → SyncReach g w'
  | write {w : World} (s : Source) : SyncReach g w → s.generation = g →
      SyncReach g { w with src := s }

theorem SyncReach.walFlat {g : String} (h : SyncReach g w) : walFlat g w.fs := by
  induction h with
  | start hf => exact hf
  | sync _ _ hs ih => exact sync_walFlat hs ih
  | write _ _ _ ih => exact ih

/-- **`Sync` is idempotent**: from every world reached by `Sync`s that returned `nil`, a `Sync`
that returns `nil` is followed by one that returns `nil` and changes nothing, neither the tree
nor the position, when the source has not changed in between. -/
theorem sync_idempotent {g : String} (hreach : SyncReach g w) (hg : w.src.generation = g)
    (h : Returns Source.shadowWALReader sync w (.ok ()) w') :
    Returns Source.shadowWALReader sync w' (.ok ()) w' := by
  obtain ⟨hz, w₁, w₂, w₃, h₁, h₂, h₃, h₄⟩ := sync_ok h
  have hgen := w.src.pos_generation_ne hz
  have hpg : w.src.pos.generation = g := (w.src.pos_generation hz).trans hg
  rw [if_pos hgen] at h₄
  -- the WAL directory is flat after the loop, so `compress` found nothing
  have hf₃ : walFlat w.src.pos.generation w₃.fs := by
    rw [hpg]
    exact h₃.preserve (fun hc hs hw => walFlat_step hc.1 hs hw) syncWALLoop_calls
      (h₂.preserve (fun hc hs hw => walFlat_step hc.1 hs hw) (syncPos_calls _)
        (h₁.preserve (fun hc hs hw => walFlat_step hc hs hw) (syncSnapshot_calls _ _)
          hreach.walFlat))
  have hc₃ : Returns Source.shadowWALReader (compress w.src.pos.generation) w₃ (.ok ()) w₃ := by
    simp [compress, Call.run, glob_compressPattern hf₃]
  obtain rfl := (Returns.det h₄ hc₃).2
  -- a snapshot of the generation is on disk, and the loop removed nothing
  obtain ⟨x, hx, hx₁⟩ := syncSnapshot_present h₁ w.src.pos_index_lt
  have hx₃ : w'.fs.get (snapshotDir w.src.pos.generation ++ [x]) ≠ none :=
    h₃.preserve (fun hc hs hw => Call.run_present hc.2 hs hw) syncWALLoop_calls
      (h₂.preserve (fun hc hs hw => Call.run_present hc.2 hs hw) (syncPos_calls _) hx₁)
  have hsrc : w'.src = w.src := h.src_eq
  rw [← hsrc] at hz hx₃ hc₃
  exact sync_of_parts hz (syncSnapshot_skip hx hx₃)
    (syncPos_skip (syncWALLoop_nonzero h₃ (syncPos_nonzero h₂ hgen)))
    (syncWALLoop_at_eof (syncWALLoop_eof h₃)) hc₃

theorem sync_idempotent_fresh :
    SyncReach "g" (World.fresh indexZeroSource 0) ∧
      (World.fresh indexZeroSource 0).src.generation = "g" ∧
      Returns Source.shadowWALReader sync (World.fresh indexZeroSource 0) (.ok ()) indexZeroReplica ∧
      Returns Source.shadowWALReader sync indexZeroReplica (.ok ()) indexZeroReplica :=
  have hreach : SyncReach "g" (World.fresh indexZeroSource 0) :=
    .start fun _ => FS.not_isDir_of_get_none rfl
  have h : Returns Source.shadowWALReader sync (World.fresh indexZeroSource 0) (.ok ())
      indexZeroReplica := Prog.run_sound 60 _ _ _ _ rfl
  ⟨hreach, rfl, h, sync_idempotent hreach rfl h⟩

end Idempotent

/-! ## 6. The loop of `Sync` ends

The repository's reader yields the bytes of the index it is asked for past the offset, or
starts the next index; either way the position it leaves is the end of an index the shadow WAL
holds, further on in the order (index, offset).  `shadowMeasure` counts the turns left, so the
loop ends from every world (`syncWALLoop_terminates`). -/

/-- The order (index, offset) of positions, strict. -/
def Pos.lt (p q : Pos) : Prop := p.index < q.index ∨ p.index = q.index ∧ p.offset < q.offset

/-- The order (index, offset) of positions. -/
def Pos.le (p q : Pos) : Prop := p.index < q.index ∨ p.index = q.index ∧ p.offset ≤ q.offset

instance (p q : Pos) : Decidable (p.lt q) := inferInstanceAs (Decidable (_ ∨ _))

instance (p q : Pos) : Decidable (p.le q) := inferInstanceAs (Decidable (_ ∨ _))

/-- Two for each index of the shadow WAL from `p`'s on, and one more while `p`'s index holds
bytes past `p.offset`. -/
def shadowMeasure (sh : List (List UInt8)) (p : Pos) : Nat :=
  2 * (sh.length - p.index) + if p.offset < (sh.getD p.index []).length then 1 else 0

section Terminates

variable {rd : Adapter} {w w' : World}

theorem syncWAL_halts : Prog.Halts rd syncWAL :=
  syncWAL_footprint.halts

/-- **A turn that goes on moves the position forward**, to the end of an index of the shadow WAL
of its generation, and lowers `shadowMeasure`. -/
theorem syncWAL_advance (h : Returns Source.shadowWALReader syncWAL w (.ok ()) w') :
    w'.pos.generation = w.pos.generation ∧ w.pos.lt w'.pos ∧
      (∃ b, (w.src.shadow w.pos.generation)[w'.pos.index]? = some b ∧ w'.pos.offset = b.length) ∧
      shadowMeasure (w.src.shadow w.pos.generation) w'.pos <
        shadowMeasure (w.src.shadow w.pos.generation) w.pos := by
  obtain ⟨r, hr, -, -, -, -, rfl⟩ := syncWAL_ok h
  obtain ⟨j, b, hb, he, hj⟩ := Source.shadowWALReader_ok hr
  have hlt := (List.getElem?_eq_some_iff.mp hb).1
  have hbj : (w.src.shadow w.pos.generation).getD j [] = b := by
    simp [List.getD_eq_getElem?_getD, hb]
  dsimp only
  rw [he]
  refine ⟨rfl, ?_, ⟨b, hb, rfl⟩, ?_⟩
  · rcases hj with ⟨rfl, h⟩ | ⟨rfl, -⟩
    · exact Or.inr ⟨rfl, h⟩
    · exact Or.inl (Nat.lt_succ_self _)
  · unfold shadowMeasure
    dsimp only
    rw [hbj, if_neg (lt_irrefl _)]
    rcases hj with ⟨rfl, h⟩ | ⟨rfl, h⟩
    · rw [hbj, if_pos h]
      omega
    · rw [if_neg (not_lt.mpr h)]
      omega

/-- **The loop of `Sync` ends**, from every world, with the repository's reader.  Each turn that
goes on moves `LastPos()` forward in the order (index, offset), within its generation and, in
the source's generation, not past the end of its shadow WAL. -/
theorem syncWALLoop_terminates :
    (∀ w, ∃ r w', Returns Source.shadowWALReader syncWALLoop w r w') ∧
      ∀ w w', w.pos.generation = w.src.generation → w.src.generation ≠ "" →
        Returns Source.shadowWALReader syncWAL w (.ok ()) w' →
        w'.pos.generation = w.pos.generation ∧ w.pos.lt w'.pos ∧ w'.pos.le w.src.pos := by
  refine ⟨Prog.Halts.loop (fun w => shadowMeasure (w.src.shadow w.pos.generation) w.pos)
    (fun _ => .bind syncWAL_halts fun _ => by split <;> exact .pure _) (fun _ _ w w' h => ?_) (),
    fun w w' hg hne h => ?_⟩
  · obtain ⟨r, w₁, h₁, h₂⟩ := Returns.bind.mp h
    split at h₂
    · simp at h₂
    · simp at h₂
    · obtain ⟨-, rfl⟩ := Returns.pure.mp h₂
      obtain ⟨hgen, -, -, hμ⟩ := syncWAL_advance h₁
      show shadowMeasure _ _ < _
      rw [h₁.src_eq, hgen]
      exact hμ
  · obtain ⟨hgen, hlt, ⟨b, hb, hoff⟩, -⟩ := syncWAL_advance h
    refine ⟨hgen, hlt, ?_⟩
    have hj := (List.getElem?_eq_some_iff.mp hb).1
    rw [hg] at hb hj
    simp only [Source.pos, if_neg hne, Pos.le]
    rcases Nat.lt_or_ge w'.pos.index ((w.src.shadow w.src.generation).length - 1) with h₁ | h₁
    · exact .inl h₁
    · have hlast : (w.src.shadow w.src.generation).getLast? = some b := by
        rw [List.getLast?_eq_getElem?, show (w.src.shadow w.src.generation).length - 1 =
          w'.pos.index by omega, hb]
      exact .inr ⟨by omega, by simp [hlast, hoff]⟩

/-- The turn after `indexZeroReplica` once the source has begun index `1`: the reader starts
index `1`, and the position moves from `(g, 0, 2)` to `(g, 1, 1)`, the end of the shadow WAL. -/
theorem syncWAL_rolls_over :
    Returns Source.shadowWALReader syncWAL { indexZeroReplica with src := indexOneSource } (.ok ())
        (syncWAL.after Source.shadowWALReader 20 { indexZeroReplica with src := indexOneSource }) ∧
      (syncWAL.after Source.shadowWALReader 20 { indexZeroReplica with src := indexOneSource }).pos =
        ⟨"g", 1, 1⟩ ∧
      (syncWAL.after Source.shadowWALReader 20
          { indexZeroReplica with src := indexOneSource }).pos.generation = "g" ∧
        Pos.lt ⟨"g", 0, 2⟩
          (syncWAL.after Source.shadowWALReader 20 { indexZeroReplica with src := indexOneSource }).pos ∧
        Pos.le (syncWAL.after Source.shadowWALReader 20
          { indexZeroReplica with src := indexOneSource }).pos indexOneSource.pos :=
  have h : Returns Source.shadowWALReader syncWAL { indexZeroReplica with src := indexOneSource }
      (.ok ()) (syncWAL.after Source.shadowWALReader 20
        { indexZeroReplica with src := indexOneSource }) := Returns.after 20 rfl
  ⟨h, rfl, syncWALLoop_terminates.2 _ _ rfl (by decide) h⟩

end Terminates

end Litestream
