import Litestream.Shape
import Litestream.Restore
/-!
# `Sync` succeeds when no call fails

Every `Sync` of a run may fail, and `Sync` answers with the error of the call that failed.  Here
the converse: an error of `Sync` always comes from a failed call.  In every world a run of the
replica reaches, failed calls and crashes included, a `Sync` run alone returns `nil`, and then
the destination holds what `Fidelity` says.  So however a run went, one `Sync` without a failure
brings the replica up to date with the source.

What could go wrong is a call that fails on the tree it finds: `MkdirAll` on a file in its way,
`OpenFile`, `Create` or `Rename` onto a directory or below a path that is not one, `ReadDir` on a
file.  On a shaped tree (`Litestream.Shape`) none of these happens; `CalcPos` needs a snapshot,
which the snapshot step leaves, and the mirror invariant for the WAL files it lists.

* `snapshot_succeeds`, `syncSnapshot_succeeds`, `syncPos_succeeds`, `syncWALLoop_succeeds`,
  `compress_succeeds`, `sync_succeeds`: run alone, each part of `Sync` returns `nil`;
* `sync_halts`: `Sync` run alone returns, from every world;
* `sync_progress`: the main theorem.
-/

namespace Litestream

/-! ## 1. Each part of `Sync` succeeds

Run alone, each part of `Sync` is evaluated call by call from the tree it finds.  The lemmas
below read a complete run backwards: whatever it returned, on a shaped tree it is `nil`. -/

section Succeeds

variable {rd : Adapter} {g : String} {w w' : World} {r : Except Error Unit}

/-- On a shaped tree, `compressFile` of the database into an entry of a directory three deep
that is there succeeds: its temporary file can be created and renamed over the entry. -/
theorem compressFile_db_succeeds {dir : Path} {x : String} (hs : Shaped w.fs)
    (hlen : dir.length = 3) (hdir : w.fs.IsDir dir)
    (h : Returns rd (compressFile .db (dir ++ [x])) w r w') : r = .ok () := by
  have h4 : ∀ y, 4 ≤ (dir ++ [y]).length := fun y => by simp [hlen]
  have hne : dir ++ [x ++ ".tmp"] ≠ dir ++ [x] := fun he => by
    have := congrArg String.length (List.singleton_inj.mp (List.append_cancel_left he))
    rw [String.length_append] at this
    exact absurd (Nat.add_right_eq_self.mp this) (by decide)
  have hshort : ∀ y, dir ≠ dir ++ [y] := fun y he => by simpa using congrArg List.length he
  obtain ⟨fs₁, h₁⟩ := FS.writeFile_ok (p := dir ++ [x ++ ".tmp"]) (d := .raw []) (t := w.clock)
    (hs.not_dir (h4 _)) (by simpa using hdir) (by simp)
  have hget₁ := (FS.writeFile_eq_ok h₁).2.2.2
  have ha : (fs₁.setData (dir ++ [x ++ ".tmp"]) (fun _ => .gzip (.raw w.src.db)) w.clock).get
      (dir ++ [x ++ ".tmp"]) = some (.file (.gzip (.raw w.src.db)) w.clock) := by
    simp [hget₁, FS.touchNode]
  obtain ⟨fs₃, h₃⟩ := FS.rename_ok ha hne
    (by rw [FS.isDir_setData, FS.isDir_congr ((hget₁ _).trans (if_neg hne.symm))]
        exact hs.not_dir (h4 x))
    (by rw [List.dropLast_concat, FS.isDir_setData, FS.isDir_congr ((hget₁ _).trans (if_neg (hshort _)))]
        exact hdir)
    (by simp)
  simp [compressFile, Call.run, FS.create, h₁, h₃] at h
  exact h.1.symm

/-- On a shaped tree `snapshotN` answers a count, and a snapshot is there when it is not `0`. -/
theorem snapshotN_succeeds {n : Except Error Nat} (hs : Shaped w.fs)
    (h : Returns rd (snapshotN g) w n w') :
    w' = w ∧ ∃ k, n = .ok k ∧ (k ≠ 0 → ∃ i, HasSnap g w.fs i) := by
  simp only [snapshotN, Returns.bind_lift, Call.run] at h
  split at h
  · obtain ⟨rfl, rfl⟩ := Returns.pure.mp h
    exact ⟨rfl, 0, rfl, fun h => absurd rfl h⟩
  · next e he hr =>
    exact absurd (hs.readDir_error (by simp [snapshotDir, generationDir]) hr) he
  · next fis hfis =>
    obtain ⟨rfl, rfl⟩ := Returns.pure.mp h
    refine ⟨rfl, _, rfl, fun hk => ?_⟩
    obtain ⟨fi, hfi, hp⟩ := List.countP_pos_iff.mp (Nat.pos_of_ne_zero hk)
    obtain ⟨⟨i, ext⟩, hi⟩ := Option.isSome_iff_exists.mp (by simpa using hp)
    exact ⟨i, hasSnap_of_listed hfis hfi (by simp [snapshotIndex, hi])⟩

theorem snapshot_succeeds {i : Nat} (hs : Shaped w.fs) (h : Returns rd (snapshot g i) w r w') :
    r = .ok () := by
  simp only [snapshot, Returns.bind_lift, Call.run] at h
  split at h
  · exact (Returns.pure.mp h).1.symm
  have h3 : (snapshotDir g).length = 3 := by simp [snapshotDir, generationDir]
  obtain ⟨fs₁, hm⟩ := hs.mkdirAll_ok h3.le (t := w.clock)
  obtain ⟨hs₁, hd₁⟩ := hs.mkdirAll hm h3.le
  simp only [snapshotPath_dropLast, Returns.check, Call.run, hm, World.withFs_ok] at h
  rcases h with ⟨e, he, -⟩ | ⟨-, h⟩
  · cases he
  · exact compressFile_db_succeeds (w := { w with fs := fs₁ }) hs₁ h3 hd₁ h

/-- On a shaped tree the snapshot step succeeds, and leaves a snapshot of the generation. -/
theorem syncSnapshot_succeeds {i : Nat} (hs : Shaped w.fs) (hi : i < 16 ^ 16)
    (h : Returns rd (syncSnapshot g i) w r w') : r = .ok () ∧ ∃ k, HasSnap g w'.fs k := by
  obtain ⟨n, w₁, h₁, h⟩ := Returns.bind.mp h
  obtain ⟨hw₁, n, rfl, hn⟩ := snapshotN_succeeds hs h₁
  rw [hw₁] at h
  dsimp only at h
  split_ifs at h with h0
  · obtain rfl := snapshot_succeeds hs h
    obtain ⟨fs', rfl, hkeep, hnew⟩ := snapshot_ok h
    have hF : fs'.get (snapshotPath g i) ≠ none := by
      by_cases hn : w.fs.get (snapshotPath g i) = none
      · simp [(hnew hn).1]
      · rwa [hkeep hn]
    obtain ⟨m, hm⟩ := Option.ne_none_iff_exists'.mp hF
    exact ⟨rfl, i, snapshotName i, m, hm, snapshotIndex_snapshotName hi⟩
  · obtain ⟨rfl, rfl⟩ := Returns.pure.mp h
    exact ⟨rfl, hn h0⟩

/-- On a mirrored tree with a snapshot, `CalcPos` answers a position: the WAL directory is not a
file, and the highest WAL file it lists is there. -/
theorem calcPos_succeeds {sh : List (List UInt8)} {k : Nat} {res : Except Error Pos}
    (ht : Tree g w.fs sh) (hk : HasSnap g w.fs k) (h : Returns rd (calcPos g) w res w') :
    ∃ pos, res = .ok pos := by
  obtain ⟨S, -, -, hS⟩ := @maxSnapshotIndex_latest rd g w k hk
  obtain ⟨r₁, w₁, h₁, h₂⟩ := Returns.bind.mp h
  obtain ⟨rfl, rfl⟩ := Returns.det h₁ hS
  simp only [Returns.bind_lift, Call.run] at h₂
  split at h₂
  · exact ⟨_, (Returns.pure.mp h₂).1.symm⟩
  · next e he hr => exact absurd (FS.readDir_error hr ht.walDirOk) he
  · next fis hfis =>
    split_ifs at h₂ with hneg
    · exact ⟨_, (Returns.pure.mp h₂).1.symm⟩
    obtain ⟨fi, hfi, hi, -⟩ := maxIndexOf_mem hneg
    simp only [Returns.bind_lift, Call.run] at h₂
    split at h₂
    · next e hr => exact absurd (FS.get_of_stat_error hr) (wal_of_listed ht hfis hfi hi)
    · exact ⟨_, (Returns.pure.mp h₂).1.symm⟩

theorem syncPos_succeeds {sh : List (List UInt8)} {k : Nat} (ht : Tree g w.fs sh)
    (hk : HasSnap g w.fs k) (h : Returns rd (syncPos g) w r w') : r = .ok () := by
  simp only [syncPos, Returns.bind_lift, Call.run] at h
  split_ifs at h
  · obtain ⟨r₁, w₁, h₁, h⟩ := Returns.bind.mp h
    obtain ⟨pos, rfl⟩ := calcPos_succeeds ht hk h₁
    simp at h
    exact h.1.symm
  · exact (Returns.pure.mp h).1.symm

/-- On a shaped tree, `syncWAL` with the repository's reader fails only with `io.EOF`: the WAL
directory can be made and the WAL file opened. -/
theorem syncWAL_error_eof {e : Error} (hs : Shaped w.fs)
    (h : Returns Source.shadowWALReader syncWAL w (.error e) w') : e = .eof := by
  simp only [syncWAL, Returns.bind_lift, Call.run] at h
  split at h
  · exact (Except.error.inj (Returns.pure.mp h).1).symm
  · next e' he hr => exact absurd (Source.shadowWALReader_error hr) he
  · next rd hr =>
    have h3 : (walDir rd.pos.generation).length = 3 := by simp [walDir, generationDir]
    obtain ⟨fs₁, hm⟩ := hs.mkdirAll_ok h3.le (t := w.clock)
    obtain ⟨hs₁, hd₁⟩ := hs.mkdirAll hm h3.le
    obtain ⟨fs₂, ho⟩ := FS.openFile_ok (p := walPath rd.pos.generation rd.pos.index) (t := w.clock)
      (hs₁.not_dir (by simp [walPath, h3])) (by simpa using hd₁) (by simp [walPath])
    simp [hm, ho, Returns.check, Call.run] at h

/-- On a shaped tree the loop of `Sync` ends with `nil`: every turn keeps the shape, and the
only error a turn can meet is the `io.EOF` that ends the loop. -/
theorem syncWALLoop_succeeds (hs : Shaped w.fs)
    (h : Returns Source.shadowWALReader syncWALLoop w r w') : r = .ok () := by
  refine Returns.loop_inv (J := fun w => Shaped w.fs) (Q := fun r _ => r = .ok ()) h hs
    (fun _ _ w w' hw h => ?_) fun _ a w w' hw h => ?_
  · obtain ⟨r₁, w₁, h₁, h₂⟩ := Returns.bind.mp h
    rcases r₁ with (_ | _) | ⟨⟩ <;> simp at h₂
    exact h₂ ▸ hw.returns syncWAL_shapes h₁
  · obtain ⟨r₁, w₁, h₁, h₂⟩ := Returns.bind.mp h
    rcases r₁ with e | ⟨⟩
    · obtain rfl := syncWAL_error_eof hw h₁
      exact (Sum.inr.inj (Returns.pure.mp h₂).1).symm
    · simp at h₂

theorem compress_succeeds (hs : Shaped w.fs) (h : Returns rd (compress g) w r w') : r = .ok () := by
  simp [compress, Call.run, glob_compressPattern (hs.flat g)] at h
  exact h.1.symm

/-- **`Sync` fails only when a call fails**: run alone from a mirrored, shaped tree of a
generation, it returns `nil`. -/
theorem sync_succeeds (hm : Mirror g w) (hs : Shaped w.fs) (hg : g ≠ "")
    (h : Returns Source.shadowWALReader sync w r w') : r = .ok () := by
  have hz : w.src.pos.isZero = false := by
    simp [Source.pos, hm.gen, hg, Pos.isZero, Pos.zero]
  have hgen : w.src.pos.generation = g := (Source.pos_generation _ hz).trans hm.gen
  have hi := Source.pos_index_lt w.src
  simp only [sync, Returns.bind_lift, Call.run, hz, hgen] at h
  obtain ⟨r₁, w₁, h₁, h⟩ := Returns.bind.mp h
  obtain ⟨rfl, k, hk⟩ := syncSnapshot_succeeds hs hi h₁
  have hm₁ : Mirror g w₁ := syncSnapshot_triple (E := fun _ _ => False) (fun _ _ h => h.elim) hi
    ⟨hm, hm.pos_index_lt hz⟩ (Returns.faulty h₁)
  have hs₁ := hs.returns (syncSnapshot_shapes _ _) h₁
  obtain ⟨r₂, w₂, h₂, h⟩ := Returns.bind.mp h
  obtain rfl := syncPos_succeeds hm₁.tree hk h₂
  have hs₂ := hs₁.returns (syncPos_shapes _) h₂
  obtain ⟨r₃, w₃, h₃, h⟩ := Returns.bind.mp h
  obtain rfl := syncWALLoop_succeeds hs₂ h₃
  have hs₃ := hs₂.returns syncWALLoop_shapes h₃
  simp only [if_pos hg] at h
  obtain ⟨r₄, w₄, h₄, h⟩ := Returns.bind.mp h
  obtain rfl := compress_succeeds hs₃ h₄
  exact (Returns.pure.mp h).1.symm

end Succeeds

/-! ## 2. `Sync` returns

Each turn of the loop of `Sync` lowers `shadowMeasure`, `compress`'s loop runs over a list, and
everything else is straight-line code. -/

section Halts

variable {rd : Adapter}

theorem syncWALLoop_halts : Prog.Halts Source.shadowWALReader syncWALLoop := by
  refine Prog.Halts.loop (fun w => shadowMeasure (w.src.shadow w.pos.generation) w.pos)
    (fun _ => .bind syncWAL_halts fun _ => by split <;> exact .pure _) (fun _ _ w w' h => ?_) ()
  obtain ⟨r, w₁, h₁, h₂⟩ := Returns.bind.mp h
  split at h₂
  · simp at h₂
  · simp at h₂
  · obtain ⟨-, rfl⟩ := Returns.pure.mp h₂
    obtain ⟨hgen, -, -, hμ⟩ := syncWAL_advance h₁
    show shadowMeasure _ _ < _
    rw [h₁.src_eq, hgen]
    exact hμ

/-- **`Sync` run alone returns**, from every world, with the repository's reader: its one loop
halts, and its other parts have none. -/
theorem sync_halts : Prog.Halts Source.shadowWALReader sync := by
  refine .bind (.call _) fun r => ?_
  rcases r with _ | dpos
  · exact .pure _
  dsimp only
  split
  · exact .pure _
  refine .bind (syncSnapshot_footprint _ _).halts fun r => ?_
  rcases r with _ | ⟨⟩
  · exact .pure _
  refine .bind (syncPos_footprint _).halts fun r => ?_
  rcases r with _ | ⟨⟩
  · exact .pure _
  refine .bind syncWALLoop_halts fun r => ?_
  rcases r with _ | ⟨⟩
  · exact .pure _
  dsimp only
  split
  · exact .bind (compress_calls _).halts fun r => by rcases r <;> exact .pure _
  · exact .pure _

end Halts

/-! ## 3. Progress -/

variable {r : FileReplica} {isGen : GenerationName} {w : World}

/-- **`Sync` without a failure brings the replica up to date.**  In every world a run of the
replica reaches from an empty destination, against a source in a generation with a shadow WAL,
failed calls and crashes included: a `Sync` in which no call fails returns `nil`, and the
destination then holds what `Fidelity` says. -/
theorem sync_progress {src : Source} {clock : Int} (hg : src.generation ≠ "")
    (hne : src.shadow src.generation ≠ [])
    (h : Relation.ReflTransGen (ReplicaStep r isGen) (World.fresh src clock) w) :
    ∃ w', Returns Source.shadowWALReader sync w (.ok ()) w' ∧ Fidelity src.generation w' := by
  obtain ⟨res, w', hr⟩ := sync_halts w
  obtain rfl := sync_succeeds (Mirror.reach hne h) (Shaped.reach h) hg hr
  obtain ⟨hs, hc⟩ := sync_caughtUp hne h (Returns.faulty hr)
  exact ⟨w', hr, Fidelity.of_caughtUp hs hc⟩

/-- After two `Sync`s across the roll-over, a third brings the replica up to date again. -/
theorem sync_progress_rollOver :
    indexZeroSource.generation ≠ "" ∧ indexZeroSource.shadow indexZeroSource.generation ≠ [] ∧
      ∃ w', Returns Source.shadowWALReader sync rollOverWorld (.ok ()) w' ∧ Fidelity "g" w' :=
  ⟨by decide, by decide, sync_progress (by decide) (by decide) rollOver_reach⟩


end Litestream
