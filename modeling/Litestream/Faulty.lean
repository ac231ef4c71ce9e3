import Litestream.Prog
/-!
# What a call may leave behind under failures

Under `Sem.faulty` a call answers as `Call.run` or fails as `Call.Fault` allows.  Each lemma
below gives, for one kind of call, every world the call may leave, whichever of the two
happened, in the one shape the proofs about programs use: the world unchanged, or the tree
changed by the `os` operation (on a prefix of the path for `mkdirAll`, with a prefix of the
bytes for a write, with part of the subtree for `os.RemoveAll`).
-/

namespace Litestream

/-- The calls that only read: whatever they answer, the world stays as it was. -/
def Call.isRead {β : Type} : Call β → Bool
  | .readDir _ | .stat _ | .seek _ _ | .fsync _ | .close _ | .open _ | .glob _ _ => true
  | .dbPos | .beginRead | .shadowWALReader _ | .notify | .lastPos | .now | .done => true
  | _ => false

/-- The calls that leave an entry present at `q` as it is: each writes, creates, renames or
removes elsewhere.  `MkdirAll` and `OpenFile` only create what is missing, and the other calls
do not touch the tree. -/
def Call.Leaves (q : Path) : {β : Type} → Call β → Prop
  | _, .write p _ _ | _, .create p | _, .writeAll p _ | _, .remove p => q ≠ p
  | _, .rename a b => q ≠ a ∧ q ≠ b
  | _, .removeAll p => ¬ p <+: q
  | _, _ => True

/-- The path at which a call may create a file: the one `OpenFile` and `Create` open and the one
`Rename` renames onto. -/
def Call.fileAt {β : Type} : Call β → Option Path
  | .openFile p | .create p | .rename _ p => some p
  | _ => none

namespace Faulty

variable {rd : Adapter} {E : World → World → Prop} {w w' : World} {p : Path}

theorem step_read {β : Type} {c : Call β} {b : β} (hc : c.isRead = true)
    (h : (Sem.faulty rd E).step c w b w') : w' = w := by
  rcases h with h | h
  · obtain rfl : w' = (c.run rd w).2 := by rw [h]
    cases c <;> first | rfl | (rename_i f; cases f <;> rfl) | cases hc
  · cases c <;> simp only [Call.Fault] at h <;> first | exact h.2 | exact h.elim | cases hc

/-- A call other than `setPos` changes at most the tree, whether it failed or not. -/
theorem step_treeOnly {β : Type} {c : Call β} {b : β} (hc : c.isSetPos = false)
    (h : (Sem.faulty rd E).step c w b w') : World.treeOnly w w' :=
  h.elim (Call.run_treeOnly hc) Call.Fault.treeOnly

/-- No call changes the source. -/
theorem step_src {β : Type} {c : Call β} {b : β} (h : (Sem.faulty rd E).step c w b w') :
    w'.src = w.src :=
  h.elim Call.run_src fun h => (congrArg World.src h.treeOnly :)

theorem step_shadowWALReader {q : Pos} {b : Except Error Reader}
    (h : (Sem.faulty rd E).step (.shadowWALReader q) w b w') :
    w' = w ∧ (b = rd w.src q ∨ b = .error .source) := by
  rcases h with h | ⟨rfl, rfl⟩
  · simp only [Call.run, Prod.mk.injEq] at h
    exact ⟨h.2.symm, .inl h.1.symm⟩
  · exact ⟨rfl, .inr rfl⟩

theorem step_dbPos {b : Except Error Pos} (h : (Sem.faulty rd E).step .dbPos w b w') :
    w' = w ∧ (b = .ok w.src.pos ∨ b = .error .source) := by
  rcases h with h | ⟨rfl, rfl⟩
  · simp only [Call.run, Prod.mk.injEq] at h
    exact ⟨h.2.symm, .inl h.1.symm⟩
  · exact ⟨rfl, .inr rfl⟩

theorem step_lastPos {b : Pos} (h : (Sem.faulty rd E).step .lastPos w b w') :
    w' = w ∧ b = w.pos := by
  rcases h with h | h
  · simp only [Call.run, Prod.mk.injEq] at h
    exact ⟨h.2.symm, h.1.symm⟩
  · exact h.elim

theorem step_notify {b : Nat} (h : (Sem.faulty rd E).step .notify w b w') :
    w' = w ∧ b = w.src.notify := by
  rcases h with h | h
  · simp only [Call.run, Prod.mk.injEq] at h
    exact ⟨h.2.symm, h.1.symm⟩
  · exact h.elim

theorem step_now {b : Int} (h : (Sem.faulty rd E).step .now w b w') : w' = w ∧ b = w.clock := by
  rcases h with h | h
  · simp only [Call.run, Prod.mk.injEq] at h
    exact ⟨h.2.symm, h.1.symm⟩
  · exact h.elim

theorem step_setPos {q : Pos} {u : Unit} (h : (Sem.faulty rd E).step (.setPos q) w u w') :
    w' = { w with pos := q } := by
  rcases h with h | h
  · exact (Prod.mk.inj h).2.symm
  · exact h.elim

/-- A `readDir` that answers a listing answered the tree's. -/
theorem step_readDir {fis : List FileInfo}
    (h : (Sem.faulty rd E).step (.readDir p) w (.ok fis) w') :
    w' = w ∧ w.fs.readDir p = .ok fis := by
  rcases h with h | ⟨h, -⟩
  · simp only [Call.run, Prod.mk.injEq] at h
    exact ⟨h.2.symm, h.1⟩
  · cases h

theorem step_stat {fi : FileInfo} (h : (Sem.faulty rd E).step (.stat p) w (.ok fi) w') :
    w' = w ∧ w.fs.stat p = .ok fi := by
  rcases h with h | ⟨h, -⟩
  · simp only [Call.run, Prod.mk.injEq] at h
    exact ⟨h.2.symm, h.1⟩
  · cases h

theorem step_glob {pat : List String} {ps : List Path}
    (h : (Sem.faulty rd E).step (.glob p pat) w ps w') :
    w' = w ∧ ps.Sublist (w.fs.glob p pat) := by
  rcases h with h | ⟨hs, rfl⟩
  · simp only [Call.run, Prod.mk.injEq] at h
    exact ⟨h.2.symm, h.1 ▸ List.Sublist.refl _⟩
  · exact ⟨rfl, hs⟩

/-- `mkdirAll` creates the directories of a prefix of its path, or changes nothing. -/
theorem step_mkdirAll {b : Except FsError Unit}
    (h : (Sem.faulty rd E).step (.mkdirAll p) w b w') :
    w' = w ∨ ∃ j fs, w.fs.mkdirAll (p.take j) w.clock = .ok fs ∧ w' = { w with fs := fs } := by
  rcases h with h | ⟨-, h⟩
  · simp only [Call.run] at h
    cases hm : w.fs.mkdirAll p w.clock with
    | error e => rw [hm, World.withFs_error] at h; exact .inl (Prod.mk.inj h).2.symm
    | ok fs =>
      rw [hm, World.withFs_ok] at h
      exact .inr ⟨p.length, fs, by rwa [List.take_length], (Prod.mk.inj h).2.symm⟩
  · exact .inr h

/-- A call whose success is `World.withFs` of an `os` operation `f` and whose failure changes
nothing: it failed and changed nothing, or it succeeded with `f`. -/
theorem step_withFs {c : Call (Except FsError Unit)} {f : Except FsError FS}
    {u : Except FsError Unit} (hrun : c.run rd w = w.withFs f)
    (hfault : ∀ u w', c.Fault w u w' → u = .error .io ∧ w' = w)
    (h : (Sem.faulty rd E).step c w u w') :
    (u ≠ .ok () ∧ w' = w) ∨ ∃ fs, f = .ok fs ∧ u = .ok () ∧ w' = { w with fs := fs } := by
  rcases h with h | h
  · rw [hrun] at h
    cases f with
    | error e => exact .inl ⟨by rw [← (Prod.mk.inj h).1]; simp, (Prod.mk.inj h).2.symm⟩
    | ok fs => exact .inr ⟨fs, rfl, (Prod.mk.inj h).1.symm, (Prod.mk.inj h).2.symm⟩
  · obtain ⟨rfl, rfl⟩ := hfault _ _ h
    exact .inl ⟨by simp, rfl⟩

theorem step_openFile {u : Except FsError Unit}
    (h : (Sem.faulty rd E).step (.openFile p) w u w') :
    (u ≠ .ok () ∧ w' = w) ∨
      ∃ fs, w.fs.openFile p w.clock = .ok fs ∧ u = .ok () ∧ w' = { w with fs := fs } :=
  step_withFs (c := .openFile p) rfl (fun _ _ h => h) h

theorem step_create {u : Except FsError Unit} (h : (Sem.faulty rd E).step (.create p) w u w') :
    (u ≠ .ok () ∧ w' = w) ∨
      ∃ fs, w.fs.create p w.clock = .ok fs ∧ u = .ok () ∧ w' = { w with fs := fs } :=
  step_withFs (c := .create p) rfl (fun _ _ h => h) h

theorem step_rename {a : Path} {u : Except FsError Unit}
    (h : (Sem.faulty rd E).step (.rename a p) w u w') :
    (u ≠ .ok () ∧ w' = w) ∨
      ∃ fs, w.fs.rename a p = .ok fs ∧ u = .ok () ∧ w' = { w with fs := fs } :=
  step_withFs (c := .rename a p) rfl (fun _ _ h => h) h

theorem step_remove {u : Except FsError Unit} (h : (Sem.faulty rd E).step (.remove p) w u w') :
    (u ≠ .ok () ∧ w' = w) ∨
      ∃ fs, w.fs.remove p = .ok fs ∧ u = .ok () ∧ w' = { w with fs := fs } :=
  step_withFs (c := .remove p) rfl (fun _ _ h => h) h

/-- A write stores a prefix of its bytes, all of them when it succeeded. -/
theorem step_write {off : Nat} {bs : List UInt8} {u : Except FsError Unit}
    (h : (Sem.faulty rd E).step (.write p off bs) w u w') :
    ∃ bs', bs' <+: bs ∧ (u = .ok () → bs' = bs) ∧
      w' = { w with fs := w.fs.writeAt p off bs' w.clock } := by
  rcases h with h | ⟨rfl, k, rfl⟩
  · exact ⟨bs, List.prefix_refl bs, fun _ => rfl, (Prod.mk.inj h).2.symm⟩
  · exact ⟨_, List.take_prefix k bs, (fun h => by cases h), rfl⟩

/-! ### The read calls as triples -/

section ReadTriples

variable {I P : World → Prop}

/-- **`ReadDir`** keeps a stable `P`; it answers the tree's listing when it succeeds, and
`os.ErrNotExist` only for a missing directory. -/
theorem readDir_triple (hP : Stable (Sem.faulty rd E) P) (hI : ∀ w, P w → I w) :
    Triple (Sem.faulty rd E) I P (.call (.readDir p)) fun r w => P w ∧
      (r = .error .notExist → w.fs.get p = none) ∧ ∀ fis, r = .ok fis → w.fs.readDir p = .ok fis :=
  Triple.call_stable hP hI fun w r w' hw hs => by
    obtain rfl := step_read (by rfl) hs
    refine ⟨hw, fun hr => ?_, fun fis hr => (step_readDir (hr ▸ hs)).2⟩
    subst hr
    rcases hs with h | ⟨h, -⟩
    · have h' := (Prod.mk.inj h).1
      unfold FS.readDir at h'
      split at h' <;> first | assumption | cases h'
    · cases h

/-- **`Stat`** keeps a stable `P` and answers the tree's entry when it succeeds. -/
theorem stat_triple (hP : Stable (Sem.faulty rd E) P) (hI : ∀ w, P w → I w) :
    Triple (Sem.faulty rd E) I P (.call (.stat p)) fun r w =>
      P w ∧ ∀ fi, r = .ok fi → w.fs.stat p = .ok fi :=
  Triple.call_stable hP hI fun w r w' hw hs => by
    obtain rfl := step_read (by rfl) hs
    exact ⟨hw, fun fi hr => (step_stat (hr ▸ hs)).2⟩

end ReadTriples

/-- A copy of a whole stream that succeeded stored all of it. -/
theorem step_writeAll_ok {d : Data} (h : (Sem.faulty rd E).step (.writeAll p d) w (.ok ()) w') :
    w' = { w with fs := w.fs.setData p (fun _ => d) w.clock } := by
  rcases h with h | ⟨h, -⟩
  · exact (Prod.mk.inj h).2.symm
  · cases h

/-- A copy of a whole stream stores some data in the file. -/
theorem step_writeAll {d : Data} {u : Except FsError Unit}
    (h : (Sem.faulty rd E).step (.writeAll p d) w u w') :
    ∃ d', w' = { w with fs := w.fs.setData p (fun _ => d') w.clock } := by
  rcases h with h | ⟨-, h⟩
  · exact ⟨d, (Prod.mk.inj h).2.symm⟩
  · exact h

/-- `os.RemoveAll` removes some subtrees below its path. -/
theorem step_removeAll {u : Except FsError Unit}
    (h : (Sem.faulty rd E).step (.removeAll p) w u w') :
    ∃ qs : List Path, (∀ q ∈ qs, p <+: q) ∧ w' = { w with fs := qs.foldl FS.prune w.fs } := by
  rcases h with h | ⟨-, h⟩
  · exact ⟨[p], by simp, (Prod.mk.inj h).2.symm⟩
  · exact h

/-! ### What a call leaves alone -/

section Frame

variable {u : Except FsError Unit} {q : Path}

/-- `os.Create` changes the tree at its path only. -/
theorem get_step_create (h : (Sem.faulty rd E).step (.create p) w u w') (hq : q ≠ p) :
    w'.fs.get q = w.fs.get q := by
  rcases step_create h with ⟨-, rfl⟩ | ⟨fs, hm, -, rfl⟩
  · rfl
  · rw [(FS.writeFile_eq_ok hm).2.2.2, if_neg hq]

/-- A copy into a file changes the tree at its path only. -/
theorem get_step_writeAll {d : Data} (h : (Sem.faulty rd E).step (.writeAll p d) w u w')
    (hq : q ≠ p) : w'.fs.get q = w.fs.get q := by
  obtain ⟨d', rfl⟩ := step_writeAll h
  exact FS.get_setData_ne hq

/-- `os.Rename` changes the tree at its two paths only. -/
theorem get_step_rename {a : Path} (h : (Sem.faulty rd E).step (.rename a p) w u w') (ha : q ≠ a)
    (hq : q ≠ p) : w'.fs.get q = w.fs.get q := by
  rcases step_rename h with ⟨-, rfl⟩ | ⟨fs, hm, -, rfl⟩
  · rfl
  · obtain ⟨_, _, _, hget⟩ := FS.rename_eq_ok hm
    rw [hget, if_neg hq, if_neg ha]

/-- `os.Remove` changes the tree at its path only. -/
theorem get_step_remove (h : (Sem.faulty rd E).step (.remove p) w u w') (hq : q ≠ p) :
    w'.fs.get q = w.fs.get q := by
  rcases step_remove h with ⟨-, rfl⟩ | ⟨fs, hm, -, rfl⟩
  · rfl
  · rw [(FS.remove_eq_ok hm).2.2, if_neg fun h => hq h.1]

/-- **A call that leaves `q` alone** keeps the entry there, done or failed part way. -/
theorem get_step_leaves {β : Type} {c : Call β} {b : β} (hc : c.Leaves q)
    (h : (Sem.faulty rd E).step c w b w') (hq : w.fs.get q ≠ none) :
    w'.fs.get q = w.fs.get q := by
  cases c with
  | mkdirAll p =>
    rcases step_mkdirAll h with rfl | ⟨j, fs, hm, rfl⟩
    · rfl
    · exact (FS.mkdirAll_eq_ok hm q).trans (if_neg fun h => hq h.2)
  | openFile p =>
    rcases step_openFile h with ⟨-, rfl⟩ | ⟨fs, hm, -, rfl⟩
    · rfl
    · exact (FS.openFile_eq_ok hm q).trans (if_neg fun ⟨hqp, hp⟩ => hq (hqp ▸ hp))
  | write p off bs =>
    obtain ⟨bs', -, -, rfl⟩ := step_write h
    exact FS.get_setData_ne hc
  | create p => exact get_step_create h hc
  | writeAll p d => exact get_step_writeAll h hc
  | rename a p => exact get_step_rename h hc.1 hc.2
  | remove p => exact get_step_remove h hc
  | removeAll p =>
    obtain ⟨qs, hqs, rfl⟩ := step_removeAll h
    exact (FS.get_foldl_prune qs w.fs).trans
      (if_neg fun ⟨⟨r, hr, hrq⟩, _⟩ => hc ((hqs r hr).trans hrq))
  | setPos p => rw [step_setPos h]
  | _ => rw [step_read (by rfl) h]

/-- **A call creates directories only along the path of a `mkdirAll`**, done or failed part
way. -/
theorem step_dir {β : Type} {c : Call β} {b : β} (h : (Sem.faulty rd E).step c w b w')
    (hq : w'.fs.IsDir q) : w.fs.IsDir q ∨ q.length ≤ c.mkdirLen := by
  rcases h with h | h
  · exact Call.run_dir h hq
  cases c with
  | mkdirAll p =>
    obtain ⟨-, j, fs, hm, rfl⟩ := h
    obtain ⟨s, t, hq⟩ := hq
    rw [FS.mkdirAll_eq_ok hm] at hq
    split_ifs at hq with hp
    · exact .inr (hp.1.length_le.trans (List.length_take_le' j p))
    · exact .inl (FS.isDir_of_get hq)
  | write p off bs =>
    obtain ⟨-, k, rfl⟩ := h
    exact .inl (FS.isDir_setData.mp hq)
  | writeAll p d =>
    obtain ⟨-, d', rfl⟩ := h
    exact .inl (FS.isDir_setData.mp hq)
  | removeAll p =>
    obtain ⟨-, qs, -, rfl⟩ := h
    obtain ⟨s, t, hq⟩ := hq
    rw [FS.get_foldl_prune] at hq
    split_ifs at hq
    exact .inl (FS.isDir_of_get hq)
  | _ => first | exact h.elim | (obtain ⟨-, rfl⟩ := h; exact .inl hq)

/-- **A call creates a file only at the path it opens, creates or renames onto**, done or failed
part way; a write changes the data of a file that is there. -/
theorem step_file {β : Type} {c : Call β} {b : β} {d : Data} {t : Int}
    (h : (Sem.faulty rd E).step c w b w') (hq : w'.fs.get q = some (.file d t)) :
    (∃ d' t', w.fs.get q = some (.file d' t')) ∨ c.fileAt = some q := by
  cases c with
  | mkdirAll p =>
    rcases step_mkdirAll h with rfl | ⟨j, fs, hm, rfl⟩
    · exact .inl ⟨d, t, hq⟩
    rw [FS.mkdirAll_eq_ok hm] at hq
    split_ifs at hq
    · cases hq
    · exact .inl ⟨d, t, hq⟩
  | openFile p =>
    rcases step_openFile h with ⟨-, rfl⟩ | ⟨fs, hm, -, rfl⟩
    · exact .inl ⟨d, t, hq⟩
    rw [FS.openFile_eq_ok hm] at hq
    split_ifs at hq with hp
    · exact .inr (congrArg some hp.1.symm)
    · exact .inl ⟨d, t, hq⟩
  | create p =>
    rcases step_create h with ⟨-, rfl⟩ | ⟨fs, hm, -, rfl⟩
    · exact .inl ⟨d, t, hq⟩
    rw [(FS.writeFile_eq_ok hm).2.2.2] at hq
    split_ifs at hq with hp
    · exact .inr (congrArg some hp.symm)
    · exact .inl ⟨d, t, hq⟩
  | rename a p =>
    rcases step_rename h with ⟨-, rfl⟩ | ⟨fs, hm, -, rfl⟩
    · exact .inl ⟨d, t, hq⟩
    obtain ⟨_, _, _, hget⟩ := FS.rename_eq_ok hm
    rw [hget] at hq
    split_ifs at hq with hp
    · exact .inr (congrArg some hp.symm)
    · exact .inl ⟨d, t, hq⟩
  | remove p =>
    rcases step_remove h with ⟨-, rfl⟩ | ⟨fs, hm, -, rfl⟩
    · exact .inl ⟨d, t, hq⟩
    rw [(FS.remove_eq_ok hm).2.2] at hq
    split_ifs at hq
    exact .inl ⟨d, t, hq⟩
  | removeAll p =>
    obtain ⟨qs, -, rfl⟩ := step_removeAll h
    rw [FS.get_foldl_prune] at hq
    split_ifs at hq
    exact .inl ⟨d, t, hq⟩
  | write p off bs =>
    obtain ⟨bs', -, -, rfl⟩ := step_write h
    exact .inl (FS.get_setData_file hq)
  | writeAll p d' =>
    obtain ⟨d'', rfl⟩ := step_writeAll h
    exact .inl (FS.get_setData_file hq)
  | setPos p => rw [step_setPos h] at hq; exact .inl ⟨d, t, hq⟩
  | _ => rw [step_read (by rfl) h] at hq; exact .inl ⟨d, t, hq⟩

/-- An entry after a call was there before, or is a file the call opened, created or renamed
onto, or a directory along the path of a `mkdirAll`. -/
theorem step_some {β : Type} {c : Call β} {b : β} {n : Node}
    (h : (Sem.faulty rd E).step c w b w') (hq : w'.fs.get q = some n) :
    (∃ n', w.fs.get q = some n') ∨ c.fileAt = some q ∨ q.length ≤ c.mkdirLen := by
  cases n with
  | dir => exact (step_dir h (FS.isDir_of_get hq)).imp (fun ⟨_, _, h⟩ => ⟨_, h⟩) .inr
  | file d t => exact (step_file h hq).imp (fun ⟨_, _, h⟩ => ⟨_, h⟩) .inl

theorem keeps_leaves {β : Type} {c : Call β} {n : Node} (hc : c.Leaves q) :
    Keeps (Sem.faulty rd E) (fun w => w.fs.get q = some n) c :=
  fun _ _ _ hw hs => (get_step_leaves hc hs (by simp [hw])).trans hw

end Frame

end Faulty

end Litestream
