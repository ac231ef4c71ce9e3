import Litestream.Fs
import Mathlib.Algebra.Group.Int
/-!
# The world the replica acts on

Everything `FileReplica` touches outside its own code: the destination tree, the source
database behind the adapter of spec §6.1, the cached position `r.pos`, the clock and the
cancellation of its context.  Each effect the code has on them is one `Call`, and this
module gives two answers to every call:

* `Call.run`, the answer when nothing fails, a function;
* `Call.Fault`, the failures a real device or adapter can produce, with what a failed call
  may leave behind (a write that stopped half way, directories created before `mkdirAll`
  failed, part of a tree that `os.RemoveAll` reached).

The database adapter's `ShadowWALReader` is a parameter (`Adapter`), so that what is proved
about the replica can hold for every adapter; the repository's own adapter is
`Source.shadowWALReader`, modelled from the spec.
-/

namespace Litestream

/-- `litestream.Pos`: a byte position in one index of a generation's WAL. -/
structure Pos where
  generation : String
  index : Nat
  offset : Nat
  deriving DecidableEq, Repr

/-- `Pos{}`, which the replica reads as "unknown, recompute". -/
def Pos.zero : Pos := ⟨"", 0, 0⟩

/-- `Pos.IsZero`. -/
def Pos.isZero (p : Pos) : Bool := p = Pos.zero

/-- An `error` value of the code: where it came from, and the text `fmt.Errorf` wrapped it
in. -/
inductive Error where
  /-- An error of the `os` package, returned as it is. -/
  | fs (e : FsError)
  /-- `io.EOF`. -/
  | eof
  /-- A failure of the database adapter: its read transaction, its shadow WAL. -/
  | source
  /-- `ErrNoSnapshots`. -/
  | noSnapshots
  /-- `fmt.Errorf` with a text and no cause. -/
  | msg (text : String)
  /-- `fmt.Errorf(text + ": %w", cause)`; with `%s` in place of `%w` the text is the same. -/
  | wrap (text : String) (cause : Error)
  deriving DecidableEq, Repr

/-- `%q` of a string: the string between double quotes (escapes are not modelled). -/
def quote (s : String) : String := String.singleton '"' ++ s ++ String.singleton '"'

/-- Modelled from the spec: the source database as the replica sees it (§6.1). -/
structure Source where
  /-- The active generation, `""` while there is none. -/
  generation : String
  /-- Each generation's shadow WAL: the bytes of index `i` are at position `i`. -/
  shadow : String → List (List UInt8)
  /-- The database file, what a snapshot copies. -/
  db : List UInt8
  /-- The channel `Notify()` returns now; the channels numbered below it are closed. -/
  notify : Nat
  /-- An index is a Go `int`. -/
  index_bound : ∀ g, (shadow g).length ≤ 2 ^ 63

namespace Source

/-- `DB.Pos()`: the end of the active generation's shadow WAL, zero when there is none. -/
def pos (s : Source) : Pos :=
  if s.generation = "" then Pos.zero
  else ⟨s.generation, (s.shadow s.generation).length - 1,
    ((s.shadow s.generation).getLast?.getD []).length⟩

theorem pos_generation_ne (s : Source) (h : s.pos.isZero = false) : s.pos.generation ≠ "" := by
  unfold pos at *
  split_ifs at h ⊢ with hg
  · simp [Pos.isZero] at h
  · exact hg

theorem pos_generation (s : Source) (h : s.pos.isZero = false) : s.pos.generation = s.generation := by
  unfold pos at *
  split_ifs at h ⊢ with hg
  · simp [Pos.isZero] at h
  · rfl

/-- The source's index is a Go `int`, so it has at most sixteen hexadecimal digits. -/
theorem pos_index_lt (s : Source) : s.pos.index < 16 ^ 16 := by
  have := s.index_bound s.generation
  unfold pos
  split_ifs
  · exact Nat.pos_pow_of_pos 16 (by decide)
  · show _ - 1 < 16 ^ 16
    omega

end Source

/-- A database that has no generation yet. -/
def Source.empty : Source := ⟨"", fun _ => [], [], 0, fun _ => Nat.zero_le _⟩

/-- What `ShadowWALReader` returned: the reader's position, `rd.Pos()` before it is read, and
the bytes it yields. -/
structure Reader where
  pos : Pos
  bytes : List UInt8
  deriving DecidableEq, Repr

/-- `rd.Pos()` once the reader is drained. -/
def Reader.endPos (r : Reader) : Pos := { r.pos with offset := r.pos.offset + r.bytes.length }

/-- A database adapter's `ShadowWALReader(pos)`, as a function of the source: a reader, or
`Error.eof` at the end of the stream, or another error. -/
abbrev Adapter := Source → Pos → Except Error Reader

/-- Modelled from the spec: the repository's `DB.ShadowWALReader`, the bytes of `p.Index` past
`p.Offset` when there are any, else a reader at offset 0 of index `p.Index + 1` when that index
exists, else `io.EOF`.  It reads the shadow of the generation it is asked for. -/
def Source.shadowWALReader : Adapter := fun s p =>
  let sh := s.shadow p.generation
  match sh[p.index]? with
  | some b =>
    if p.offset < b.length then .ok ⟨p, b.drop p.offset⟩
    else match sh[p.index + 1]? with
      | some b' => .ok ⟨{ p with index := p.index + 1, offset := 0 }, b'⟩
      | none => .error .eof
  | none => .error .eof

/-- **Where the repository's reader ends**: at the end of an index `j` of the shadow WAL, the
index asked for when it holds bytes past the offset, else the next one. -/
theorem Source.shadowWALReader_ok {s : Source} {p : Pos} {r : Reader}
    (h : Source.shadowWALReader s p = .ok r) : ∃ j b, (s.shadow p.generation)[j]? = some b ∧
      r.endPos = ⟨p.generation, j, b.length⟩ ∧
      (j = p.index ∧ p.offset < b.length ∨
        j = p.index + 1 ∧ ((s.shadow p.generation).getD p.index []).length ≤ p.offset) := by
  unfold Source.shadowWALReader at h
  dsimp only at h
  split at h
  · rename_i b hb
    split_ifs at h with hlt
    · cases h
      exact ⟨p.index, b, hb, by simp [Reader.endPos]; omega, .inl ⟨rfl, hlt⟩⟩
    · split at h
      · rename_i b' hb'
        cases h
        exact ⟨p.index + 1, b', hb', by simp [Reader.endPos],
          .inr ⟨rfl, by simp [List.getD_eq_getElem?_getD, hb]; omega⟩⟩
      · cases h
  · cases h

/-- **The repository's readers never end at the zero position**: a reader either yields bytes
of its index or starts a later index. -/
theorem Source.shadowWALReader_endPos {s : Source} {p : Pos} {r : Reader}
    (h : Source.shadowWALReader s p = .ok r) : r.endPos.isZero = false := by
  obtain ⟨j, b, -, he, hj⟩ := Source.shadowWALReader_ok h
  simp only [he, Pos.isZero, Pos.zero, decide_eq_false_iff_not, Pos.mk.injEq, not_and]
  intro _ hj0
  rcases hj with ⟨rfl, h⟩ | ⟨rfl, -⟩ <;> omega

/-- The repository's reader fails only with `io.EOF`. -/
theorem Source.shadowWALReader_error {s : Source} {p : Pos} {e : Error}
    (h : Source.shadowWALReader s p = .error e) : e = .eof := by
  unfold Source.shadowWALReader at h
  dsimp only at h
  split at h
  · split_ifs at h
    split at h
    · cases h
    · exact (Except.error.inj h).symm
  · exact (Except.error.inj h).symm

/-- Everything outside the replica's code that its calls read or change. -/
structure World where
  fs : FS
  src : Source
  /-- `r.pos`, the last replicated position, behind `r.mu`. -/
  pos : Pos
  /-- `time.Now()`. -/
  clock : Int
  /-- Whether the replica's context has been cancelled. -/
  cancelled : Bool

/-- A file `compressFile` reads: the database file, or a file of the destination. -/
inductive FileRef where
  | db
  | dst (p : Path)

/-- One effect of the code on the world, indexed by what it returns. -/
inductive Call : Type → Type where
  | readDir (p : Path) : Call (Except FsError (List FileInfo))
  | stat (p : Path) : Call (Except FsError FileInfo)
  | mkdirAll (p : Path) : Call (Except FsError Unit)
  /-- `os.OpenFile(p, os.O_RDWR|os.O_CREATE, 0600)`. -/
  | openFile (p : Path) : Call (Except FsError Unit)
  /-- `w.Seek(off, io.SeekStart)`. -/
  | seek (p : Path) (off : Nat) : Call (Except FsError Unit)
  /-- `io.Copy` into a handle on `p` that was sought to `off`. -/
  | write (p : Path) (off : Nat) (bytes : List UInt8) : Call (Except FsError Unit)
  /-- `w.Sync()`. -/
  | fsync (p : Path) : Call (Except FsError Unit)
  /-- `w.Close()` (and `gz.Close()`). -/
  | close (p : Path) : Call (Except FsError Unit)
  /-- `os.Open(f)`, read to the end. -/
  | open (f : FileRef) : Call (Except FsError Data)
  /-- `createFile`: `os.Create`. -/
  | create (p : Path) : Call (Except FsError Unit)
  /-- `io.Copy` of a whole stream into a freshly created `p`. -/
  | writeAll (p : Path) (d : Data) : Call (Except FsError Unit)
  | rename (src dst : Path) : Call (Except FsError Unit)
  | remove (p : Path) : Call (Except FsError Unit)
  | removeAll (p : Path) : Call (Except FsError Unit)
  /-- `filepath.Glob`; it reports no I/O error. -/
  | glob (dir : Path) (pattern : List String) : Call (List Path)
  /-- `r.db.Pos()`. -/
  | dbPos : Call (Except Error Pos)
  /-- `r.db.db.Begin()` and the query on `_litestream_seq` that holds off checkpoints. -/
  | beginRead : Call (Except Error Unit)
  /-- `r.db.ShadowWALReader(pos)`. -/
  | shadowWALReader (p : Pos) : Call (Except Error Reader)
  /-- `r.db.Notify()`. -/
  | notify : Call Nat
  /-- `r.LastPos()`. -/
  | lastPos : Call Pos
  /-- `r.mu.Lock(); r.pos = p; r.mu.Unlock()`. -/
  | setPos (p : Pos) : Call Unit
  /-- `time.Now()`. -/
  | now : Call Int
  /-- Whether `ctx.Done()` is closed. -/
  | done : Call Bool

namespace World

/-- A replica that has just started, with an empty destination, before its first call. -/
def fresh (src : Source) (clock : Int) : World := ⟨FS.empty, src, Pos.zero, clock, false⟩

/-- The world after a filesystem call that answered `r`. -/
def withFs (w : World) : Except FsError FS → Except FsError Unit × World
  | .ok fs => (.ok (), { w with fs := fs })
  | .error e => (.error e, w)

@[simp] theorem withFs_ok (w : World) (fs : FS) : w.withFs (.ok fs) = (.ok (), { w with fs := fs }) :=
  rfl

@[simp] theorem withFs_error (w : World) (e : FsError) : w.withFs (.error e) = (.error e, w) := rfl

/-- A call through `withFs` leaves the world as it was, or with the tree its operation
answered. -/
theorem withFs_snd (w : World) (f : Except FsError FS) :
    (w.withFs f).2 = w ∨ ∃ fs, f = .ok fs ∧ (w.withFs f).2 = { w with fs := fs } := by
  cases f
  · exact .inl rfl
  · exact .inr ⟨_, rfl, rfl⟩

end World

/-- `os.Open` of a destination file, read to the end. -/
def FS.readFile (fs : FS) (p : Path) : Except FsError Data :=
  match fs.get p with
  | some (.file d _) => .ok d
  | some (.dir _ _) => .error .isDir
  | none => .error (fs.lookupError p)

/-- **The answer to a call when nothing fails.** -/
def Call.run (rd : Adapter) : {β : Type} → Call β → World → β × World
  | _, .readDir p, w => (w.fs.readDir p, w)
  | _, .stat p, w => (w.fs.stat p, w)
  | _, .mkdirAll p, w => w.withFs (w.fs.mkdirAll p w.clock)
  | _, .openFile p, w => w.withFs (w.fs.openFile p w.clock)
  | _, .seek _ _, w => (.ok (), w)
  | _, .write p off bs, w => (.ok (), { w with fs := w.fs.writeAt p off bs w.clock })
  | _, .fsync _, w => (.ok (), w)
  | _, .close _, w => (.ok (), w)
  | _, .open .db, w => (.ok (.raw w.src.db), w)
  | _, .open (.dst p), w => (w.fs.readFile p, w)
  | _, .create p, w => w.withFs (w.fs.create p w.clock)
  | _, .writeAll p d, w => (.ok (), { w with fs := w.fs.setData p (fun _ => d) w.clock })
  | _, .rename a b, w => w.withFs (w.fs.rename a b)
  | _, .remove p, w => w.withFs (w.fs.remove p)
  | _, .removeAll p, w => (.ok (), { w with fs := w.fs.removeAll p })
  | _, .glob dir pat, w => (w.fs.glob dir pat, w)
  | _, .dbPos, w => (.ok w.src.pos, w)
  | _, .beginRead, w => (.ok (), w)
  | _, .shadowWALReader p, w => (rd w.src p, w)
  | _, .notify, w => (w.src.notify, w)
  | _, .lastPos, w => (w.pos, w)
  | _, .setPos p, w => ((), { w with pos := p })
  | _, .now, w => (w.clock, w)
  | _, .done, w => (w.cancelled, w)

/-- `setPos` is the one call that changes the replica's position; every other call changes at
most the destination tree. -/
def Call.isSetPos {β : Type} : Call β → Bool
  | .setPos _ => true
  | _ => false

/-- `w'` is `w` with at most its destination tree changed. -/
def World.treeOnly (w w' : World) : Prop := w' = { w with fs := w'.fs }

theorem World.treeOnly.refl (w : World) : World.treeOnly w w := rfl

theorem World.treeOnly.trans {w₁ w₂ w₃ : World} (h₁ : World.treeOnly w₁ w₂)
    (h₂ : World.treeOnly w₂ w₃) : World.treeOnly w₁ w₃ := by
  unfold World.treeOnly at *
  rw [h₂, h₁]

theorem Call.run_treeOnly {rd : Adapter} {β : Type} {c : Call β} {w : World} {b : β}
    {w' : World} (hc : c.isSetPos = false) (h : c.run rd w = (b, w')) : World.treeOnly w w' := by
  obtain rfl : w' = (c.run rd w).2 := by rw [h]
  clear h
  cases c <;> first
    | rfl
    | (simp only [Call.run, World.withFs]; split <;> rfl)
    | (rename_i f; cases f <;> rfl)
    | simp [Call.isSetPos] at hc

/-- The length of the path along which a call creates directories: that of `mkdirAll`'s path,
`0` for every other call. -/
def Call.mkdirLen {β : Type} : Call β → Nat
  | .mkdirAll p => p.length
  | _ => 0

/-- The calls that can remove a path of the tree. -/
def Call.removes {β : Type} : Call β → Bool
  | .rename _ _ | .remove _ | .removeAll _ => true
  | _ => false

section RunEffects

variable {rd : Adapter} {β : Type} {c : Call β} {w : World} {b : β} {w' : World} {q : Path}

/-- No call of the replica changes the source. -/
theorem Call.run_src (h : c.run rd w = (b, w')) : w'.src = w.src := by
  obtain rfl : w' = (c.run rd w).2 := by rw [h]
  clear h
  cases c <;> first
    | rfl
    | (simp only [Call.run, World.withFs]; split <;> rfl)
    | (rename_i f; cases f <;> rfl)

/-- **A call creates directories only along the path of a `mkdirAll`.** -/
theorem Call.run_dir (h : c.run rd w = (b, w')) (hq : w'.fs.IsDir q) :
    w.fs.IsDir q ∨ q.length ≤ c.mkdirLen := by
  obtain rfl : w' = (c.run rd w).2 := by rw [h]
  clear h
  obtain ⟨s, t, hq⟩ := hq
  cases c with
  | mkdirAll p =>
    rcases World.withFs_snd w (w.fs.mkdirAll p w.clock) with he | ⟨fs, hm, he⟩ <;>
      simp only [Call.run, he] at hq
    · exact .inl ⟨s, t, hq⟩
    rw [FS.mkdirAll_eq_ok hm] at hq
    split_ifs at hq with hp
    · exact .inr hp.1.length_le
    · exact .inl ⟨s, t, hq⟩
  | openFile p =>
    rcases World.withFs_snd w (w.fs.openFile p w.clock) with he | ⟨fs, hm, he⟩ <;>
      simp only [Call.run, he] at hq
    · exact .inl ⟨s, t, hq⟩
    rw [FS.openFile_eq_ok hm] at hq
    split_ifs at hq <;> first | exact .inl ⟨s, t, hq⟩ | cases hq
  | create p =>
    rcases World.withFs_snd w (w.fs.create p w.clock) with he | ⟨fs, hm, he⟩ <;>
      simp only [Call.run, he] at hq
    · exact .inl ⟨s, t, hq⟩
    rw [(FS.writeFile_eq_ok hm).2.2.2] at hq
    split_ifs at hq <;> first | exact .inl ⟨s, t, hq⟩ | cases hq
  | rename a p =>
    rcases World.withFs_snd w (w.fs.rename a p) with he | ⟨fs, hm, he⟩ <;>
      simp only [Call.run, he] at hq
    · exact .inl ⟨s, t, hq⟩
    obtain ⟨d, t', -, hget⟩ := FS.rename_eq_ok hm
    rw [hget] at hq
    split_ifs at hq <;> first | exact .inl ⟨s, t, hq⟩ | cases hq
  | remove p =>
    rcases World.withFs_snd w (w.fs.remove p) with he | ⟨fs, hm, he⟩ <;>
      simp only [Call.run, he] at hq
    · exact .inl ⟨s, t, hq⟩
    rw [(FS.remove_eq_ok hm).2.2] at hq
    split_ifs at hq
    exact .inl ⟨s, t, hq⟩
  | removeAll p =>
    simp only [Call.run, FS.removeAll, FS.get_prune] at hq
    split_ifs at hq
    exact .inl ⟨s, t, hq⟩
  | write p off bs => exact .inl ⟨s, t, FS.get_setData_dir.mp hq⟩
  | writeAll p d => exact .inl ⟨s, t, FS.get_setData_dir.mp hq⟩
  | «open» f => cases f <;> exact .inl ⟨s, t, hq⟩
  | _ => exact .inl ⟨s, t, hq⟩

/-- **A call that removes nothing keeps every path.** -/
theorem Call.run_present (hc : c.removes = false) (h : c.run rd w = (b, w'))
    (hq : w.fs.get q ≠ none) : w'.fs.get q ≠ none := by
  obtain rfl : w' = (c.run rd w).2 := by rw [h]
  clear h
  cases c with
  | mkdirAll p =>
    rcases World.withFs_snd w (w.fs.mkdirAll p w.clock) with he | ⟨fs, hm, he⟩ <;>
      simp only [Call.run, he]
    · exact hq
    simp only [FS.mkdirAll_eq_ok hm]
    split_ifs <;> simp_all
  | openFile p =>
    rcases World.withFs_snd w (w.fs.openFile p w.clock) with he | ⟨fs, hm, he⟩ <;>
      simp only [Call.run, he]
    · exact hq
    simp only [FS.openFile_eq_ok hm]
    split_ifs <;> simp_all
  | create p =>
    rcases World.withFs_snd w (w.fs.create p w.clock) with he | ⟨fs, hm, he⟩ <;>
      simp only [Call.run, he]
    · exact hq
    simp only [(FS.writeFile_eq_ok hm).2.2.2]
    split_ifs <;> simp_all
  | write p off bs => exact fun h => hq (FS.get_setData_eq_none.mp h)
  | writeAll p d => exact fun h => hq (FS.get_setData_eq_none.mp h)
  | rename | remove | removeAll => cases hc
  | «open» f => cases f <;> exact hq
  | _ => exact hq

end RunEffects

/-- **The failures of a call**, and what each may leave behind.  A call of the `os` package
that fails reports a device error; one that changes the tree may have done part of its work
first: `mkdirAll` created the directories of a prefix of the path, a write stored the first
`k` bytes, a copy of a whole stream left whatever was flushed, `os.RemoveAll` removed some
subtrees below the path.  `filepath.Glob` skips a directory it cannot read.  The adapter may
fail too ("the source is transiently unavailable"). -/
def Call.Fault : {β : Type} → Call β → World → β → World → Prop
  | _, .readDir _, w, b, w' => b = .error .io ∧ w' = w
  | _, .stat _, w, b, w' => b = .error .io ∧ w' = w
  | _, .mkdirAll p, w, b, w' =>
    b = .error .io ∧ ∃ j fs, w.fs.mkdirAll (p.take j) w.clock = .ok fs ∧ w' = { w with fs := fs }
  | _, .openFile _, w, b, w' => b = .error .io ∧ w' = w
  | _, .seek _ _, w, b, w' => b = .error .io ∧ w' = w
  | _, .write p off bs, w, b, w' =>
    b = .error .io ∧ ∃ k, w' = { w with fs := w.fs.writeAt p off (bs.take k) w.clock }
  | _, .fsync _, w, b, w' => b = .error .io ∧ w' = w
  | _, .close _, w, b, w' => b = .error .io ∧ w' = w
  | _, .open _, w, b, w' => b = .error .io ∧ w' = w
  | _, .create _, w, b, w' => b = .error .io ∧ w' = w
  | _, .writeAll p _, w, b, w' =>
    b = .error .io ∧ ∃ d', w' = { w with fs := w.fs.setData p (fun _ => d') w.clock }
  | _, .rename _ _, w, b, w' => b = .error .io ∧ w' = w
  | _, .remove _, w, b, w' => b = .error .io ∧ w' = w
  | _, .removeAll p, w, b, w' =>
    b = .error .io ∧ ∃ qs : List Path, (∀ q ∈ qs, p <+: q) ∧ w' = { w with fs := qs.foldl FS.prune w.fs }
  | _, .glob dir pat, w, ps, w' => ps.Sublist (w.fs.glob dir pat) ∧ w' = w
  | _, .dbPos, w, b, w' => b = .error .source ∧ w' = w
  | _, .beginRead, w, b, w' => b = .error .source ∧ w' = w
  | _, .shadowWALReader _, w, b, w' => b = .error .source ∧ w' = w
  | _, _, _, _, _ => False

theorem Call.Fault.treeOnly {β : Type} {c : Call β} {w : World} {b : β} {w' : World}
    (h : c.Fault w b w') : World.treeOnly w w' := by
  cases c <;> simp only [Call.Fault] at h <;> first
    | exact h.elim
    | (obtain ⟨-, rfl⟩ := h; rfl)
    | (obtain ⟨-, _, _, -, rfl⟩ := h; rfl)

end Litestream
