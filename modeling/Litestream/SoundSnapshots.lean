import Litestream.System
import Litestream.Parts
import Litestream.Footprint
/-!
# Snapshots are never partial

`snapshot` writes the database, gzipped, into a temporary file beside `SnapshotPath(g, i)` and
renames it over that path only once the copy, `Sync` and `Close` of the temporary file have all
succeeded.  Every other call of the replica writes outside the snapshot directories, or only
removes what is in them.  So an entry of a snapshot directory whose name parses as a snapshot's
is always a complete gzip stream of a database image, whichever call failed part way and
whenever the process crashed.

The images are those of the source: the statement is relative to an invariant `Seen` that the
source keeps of its database file between two calls of the replica (its only obligation), and
every snapshot holds an image `Seen` accepts.

* `Call.Spares`, `spares_step`: the calls that write no snapshot entry; done or failed part way,
  each leaves the snapshot entries as they were or removes them;
* `compressFile_db_sound`: the rename of `compressFile` from the database puts a complete image
  in place;
* `sync_sound`, `enforceRetention_sound`: both methods keep the snapshots sound on every run,
  complete or cut short, under failures;
* `snapshotReader_sound`: on sound snapshots `SnapshotReader` answers an image `Seen` accepts or
  an `os` error, never a gzip error;
* `snapshots_complete`: in every world a run of the replica reaches, every snapshot entry is a
  complete gzip stream under a `.snapshot.gz` name, and `SnapshotReader` reads it back whole.
-/

namespace Litestream

/-! ## 1. Snapshot entries and the invariant -/

/-- An entry of a snapshot directory whose name parses as a snapshot's. -/
def SnapshotEntry (q : Path) : Prop :=
  ∃ g x i ext, q = snapshotDir g ++ [x] ∧ parseSnapshotPath x = some (i, ext)

theorem SnapshotEntry.length {q : Path} (h : SnapshotEntry q) : q.length = 4 := by
  obtain ⟨g, x, -, -, rfl, -⟩ := h
  simp [snapshotDir, generationDir]

theorem not_snapshotEntry_of_length {q : Path} (h : q.length ≠ 4) : ¬ SnapshotEntry q :=
  fun hq => h hq.length

theorem not_snapshotEntry_walPath (g : String) (i : Nat) : ¬ SnapshotEntry (walPath g i) := by
  rintro ⟨g', x, -, -, h, -⟩
  simp [walPath, walDir, snapshotDir, generationDir] at h

/-- The temporary file of a snapshot is no snapshot entry. -/
theorem not_snapshotEntry_tmp (g x : String) : ¬ SnapshotEntry (snapshotDir g ++ [x ++ ".tmp"]) := by
  rintro ⟨g', x', i, ext, h, hp⟩
  obtain ⟨-, rfl⟩ : g = g' ∧ x ++ ".tmp" = x' := by simpa [snapshotDir, generationDir] using h
  simp at hp

/-- **Sound snapshots**: every snapshot entry is a compressed snapshot, a file holding a complete
gzip stream of an image `Seen` accepts. -/
def SoundSnapshots (Seen : List UInt8 → Prop) (fs : FS) : Prop :=
  ∀ g x i ext n, fs.get (snapshotDir g ++ [x]) = some n → parseSnapshotPath x = some (i, ext) →
    ext = ".snapshot.gz" ∧ ∃ d t, n = .file (.gzip (.raw d)) t ∧ Seen d

/-- `fs'` holds no snapshot entry that `fs` did not hold as it is. -/
def SparesSnapshots (fs fs' : FS) : Prop :=
  ∀ q n, SnapshotEntry q → fs'.get q = some n → fs.get q = some n

/-- The worlds whose snapshots are sound and whose source's database is an image `Seen`
accepts. -/
def SoundWorld (Seen : List UInt8 → Prop) (w : World) : Prop :=
  SoundSnapshots Seen w.fs ∧ Seen w.src.db

section Invariant

variable {Seen : List UInt8 → Prop} {fs fs' : FS}

theorem SparesSnapshots.refl (fs : FS) : SparesSnapshots fs fs := fun _ _ _ h => h

/-- A change that leaves each snapshot entry as it was or removes it. -/
theorem SparesSnapshots.of_get (h : ∀ q, SnapshotEntry q → fs'.get q = fs.get q ∨ fs'.get q = none) :
    SparesSnapshots fs fs' := fun q n hq hn => by
  rcases h q hq with h | h <;> rw [h] at hn
  · exact hn
  · cases hn

/-- A change at one path that is no snapshot entry. -/
theorem SparesSnapshots.of_ne {p : Path} (hp : ¬ SnapshotEntry p)
    (h : ∀ q, q ≠ p → fs'.get q = fs.get q) : SparesSnapshots fs fs' :=
  .of_get fun q hq => .inl (h q fun he => hp (he ▸ hq))

theorem SoundSnapshots.spare (h : SoundSnapshots Seen fs) (hs : SparesSnapshots fs fs') :
    SoundSnapshots Seen fs' :=
  fun g x i ext n hn hp => h g x i ext n (hs _ n ⟨g, x, i, ext, rfl, hp⟩ hn) hp

theorem SoundSnapshots.fresh (src : Source) (clock : Int) :
    SoundSnapshots Seen (World.fresh src clock).fs := fun g x _ _ n hn _ => by
  rw [show (World.fresh src clock).fs = FS.empty from rfl, FS.get_empty (by simp [snapshotDir])] at hn
  cases hn

end Invariant

/-! ## 2. The calls that spare the snapshots -/

/-- The calls that write no snapshot entry: a creation, a write or a rename only elsewhere, and
a `mkdirAll` of a path too short to reach one. -/
def Call.Spares : {β : Type} → Call β → Prop
  | _, .mkdirAll p => p.length < 4
  | _, .openFile p => ¬ SnapshotEntry p
  | _, .create p => ¬ SnapshotEntry p
  | _, .write p _ _ => ¬ SnapshotEntry p
  | _, .writeAll p _ => ¬ SnapshotEntry p
  | _, .rename _ b => ¬ SnapshotEntry b
  | _, _ => True

section Calls

variable {rd : Adapter} {E : World → World → Prop} {Seen : List UInt8 → Prop} {β : Type}
  {c : Call β} {w w' : World} {b : β}

/-- **A call that spares the snapshot entries**, done or failed part way, leaves each of them as
it was or removes it. -/
theorem spares_step (hc : c.Spares) (h : (Sem.faulty rd E).step c w b w') :
    SparesSnapshots w.fs w'.fs := by
  cases c with
  | mkdirAll p =>
    rcases Faulty.step_mkdirAll h with rfl | ⟨j, fs, hm, rfl⟩
    · exact .refl _
    · refine .of_get fun q hq => .inl ?_
      rw [FS.mkdirAll_eq_ok hm q, if_neg fun h' => ?_]
      have hle := h'.1.length_le
      simp only [Call.Spares, List.length_take, hq.length] at hc hle
      omega
  | openFile p =>
    rcases Faulty.step_openFile h with ⟨-, rfl⟩ | ⟨fs, hm, -, rfl⟩
    · exact .refl _
    · exact .of_ne hc fun q hq => by rw [FS.openFile_eq_ok hm q, if_neg fun h => hq h.1]
  | create p =>
    rcases Faulty.step_create h with ⟨-, rfl⟩ | ⟨fs, hm, -, rfl⟩
    · exact .refl _
    · exact .of_ne hc fun q hq => by rw [(FS.writeFile_eq_ok hm).2.2.2 q, if_neg hq]
  | write p off bs =>
    obtain ⟨bs', -, -, rfl⟩ := Faulty.step_write h
    exact .of_ne hc fun q hq => FS.get_setData_ne hq
  | writeAll p d =>
    obtain ⟨d', rfl⟩ := Faulty.step_writeAll h
    exact .of_ne hc fun q hq => FS.get_setData_ne hq
  | rename a p =>
    rcases Faulty.step_rename h with ⟨-, rfl⟩ | ⟨fs, hm, -, rfl⟩
    · exact .refl _
    · obtain ⟨d, t, -, hget⟩ := FS.rename_eq_ok hm
      refine .of_get fun q hq => ?_
      rw [hget q, if_neg fun (h : q = p) => hc (h ▸ hq)]
      split <;> simp
  | remove p =>
    rcases Faulty.step_remove h with ⟨-, rfl⟩ | ⟨fs, hm, -, rfl⟩
    · exact .refl _
    · exact .of_get fun q _ => by rw [(FS.remove_eq_ok hm).2.2 q]; split <;> simp
  | removeAll p =>
    obtain ⟨qs, -, rfl⟩ := Faulty.step_removeAll h
    exact .of_get fun q _ => by rw [FS.get_foldl_prune]; split <;> simp
  | setPos p => rw [Faulty.step_setPos h]; exact .refl _
  | _ => rw [Faulty.step_read (by rfl) h]; exact .refl _

theorem keeps_spares (hc : c.Spares) : Keeps (Sem.faulty rd E) (SoundWorld Seen) c :=
  fun _ _ _ hw hs => ⟨hw.1.spare (spares_step hc hs), (Faulty.step_src hs).symm ▸ hw.2⟩

end Calls

/-! ## 3. The programs -/

section Programs

variable {rd : Adapter} {E : World → World → Prop} {Seen : List UInt8 → Prop}
  (hE : ∀ w w', E w w' → w'.fs = w.fs ∧ (Seen w.src.db → Seen w'.src.db))
include hE

theorem SoundWorld.stable_and (X : FS → Prop) :
    Stable (Sem.faulty rd E) fun w => SoundWorld Seen w ∧ X w.fs :=
  fun _ _ h hw => ⟨⟨(hE _ _ h).1 ▸ hw.1.1, (hE _ _ h).2 hw.1.2⟩, (hE _ _ h).1 ▸ hw.2⟩

theorem SoundWorld.stable : Stable (Sem.faulty rd E) (SoundWorld Seen) :=
  fun _ _ h hw => (SoundWorld.stable_and hE (fun _ => True) h ⟨hw, trivial⟩).1

/-- A program all of whose calls spare the snapshots keeps them sound. -/
theorem triple_of_spares {α : Type} {p : Prog α} (h : Prog.Calls Call.Spares p) :
    Triple (Sem.faulty rd E) (SoundWorld Seen) (SoundWorld Seen) p fun _ => SoundWorld Seen :=
  Triple.of_calls (h.mono keeps_spares) (SoundWorld.stable hE)

/-- A `check` of a call that spares the snapshots and, when it succeeds, takes the tree from `X`
to `Y`. -/
theorem check_spares {α : Type} {c : Call (Except FsError Unit)} {k : Prog (Except Error α)}
    {X Y : FS → Prop} (hc : c.Spares)
    (hXY : ∀ w w', X w.fs → (Sem.faulty rd E).step c w (.ok ()) w' → Y w'.fs)
    (hk : Triple (Sem.faulty rd E) (SoundWorld Seen) (fun w => SoundWorld Seen w ∧ Y w.fs) k
      fun _ => SoundWorld Seen) :
    Triple (Sem.faulty rd E) (SoundWorld Seen) (fun w => SoundWorld Seen w ∧ X w.fs)
      (Prog.check c k) fun _ => SoundWorld Seen :=
  Triple.check (Q := fun u w => SoundWorld Seen w ∧ (u = .ok () → Y w.fs))
    (Triple.call_stable (SoundWorld.stable_and hE X) (fun _ h => h.1) fun w _ w' hw hs =>
      ⟨keeps_spares hc hw.1 hs, fun hu => hXY w w' hw.2 (hu ▸ hs)⟩)
    (fun _ _ h => h.1) (hk.conseq (fun _ hw => ⟨hw.1, hw.2 rfl⟩) fun _ _ h => h)

/-- **The rename of `compressFile` from the database puts a complete image in place.**  The
temporary file, which is no snapshot entry, holds the gzip of the image read from the source once
the copy has succeeded, and only then is it renamed over `dst`, whose name ends in `.gz`. -/
theorem compressFile_db_sound {g x : String} (hx : ".gz".data <:+ x.data) :
    Triple (Sem.faulty rd E) (SoundWorld Seen) (SoundWorld Seen)
      (compressFile .db (snapshotDir g ++ [x])) fun _ => SoundWorld Seen := by
  have htmp := not_snapshotEntry_tmp g x
  unfold compressFile
  refine Triple.bind (Q := fun r w => SoundWorld Seen w ∧ ∀ d, r = .ok d → ∃ b, d = .raw b ∧ Seen b)
    (Triple.call_stable (SoundWorld.stable hE) (fun _ h => h) fun w r w' hw hs => ?_) fun r => ?_
  · obtain rfl := Faulty.step_read (by rfl) hs
    refine ⟨hw, fun d hd => ?_⟩
    subst hd
    rcases hs with h | ⟨h, -⟩
    · exact ⟨_, (Except.ok.inj (Prod.mk.inj h).1).symm, hw.2⟩
    · cases h
  rcases r with e | d
  · exact Triple.pure fun _ h => h.1
  refine Triple.intro_pure (fun w hw => hw.2 d rfl) fun ⟨b, hb, hseen⟩ => ?_
  subst hb
  dsimp only
  rw [addExt_append]
  -- the temporary file: created, then holding the image, through the three calls that only read
  let tmp := snapshotDir g ++ [x ++ ".tmp"]
  have hread : ∀ {X : FS → Prop} {c : Call (Except FsError Unit)}, c.isRead = true →
      ∀ w w', X w.fs → (Sem.faulty rd E).step c w (.ok ()) w' → X w'.fs :=
    fun hc w w' hX hs => Faulty.step_read hc hs ▸ hX
  refine (check_spares hE (c := .create tmp) (X := fun _ => True)
    (Y := fun fs => ∃ d t, fs.get tmp = some (.file d t)) htmp (fun w w' _ hs => ?_) ?_).conseq
    (fun w hw => ⟨hw.1, trivial⟩) fun _ _ h => h
  · rcases Faulty.step_create hs with ⟨hne, -⟩ | ⟨fs, hm, -, rfl⟩
    · exact absurd rfl hne
    · exact ⟨_, _, by rw [(FS.writeFile_eq_ok hm).2.2.2, if_pos rfl]⟩
  let held : FS → Prop := fun fs => ∃ t, fs.get tmp = some (.file (.gzip (.raw b)) t)
  refine check_spares hE (c := .writeAll tmp (.gzip (.raw b)))
    (X := fun fs => ∃ d t, fs.get tmp = some (.file d t)) (Y := held) htmp
    (fun w w' ⟨d, t, hd⟩ hs => ?_) ?_
  · rw [Faulty.step_writeAll_ok hs]
    exact ⟨w.clock, by simp [hd, FS.touchNode]⟩
  refine check_spares hE (c := .close tmp) (X := held) trivial (hread rfl) <|
    check_spares hE (c := .fsync tmp) (X := held) trivial (hread rfl) <|
    check_spares hE (c := .close tmp) (X := held) trivial (hread rfl) ?_
  -- the rename
  refine Triple.check (Q := fun _ => SoundWorld Seen)
    (Triple.call_stable (SoundWorld.stable_and hE _) (fun _ h => h.1) fun _ _ _ hw hs => ?_)
    (fun _ _ h => h) (Triple.pure fun _ h => h)
  rcases Faulty.step_rename hs with ⟨-, rfl⟩ | ⟨fs, hm, -, rfl⟩
  · exact hw.1
  obtain ⟨t, ht⟩ := hw.2
  obtain ⟨d, t', hd, hget⟩ := FS.rename_eq_ok hm
  rw [ht] at hd
  cases hd
  refine ⟨fun g' x' i ext n hn hp => ?_, hw.1.2⟩
  rw [hget] at hn
  split_ifs at hn with h₁ h₂
  · cases hn
    obtain ⟨-, rfl⟩ : g' = g ∧ x' = x := by simpa [snapshotDir, generationDir] using h₁
    exact ⟨ext_of_parseSnapshotPath_gz hx hp, b, t, rfl, hseen⟩
  · exact hw.1.1 g' x' i ext n hn hp

omit hE in
theorem compressFile_spares {src : FileRef} {dst : Path} (hdst : dst.length = 5) :
    Prog.Calls Call.Spares (compressFile src dst) :=
  have h : ¬ SnapshotEntry (addExt dst ".tmp") := not_snapshotEntry_of_length (by simp [hdst])
  .bind (.call trivial) fun
    | .error _ => .pure
    | .ok _ => .check h <| .check h <| .check trivial <| .check trivial <| .check trivial <|
        .check (not_snapshotEntry_of_length (by simp [hdst])) .pure

omit hE in
theorem compressLoop_spares :
    ∀ filenames : List Path, (∀ p ∈ filenames, p.length = 5) →
      Prog.Calls Call.Spares (compressLoop filenames)
  | [], _ => .pure
  | filename :: filenames, h => .bind (.call trivial) fun done => by
    cases done
    · exact .bind (compressFile_spares (by simp [h filename (List.mem_cons_self _ _)])) fun
        | .error _ => .pure
        | .ok () => .check trivial
            (compressLoop_spares filenames fun p hp => h p (List.mem_cons_of_mem _ hp))
    · exact .pure

/-- `compress` renames only into the directories its glob found below the WAL directory. -/
theorem compress_sound (g : String) :
    Triple (Sem.faulty rd E) (SoundWorld Seen) (SoundWorld Seen) (compress g)
      fun _ => SoundWorld Seen :=
  compress_triple_of (SoundWorld.stable hE) fun _ hps => triple_of_spares hE
    (compressLoop_spares _ fun p hp => FS.length_of_mem_glob _ (hps p hp).choose_spec)

/-- `snapshot` creates only the snapshot directory, and renames into the snapshot's own path. -/
theorem snapshot_sound (g : String) (i : Nat) :
    Triple (Sem.faulty rd E) (SoundWorld Seen) (SoundWorld Seen) (snapshot g i)
      fun _ => SoundWorld Seen := by
  unfold snapshot
  refine Triple.bind (triple_of_spares hE (.call trivial)) fun r => ?_
  rcases r with e | ⟨⟩
  · exact Triple.pure fun _ h => h
  refine Triple.bind (triple_of_spares hE (.call trivial)) fun r => ?_
  rcases r with e | fi
  · dsimp only
    rw [snapshotPath_dropLast]
    exact Triple.check_keeps (keeps_spares (by simp [Call.Spares, snapshotDir, generationDir]))
      (SoundWorld.stable hE) (fun _ h => h) (fun _ _ h => h)
      (compressFile_db_sound hE (gz_suffix_snapshotName i))
  · exact Triple.pure fun _ h => h

omit hE in
theorem Call.OfSyncPos.spares {c : Call β} (h : c.OfSyncPos) : c.Spares := by
  cases c <;> first | exact h.elim | trivial

omit hE in
theorem Call.OfSyncWAL.spares {c : Call β} (h : c.OfSyncWAL) : c.Spares := by
  cases c
  case mkdirAll p =>
    obtain ⟨g, rfl⟩ := h
    simp [Call.Spares, walDir, generationDir]
  case openFile p | write p _ _ =>
    obtain ⟨g, i, rfl⟩ := h
    exact not_snapshotEntry_walPath g i
  all_goals first | exact h.elim | trivial

omit hE in
theorem syncPos_spares (g : String) : Prog.Calls Call.Spares (syncPos g) :=
  (syncPos_footprint g).calls.mono Call.OfSyncPos.spares

omit hE in
theorem syncWALLoop_spares : Prog.Calls Call.Spares syncWALLoop :=
  syncWALLoop_footprint.mono Call.OfSyncWAL.spares

theorem syncSnapshot_sound (g : String) (i : Nat) :
    Triple (Sem.faulty rd E) (SoundWorld Seen) (SoundWorld Seen) (syncSnapshot g i)
      fun _ => SoundWorld Seen := by
  unfold syncSnapshot snapshotN
  refine Triple.bind (triple_of_spares hE (.bind (.call trivial) fun r => ?_)) fun r => ?_
  · rcases r with ((_ | _ | _ | _ | _) | _) <;> exact .pure
  rcases r with e | n
  · exact Triple.pure fun _ h => h
  dsimp only
  split
  · exact snapshot_sound hE _ _
  · exact Triple.pure fun _ h => h

/-- **`Sync` keeps the snapshots sound**, on every run, complete or cut short. -/
theorem sync_sound :
    Triple (Sem.faulty rd E) (SoundWorld Seen) (SoundWorld Seen) sync fun _ => SoundWorld Seen :=
  sync_triple_of (SoundWorld.stable hE) (syncSnapshot_sound hE)
    (fun _ => triple_of_spares hE (syncPos_spares _)) (triple_of_spares hE syncWALLoop_spares)
    (compress_sound hE)

omit hE in
theorem Call.ReadsOrRemoves.spares {c : Call β} (h : c.ReadsOrRemoves) : c.Spares := by
  cases c <;> trivial

omit hE in
theorem generations_spares (isGen : GenerationName) :
    Prog.Calls Call.Spares (generations isGen) :=
  (generations_reads isGen).calls.mono Call.ReadsOrRemoves.spares

omit hE in
theorem snapshots_spares (r : FileReplica) (isGen : GenerationName) :
    Prog.Calls Call.Spares (snapshots r isGen) :=
  (snapshots_reads r isGen).calls.mono Call.ReadsOrRemoves.spares

omit hE in
theorem retainGeneration_spares (R : List SnapshotInfo) (g : String) :
    Prog.Calls Call.Spares (retainGeneration R g) :=
  (retainGeneration_reads R g).calls.mono Call.ReadsOrRemoves.spares

theorem retainedSnapshots_sound (r : FileReplica) (isGen : GenerationName) (pos : Pos) :
    Triple (Sem.faulty rd E) (SoundWorld Seen) (SoundWorld Seen) (retainedSnapshots r isGen pos)
      fun _ => SoundWorld Seen := by
  unfold retainedSnapshots
  refine Triple.bind (triple_of_spares hE (snapshots_spares r isGen)) fun res => ?_
  rcases res with e | snaps
  · exact Triple.pure fun _ h => h
  refine Triple.bind (triple_of_spares hE (.call trivial)) fun now => ?_
  dsimp only
  split
  · refine Triple.bind (snapshot_sound hE _ _) fun res => ?_
    rcases res <;> exact Triple.pure fun _ h => h
  · exact Triple.pure fun _ h => h

/-- **`EnforceRetention` keeps the snapshots sound**, on every run, complete or cut short. -/
theorem enforceRetention_sound (r : FileReplica) (isGen : GenerationName) :
    Triple (Sem.faulty rd E) (SoundWorld Seen) (SoundWorld Seen) (enforceRetention r isGen)
      fun _ => SoundWorld Seen := by
  have hpure : ∀ {α : Type} (a : α), Triple (Sem.faulty rd E) (SoundWorld Seen) (SoundWorld Seen)
      (pure a) fun _ => SoundWorld Seen := fun _ => Triple.pure fun _ h => h
  unfold enforceRetention
  refine Triple.bind (triple_of_spares hE (.call trivial)) fun res => ?_
  rcases res with e | pos
  · exact hpure _
  dsimp only
  split
  · exact hpure _
  refine Triple.bind (retainedSnapshots_sound hE r isGen pos) fun res => ?_
  rcases res with e | snaps
  · exact hpure _
  refine Triple.bind (triple_of_spares hE (generations_spares isGen)) fun res => ?_
  rcases res with e | gens
  · exact hpure _
  exact triple_of_spares hE (.forRange (fun _ g => retainGeneration_spares snaps g) _ _)

end Programs

/-! ## 4. Reading a snapshot back -/

section Reader

variable {rd : Adapter} {Seen : List UInt8 → Prop} {w w' : World} {g : String} {i : Nat}
  {res : Except Error (List UInt8)}

/-- Whichever entry of the listing `SnapshotReader` opens, it reads a sound snapshot or fails
with an `os` error. -/
theorem snapshotReaderLoop_sound (hs : SoundSnapshots Seen w.fs) :
    ∀ fis : List FileInfo, Returns rd (snapshotReaderLoop (snapshotDir g) i fis) w res w' →
      (∃ b, res = .ok b ∧ Seen b) ∨ ∃ e, res = .error (.fs e)
  | [], h => .inr ⟨_, (Returns.pure.mp h).1.symm⟩
  | fi :: fis, h => by
    unfold snapshotReaderLoop at h
    split at h
    · rename_i idx ext hp
      by_cases hi : i ≠ idx
      · rw [if_pos hi] at h
        exact snapshotReaderLoop_sound hs fis h
      rw [if_neg hi] at h
      simp only [Returns.bind_lift, Call.run, FS.readFile] at h
      rcases hn : w.fs.get (snapshotDir g ++ [fi.name]) with _ | _ | ⟨d, t⟩ <;>
        simp only [hn, Returns.pure] at h
      · exact .inr ⟨_, h.1.symm⟩
      · exact .inr ⟨_, h.1.symm⟩
      obtain ⟨rfl, d, t, hdt, hd⟩ := hs g fi.name idx ext _ hn hp
      cases hdt
      simp only [gunzip, Data.bytes, Returns.pure, if_neg (by decide : ".snapshot.gz" ≠ ".snapshot")] at h
      exact .inl ⟨d, h.1.symm, hd⟩
    · exact snapshotReaderLoop_sound hs fis h

/-- **`SnapshotReader` on sound snapshots** answers an image `Seen` accepts, or an `os`
error: never a gzip error, never a partial image. -/
theorem snapshotReader_sound (hs : SoundSnapshots Seen w.fs)
    (h : Returns rd (snapshotReader g i) w res w') :
    (∃ b, res = .ok b ∧ Seen b) ∨ ∃ e, res = .error (.fs e) := by
  simp only [snapshotReader, Returns.bind_lift, Call.run] at h
  split at h
  · exact .inr ⟨_, (Returns.pure.mp h).1.symm⟩
  · exact snapshotReaderLoop_sound hs _ h

end Reader

/-! ## 5. Every run

`World.Grows` bounds the source's shadow WAL between two calls, not its database file, so
over the runs of the system the images are any: what is left is the shape of every snapshot
entry, a complete gzip stream under a `.snapshot.gz` name. -/

section Runs

variable {r : FileReplica} {isGen : GenerationName} {w w' : World}

/-- One step of the system keeps the snapshots sound. -/
theorem SoundWorld.replicaStep (hw : SoundWorld (fun _ => True) w) (h : ReplicaStep r isGen w w') :
    SoundWorld (fun _ => True) w' := by
  have hE : ∀ w w', World.Grows w w' → w'.fs = w.fs ∧ (True → True) := fun _ _ h => ⟨h.1, id⟩
  cases h with
  | grow h => exact ⟨h.1 ▸ hw.1, trivial⟩
  | sync h => exact sync_sound hE hw h
  | retain h => exact enforceRetention_sound hE _ _ hw h
  | syncCrash h => exact sync_sound hE hw h
  | retainCrash h => exact enforceRetention_sound hE _ _ hw h

/-- The snapshots are sound in every world a run reaches from an empty destination. -/
theorem SoundWorld.reach {src : Source} {clock : Int}
    (h : Relation.ReflTransGen (ReplicaStep r isGen) (World.fresh src clock) w) :
    SoundWorld (fun _ => True) w := by
  induction h with
  | refl => exact ⟨SoundSnapshots.fresh src clock, trivial⟩
  | tail _ hs ih => exact ih.replicaStep hs

/-- **Snapshots are never partial.**  In every world a run of the replica reaches from an empty
destination, through failed calls and crashes, every snapshot entry is a `.snapshot.gz` file
holding a complete gzip stream of an image, and `SnapshotReader` answers that image or an `os`
error. -/
theorem snapshots_complete {rd : Adapter} {src : Source} {clock : Int}
    (h : Relation.ReflTransGen (ReplicaStep r isGen) (World.fresh src clock) w) :
    SoundSnapshots (fun _ => True) w.fs ∧ ∀ g i res w', Returns rd (snapshotReader g i) w res w' →
      (∃ b, res = .ok b) ∨ ∃ e, res = .error (.fs e) := by
  have hw := SoundWorld.reach h
  exact ⟨hw.1, fun g i res w' hr =>
    (snapshotReader_sound hw.1 hr).imp (fun ⟨b, hb, _⟩ => ⟨b, hb⟩) id⟩

/-- After the first `Sync` of `indexZeroSource`, which writes snapshot `0`. -/
theorem snapshots_complete_indexZero :
    SoundSnapshots (fun _ => True) indexZeroReplica.fs ∧
      ∀ g i res w', Returns Source.shadowWALReader (snapshotReader g i) indexZeroReplica res w' →
        (∃ b, res = .ok b) ∨ ∃ e, res = .error (.fs e) :=
  snapshots_complete
    (.single (.sync (Returns.faulty (Prog.run_sound 60 sync _ (.ok ()) indexZeroReplica rfl))) :
      Relation.ReflTransGen (ReplicaStep hourReplica anyGeneration) (World.fresh indexZeroSource 0) _)

end Runs

/-! ## 6. What a lookup finds can be read

`SnapshotIndexAt` and `MaxSnapshotIndex` return the index of an entry of the snapshot
directory, and `SnapshotReader` opens the first entry of that index: on sound snapshots it
finds one and reads it whole. -/

section Lookup

variable {rd : Adapter} {Seen : List UInt8 → Prop} {w w₁ : World} {g : String} {i : Nat}

/-- The loop of `SnapshotIndexAt` ends at `-1` or at the index of an entry of the listing. -/
theorem snapshotIndexAtOf_mem (timestamp : Int) (fis : List FileInfo) :
    (snapshotIndexAtOf timestamp fis).1 = -1 ∨
      ∃ fi ∈ fis, snapshotIndex fi.name = some (snapshotIndexAtOf timestamp fis).1.toNat := by
  induction fis using List.reverseRecOn with
  | nil => exact .inl rfl
  | append_singleton fis fi ih =>
    unfold snapshotIndexAtOf at ih ⊢
    rw [List.foldl_append]
    generalize List.foldl _ ((-1, 0) : Int × Int) fis = acc at ih ⊢
    obtain ⟨index, max⟩ := acc
    have hold : index = -1 ∨ ∃ fi' ∈ fis ++ [fi], snapshotIndex fi'.name = some index.toNat :=
      ih.imp_right fun ⟨fi', hfi', h⟩ => ⟨fi', List.mem_append_left _ hfi', h⟩
    have hnew : ∃ fi' ∈ fis ++ [fi], snapshotIndex fi'.name = (parseSnapshotPath fi.name).map Prod.fst :=
      ⟨fi, List.mem_append_right _ (List.mem_singleton_self _), rfl⟩
    simp only [List.foldl_cons, List.foldl_nil]
    rcases hp : parseSnapshotPath fi.name with _ | ⟨idx, ext⟩
    · exact hold
    · rw [hp] at hnew
      dsimp only
      split_ifs
      · exact hold
      · exact .inr (by simpa using hnew)
      · exact hold

/-- An index `SnapshotIndexAt` returns is a snapshot's on disk, and the lookup changes
nothing. -/
theorem hasSnap_of_snapshotIndexAt {timestamp : Int}
    (h : Returns rd (snapshotIndexAt g timestamp) w (.ok i) w₁) : w₁ = w ∧ HasSnap g w.fs i := by
  simp only [snapshotIndexAt, Returns.bind_lift, Call.run] at h
  split at h
  · simp at h
  · simp at h
  · rename_i fis hfis
    split_ifs at h with h₁
    · simp at h
    obtain ⟨h, rfl⟩ := Returns.pure.mp h
    cases h
    rcases snapshotIndexAtOf_mem timestamp fis with h₀ | ⟨fi, hfi, hk⟩
    · exact absurd h₀ h₁
    · exact ⟨rfl, hasSnap_of_listed hfis hfi hk⟩

/-- An index `MaxSnapshotIndex` returns is a snapshot's on disk, and the lookup changes
nothing. -/
theorem hasSnap_of_maxSnapshotIndex (h : Returns rd (maxSnapshotIndex g) w (.ok i) w₁) :
    w₁ = w ∧ HasSnap g w.fs i := by
  simp only [maxSnapshotIndex, Returns.bind_lift, Call.run] at h
  split at h
  · simp at h
  · rename_i fis hfis
    split_ifs at h with h₁
    · simp at h
    obtain ⟨h, rfl⟩ := Returns.pure.mp h
    cases h
    obtain ⟨fi, hfi, hk, -⟩ := maxIndexOf_mem h₁
    exact ⟨rfl, hasSnap_of_listed hfis hfi hk⟩

/-- On sound snapshots, the loop of `SnapshotReader` over entries of the snapshot directory
reads an entry of index `i` whole, when there is one. -/
theorem snapshotReaderLoop_ok (hs : SoundSnapshots Seen w.fs) :
    ∀ fis : List FileInfo, (∀ fi ∈ fis, w.fs.get (snapshotDir g ++ [fi.name]) ≠ none) →
      (∃ fi ∈ fis, snapshotIndex fi.name = some i) →
      ∃ b, Returns rd (snapshotReaderLoop (snapshotDir g) i fis) w (.ok b) w ∧ Seen b
  | [], _, ⟨_, h, _⟩ => absurd h (List.not_mem_nil _)
  | fi :: fis, hfis, ⟨fi', hfi', hi⟩ => by
    have htail (hne : snapshotIndex fi.name ≠ some i) :
        ∃ b, Returns rd (snapshotReaderLoop (snapshotDir g) i fis) w (.ok b) w ∧ Seen b := by
      refine snapshotReaderLoop_ok hs fis (fun f hf => hfis f (.tail _ hf)) ⟨fi', ?_, hi⟩
      rcases List.mem_cons.mp hfi' with rfl | h
      · exact absurd hi hne
      · exact h
    rcases hp : parseSnapshotPath fi.name with _ | ⟨idx, ext⟩
    · simpa only [snapshotReaderLoop, hp] using htail (by simp [snapshotIndex, hp])
    by_cases hidx : i = idx
    · subst hidx
      obtain ⟨n, hn⟩ := Option.ne_none_iff_exists'.mp (hfis fi (.head _))
      obtain ⟨rfl, d, t, rfl, hd⟩ := hs g fi.name i _ n hn hp
      exact ⟨d, by simp [snapshotReaderLoop, hp, Call.run, FS.readFile, hn, gunzip, Data.bytes], hd⟩
    · simpa [snapshotReaderLoop, hp, hidx] using htail (by simpa [snapshotIndex, hp] using Ne.symm hidx)

/-- **`SnapshotReader` reads every snapshot on disk**, when the snapshots are sound. -/
theorem snapshotReader_ok (hs : SoundSnapshots Seen w.fs) (hk : HasSnap g w.fs i) :
    ∃ b, Returns rd (snapshotReader g i) w (.ok b) w ∧ Seen b := by
  obtain ⟨x, n, hx, hi⟩ := hk
  obtain ⟨fis, hfis⟩ := w.fs.readDir_of_dir (by simpa using FS.get_parent hx (by simp))
  obtain ⟨b, hb, hseen⟩ := snapshotReaderLoop_ok (g := g) hs fis
    (fun fi hfi => by obtain ⟨n, hn, -⟩ := (FS.mem_readDir _ hfis).mp hfi; simp [hn])
    ⟨_, FS.info_mem_readDir _ hfis hx, by simpa using hi⟩
  exact ⟨b, by simpa [snapshotReader, Call.run, hfis] using hb, hseen⟩

variable {r : FileReplica} {isGen : GenerationName}

/-- **What a lookup finds can be read.**  In every world a run of the replica reaches, an index
that `SnapshotIndexAt` or `MaxSnapshotIndex` returns for a generation is one whose snapshot
`SnapshotReader` then reads whole. -/
theorem snapshot_lookup_readable {src : Source} {clock : Int}
    (h : Relation.ReflTransGen (ReplicaStep r isGen) (World.fresh src clock) w) (g : String) :
    (∀ timestamp i w₁, Returns rd (snapshotIndexAt g timestamp) w (.ok i) w₁ →
      ∃ b, Returns rd (snapshotReader g i) w₁ (.ok b) w₁) ∧
    ∀ i w₁, Returns rd (maxSnapshotIndex g) w (.ok i) w₁ →
      ∃ b, Returns rd (snapshotReader g i) w₁ (.ok b) w₁ := by
  have hs := (SoundWorld.reach h).1
  refine ⟨fun timestamp i w₁ hi => ?_, fun i w₁ hi => ?_⟩
  · obtain ⟨rfl, hk⟩ := hasSnap_of_snapshotIndexAt hi
    exact (snapshotReader_ok hs hk).imp fun _ h => h.1
  · obtain ⟨rfl, hk⟩ := hasSnap_of_maxSnapshotIndex hi
    exact (snapshotReader_ok hs hk).imp fun _ h => h.1

/-- After the first `Sync` of `indexZeroSource`. -/
theorem snapshot_lookup_readable_indexZero :
    (∀ timestamp i w₁, Returns Source.shadowWALReader (snapshotIndexAt "g" timestamp) indexZeroReplica
      (.ok i) w₁ → ∃ b, Returns Source.shadowWALReader (snapshotReader "g" i) w₁ (.ok b) w₁) ∧
    ∀ i w₁, Returns Source.shadowWALReader (maxSnapshotIndex "g") indexZeroReplica (.ok i) w₁ →
      ∃ b, Returns Source.shadowWALReader (snapshotReader "g" i) w₁ (.ok b) w₁ :=
  snapshot_lookup_readable
    (.single (.sync (Returns.faulty (Prog.run_sound 60 sync _ (.ok ()) indexZeroReplica rfl))) :
      Relation.ReflTransGen (ReplicaStep hourReplica anyGeneration) (World.fresh indexZeroSource 0) _)
    "g"

end Lookup

end Litestream
