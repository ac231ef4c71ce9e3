import Litestream.Mirror.Invariant
import Litestream.RetentionEffect
/-!
# The calls of `snapshot` and of the retention pass keep the invariant

Under `Sem.faulty`, with a source that only grows between two calls, each call that
`snapshot` or `EnforceRetention`'s deletions can make keeps the mirror invariant, whether it
succeeded or failed part way:

* the directories `mkdirAll` creates on the WAL or snapshot directory's path, and the
  temporary file of a snapshot, are changes the copy does not see (`MoreSnaps`);
* renaming the temporary file over `SnapshotPath(g, i)` adds a snapshot of an index of the
  shadow (`MoreSnaps`);
* removing a snapshot or a WAL file of an index below a snapshot that stays is `DropBelow`,
  and removing another generation's path is a change the copy does not see.

`snapshot_triple` and `retainGeneration_calls` put them together over the two programs.
-/

namespace Litestream

section Keeps

variable {rd : Adapter} {E : World → World → Prop} {g : String}

/-- A call that only reads keeps everything. -/
theorem keeps_read {P : World → Prop} {β : Type} {c : Call β} (hc : c.isRead = true) :
    Keeps (Sem.faulty rd E) P c := fun _ _ _ hw hs => Faulty.step_read hc hs ▸ hw

/-- A source that only grows keeps the invariant between two calls. -/
theorem Mirror.stable (hE : ∀ w w', E w w' → World.Grows w w') :
    Stable (Sem.faulty rd E) (Mirror g) :=
  fun _ _ h hm => hm.grow (hE _ _ h)

/-! ## 1. Changes the copy does not see -/

section Harmless

variable {sh : List (List UInt8)} {fs fs' : FS} {p q : Path}

/-- A directory on the WAL or snapshot directory's path. -/
theorem harmless_of_prefix (hp : p = walDir g ∨ p = snapshotDir g) (hq : q <+: p)
    (hdir : fs'.IsDir q) : Harmless g sh fs' q := by
  have hlen : q.length ≤ 3 := by
    have := hq.length_le
    rcases hp with rfl | rfl <;> simpa [walDir, snapshotDir, generationDir] using this
  refine ⟨fun x h => ?_, fun x h => .inl ?_, fun x k h _ => ?_, fun _ _ _ h => FS.not_isDir_of_get_file h hdir⟩ <;>
    subst h
  · simp [walDir, generationDir] at hlen
  · rcases hp with rfl | rfl <;> simpa [walDir, snapshotDir, generationDir] using hq
  · simp [snapshotDir, generationDir] at hlen

/-- An entry of the snapshot directory that does not parse as a snapshot. -/
theorem harmless_tmp {x : String} (hx : snapshotIndex x = none) :
    Harmless g sh fs' (snapshotDir g ++ [x]) := by
  refine ⟨fun y h => by simp [walDir, snapshotDir, generationDir] at h,
    fun y h => by simp [snapshotDir, generationDir] at h, fun y k h hk => ?_,
    fun d t h => absurd h.length_le (by simp [walDir, snapshotDir, generationDir])⟩
  obtain rfl := List.singleton_inj.mp (List.append_cancel_left h)
  rw [hx] at hk
  cases hk

/-- A path in another generation, or one that is gone. -/
theorem harmless_other {g' : String} (hg : g' ≠ g) (hq : generationDir g' <+: q)
    (hn : fs'.get q = none) : Harmless g sh fs' q := by
  refine ⟨fun x h => ?_, fun x _ => .inr hn, fun x k h _ => ?_, fun d t _ => by simp [hn]⟩ <;>
    subst h
  · exact hg (by simpa [walDir, generationDir] using hq)
  · exact absurd (by simpa [snapshotDir, generationDir] using hq) hg

/-- A change at one path only. -/
theorem MoreSnaps.of_single (h : ∀ q, q ≠ p → fs'.get q = fs.get q)
    (hp : Harmless g sh fs' p) : MoreSnaps g sh fs fs' :=
  MoreSnaps.of_changes fun q hq => by
    by_cases hqp : q = p
    · exact hqp ▸ hp
    · exact absurd (h q hqp) hq

end Harmless

/-! ## 2. The calls -/

section Calls

variable {p : Path} {w w' : World}

/-- `mkdirAll` on the WAL or snapshot directory's path, complete or cut short, changes nothing
the copy sees. -/
theorem mkdirAll_more {sh : List (List UInt8)} {u : Except FsError Unit}
    (hp : p = walDir g ∨ p = snapshotDir g) (hs : (Sem.faulty rd E).step (.mkdirAll p) w u w') :
    w' = w ∨ ∃ fs', MoreSnaps g sh w.fs fs' ∧ w' = { w with fs := fs' } := by
  rcases Faulty.step_mkdirAll hs with rfl | ⟨j, fs, hfs, rfl⟩
  · exact .inl rfl
  · refine .inr ⟨fs, MoreSnaps.of_changes fun q hq => ?_, rfl⟩
    have hget := FS.mkdirAll_eq_ok hfs q
    split_ifs at hget with h
    · exact harmless_of_prefix hp (h.1.trans (List.take_prefix j p)) (FS.isDir_of_get hget)
    · exact absurd hget hq

theorem Mirror.keeps_mkdirAll (hp : p = walDir g ∨ p = snapshotDir g) :
    Keeps (Sem.faulty rd E) (Mirror g) (.mkdirAll p) := by
  intro w u w' hm hs
  rcases mkdirAll_more hp hs with rfl | ⟨fs, hc, rfl⟩
  · exact hm
  · exact hm.more hc

theorem Mirror.keeps_create {x : String} (hx : snapshotIndex x = none) :
    Keeps (Sem.faulty rd E) (Mirror g) (.create (snapshotDir g ++ [x])) := by
  intro w u w' hm hs
  rcases Faulty.step_create hs with ⟨-, rfl⟩ | ⟨fs, hfs, -, rfl⟩
  · exact hm
  · refine hm.more (MoreSnaps.of_single (fun q hq => ?_) (harmless_tmp hx))
    rw [(FS.writeFile_eq_ok hfs).2.2.2 q, if_neg hq]

theorem Mirror.keeps_writeAll {x : String} {d : Data} (hx : snapshotIndex x = none) :
    Keeps (Sem.faulty rd E) (Mirror g) (.writeAll (snapshotDir g ++ [x]) d) := by
  intro w u w' hm hs
  obtain ⟨d', rfl⟩ := Faulty.step_writeAll hs
  exact hm.more (MoreSnaps.of_single (fun q hq => FS.get_setData_ne hq) (harmless_tmp hx))

/-- The invariant of a run that snapshots index `i`: the index is in the shadow. -/
def SnapAt (g : String) (i : Nat) (w : World) : Prop :=
  Mirror g w ∧ i < (w.src.shadow g).length

theorem SnapAt.keeps {i : Nat} {β : Type} {c : Call β} (hc : Keeps (Sem.faulty rd E) (Mirror g) c) :
    Keeps (Sem.faulty rd E) (SnapAt g i) c :=
  fun _ _ _ hw hs => ⟨hc hw.1 hs, Faulty.step_src hs ▸ hw.2⟩

theorem SnapAt.stable {i : Nat} (hE : ∀ w w', E w w' → World.Grows w w') :
    Stable (Sem.faulty rd E) (SnapAt g i) := by
  intro w w' h ⟨hm, hi⟩
  have hg := hE w w' h
  refine ⟨hm.grow hg, ?_⟩
  have := hg.2.2.2.1
  rw [hm.gen] at this
  omega

/-- **Renaming the temporary file over `SnapshotPath(g, i)` adds a snapshot.** -/
theorem SnapAt.keeps_rename {i : Nat} (hi : i < 16 ^ 16) :
    Keeps (Sem.faulty rd E) (SnapAt g i)
      (.rename (addExt (snapshotPath g i) ".tmp") (snapshotPath g i)) := by
  intro w u w' ⟨hm, hlt⟩ hs
  rcases Faulty.step_rename hs with ⟨-, rfl⟩ | ⟨fs, hfs, -, rfl⟩
  · exact ⟨hm, hlt⟩
  · obtain ⟨d, t, -, hget⟩ := FS.rename_eq_ok hfs
    refine ⟨hm.more (MoreSnaps.of_changes fun q hq => ?_), hlt⟩
    rw [hget q] at hq
    split_ifs at hq with h₁ h₂
    · subst h₁
      refine ⟨fun y h => by simp [snapshotPath, walDir, snapshotDir, generationDir] at h,
        fun y h => by simp [snapshotPath, snapshotDir, generationDir] at h, fun y k h hk => ?_,
        fun d t h => by simp [snapshotPath, walDir, snapshotDir, generationDir] at h⟩
      obtain rfl := List.singleton_inj.mp (List.append_cancel_left h)
      rw [snapshotIndex_snapshotName hi] at hk
      cases hk
      exact ⟨by rw [hget, if_pos rfl]; exact Option.some_ne_none _, hlt⟩
    · subst h₂
      rw [snapshotPath, addExt_append]
      exact harmless_tmp (by simp [snapshotIndex, parseSnapshotPath_tmp hi])
    · exact absurd rfl hq

/-- The invariant of a retention pass in `g` below `m`: a snapshot of index `m` is there. -/
def DropAt (g : String) (m : Nat) (w : World) : Prop := Mirror g w ∧ HasSnap g w.fs m

theorem DropAt.stable {m : Nat} (hE : ∀ w w', E w w' → World.Grows w w') :
    Stable (Sem.faulty rd E) (DropAt g m) := by
  intro w w' h ⟨hm, hs⟩
  have hg := hE w w' h
  exact ⟨hm.grow hg, hg.1 ▸ hs⟩

theorem DropAt.more {m : Nat} {fs' : FS} (h : DropAt g m w)
    (hc : MoreSnaps g (w.src.shadow g) w.fs fs') : DropAt g m { w with fs := fs' } :=
  ⟨h.1.more hc, hc.snap m h.2⟩

/-- **Removing an entry of a snapshot directory**: in `g`, one whose name parses to an index
below `m`. -/
theorem DropAt.keeps_remove_snap {m : Nat} {g' x : String}
    (hx : g' = g → ∃ k, snapshotIndex x = some k ∧ k < m) :
    Keeps (Sem.faulty rd E) (DropAt g m) (.remove (snapshotDir g' ++ [x])) := by
  intro w u w' hd hs
  rcases Faulty.step_remove hs with ⟨-, rfl⟩ | ⟨fs, hfs, -, rfl⟩
  · exact hd
  have hget := (FS.remove_eq_ok hfs).2.2
  have hne : ∀ q, q ≠ snapshotDir g' ++ [x] → fs.get q = w.fs.get q := fun q hq => by
    rw [hget q, if_neg fun h => hq h.1]
  by_cases hg : g' = g
  · subst hg
    obtain ⟨k, hk, hkm⟩ := hx rfl
    obtain ⟨y, n, hy, hym⟩ := hd.2
    have hyx : snapshotDir g' ++ [y] ≠ snapshotDir g' ++ [x] := fun h => by
      obtain rfl := List.singleton_inj.mp (List.append_cancel_left h)
      rw [hk] at hym
      cases hym
      omega
    have hkeep : HasSnap g' fs m := ⟨y, n, (hne _ hyx).trans hy, hym⟩
    refine ⟨hd.1.drop (DropBelow.of_changes (fun q hq => ?_) hkeep), hkeep⟩
    have hq' : q = snapshotDir g' ++ [x] := by_contra fun h => hq (hne q h)
    subst hq'
    refine ⟨by rw [hget]; simp, fun k' h => by simp [walPath, walDir, snapshotDir] at h,
      fun y k' h hk' => ?_⟩
    obtain rfl := List.singleton_inj.mp (List.append_cancel_left h)
    rw [hk] at hk'
    cases hk'
    exact hkm
  · exact hd.more (MoreSnaps.of_single hne (harmless_other hg ⟨["snapshots", x], by
      simp [snapshotDir]⟩ (by rw [hget]; simp)))

/-- The source's index is a Go `int`, so every index of the shadow has a WAL name. -/
theorem index_lt_of_shadow {w : World} {k : Nat} (hk : k < (w.src.shadow g).length) :
    k < 16 ^ 16 :=
  lt_of_lt_of_le hk ((w.src.index_bound g).trans (by decide))

/-- **Removing an entry of a WAL directory**: in `g`, one whose name parses to an index below
`m`. -/
theorem DropAt.keeps_remove_wal {m : Nat} {g' x : String}
    (hx : g' = g → ∃ k, walIndex x = some k ∧ k < m) :
    Keeps (Sem.faulty rd E) (DropAt g m) (.remove (walDir g' ++ [x])) := by
  intro w u w' hd hs
  rcases Faulty.step_remove hs with ⟨-, rfl⟩ | ⟨fs, hfs, -, rfl⟩
  · exact hd
  obtain ⟨hpres, -, hget⟩ := FS.remove_eq_ok hfs
  have hne : ∀ q, q ≠ walDir g' ++ [x] → fs.get q = w.fs.get q := fun q hq => by
    rw [hget q, if_neg fun h => hq h.1]
  have hsnap : ∀ y, fs.get (snapshotDir g ++ [y]) = w.fs.get (snapshotDir g ++ [y]) :=
    fun y => hne _ (by simp [walDir, snapshotDir, generationDir])
  have hkeep : HasSnap g fs m :=
    let ⟨y, n, hy, hym⟩ := hd.2
    ⟨y, n, (hsnap y).trans hy, hym⟩
  by_cases hg : g' = g
  · subst hg
    obtain ⟨k, hk, hkm⟩ := hx rfl
    refine ⟨hd.1.drop (DropBelow.of_changes (fun q hq => ?_) hkeep), hkeep⟩
    have hq' : q = walDir g' ++ [x] := by_contra fun h => hq (hne q h)
    subst hq'
    refine ⟨by rw [hget]; simp, fun k' h => ?_, fun y k' h _ => by
      simp [walDir, snapshotDir, generationDir] at h⟩
    have hk' : k' < 16 ^ 16 := index_lt_of_shadow (hd.1.tree.wal_lt (h ▸ hpres))
    obtain rfl := List.singleton_inj.mp (List.append_cancel_left h)
    rw [walIndex_walName hk'] at hk
    cases hk
    exact hkm
  · exact hd.more (MoreSnaps.of_single hne (harmless_other hg ⟨["wal", x], by
      simp [walDir]⟩ (by rw [hget]; simp)))

/-- **`os.RemoveAll` of another generation**, complete or cut short. -/
theorem DropAt.keeps_removeAll {m : Nat} {g' : String} (hg : g' ≠ g) :
    Keeps (Sem.faulty rd E) (DropAt g m) (.removeAll (generationDir g')) := by
  intro w u w' hd hs
  obtain ⟨qs, hqs, rfl⟩ := Faulty.step_removeAll hs
  refine hd.more (MoreSnaps.of_changes fun q hq => ?_)
  rw [FS.get_foldl_prune] at hq
  split_ifs at hq with h
  · obtain ⟨r, hr, hrq⟩ := h.1
    exact harmless_other hg ((hqs r hr).trans hrq) (by rw [FS.get_foldl_prune, if_pos h])
  · exact absurd rfl hq

end Calls

/-! ## 3. The programs -/

section Programs

variable {i m : Nat}

/-- **`snapshot(g, i)` keeps the invariant**, and when it returns `nil` a snapshot of index
`i` is on disk. -/
theorem snapshot_triple (hE : ∀ w w', E w w' → World.Grows w w') (hi : i < 16 ^ 16) :
    Triple (Sem.faulty rd E) (SnapAt g i) (SnapAt g i) (snapshot g i)
      fun r w => SnapAt g i w ∧ (r = .ok () → HasSnap g w.fs i) := by
  have hP : Stable (Sem.faulty rd E) (SnapAt g i) := SnapAt.stable hE
  have hid : ∀ w, SnapAt g i w → SnapAt g i w := fun _ h => h
  have hsnap : ∀ {fs : FS} {n : Node}, fs.get (snapshotPath g i) = some n → HasSnap g fs i :=
    fun h => ⟨_, _, h, snapshotIndex_snapshotName hi⟩
  have herr : ∀ (e : Error) w, SnapAt g i w →
      SnapAt g i w ∧ (Except.error e = .ok () → HasSnap g w.fs i) :=
    fun _ _ hw => ⟨hw, fun h => by cases h⟩
  have hfs := fun e => herr (.fs e)
  have htmp : snapshotIndex (snapshotName i ++ ".tmp") = none := by
    simp [snapshotIndex, parseSnapshotPath_tmp hi]
  unfold snapshot compressFile
  refine Triple.bind (Triple.keeps (keeps_read rfl) hP hid) fun r => ?_
  rcases r with e | ⟨⟩
  · exact Triple.pure (herr _)
  refine Triple.bind (Faulty.stat_triple hP hid) fun r => ?_
  rcases r with e | fi
  · refine Triple.conseq (P := SnapAt g i) ?_ (fun _ h => h.1) fun _ _ h => h
    refine Triple.check_keeps
      (SnapAt.keeps (Mirror.keeps_mkdirAll (.inr (snapshotPath_dropLast g i)))) hP hid hfs ?_
    refine Triple.bind (Triple.keeps (keeps_read rfl) hP hid) fun r => ?_
    rcases r with e | d
    · exact Triple.pure (herr _)
    rw [snapshotPath, addExt_append]
    refine Triple.check_keeps (SnapAt.keeps (Mirror.keeps_create htmp)) hP hid hfs <|
      Triple.check_keeps (SnapAt.keeps (Mirror.keeps_writeAll htmp)) hP hid hfs <|
      Triple.check_keeps (keeps_read rfl) hP hid hfs <| Triple.check_keeps (keeps_read rfl) hP hid hfs <|
      Triple.check_keeps (keeps_read rfl) hP hid hfs <|
      Triple.check (Q := fun u w => SnapAt g i w ∧ (u = .ok () → HasSnap g w.fs i))
        (Triple.call_stable hP (fun _ h => h) fun w u w' hw hs => ?_)
        (fun e w h => ⟨h.1, fun h' => by cases h'⟩) (Triple.pure fun w h => ⟨h.1, fun _ => h.2 rfl⟩)
    have hs' := hs
    rw [← addExt_append, ← snapshotPath] at hs'
    refine ⟨SnapAt.keeps_rename hi hw hs', fun hu => ?_⟩
    subst hu
    rcases hs with h | ⟨h, -⟩
    · simp only [Call.run] at h
      cases hr : w.fs.rename (snapshotDir g ++ [snapshotName i ++ ".tmp"]) (snapshotDir g ++ [snapshotName i]) with
      | error e => rw [hr, World.withFs_error] at h; cases (Prod.mk.inj h).1
      | ok fs =>
        rw [hr, World.withFs_ok] at h
        obtain ⟨d, t, -, hget⟩ := FS.rename_eq_ok hr
        rw [← (Prod.mk.inj h).2]
        exact hsnap ((hget _).trans (if_pos rfl))
    · cases h
  · exact Triple.pure fun w h => ⟨h.1, fun _ =>
      let ⟨_, hn, _⟩ := FS.stat_eq_ok (h.2 fi rfl)
      hsnap hn⟩

/-- One turn of a deletion loop, in `g` below `m`, or in another generation. -/
theorem deleteEntry_calls {P : World → Prop} {g' : String} {dir : String → Path}
    {parse : String → Option Nat} {fi : FileInfo} {m' : Nat}
    (hremove : ∀ x, (g' = g → ∃ k, parse x = some k ∧ k < m) →
      Keeps (Sem.faulty rd E) P (.remove (dir g' ++ [x])))
    (hm : g' = g → m' = m) :
    Prog.Calls (Keeps (Sem.faulty rd E) P) (deleteEntry (dir g') parse m' fi) := by
  unfold deleteEntry
  split
  · exact .pure
  · split_ifs with h
    · exact .pure
    · exact .check (hremove _ fun hg => ⟨_, ‹_›, by rw [← hm hg]; omega⟩) .pure

theorem deleteBefore_calls {P : World → Prop} {g' : String} (dir : String → Path)
    {parse : String → Option Nat} {m' : Nat}
    (hremove : ∀ x, (g' = g → ∃ k, parse x = some k ∧ k < m) →
      Keeps (Sem.faulty rd E) P (.remove (dir g' ++ [x])))
    (hm : g' = g → m' = m) :
    Prog.Calls (Keeps (Sem.faulty rd E) P) (deleteBefore (dir g') parse m') := by
  refine .bind (.call (keeps_read rfl)) fun r => ?_
  rcases r with (_ | _ | _ | _ | _) | fis
  all_goals first | exact .pure | exact .forRange (fun _ _ => deleteEntry_calls hremove hm) _ _

/-- **Every call of the retention pass over one generation keeps `P`**, when the retained
snapshots' lowest index in `g` is `m` and `P` is kept by each removal the pass can make: of
another generation whole, and of a snapshot or WAL file, below `m` when it is in `g`. -/
theorem retainGeneration_keeps {P : World → Prop} {R : List SnapshotInfo}
    (hR : retainedMin R g = some m)
    (hall : ∀ g', g' ≠ g → Keeps (Sem.faulty rd E) P (.removeAll (generationDir g')))
    (hsnap : ∀ g' x, (g' = g → ∃ k, snapshotIndex x = some k ∧ k < m) →
      Keeps (Sem.faulty rd E) P (.remove (snapshotDir g' ++ [x])))
    (hwal : ∀ g' x, (g' = g → ∃ k, walIndex x = some k ∧ k < m) →
      Keeps (Sem.faulty rd E) P (.remove (walDir g' ++ [x])))
    (g' : String) :
    Prog.Calls (Keeps (Sem.faulty rd E) P) (retainGeneration R g') := by
  have hmin := findMinSnapshotByGeneration_index R g
  unfold retainGeneration
  split
  · rename_i hnone
    have hg : g' ≠ g := by
      rintro rfl
      rw [hnone, hR] at hmin
      cases hmin
    exact .bind (.call (hall g' hg)) fun r => by cases r <;> exact .pure
  · rename_i s hs
    have hm : g' = g → s.index = m := by
      rintro rfl
      rw [hs, hR] at hmin
      exact Option.some.inj hmin
    refine .bind (deleteBefore_calls snapshotDir (hsnap g') hm) fun r => ?_
    rcases r with e | ⟨⟩
    · exact .pure
    · refine .bind (deleteBefore_calls walDir (hwal g') hm) fun r => ?_
      cases r <;> exact .pure

/-- **Every call of the retention pass over one generation keeps the invariant**, when the
retained snapshots' lowest index in `g` is `m`. -/
theorem retainGeneration_calls {R : List SnapshotInfo} (hR : retainedMin R g = some m)
    (g' : String) :
    Prog.Calls (Keeps (Sem.faulty rd E) (DropAt g m)) (retainGeneration R g') :=
  retainGeneration_keeps hR (fun _ hg => DropAt.keeps_removeAll hg)
    (fun _ _ hx => DropAt.keeps_remove_snap hx) (fun _ _ hx => DropAt.keeps_remove_wal hx) g'

end Programs

end Keeps

end Litestream
