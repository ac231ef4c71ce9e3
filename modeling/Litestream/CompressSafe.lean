import Litestream.Parts
/-!
# Compression loses no WAL data

`compress` gzips each sealed WAL file `<name>.wal` into `<name>.wal.gz` with `compressFile`,
and removes the `.wal` file only once that has returned `nil`.  `compressFile` copies into the
temporary file `<name>.wal.gz.tmp` and renames it over `<name>.wal.gz` only once the copy, its
`Sync` and its `Close` have succeeded.  So whichever call fails, and wherever the process dies,
every WAL file of the tree is still there as it was, or it is gone and its `.gz` holds its data,
compressed; and nothing but WAL files, their `.gz` and the temporary files of those has changed.

This holds of every tree, not only of the layout `Sync` writes, where the glob of `compress`
finds nothing (`Litestream.Compress`): it rests on the order of the calls alone.

* `ne_of_endsIn`, `addExt_inj`: a WAL file, its `.gz` and the temporary file of that are three
  different paths, and two WAL files have two different `.gz`;
* `CompressInv`: the invariant, against the tree before the run, with one lemma for each kind
  of change a call makes;
* `compressFile_keeps`: `compressFile` of a WAL file keeps it, and when it returns `nil` the
  file's data, compressed, is in place;
* `compress_keeps_wal`: every run of `compress`, complete or cut short, under failures.
-/

namespace Litestream

/-! ## 1. WAL files and their companions -/

/-- The base name of `q` ends in `s`. -/
def EndsIn (s : List Char) (q : Path) : Prop := ∃ l x, q = l ++ [x] ∧ s <:+ x.data

/-- A WAL file: its base name ends in `.wal`, as every name the glob of `compress` finds. -/
def WALNamed (f : Path) : Prop := EndsIn ".wal".data f

/-- The temporary file `compressFile` writes for the `.gz` of `f`. -/
def tmpOf (f : Path) : Path := addExt (addExt f ".gz") ".tmp"

theorem EndsIn.ne_nil {s : List Char} {q : Path} (h : EndsIn s q) : q ≠ [] := by
  obtain ⟨l, x, rfl, -⟩ := h
  simp

/-- Two paths whose base names end in suffixes neither of which ends the other differ. -/
theorem ne_of_endsIn {s s' : List Char} {q q' : Path} (h : EndsIn s q) (h' : EndsIn s' q')
    (h₁ : ¬ s <:+ s') (h₂ : ¬ s' <:+ s) : q ≠ q' := by
  obtain ⟨l, x, rfl, hx⟩ := h
  obtain ⟨l', x', rfl, hx'⟩ := h'
  intro heq
  obtain rfl := List.singleton_inj.mp (List.append_inj' heq rfl).2
  exact (List.suffix_or_suffix_of_suffix hx hx').elim h₁ h₂

theorem endsIn_addExt {q : Path} (hq : q ≠ []) (e : String) : EndsIn e.data (addExt q e) := by
  obtain ⟨l, x, rfl⟩ := (List.eq_nil_or_concat q).resolve_left hq
  exact ⟨l, x ++ e, by simp, by simp [List.suffix_append]⟩

/-- `addExt` of one extension tells its paths apart. -/
theorem addExt_inj {f f' : Path} {e : String} (h : addExt f e = addExt f' e) : f = f' := by
  rcases List.eq_nil_or_concat f with rfl | ⟨l, x, rfl⟩ <;>
    rcases List.eq_nil_or_concat f' with rfl | ⟨l', x', rfl⟩
  · rfl
  · simpa using (addExt_eq_nil.mp h.symm).symm
  · simpa using addExt_eq_nil.mp h
  · simp only [List.concat_eq_append, addExt_append] at h ⊢
    obtain ⟨rfl, hx⟩ := List.append_inj' h rfl
    have := congrArg String.data (List.singleton_inj.mp hx)
    simp only [String.data_append, List.append_cancel_right_eq] at this
    rw [String.ext this]

section Companions

variable {f g : Path}

theorem ne_gz (hf : WALNamed f) (hg : WALNamed g) : f ≠ addExt g ".gz" :=
  ne_of_endsIn hf (endsIn_addExt hg.ne_nil _) (by decide) (by decide)

theorem ne_tmp (hf : WALNamed f) (hg : WALNamed g) : f ≠ tmpOf g :=
  ne_of_endsIn hf (endsIn_addExt (by simpa using hg.ne_nil) _) (by decide) (by decide)

theorem gz_ne_tmp (hf : WALNamed f) (hg : WALNamed g) : addExt f ".gz" ≠ tmpOf g :=
  ne_of_endsIn (endsIn_addExt hf.ne_nil _) (endsIn_addExt (by simpa using hg.ne_nil) _)
    (by decide) (by decide)

end Companions

/-- `filepath.Match` of a pattern with no `*` matches only the pattern itself. -/
theorem starMatch_plain : ∀ {p s : List Char}, '*' ∉ p → FS.starMatch p s = true → s = p
  | [], s, _, h => by simpa [FS.starMatch] using h
  | c :: p, [], hp, h => by
    simp [FS.starMatch, show c ≠ '*' from fun h' => hp (h' ▸ List.mem_cons_self _ _)] at h
  | c :: p, d :: s, hp, h => by
    simp only [FS.starMatch, show c ≠ '*' from fun h' => hp (h' ▸ List.mem_cons_self _ _),
      Bool.and_eq_true, decide_eq_true_eq, imp_false, not_false_eq_true] at h
    rw [h.1, starMatch_plain (fun h' => hp (List.mem_cons_of_mem _ h')) h.2]

/-- **Every name the glob of `compress` finds is a WAL file's.** -/
theorem walNamed_of_mem_glob {fs : FS} {dir q : Path} (h : q ∈ fs.glob dir compressPattern) :
    WALNamed q := by
  rw [compressPattern, FS.glob] at h
  split at h
  · obtain ⟨x, -, h⟩ := List.mem_flatMap.mp h
    rw [FS.glob] at h
    split at h
    · obtain ⟨y, hy, h⟩ := List.mem_flatMap.mp h
      rw [FS.glob, List.mem_singleton] at h
      have hy := (List.mem_filter.mp ((List.perm_insertionSort _ _).subset hy)).2
      simp only [String.toList, FS.starMatch, List.any_eq_true, List.mem_range] at hy
      obtain ⟨k, -, hk⟩ := hy
      have hs := List.drop_suffix k y.data
      rw [starMatch_plain (by decide) hk] at hs
      exact ⟨dir ++ [x], y, h, hs⟩
    · cases h
  · cases h

/-! ## 2. The invariant

Against the tree `fs₀` the run started from: every WAL file of `fs₀` is kept, as it was or
compressed into its `.gz` and removed, and only WAL files and their companions changed.  Each
call of `compress` changes the tree in one of three ways, each with its lemma: it writes the
temporary file of a WAL file (`CompressInv.tmp`), renames that over the WAL file's `.gz` while
the WAL file is there (`CompressInv.rename`), or removes a WAL file whose `.gz` holds its data
(`CompressInv.remove`). -/

/-- The file `f`, which held `n`, is kept in `fs`: as it was, or removed once its `.gz` holds
its data compressed. -/
def Kept (fs : FS) (f : Path) (n : Node) : Prop :=
  fs.get f = some n ∨
    fs.get f = none ∧ ∃ d t t', n = .file d t ∧ fs.get (addExt f ".gz") = some (.file (.gzip d) t')

/-- A path `compress` may change: a WAL file, its `.gz`, or the temporary file of that. -/
def Companion (q : Path) : Prop := ∃ f, WALNamed f ∧ (q = f ∨ q = addExt f ".gz" ∨ q = tmpOf f)

/-- The file `f` holds data `d`, and its `.gz` holds `d` compressed. -/
def Compressed (fs : FS) (f : Path) : Prop :=
  ∃ d t t', fs.get f = some (.file d t) ∧ fs.get (addExt f ".gz") = some (.file (.gzip d) t')

/-- **The invariant of `compress`**, against the tree `fs₀` before the run. -/
structure CompressInv (fs₀ fs : FS) : Prop where
  /-- Every WAL file of `fs₀` is kept. -/
  kept : ∀ f n, WALNamed f → fs₀.get f = some n → Kept fs f n
  /-- Only WAL files and their companions changed. -/
  frame : ∀ q, fs.get q ≠ fs₀.get q → Companion q

namespace CompressInv

variable {fs₀ fs fs' : FS} {g : Path}

theorem refl (fs₀ : FS) : CompressInv fs₀ fs₀ :=
  ⟨fun _ _ _ h => .inl h, fun _ h => absurd rfl h⟩

/-- A change of the temporary file of a WAL file. -/
theorem tmp (hg : WALNamed g) (h : CompressInv fs₀ fs)
    (hfs : ∀ q, q ≠ tmpOf g → fs'.get q = fs.get q) : CompressInv fs₀ fs' where
  kept f n hf h₀ := by
    rw [Kept, hfs f (ne_tmp hf hg), hfs _ (gz_ne_tmp hf hg)]
    exact h.kept f n hf h₀
  frame q hq := by
    by_cases hq' : q = tmpOf g
    · exact ⟨g, hg, .inr (.inr hq')⟩
    · exact h.frame q (hfs q hq' ▸ hq)

/-- The rename of the temporary file over the `.gz` of a WAL file that is there. -/
theorem rename (hg : WALNamed g) (h : CompressInv fs₀ fs) (hpres : fs.get g ≠ none)
    (hfs : ∀ q, q ≠ tmpOf g → q ≠ addExt g ".gz" → fs'.get q = fs.get q) :
    CompressInv fs₀ fs' where
  kept f n hf h₀ := by
    have hkept := h.kept f n hf h₀
    have hf' := hfs f (ne_tmp hf hg) (ne_gz hf hg)
    by_cases hfg : f = g
    · subst hfg
      exact .inl (hf'.trans (hkept.resolve_right fun h => hpres h.1))
    · rw [Kept, hf', hfs _ (gz_ne_tmp hf hg) fun h => hfg (addExt_inj h)]
      exact hkept
  frame q hq := by
    by_cases h₁ : q = tmpOf g
    · exact ⟨g, hg, .inr (.inr h₁)⟩
    by_cases h₂ : q = addExt g ".gz"
    · exact ⟨g, hg, .inr (.inl h₂)⟩
    exact h.frame q (hfs q h₁ h₂ ▸ hq)

/-- The removal of a WAL file whose `.gz` holds its data. -/
theorem remove (hg : WALNamed g) (h : CompressInv fs₀ fs) (hc : Compressed fs g)
    (hfs : ∀ q, q ≠ g → fs'.get q = fs.get q) (hgone : fs'.get g = none) :
    CompressInv fs₀ fs' where
  kept f n hf h₀ := by
    have hkept := h.kept f n hf h₀
    have hgz : fs'.get (addExt f ".gz") = fs.get (addExt f ".gz") := hfs _ (ne_gz hg hf).symm
    by_cases hfg : f = g
    · subst hfg
      obtain ⟨d, t, t', hd, hgzd⟩ := hc
      have hn : n = .file d t := by
        rcases hkept with h | ⟨h, -⟩ <;> rw [hd] at h
        · exact (Option.some.inj h).symm
        · cases h
      exact .inr ⟨hgone, d, t, t', hn, hgz ▸ hgzd⟩
    · rw [Kept, hfs f hfg, hgz]
      exact hkept
  frame q hq := by
    by_cases h₁ : q = g
    · exact ⟨g, hg, .inl h₁⟩
    · exact h.frame q (hfs q h₁ ▸ hq)

end CompressInv

/-! ## 3. Every run of `compress` -/

section Programs

variable {rd : Adapter} {E : World → World → Prop} (hE : ∀ w w', E w w' → w'.fs = w.fs)
  {fs₀ : FS}
include hE

theorem CompressInv.stable_and (X : FS → Prop) :
    Stable (Sem.faulty rd E) fun w => CompressInv fs₀ w.fs ∧ X w.fs := fun w w' h hw => by
  simpa only [hE w w' h] using hw

theorem CompressInv.stable : Stable (Sem.faulty rd E) fun w => CompressInv fs₀ w.fs :=
  fun w w' h hw => by simpa only [hE w w' h] using hw

/-- A `check` of a call that changes at most the temporary file of `g` and, when it succeeds,
takes the tree from `X` to `Y`. -/
theorem check_tmp {α : Type} {g : Path} (hg : WALNamed g) {c : Call (Except FsError Unit)}
    {k : Prog (Except Error α)} {Q : Except Error α → World → Prop} {X Y : FS → Prop}
    (hc : ∀ w u w', (Sem.faulty rd E).step c w u w' → ∀ q, q ≠ tmpOf g → w'.fs.get q = w.fs.get q)
    (hXY : ∀ w w', X w.fs → (Sem.faulty rd E).step c w (.ok ()) w' → Y w'.fs)
    (he : ∀ e w, CompressInv fs₀ w.fs → Q (.error (.fs e)) w)
    (hk : Triple (Sem.faulty rd E) (fun w => CompressInv fs₀ w.fs)
      (fun w => CompressInv fs₀ w.fs ∧ Y w.fs) k Q) :
    Triple (Sem.faulty rd E) (fun w => CompressInv fs₀ w.fs)
      (fun w => CompressInv fs₀ w.fs ∧ X w.fs) (Prog.check c k) Q :=
  Triple.check (Q := fun u w => CompressInv fs₀ w.fs ∧ (u = .ok () → Y w.fs))
    (Triple.call_stable (CompressInv.stable_and hE X) (fun _ h => h.1) fun w u w' hw hs =>
      ⟨hw.1.tmp hg (hc w u w' hs), fun hu => hXY w w' hw.2 (hu ▸ hs)⟩)
    (fun e w h => he e w h.1) (hk.conseq (fun _ hw => ⟨hw.1, hw.2 rfl⟩) fun _ _ h => h)

/-- **`compressFile` of a WAL file keeps it**, on every run; when it returns `nil`, the file is
there and its `.gz` holds its data, compressed. -/
theorem compressFile_keeps {g : Path} (hg : WALNamed g) :
    Triple (Sem.faulty rd E) (fun w => CompressInv fs₀ w.fs) (fun w => CompressInv fs₀ w.fs)
      (compressFile (.dst g) (addExt g ".gz"))
      fun r w => CompressInv fs₀ w.fs ∧ (r = .ok () → Compressed w.fs g) := by
  have hread : ∀ {c : Call (Except FsError Unit)}, c.isRead = true →
      ∀ w u w', (Sem.faulty rd E).step c w u w' → ∀ q, q ≠ tmpOf g → w'.fs.get q = w.fs.get q :=
    fun hc _ _ _ hs _ _ => by rw [Faulty.step_read hc hs]
  unfold compressFile
  refine Triple.bind (Q := fun r w => CompressInv fs₀ w.fs ∧
      ∀ d, r = .ok d → ∃ t, w.fs.get g = some (.file d t))
    (Triple.call_stable (CompressInv.stable hE) (fun _ h => h) fun w r w' hw hs => ?_) fun r => ?_
  · obtain rfl := Faulty.step_read (by rfl) hs
    refine ⟨hw, fun d hd => ?_⟩
    subst hd
    rcases hs with h | ⟨h, -⟩
    · have h := (Prod.mk.inj h).1
      simp only [Call.run, FS.readFile] at h
      split at h <;> cases h
      exact ⟨_, ‹_›⟩
    · cases h
  rcases r with e | d
  · exact Triple.pure fun _ h => ⟨h.1, fun h => by cases h⟩
  dsimp only
  -- the WAL file stays as it was while its temporary file is created and then filled
  let present : FS → Prop := fun fs => ∃ t, fs.get g = some (.file d t)
  let held : FS → Prop := fun fs => present fs ∧ ∃ t, fs.get (tmpOf g) = some (.file (.gzip d) t)
  have hpres : ∀ w w' : World, present w.fs → (∀ q, q ≠ tmpOf g → w'.fs.get q = w.fs.get q) →
      present w'.fs := fun w w' ⟨t, ht⟩ hfs => ⟨t, (hfs g (ne_tmp hg hg)).trans ht⟩
  have herr : ∀ (e : FsError) (w : World), CompressInv fs₀ w.fs →
      CompressInv fs₀ w.fs ∧ (Except.error (Error.fs e) = .ok () → Compressed w.fs g) :=
    fun _ _ h => ⟨h, fun h => by cases h⟩
  refine (check_tmp hE hg (c := .create (tmpOf g)) (X := present)
    (Y := fun fs => present fs ∧ ∃ d' t, fs.get (tmpOf g) = some (.file d' t))
    (fun _ _ _ hs _ hq => Faulty.get_step_create hs hq) (fun w w' hX hs => ?_) herr ?_).conseq
    (fun w hw => ⟨hw.1, hw.2 d rfl⟩) fun _ _ h => h
  · refine ⟨hpres w w' hX fun _ hq => Faulty.get_step_create hs hq, ?_⟩
    rcases Faulty.step_create hs with ⟨hne, -⟩ | ⟨fs, hm, -, rfl⟩
    · exact absurd rfl hne
    · exact ⟨_, _, by rw [(FS.writeFile_eq_ok hm).2.2.2, if_pos rfl]⟩
  refine check_tmp hE hg (c := .writeAll (tmpOf g) (.gzip d))
    (X := fun fs => present fs ∧ ∃ d' t, fs.get (tmpOf g) = some (.file d' t)) (Y := held)
    (fun _ _ _ hs _ hq => Faulty.get_step_writeAll hs hq) (fun w w' ⟨hX, d', t, hd'⟩ hs => ?_) herr ?_
  · refine ⟨hpres w w' hX fun _ hq => Faulty.get_step_writeAll hs hq, ?_⟩
    rw [Faulty.step_writeAll_ok hs]
    exact ⟨w.clock, by simp [hd', FS.touchNode]⟩
  refine check_tmp hE hg (c := .close (tmpOf g)) (X := held) (Y := held) (hread rfl)
    (fun w w' h hs => Faulty.step_read (by rfl) hs ▸ h) herr <|
    check_tmp hE hg (c := .fsync (tmpOf g)) (X := held) (Y := held) (hread rfl)
    (fun w w' h hs => Faulty.step_read (by rfl) hs ▸ h) herr <|
    check_tmp hE hg (c := .close (tmpOf g)) (X := held) (Y := held) (hread rfl)
    (fun w w' h hs => Faulty.step_read (by rfl) hs ▸ h) herr ?_
  -- the rename puts the compressed data in place; the WAL file is still there
  refine Triple.check (Q := fun u w => CompressInv fs₀ w.fs ∧ (u = .ok () → Compressed w.fs g))
    (Triple.call_stable (CompressInv.stable_and hE held) (fun _ h => h.1) fun w u w' hw hs => ?_)
    (fun _ _ h => ⟨h.1, fun h => by cases h⟩) (Triple.pure fun _ h => ⟨h.1, fun _ => h.2 rfl⟩)
  obtain ⟨⟨t, hgd⟩, t₁, htmp⟩ := hw.2
  refine ⟨hw.1.rename hg (by simp [hgd]) fun q h₁ h₂ => Faulty.get_step_rename hs h₁ h₂,
    fun hu => ?_⟩
  subst hu
  rcases Faulty.step_rename hs with ⟨hne, -⟩ | ⟨fs, hm, -, rfl⟩
  · exact absurd rfl hne
  obtain ⟨d', t', hd', hget⟩ := FS.rename_eq_ok hm
  cases htmp.symm.trans hd'
  have hget : ∀ q, fs.get q = if q = addExt g ".gz" then some (.file (.gzip d) t₁)
      else if q = tmpOf g then none else w.fs.get q := hget
  refine ⟨d, t, t₁, ?_, ?_⟩
  · rw [hget, if_neg (ne_gz hg hg), if_neg (ne_tmp hg hg)]
    exact hgd
  · rw [hget, if_pos rfl]

/-- The loop of `compress` over any WAL files keeps every WAL file of the tree. -/
theorem compressLoop_keeps : ∀ L : List Path, (∀ g ∈ L, WALNamed g) →
    Triple (Sem.faulty rd E) (fun w => CompressInv fs₀ w.fs) (fun w => CompressInv fs₀ w.fs)
      (compressLoop L) fun _ w => CompressInv fs₀ w.fs
  | [], _ => Triple.pure fun _ h => h
  | g :: L, hL => by
    have hg := hL g (.head _)
    unfold compressLoop
    refine Triple.bind (Triple.keeps (c := .done) (fun _ _ _ hw hs => Faulty.step_read (by rfl) hs ▸ hw)
      (CompressInv.stable hE) fun _ h => h) fun b => ?_
    cases b
    · refine Triple.bind (compressFile_keeps hE hg) fun r => ?_
      rcases r with e | ⟨⟩
      · exact Triple.pure fun _ h => h.1
      refine Triple.check (Q := fun _ w => CompressInv fs₀ w.fs)
        (Triple.call_stable (CompressInv.stable_and hE
          (fun fs => Except.ok () = Except.ok () → Compressed fs g)) (fun _ h => h.1)
          fun w u w' hw hs => ?_)
        (fun _ _ h => h) (compressLoop_keeps L fun g' h => hL g' (.tail _ h))
      rcases Faulty.step_remove hs with ⟨-, rfl⟩ | ⟨fs, hm, -, rfl⟩
      · exact hw.1
      obtain ⟨-, -, hget⟩ := FS.remove_eq_ok hm
      exact hw.1.remove hg (hw.2 rfl) (fun q hq => by rw [hget, if_neg fun h => hq h.1])
        (by rw [hget, if_pos ⟨rfl, hg.ne_nil⟩])
    · exact Triple.pure fun _ h => h

/-- **`compress` keeps every WAL file of the tree**, on every run, complete or cut short. -/
theorem compress_keeps (g : String) :
    Triple (Sem.faulty rd E) (fun w => CompressInv fs₀ w.fs) (fun w => CompressInv fs₀ w.fs)
      (compress g) fun _ w => CompressInv fs₀ w.fs :=
  compress_triple_of (CompressInv.stable hE) fun _ hps =>
    compressLoop_keeps hE _ fun q hq => walNamed_of_mem_glob (hps q hq).choose_spec

/-- **Compression loses no WAL data.**  On every run of `compress(generation)` from any tree,
complete or cut short, with any of its calls failing: every WAL file of the tree is still there
as it was, or it is gone and its `.gz` holds its data, compressed; and every path that changed
is a WAL file, its `.gz`, or the temporary file of that. -/
theorem compress_keeps_wal {g : String} {w w' : World} {r : Option (Except Error Unit)}
    (h : Exec (Sem.faulty rd E) (compress g) w r w') : CompressInv w.fs w'.fs := by
  have := compress_keeps hE g (CompressInv.refl w.fs) h
  cases r <;> exact this

end Programs

/-- Two WAL files one directory below the WAL directory of `g`, where the glob of `compress`
finds them. -/
def subdirWAL : World :=
  ⟨⟨[(walDir "g" ++ ["x", "0.wal"], .file (.raw [1]) 0),
      (walDir "g" ++ ["x", "1.wal"], .file (.raw [2]) 0), (walDir "g" ++ ["x"], .dir 4096 0),
      (walDir "g", .dir 4096 0), (generationDir "g", .dir 4096 0), (["generations"], .dir 4096 0)], by decide, by decide⟩,
    Source.empty, Pos.zero, 0, false⟩

/-- `compress` gzips the first of the two files and removes it. -/
theorem compress_keeps_wal_subdir :
    ∃ w', Exec (Sem.faulty Source.shadowWALReader fun _ _ => False) (compress "g") subdirWAL
      (some (.ok ())) w' ∧ CompressInv subdirWAL.fs w'.fs ∧
      w'.fs.get (walDir "g" ++ ["x", "0.wal"]) = none :=
  have h := Returns.faulty (Prog.run_sound 60 (compress "g") subdirWAL (.ok ()) _ rfl)
  ⟨_, h, compress_keeps_wal (fun _ _ h => h.elim) h, by decide⟩

end Litestream
