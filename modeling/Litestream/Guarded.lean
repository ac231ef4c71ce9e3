import Litestream.Start
/-!
# Rely and guarantee: one goroutine's program against the other's calls

`StartStep.preserve` carries a property over every run of `Start` when each call keeps it
whatever its arguments are.  Some properties are kept only because of what the goroutine read
before: `syncWAL` writes the bytes its reader gave it, at the offset the reader stood at, into
the WAL file of the reader's index, and that keeps every WAL file within the shadow WAL only
because the reader read the shadow.  What a goroutine knows between two calls must then
survive whatever the other goroutine, and the source, do meanwhile.

`Guarded S I G P p Q` is a program logic for that, in the rely-guarantee style: `S.env` is the
*rely*, what may happen between two calls of `p`; `G` is the *guarantee*, what each call of
`p` may do, from a world of the global invariant `I`; `P` and `Q` are the assertions before
and after `p`, and every assertion that stands between two calls is kept by the rely.

* `Guarded.step`: a small step of a guarded program is a step of the guarantee, or leaves the
  world alone, and leaves a guarded program behind;
* `Guarded.of_calls`, `Guarded.check`, `Guarded.forRange`: the rules the methods' proofs use;
* `StartStep.guarded`: when each goroutine's guarantee is within the other's rely and keeps
  `I`, and the source's writes and a restart keep `I` too, `I` holds over every run of
  `Start`.
-/

namespace Litestream

/-- **A program guarded against interference.**  From a world of `P`, each call `p` makes,
answered as `S` allows from a world of `I`, is a step of `G` and leads to the assertion that
follows it; `p` ends in `Q`.  The assertions between two calls (after a `bind`, the invariant
of a loop) are kept by `S.env`. -/
inductive Guarded (S : Sem) (I : World → Prop) (G : World → World → Prop) :
    {α : Type} → (World → Prop) → Prog α → (α → World → Prop) → Prop
  | pure {α : Type} {P : World → Prop} {a : α} {Q : α → World → Prop} :
      (∀ w, P w → Q a w) → Guarded S I G P (.pure a) Q
  | call {α : Type} {P : World → Prop} {c : Call α} {Q : α → World → Prop} :
      (∀ w b w', I w → P w → S.step c w b w' → G w w' ∧ Q b w') → Guarded S I G P (.call c) Q
  | bind {α β : Type} {P : World → Prop} {p : Prog β} {f : β → Prog α}
      {Q' : β → World → Prop} {Q : α → World → Prop} :
      Guarded S I G P p Q' → (∀ b, Stable S (Q' b)) → (∀ b, Guarded S I G (Q' b) (f b) Q) →
      Guarded S I G P (.bind p f) Q
  | loop {α σ : Type} {P : World → Prop} {body : σ → Prog (σ ⊕ α)} {s : σ}
      {J : σ → World → Prop} {Q : α → World → Prop} :
      (∀ w, P w → J s w) → (∀ s, Stable S (J s)) →
      (∀ s, Guarded S I G (J s) (body s) fun r w => match r with
        | .inl s' => J s' w
        | .inr a => Q a w) →
      Guarded S I G P (.loop body s) Q

namespace Guarded

variable {S : Sem} {I : World → Prop} {G : World → World → Prop} {α : Type}

theorem conseq {P P' : World → Prop} {p : Prog α} {Q Q' : α → World → Prop}
    (h : Guarded S I G P p Q) (hP : ∀ w, P' w → P w) (hQ : ∀ a w, Q a w → Q' a w) :
    Guarded S I G P' p Q' := by
  induction h generalizing P' with
  | pure h => exact .pure fun w hw => hQ _ w (h w (hP w hw))
  | call h =>
    exact .call fun w b w' hI hw hs =>
      let ⟨hG, hb⟩ := h w b w' hI (hP w hw) hs
      ⟨hG, hQ b w' hb⟩
  | bind _ hs _ ih₁ ih₂ => exact .bind (ih₁ hP fun _ _ h => h) hs fun b => ih₂ b (fun _ h => h) hQ
  | loop hJ hs _ ih =>
    refine .loop (fun w hw => hJ w (hP w hw)) hs fun s => ih s (fun _ h => h) fun r w h => ?_
    cases r
    · exact h
    · exact hQ _ w h

/-- From no world, every program is guarded. -/
theorem of_false {Q : α → World → Prop} (p : Prog α) : Guarded S I G (fun _ => False) p Q := by
  induction p with
  | pure a => exact .pure fun _ h => h.elim
  | call c => exact .call fun _ _ _ _ h => h.elim
  | bind p f ihp ihf => exact .bind (ihp (Q := fun _ _ => False)) (fun _ _ _ _ h => h) fun b => ihf b
  | loop body s ih =>
    exact .loop (J := fun _ _ => False) (fun _ h => h) (fun _ _ _ _ h => h) fun s => ih s

/-- A fact every world of the precondition gives may be assumed. -/
theorem intro {φ : Prop} {P : World → Prop} {p : Prog α} {Q : α → World → Prop}
    (hφ : ∀ w, P w → φ) (h : φ → Guarded S I G P p Q) : Guarded S I G P p Q := by
  by_cases hc : φ
  · exact h hc
  · exact (of_false p).conseq (fun w hw => hc (hφ w hw)) fun _ _ h => h

/-- `check`: the call, then `k` on success. -/
theorem check {P : World → Prop} {c : Call (Except FsError Unit)} {k : Prog (Except Error α)}
    {Q' : Except FsError Unit → World → Prop} {Q : Except Error α → World → Prop}
    (hc : Guarded S I G P (.call c) Q') (hs : ∀ r, Stable S (Q' r))
    (he : ∀ e w, Q' (.error e) w → Q (.error (.fs e)) w) (hk : Guarded S I G (Q' (.ok ())) k Q) :
    Guarded S I G P (Prog.check c k) Q :=
  .bind hc hs fun
    | .error e => .pure (he e)
    | .ok () => hk

/-- `forRange`, by an assertion `J` of the elements still to visit and the accumulator. -/
theorem forRange {γ δ : Type} {body : δ → γ → Prog (Except Error δ)}
    {J : List γ → δ → World → Prop} {Q : Except Error δ → World → Prop}
    (hs : ∀ xs acc, Stable S (J xs acc)) (hQ' : ∀ e, Stable S (Q (.error e)))
    (hb : ∀ x xs acc, Guarded S I G (J (x :: xs) acc) (body acc x) fun r w => match r with
      | .ok acc' => J xs acc' w
      | .error e => Q (.error e) w)
    (hQ : ∀ acc w, J [] acc w → Q (.ok acc) w) :
    ∀ xs acc, Guarded S I G (J xs acc) (Prog.forRange body xs acc) Q
  | [], acc => .pure (hQ acc)
  | x :: xs, acc => .bind (hb x xs acc) (fun r => by cases r <;> first | exact hQ' _ | exact hs _ _)
      fun
      | .error _ => .pure fun _ h => h
      | .ok acc' => forRange hs hQ' hb hQ xs acc'

/-- **A program whose every call keeps a stable `P` and is a step of `G`**, whatever it answers. -/
theorem of_calls {P : World → Prop} (hP : Stable S P) {p : Prog α}
    (hc : Prog.Calls (fun c => ∀ w b w', I w → P w → S.step c w b w' → G w w' ∧ P w') p) :
    Guarded S I G P p fun _ => P := by
  induction hc with
  | pure => exact .pure fun _ h => h
  | call h => exact .call h
  | bind _ _ ih₁ ih₂ => exact .bind ih₁ (fun _ => hP) ih₂
  | loop _ ih =>
    exact .loop (fun _ h => h) (fun _ => hP) fun s =>
      (ih s).conseq (fun _ h => h) fun r _ h => by cases r <;> exact h

/-- **A small step of a guarded program**: a call is a step of `G` from a world of `I` and
leaves the program that follows it guarded from the call's assertion; a silent step leaves the
world alone.  Every assertion it leads to is kept by the rely. -/
theorem step {s s' : Prog α × World} (hs : Prog.Step S s s') {P : World → Prop}
    {Q : α → World → Prop} (h : Guarded S I G P s.1 Q) (hQ : ∀ a, Stable S (Q a)) (hI : I s.2)
    (hw : P s.2) :
    (s'.2 = s.2 ∨ G s.2 s'.2) ∧ ∃ P', Stable S P' ∧ P' s'.2 ∧ Guarded S I G P' s'.1 Q := by
  induction hs generalizing P with
  | call hs =>
    cases h with
    | call h =>
      obtain ⟨hG, hb⟩ := h _ _ _ hI hw hs
      exact ⟨.inr hG, _, hQ _, hb, .pure fun _ h => h⟩
  | bind _ ih =>
    cases h with
    | bind hp hs' hf =>
      obtain ⟨hG, P', hP', hw', hp'⟩ := ih hp hs' hI hw
      exact ⟨hG, P', hP', hw', .bind hp' hs' hf⟩
  | bindPure =>
    cases h with
    | bind hp hs' hf =>
      cases hp with
      | pure hp => exact ⟨.inl rfl, _, hs' _, hp _ hw, hf _⟩
  | loop =>
    cases h with
    | loop hJ hs' hb =>
      refine ⟨.inl rfl, _, hs' _, hJ _ hw, .bind (hb _) (fun r => ?_) fun r => ?_⟩
      · cases r
        · exact hs' _
        · exact hQ _
      · cases r
        · exact .loop (fun _ h => h) hs' hb
        · exact .pure fun _ h => h

end Guarded

/-- A goroutine of the replica: its calls answer as in `Sem.replica`, and between two of them
the world changes as `R` allows. -/
def Sem.rely (R : World → World → Prop) : Sem := ⟨Sem.replica.step, R⟩

/-- Where a goroutine stands: an assertion the rely keeps, true now, from which what is left of
its program is guarded. -/
def Guarded.At (R : World → World → Prop) (I : World → Prop) (G : World → World → Prop)
    (p : Prog Unit) (w : World) : Prop :=
  ∃ P, Stable (Sem.rely R) P ∧ P w ∧ Guarded (Sem.rely R) I G P p fun _ _ => True

theorem Guarded.At.step {R : World → World → Prop} {I : World → Prop}
    {G : World → World → Prop} {p p' : Prog Unit} {w w' : World} (h : Guarded.At R I G p w)
    (hs : Prog.Step Sem.replica (p, w) (p', w')) (hI : I w) :
    (w' = w ∨ G w w') ∧ Guarded.At R I G p' w' :=
  let ⟨_, _, hw, hp⟩ := h
  Guarded.step (@Prog.Step.mono Sem.replica (Sem.rely R) (fun h => h) _ _ _ hs) hp
    (fun _ _ _ _ h => h) hI hw

theorem Guarded.At.rely {R : World → World → Prop} {I : World → Prop}
    {G : World → World → Prop} {p : Prog Unit} {w w' : World} (h : Guarded.At R I G p w)
    (hR : R w w') : Guarded.At R I G p w' :=
  let ⟨P, hP, hw, hp⟩ := h
  ⟨P, hP, hP hR hw, hp⟩

variable {r : FileReplica} {isGen : GenerationName}

section Start

variable {I Pm Pr : World → Prop} {Rm Rr Gm Gr : World → World → Prop}
  (hm : Guarded (Sem.rely Rm) I Gm Pm monitorLoop fun _ _ => True)
  (hr : Guarded (Sem.rely Rr) I Gr Pr (retainerLoop r isGen) fun _ _ => True)
  (hPm : Stable (Sem.rely Rm) Pm) (hPr : Stable (Sem.rely Rr) Pr)
  (hGm : ∀ w w', I w → Gm w w' → I w' ∧ Rr w w')
  (hGr : ∀ w w', I w → Gr w w' → I w' ∧ Rm w w')
  (hgrow : ∀ w w', I w → World.Grows w w' → I w' ∧ Rm w w' ∧ Rr w w')
  (hcrash : ∀ w, I w → I { w with pos := Pos.zero } ∧ Pm { w with pos := Pos.zero } ∧
    Pr { w with pos := Pos.zero })
  {w₀ : World} (h₀ : I w₀ ∧ Pm w₀ ∧ Pr w₀)

/-- Where both goroutines stand: `I` holds and each is guarded from an assertion of its own. -/
def StartAt (I : World → Prop) (Rm Rr Gm Gr : World → World → Prop)
    (s : Prog Unit × Prog Unit × World) : Prop :=
  I s.2.2 ∧ Guarded.At Rm I Gm s.1 s.2.2 ∧ Guarded.At Rr I Gr s.2.1 s.2.2

include hm hr hPm hPr hGm hGr hgrow hcrash in
/-- **One step of `Start` keeps where both goroutines stand**: the source's growth, a restart, a
step of either guarantee, or a step that leaves the world alone. -/
theorem StartAt.step {s s' : Prog Unit × Prog Unit × World} (hs : StartAt I Rm Rr Gm Gr s)
    (hst : StartStep r isGen s s') : StartAt I Rm Rr Gm Gr s' := by
  obtain ⟨hI, hM, hR⟩ := hs
  cases hst with
  | grow hg =>
    obtain ⟨hI', hm', hr'⟩ := hgrow _ _ hI hg
    exact ⟨hI', hM.rely hm', hR.rely hr'⟩
  | step hi =>
    cases hi with
    | left hp =>
      obtain ⟨hG, hM'⟩ := hM.step hp hI
      rcases hG with rfl | hG
      · exact ⟨hI, hM', hR⟩
      · obtain ⟨hI', hr'⟩ := hGm _ _ hI hG
        exact ⟨hI', hM', hR.rely hr'⟩
    | right hq =>
      obtain ⟨hG, hR'⟩ := hR.step hq hI
      rcases hG with rfl | hG
      · exact ⟨hI, hM, hR'⟩
      · obtain ⟨hI', hm'⟩ := hGr _ _ hI hG
        exact ⟨hI', hM.rely hm', hR'⟩
  | crash =>
    obtain ⟨hI', hPm', hPr'⟩ := hcrash _ hI
    exact ⟨hI', ⟨_, hPm, hPm', hm⟩, ⟨_, hPr, hPr', hr⟩⟩

include hm hr hPm hPr hGm hGr hgrow hcrash h₀ in
/-- Both goroutines stand guarded in every world a run of `Start` reaches. -/
theorem StartAt.reach {s : Prog Unit × Prog Unit × World}
    (h : Relation.ReflTransGen (StartStep r isGen) (monitorLoop, retainerLoop r isGen, w₀) s) :
    StartAt I Rm Rr Gm Gr s := by
  induction h with
  | refl => exact ⟨h₀.1, ⟨_, hPm, h₀.2.1, hm⟩, ⟨_, hPr, h₀.2.2, hr⟩⟩
  | tail _ hst ih => exact ih.step hm hr hPm hPr hGm hGr hgrow hcrash hst

include hm hr hPm hPr hGm hGr hgrow hcrash h₀ in
/-- **Rely and guarantee over every run of `Start`.**  The monitor's loop is guarded against
the rely `Rm` with the guarantee `Gm`, the retainer's against `Rr` with `Gr`; each guarantee,
from a world of `I`, keeps `I` and is within the other's rely, and so are the source's writes;
a restart keeps `I` and starts both loops from their preconditions.  Then `I` holds in every
world a run of `Start` reaches. -/
theorem StartStep.guarded {s : Prog Unit × Prog Unit × World}
    (h : Relation.ReflTransGen (StartStep r isGen) (monitorLoop, retainerLoop r isGen, w₀) s) :
    I s.2.2 :=
  (StartAt.reach hm hr hPm hPr hGm hGr hgrow hcrash h₀ h).1

end Start

end Litestream
