import Litestream.World
import Mathlib.Logic.Relation
/-!
# Programs, runs and triples

The methods of `FileReplica` are written in `Litestream.Replica` as values of `Prog`: their
calls on the world in the order and under the branches of the Go code, with Go's explicit
`if err != nil` tests as matches on `Except`.  `bind` and `loop` are constructors, so a run of
`bind p f` splits into a run of `p` and one of `f` by case analysis, and the `for { ... }`
loops of the code are `loop`s whose body says whether to go round again.

A run (`Exec`) is taken under a semantics `Sem`: how the world answers each call (exactly, or
with the failures of `Call.Fault`) and what other activity may happen between two calls (the
source writing, the clock, another goroutine).  A run is either complete, with a result, or
cut before some call: the process died there, or the run is observed part way.

`Triple I P p Q` is the one judgement the later modules prove about programs: from a world
in `P`, a complete run of `p` ends in `Q` of its result, and a run cut short ends in `I`.
Its rules below follow the constructors, so a proof about a method follows the method.
`Prog.Halts` says that a program run alone returns from every world; a loop halts when a
measure of the world goes down at each turn.  `Prog.Calls C p` says that every call `p` can
make satisfies `C`, and `Prog.LoopFree C p` that besides `p` has no loop, so that it halts.
-/

namespace Litestream

/-- A program of the replica, returning an `α`. -/
inductive Prog : Type → Type 1 where
  | pure {α : Type} (a : α) : Prog α
  | call {α : Type} (c : Call α) : Prog α
  | bind {α β : Type} (p : Prog β) (f : β → Prog α) : Prog α
  | loop {α σ : Type} (body : σ → Prog (σ ⊕ α)) (s : σ) : Prog α

instance : Monad Prog where
  pure := .pure
  bind := .bind

instance : MonadLift Call Prog := ⟨.call⟩

/-- `if err := c; err != nil { return err }`, then `k`. -/
def Prog.check {α : Type} (c : Call (Except FsError Unit)) (k : Prog (Except Error α)) :
    Prog (Except Error α) := do
  match ← c with
  | .error e => return .error (.fs e)
  | .ok () => k

/-- `for _, x := range xs { ... }`, with a body that updates `acc` or returns an error. -/
def Prog.forRange {γ δ : Type} (body : δ → γ → Prog (Except Error δ)) :
    List γ → δ → Prog (Except Error δ)
  | [], acc => return .ok acc
  | x :: xs, acc => do
    match ← body acc x with
    | .error e => return .error e
    | .ok acc => forRange body xs acc

/-- How the world answers the replica. -/
structure Sem where
  /-- What a call may answer, and the world it leaves. -/
  step : ∀ {β : Type}, Call β → World → β → World → Prop
  /-- What may happen between two calls. -/
  env : World → World → Prop

namespace Sem

/-- Every call answers as `Call.run` with the adapter `rd`. -/
def exact (rd : Adapter) (env : World → World → Prop) : Sem :=
  ⟨fun c w b w' => c.run rd w = (b, w'), env⟩

/-- Every call answers as `Call.run` with the adapter `rd`, or fails as `Call.Fault` allows. -/
def faulty (rd : Adapter) (env : World → World → Prop) : Sem :=
  ⟨fun c w b w' => c.run rd w = (b, w') ∨ c.Fault w b w', env⟩

end Sem

/-- **A run of a program.**  `Exec S p w (some a) w'`: from `w`, `p` returns `a` in `w'`;
`Exec S p w none w'`: the run was cut in `w'`, just before a call.  Before each call the
environment may take any number of steps. -/
inductive Exec (S : Sem) : {α : Type} → Prog α → World → Option α → World → Prop
  | pure {α : Type} {a : α} {w : World} : Exec S (.pure a) w (some a) w
  | call {α : Type} {c : Call α} {w w₁ : World} {a : α} {w₂ : World} :
      Relation.ReflTransGen S.env w w₁ → S.step c w₁ a w₂ → Exec S (.call c) w (some a) w₂
  | cut {α : Type} {c : Call α} {w : World} : Exec S (.call c) w none w
  | bind {α β : Type} {p : Prog β} {f : β → Prog α} {w : World} {b : β} {w₁ : World}
      {r : Option α} {w₂ : World} :
      Exec S p w (some b) w₁ → Exec S (f b) w₁ r w₂ → Exec S (.bind p f) w r w₂
  | bindCut {α β : Type} {p : Prog β} {f : β → Prog α} {w w₁ : World} :
      Exec S p w none w₁ → Exec S (.bind p f) w none w₁
  | loopNext {α σ : Type} {body : σ → Prog (σ ⊕ α)} {s s' : σ} {w w₁ : World} {r : Option α}
      {w₂ : World} :
      Exec S (body s) w (some (.inl s')) w₁ → Exec S (.loop body s') w₁ r w₂ →
        Exec S (.loop body s) w r w₂
  | loopDone {α σ : Type} {body : σ → Prog (σ ⊕ α)} {s : σ} {w : World} {a : α} {w₁ : World} :
      Exec S (body s) w (some (.inr a)) w₁ → Exec S (.loop body s) w (some a) w₁
  | loopCut {α σ : Type} {body : σ → Prog (σ ⊕ α)} {s : σ} {w w₁ : World} :
      Exec S (body s) w none w₁ → Exec S (.loop body s) w none w₁

/-! ## 1. Evaluation -/

/-- The run of `p` from `w` when every call answers as `Call.run`, with `n` steps of fuel;
`none` when the fuel runs out. -/
def Prog.run (rd : Adapter) : {α : Type} → Nat → Prog α → World → Option (α × World)
  | _, 0, _, _ => none
  | _, _ + 1, .pure a, w => some (a, w)
  | _, _ + 1, .call c, w => some (c.run rd w)
  | _, n + 1, .bind p f, w =>
    match Prog.run rd n p w with
    | some (b, w₁) => Prog.run rd n (f b) w₁
    | none => none
  | _, n + 1, .loop body s, w =>
    match Prog.run rd n (body s) w with
    | some (.inl s', w₁) => Prog.run rd n (.loop body s') w₁
    | some (.inr a, w₁) => some (a, w₁)
    | none => none

/-- The world a run of `p` with `n` steps of fuel ends in; `w` itself when the fuel runs out. -/
def Prog.after (rd : Adapter) {α : Type} (n : Nat) (p : Prog α) (w : World) : World :=
  match p.run rd n w with
  | some (_, w') => w'
  | none => w

/-- **Evaluation is a run**: what `Prog.run` computes is a complete run under the exact
semantics, whatever the environment may do. -/
theorem Prog.run_sound {rd : Adapter} {env : World → World → Prop} :
    ∀ {α : Type} (n : Nat) (p : Prog α) (w : World) (a : α) (w' : World),
      p.run rd n w = some (a, w') → Exec (Sem.exact rd env) p w (some a) w'
  | _, 0, _, _, _, _, h => by simp [Prog.run] at h
  | _, n + 1, .pure b, w, a, w', h => by
    simp only [Prog.run, Option.some.injEq, Prod.mk.injEq] at h
    obtain ⟨rfl, rfl⟩ := h
    exact .pure
  | _, n + 1, .call c, w, a, w', h => by
    simp only [Prog.run, Option.some.injEq] at h
    exact .call .refl h
  | _, n + 1, .bind p f, w, a, w', h => by
    simp only [Prog.run] at h
    split at h
    · exact .bind (run_sound n p w _ _ ‹_›) (run_sound n _ _ a w' h)
    · cases h
  | _, n + 1, .loop body s, w, a, w', h => by
    simp only [Prog.run] at h
    split at h
    · exact .loopNext (run_sound n _ w _ _ ‹_›) (run_sound n _ _ a w' h)
    · obtain ⟨rfl, rfl⟩ := Prod.mk.inj (Option.some.inj h)
      exact .loopDone (run_sound n _ w _ _ ‹_›)
    · cases h

/-- The run of `p` from `w` cut just before its call number `k`, when it makes that many, with
`n` steps of fuel: the result (`none` for a run cut short), the calls left, and the world the run
ends in; `none` when the fuel runs out.  A crash after `k` calls is such a run. -/
def Prog.runCut (rd : Adapter) : {α : Type} → Nat → Nat → Prog α → World →
    Option (Option α × Nat × World)
  | _, 0, _, _, _ => none
  | _, _ + 1, k, .pure a, w => some (some a, k, w)
  | _, _ + 1, 0, .call _, w => some (none, 0, w)
  | _, _ + 1, k + 1, .call c, w => some (some (c.run rd w).1, k, (c.run rd w).2)
  | _, n + 1, k, .bind p f, w =>
    match Prog.runCut rd n k p w with
    | some (some b, k', w₁) => Prog.runCut rd n k' (f b) w₁
    | some (none, k', w₁) => some (none, k', w₁)
    | none => none
  | _, n + 1, k, .loop body s, w =>
    match Prog.runCut rd n k (body s) w with
    | some (some (.inl s'), k', w₁) => Prog.runCut rd n k' (.loop body s') w₁
    | some (some (.inr a), k', w₁) => some (some a, k', w₁)
    | some (none, k', w₁) => some (none, k', w₁)
    | none => none

/-- **A cut evaluation is a run**: what `Prog.runCut` computes, complete or cut short, is a run
under the exact semantics. -/
theorem Prog.runCut_sound {rd : Adapter} {env : World → World → Prop} :
    ∀ {α : Type} (n k : Nat) (p : Prog α) (w : World) (r : Option α) (k' : Nat) (w' : World),
      p.runCut rd n k w = some (r, k', w') → Exec (Sem.exact rd env) p w r w'
  | _, 0, _, _, _, _, _, _, h => by simp [Prog.runCut] at h
  | _, n + 1, k, .pure b, w, r, k', w', h => by
    simp only [Prog.runCut, Option.some.injEq, Prod.mk.injEq] at h
    obtain ⟨rfl, -, rfl⟩ := h
    exact .pure
  | _, n + 1, 0, .call c, w, r, k', w', h => by
    simp only [Prog.runCut, Option.some.injEq, Prod.mk.injEq] at h
    obtain ⟨rfl, -, rfl⟩ := h
    exact .cut
  | _, n + 1, k + 1, .call c, w, r, k', w', h => by
    simp only [Prog.runCut, Option.some.injEq, Prod.mk.injEq] at h
    obtain ⟨rfl, -, rfl⟩ := h
    exact .call .refl rfl
  | _, n + 1, k, .bind p f, w, r, k', w', h => by
    simp only [Prog.runCut] at h
    split at h
    · exact .bind (runCut_sound n k p w _ _ _ ‹_›) (runCut_sound n _ _ _ r k' w' h)
    · obtain ⟨rfl, -, rfl⟩ := Prod.mk.inj_iff.mp (Option.some.inj h) |>.imp_right Prod.mk.inj_iff.mp
      exact .bindCut (runCut_sound n k p w _ _ _ ‹_›)
    · cases h
  | _, n + 1, k, .loop body s, w, r, k', w', h => by
    simp only [Prog.runCut] at h
    split at h
    · exact .loopNext (runCut_sound n k _ w _ _ _ ‹_›) (runCut_sound n _ _ _ r k' w' h)
    · obtain ⟨rfl, -, rfl⟩ := Prod.mk.inj_iff.mp (Option.some.inj h) |>.imp_right Prod.mk.inj_iff.mp
      exact .loopDone (runCut_sound n k _ w _ _ _ ‹_›)
    · obtain ⟨rfl, -, rfl⟩ := Prod.mk.inj_iff.mp (Option.some.inj h) |>.imp_right Prod.mk.inj_iff.mp
      exact .loopCut (runCut_sound n k _ w _ _ _ ‹_›)
    · cases h

/-- **A run under a semantics is a run under one that allows more**: more answers to a call,
more steps of the environment. -/
theorem Exec.mono {S S' : Sem}
    (hs : ∀ {β : Type} {c : Call β} {w : World} {b : β} {w' : World}, S.step c w b w' →
      S'.step c w b w')
    (he : ∀ w w', S.env w w' → S'.env w w') {α : Type} {p : Prog α} {w : World}
    {r : Option α} {w' : World} (h : Exec S p w r w') : Exec S' p w r w' := by
  induction h with
  | pure => exact .pure
  | call henv hstep => exact .call (henv.mono he) (hs hstep)
  | cut => exact .cut
  | bind _ _ ih₁ ih₂ => exact .bind ih₁ ih₂
  | bindCut _ ih => exact .bindCut ih
  | loopNext _ _ ih₁ ih₂ => exact .loopNext ih₁ ih₂
  | loopDone _ ih => exact .loopDone ih
  | loopCut _ ih => exact .loopCut ih

/-! ## 2. Triples -/

/-- **`Triple S I P p Q`**: from a world in `P`, a complete run of `p` returning `a` ends in
`Q a`, and a run cut short ends in `I`. -/
def Triple (S : Sem) (I P : World → Prop) {α : Type} (p : Prog α) (Q : α → World → Prop) :
    Prop :=
  ∀ ⦃w : World⦄ ⦃r : Option α⦄ ⦃w' : World⦄, P w → Exec S p w r w' →
    match r with
    | some a => Q a w'
    | none => I w'

/-- `P` is kept by everything the environment may do. -/
def Stable (S : Sem) (P : World → Prop) : Prop := ∀ ⦃w w'⦄, S.env w w' → P w → P w'

theorem Stable.rtg {S : Sem} {P : World → Prop} (hP : Stable S P) {w w' : World}
    (h : Relation.ReflTransGen S.env w w') (hw : P w) : P w' := by
  induction h with
  | refl => exact hw
  | tail _ hs ih => exact hP hs ih

namespace Triple

variable {S : Sem} {I P P' : World → Prop} {α β σ : Type}

theorem pure {a : α} {Q : α → World → Prop} (h : ∀ w, P w → Q a w) :
    Triple S I P (.pure a) Q := by
  intro w r w' hw hx
  cases hx
  exact h w hw

/-- **A call**, with the environment's steps before it spelled out. -/
theorem call {c : Call α} {Q : α → World → Prop} (hI : ∀ w, P w → I w)
    (h : ∀ w w₁ a w₂, P w → Relation.ReflTransGen S.env w w₁ → S.step c w₁ a w₂ → Q a w₂) :
    Triple S I P (.call c) Q := by
  intro w r w' hw hx
  cases hx with
  | call he hs => exact h _ _ _ _ hw he hs
  | cut => exact hI w hw

/-- **A call**, from a precondition the environment keeps. -/
theorem call_stable {c : Call α} {Q : α → World → Prop} (hP : Stable S P)
    (hI : ∀ w, P w → I w) (h : ∀ w a w', P w → S.step c w a w' → Q a w') :
    Triple S I P (.call c) Q :=
  call hI fun _ _ _ _ hw he hs => h _ _ _ (hP.rtg he hw) hs

theorem bind {p : Prog β} {f : β → Prog α} {Q : β → World → Prop} {R : α → World → Prop}
    (hp : Triple S I P p Q) (hf : ∀ b, Triple S I (Q b) (f b) R) :
    Triple S I P (.bind p f) R := by
  intro w r w' hw hx
  cases hx with
  | bind h₁ h₂ => exact hf _ (hp hw h₁) h₂
  | bindCut h₁ => exact hp hw h₁

theorem conseq {p : Prog α} {Q Q' : α → World → Prop} (h : Triple S I P p Q)
    (hP : ∀ w, P' w → P w) (hQ : ∀ a w, Q a w → Q' a w) : Triple S I P' p Q' := by
  intro w r w' hw hx
  have := h (hP w hw) hx
  cases r with
  | none => exact this
  | some a => exact hQ a w' this

/-- **A loop**, by an invariant `J` of its state.  A complete turn that goes round again
re-establishes `J`; one that stops establishes `Q`. -/
theorem loop {body : σ → Prog (σ ⊕ α)} {J : σ → World → Prop} {Q : α → World → Prop}
    (h : ∀ s, Triple S I (J s) (body s) fun r w => match r with
      | .inl s' => J s' w
      | .inr a => Q a w) (s : σ) :
    Triple S I (J s) (.loop body s) Q := by
  intro w r w' hw hx
  generalize hl : Prog.loop body s = l at hx
  induction hx generalizing s with
  | loopNext h₁ _ _ ih₂ =>
    cases hl
    exact ih₂ h _ (h _ hw h₁) rfl
  | loopDone h₁ => cases hl; exact h _ hw h₁
  | loopCut h₁ => cases hl; exact h _ hw h₁
  | _ => cases hl

/-- **`check`**: the call fails and its error is returned, or it succeeds and `k` runs. -/
theorem check {c : Call (Except FsError Unit)} {k : Prog (Except Error α)}
    {Q : Except FsError Unit → World → Prop} {R : Except Error α → World → Prop}
    (hc : Triple S I P (.call c) Q) (he : ∀ e w, Q (.error e) w → R (.error (.fs e)) w)
    (hk : Triple S I (Q (.ok ())) k R) : Triple S I P (Prog.check c k) R :=
  bind hc fun
    | .error e => pure (he e)
    | .ok () => hk

/-- **`forRange`**, by an invariant `J` of the elements still to visit and the accumulator. -/
theorem forRange {γ δ : Type} {body : δ → γ → Prog (Except Error δ)}
    {J : List γ → δ → World → Prop} {Q : Except Error δ → World → Prop}
    (hb : ∀ x xs acc, Triple S I (J (x :: xs) acc) (body acc x) fun r w => match r with
      | .ok acc' => J xs acc' w
      | .error e => Q (.error e) w)
    (hQ : ∀ acc w, J [] acc w → Q (.ok acc) w) :
    ∀ xs acc, Triple S I (J xs acc) (Prog.forRange body xs acc) Q
  | [], acc => pure (hQ acc)
  | x :: xs, acc => bind (hb x xs acc) fun
    | .error _ => pure fun _ h => h
    | .ok acc' => forRange hb hQ xs acc'

end Triple

/-! ## 3. The replica alone

With nothing else happening between its calls and every call answering exactly, a method is
deterministic.  `Returns` is its complete run, and the lemmas below evaluate a run one
constructor at a time, so that what a method returns is computed by `simp` from the answers
of its calls. -/

/-- Every call answers as `Call.run` with the adapter `rd`, and nothing happens between two
calls. -/
def Sem.alone (rd : Adapter) : Sem := Sem.exact rd fun _ _ => False

/-- Run alone from `w`, `p` returns `a` and leaves `w'`. -/
def Returns (rd : Adapter) {α : Type} (p : Prog α) (w : World) (a : α) (w' : World) : Prop :=
  Exec (Sem.alone rd) p w (some a) w'

namespace Returns

variable {rd : Adapter} {α β : Type} {w w' w'' : World} {a : α}

theorem env_refl {w₁ : World} (h : Relation.ReflTransGen (Sem.alone rd).env w w₁) : w₁ = w := by
  cases h with
  | refl => rfl
  | tail _ h => exact h.elim

@[simp] theorem pure {x : α} : Returns rd (pure x : Prog α) w a w' ↔ x = a ∧ w = w' := by
  constructor
  · intro h
    cases h
    exact ⟨rfl, rfl⟩
  · rintro ⟨rfl, rfl⟩
    exact .pure

@[simp] theorem lift {c : Call α} : Returns rd (liftM c : Prog α) w a w' ↔ c.run rd w = (a, w') := by
  constructor
  · intro h
    cases h with
    | call he hs => cases env_refl he; exact hs
  · exact fun h => .call .refl h

@[simp low] theorem bind {p : Prog β} {f : β → Prog α} :
    Returns rd (p >>= f) w a w'' ↔ ∃ b w₁, Returns rd p w b w₁ ∧ Returns rd (f b) w₁ a w'' := by
  constructor
  · intro h
    cases h with
    | bind h₁ h₂ => exact ⟨_, _, h₁, h₂⟩
  · rintro ⟨b, w₁, h₁, h₂⟩
    exact .bind h₁ h₂

/-- A call answers one thing, so a bind on it needs no witness. -/
@[simp] theorem bind_lift {c : Call β} {f : β → Prog α} :
    Returns rd (liftM c >>= f) w a w'' ↔ Returns rd (f (c.run rd w).1) (c.run rd w).2 a w'' := by
  rw [bind]
  constructor
  · rintro ⟨b, w₁, h₁, h₂⟩
    rw [lift] at h₁
    rwa [h₁]
  · exact fun h => ⟨_, _, lift.mpr rfl, h⟩

theorem det_aux {p : Prog α} {r : Option α} (h₁ : Exec (Sem.alone rd) p w r w') :
    ∀ {r' : Option α} {w'' : World}, Exec (Sem.alone rd) p w r' w'' → r.isSome → r'.isSome →
      r = r' ∧ w' = w'' := by
  induction h₁ with
  | pure => intro r' w'' h₂ _ _; cases h₂; exact ⟨rfl, rfl⟩
  | call he hs =>
    intro r' w'' h₂ _ hr'
    cases h₂ with
    | call he' hs' =>
      cases env_refl he; cases env_refl he'
      have := hs.symm.trans hs'
      exact ⟨by rw [(Prod.mk.inj this).1], (Prod.mk.inj this).2⟩
    | cut => cases hr'
  | cut => intro _ _ _ hr; cases hr
  | bind _ _ ih₁ ih₂ =>
    intro r' w'' h₂ hr hr'
    cases h₂ with
    | bind h₁' h₂' =>
      obtain ⟨hb, rfl⟩ := ih₁ h₁' rfl rfl
      cases hb
      exact ih₂ h₂' hr hr'
    | bindCut => cases hr'
  | bindCut => intro _ _ _ hr; cases hr
  | loopNext _ _ ih₁ ih₂ =>
    intro r' w'' h₂ hr hr'
    cases h₂ with
    | loopNext h₁' h₂' =>
      obtain ⟨hs, rfl⟩ := ih₁ h₁' rfl rfl
      cases hs
      exact ih₂ h₂' hr hr'
    | loopDone h₁' => cases (ih₁ h₁' rfl rfl).1
    | loopCut => cases hr'
  | loopDone _ ih₁ =>
    intro r' w'' h₂ _ hr'
    cases h₂ with
    | loopNext h₁' _ => cases (ih₁ h₁' rfl rfl).1
    | loopDone h₁' =>
      obtain ⟨hs, rfl⟩ := ih₁ h₁' rfl rfl
      cases hs
      exact ⟨rfl, rfl⟩
    | loopCut => cases hr'
  | loopCut => intro _ _ _ hr; cases hr

/-- **A run alone is deterministic.** -/
theorem det {p : Prog α} {b : α} (h₁ : Returns rd p w a w') (h₂ : Returns rd p w b w'') :
    a = b ∧ w' = w'' := by
  obtain ⟨h, rfl⟩ := det_aux h₁ h₂ rfl rfl
  exact ⟨Option.some.inj h, rfl⟩

/-- `check`: the call failed and its error is returned, or it succeeded and `k` ran. -/
@[simp] theorem check {c : Call (Except FsError Unit)} {k : Prog (Except Error β)}
    {r : Except Error β} : Returns rd (Prog.check c k) w r w' ↔
      (∃ e, (c.run rd w).1 = .error e ∧ r = .error (.fs e) ∧ w' = (c.run rd w).2) ∨
        ((c.run rd w).1 = .ok () ∧ Returns rd k (c.run rd w).2 r w') := by
  rw [Prog.check, bind_lift]
  cases (c.run rd w).1 with
  | error e => simp [eq_comm]
  | ok u => simp

/-- **A loop, by an invariant `J` of the world**: what a loop returns, a turn of its body
returned, from a world in `J`. -/
theorem loop_inv {σ : Type} {body : σ → Prog (σ ⊕ α)} {s : σ} {J : World → Prop}
    {Q : α → World → Prop} (h : Returns rd (.loop body s) w a w') (hJ : J w)
    (hnext : ∀ s s' w w', J w → Returns rd (body s) w (.inl s') w' → J w')
    (hdone : ∀ s a w w', J w → Returns rd (body s) w (.inr a) w' → Q a w') : Q a w' := by
  unfold Returns at h
  generalize hl : Prog.loop body s = l at h
  generalize ha : some a = r at h
  induction h generalizing s with
  | loopNext h₁ _ _ ih₂ => cases hl; exact ih₂ (hnext _ _ _ _ hJ h₁) hnext hdone rfl ha
  | loopDone h₁ => cases hl; cases ha; exact hdone _ _ _ _ hJ h₁
  | _ => cases hl <;> cases ha

/-- **Evaluation, read back as a run**: when the evaluation of `p` returns `a`, `p` returns `a`
in the world the evaluation ends in. -/
theorem after {p : Prog α} (n : Nat) (h : (p.run rd n w).map Prod.fst = some a) :
    Returns rd p w a (p.after rd n w) := by
  cases hr : p.run rd n w with
  | none => rw [hr] at h; cases h
  | some x =>
    rw [hr] at h
    cases h
    exact Prog.run_sound n p w _ _ (by rw [hr, Prog.after, hr])

end Returns

/-- Run alone, `p` returns from every world: every run of it is finite. -/
def Prog.Halts (rd : Adapter) {α : Type} (p : Prog α) : Prop := ∀ w, ∃ a w', Returns rd p w a w'

namespace Prog.Halts

variable {rd : Adapter} {α β : Type}

theorem pure (a : α) : Halts rd (Prog.pure a) := fun w => ⟨a, w, Exec.pure⟩

theorem call (c : Call α) : Halts rd (Prog.call c) :=
  fun w => ⟨(c.run rd w).1, (c.run rd w).2, Exec.call .refl rfl⟩

theorem bind {p : Prog β} {f : β → Prog α} (hp : Halts rd p) (hf : ∀ b, Halts rd (f b)) :
    Halts rd (p.bind f) := fun w =>
  let ⟨_, _, h₁⟩ := hp w
  let ⟨a, w', h₂⟩ := hf _ _
  ⟨a, w', Exec.bind h₁ h₂⟩

/-- **A loop halts** when its body does and each turn that goes round again lowers a measure
of the world. -/
theorem loop {σ : Type} {body : σ → Prog (σ ⊕ α)} (μ : World → Nat) (hb : ∀ s, Halts rd (body s))
    (hμ : ∀ s s' w w', Returns rd (body s) w (.inl s') w' → μ w' < μ w) (s : σ) :
    Halts rd (.loop body s) := fun w => by
  generalize h : μ w = n
  induction n using Nat.strong_induction_on generalizing s w with
  | _ n ih =>
    obtain ⟨r, w₁, h₁⟩ := hb s w
    cases r with
    | inl s' =>
      obtain ⟨a, w', h₂⟩ := ih _ (h ▸ hμ _ _ _ _ h₁) s' w₁ rfl
      exact ⟨a, w', Exec.loopNext h₁ h₂⟩
    | inr a => exact ⟨a, w₁, Exec.loopDone h₁⟩

end Prog.Halts

/-! ## 4. What a program can change

A program changes the world only through its calls.  `Prog.Calls C p` says that every call
`p` can make, on every branch, satisfies `C`; a property that each such call and the
environment keep then holds at the end of every run, complete or cut. -/

/-- Every call `p` can make, on any branch, satisfies `C`. -/
inductive Prog.Calls (C : ∀ {β : Type}, Call β → Prop) : {α : Type} → Prog α → Prop
  | pure {α : Type} {a : α} : Calls C (.pure a)
  | call {α : Type} {c : Call α} : C c → Calls C (.call c)
  | bind {α β : Type} {p : Prog β} {f : β → Prog α} :
      Calls C p → (∀ b, Calls C (f b)) → Calls C (.bind p f)
  | loop {α σ : Type} {body : σ → Prog (σ ⊕ α)} {s : σ} :
      (∀ s, Calls C (body s)) → Calls C (.loop body s)

namespace Prog.Calls

variable {C : ∀ {β : Type}, Call β → Prop} {α : Type}

theorem check {c : Call (Except FsError Unit)} {k : Prog (Except Error α)} (hc : C c)
    (hk : Calls C k) : Calls C (Prog.check c k) :=
  .bind (.call hc) fun
    | .error _ => .pure
    | .ok () => hk

theorem forRange {γ δ : Type} {body : δ → γ → Prog (Except Error δ)}
    (hb : ∀ acc x, Calls C (body acc x)) : ∀ xs acc, Calls C (Prog.forRange body xs acc)
  | [], _ => .pure
  | x :: xs, acc => .bind (hb acc x) fun
    | .error _ => .pure
    | .ok acc' => forRange hb xs acc'

/-- Every call a program makes is a call. -/
theorem any : ∀ {α : Type} (p : Prog α), Calls (fun _ => True) p
  | _, .pure _ => .pure
  | _, .call _ => .call trivial
  | _, .bind p f => .bind (any p) fun b => any (f b)
  | _, .loop body _ => .loop fun s => any (body s)

theorem mono {C' : ∀ {β : Type}, Call β → Prop} {p : Prog α} (h : Calls C p)
    (hC : ∀ {β : Type} {c : Call β}, C c → C' c) : Calls C' p := by
  induction h with
  | pure => exact .pure
  | call hc => exact .call (hC hc)
  | bind _ _ ih₁ ih₂ => exact .bind ih₁ ih₂
  | loop _ ih => exact .loop ih

end Prog.Calls

/-- `p` has no loop, and every call it can make, on any branch, satisfies `C`: its runs are
finite trees of calls.  Every part of the replica but the WAL loop of `Sync` is of this kind,
and such a part both keeps what its calls keep and halts. -/
inductive Prog.LoopFree (C : ∀ {β : Type}, Call β → Prop) : {α : Type} → Prog α → Prop
  | pure {α : Type} {a : α} : LoopFree C (.pure a)
  | call {α : Type} {c : Call α} : C c → LoopFree C (.call c)
  | bind {α β : Type} {p : Prog β} {f : β → Prog α} :
      LoopFree C p → (∀ b, LoopFree C (f b)) → LoopFree C (.bind p f)

namespace Prog.LoopFree

variable {C : ∀ {β : Type}, Call β → Prop} {α : Type}

theorem check {c : Call (Except FsError Unit)} {k : Prog (Except Error α)} (hc : C c)
    (hk : LoopFree C k) : LoopFree C (Prog.check c k) :=
  .bind (.call hc) fun
    | .error _ => .pure
    | .ok () => hk

theorem forRange {γ δ : Type} {body : δ → γ → Prog (Except Error δ)}
    (hb : ∀ acc x, LoopFree C (body acc x)) : ∀ xs acc, LoopFree C (Prog.forRange body xs acc)
  | [], _ => .pure
  | x :: xs, acc => .bind (hb acc x) fun
    | .error _ => .pure
    | .ok acc' => forRange hb xs acc'

theorem mono {C' : ∀ {β : Type}, Call β → Prop} {p : Prog α} (h : LoopFree C p)
    (hC : ∀ {β : Type} {c : Call β}, C c → C' c) : LoopFree C' p := by
  induction h with
  | pure => exact .pure
  | call hc => exact .call (hC hc)
  | bind _ _ ih₁ ih₂ => exact .bind ih₁ ih₂

theorem calls {p : Prog α} (h : LoopFree C p) : Calls C p := by
  induction h with
  | pure => exact .pure
  | call hc => exact .call hc
  | bind _ _ ih₁ ih₂ => exact .bind ih₁ ih₂

/-- **A program with no loop halts**: every call answers. -/
theorem halts {rd : Adapter} {p : Prog α} (h : LoopFree C p) : Halts rd p := by
  induction h with
  | pure => exact .pure _
  | call => exact .call _
  | bind _ _ ih₁ ih₂ => exact .bind ih₁ ih₂

end Prog.LoopFree

/-- **Frame theorem**: a property kept by every call `p` can make and by the environment
holds at the end of every run of `p`. -/
theorem Exec.preserve {S : Sem} {C : ∀ {β : Type}, Call β → Prop} {P : World → Prop}
    (hstep : ∀ {β : Type} {c : Call β} {w : World} {b : β} {w' : World},
      C c → S.step c w b w' → P w → P w')
    (henv : Stable S P) {α : Type} {p : Prog α} {w : World} {r : Option α} {w' : World}
    (h : Exec S p w r w') (hc : Prog.Calls C p) (hw : P w) : P w' := by
  induction h with
  | pure => exact hw
  | call he hs => cases hc with | call hc => exact hstep hc hs (henv.rtg he hw)
  | cut => exact hw
  | bind _ _ ih₁ ih₂ => cases hc with | bind hp hf => exact ih₂ (hf _) (ih₁ hp hw)
  | bindCut _ ih => cases hc with | bind hp _ => exact ih hp hw
  | loopNext _ _ ih₁ ih₂ => cases hc with | loop hb => exact ih₂ (.loop hb) (ih₁ (hb _) hw)
  | loopDone _ ih => cases hc with | loop hb => exact ih (hb _) hw
  | loopCut _ ih => cases hc with | loop hb => exact ih (hb _) hw

/-- **Frame theorem, alone**: a property kept by every call `p` can make holds after a run of
`p`. -/
theorem Returns.preserve {rd : Adapter} {C : ∀ {β : Type}, Call β → Prop} {P : World → Prop}
    (hstep : ∀ {β : Type} {c : Call β} {w : World} {b : β} {w' : World},
      C c → c.run rd w = (b, w') → P w → P w')
    {α : Type} {p : Prog α} {w : World} {a : α} {w' : World} (h : Returns rd p w a w')
    (hc : Prog.Calls C p) (hw : P w) : P w' :=
  Exec.preserve (S := Sem.alone rd) hstep (fun _ _ h => h.elim) h hc hw

/-- Every answer of the call `c` under `S` keeps `P`. -/
def Keeps (S : Sem) (P : World → Prop) {β : Type} (c : Call β) : Prop :=
  ∀ ⦃w : World⦄ ⦃b : β⦄ ⦃w' : World⦄, P w → S.step c w b w' → P w'

namespace Triple

variable {S : Sem} {I P : World → Prop} {α : Type}

/-- **A property every call keeps** holds at the end of every run, complete or cut. -/
theorem of_calls {p : Prog α} (hc : Prog.Calls (Keeps S P) p) (hP : Stable S P) :
    Triple S P P p fun _ => P := by
  intro w r w' hw hx
  have := Exec.preserve (C := Keeps S P) (fun hc hs hw => hc hw hs) hP hx hc hw
  cases r <;> exact this

theorem keeps {c : Call α} (hc : Keeps S P c) (hP : Stable S P) (hI : ∀ w, P w → I w) :
    Triple S I P (.call c) fun _ => P :=
  call_stable hP hI fun _ _ _ hw hs => hc hw hs

/-- `check` of a call that keeps `P`. -/
theorem check_keeps {c : Call (Except FsError Unit)} {k : Prog (Except Error α)}
    {Q : Except Error α → World → Prop} (hc : Keeps S P c) (hP : Stable S P)
    (hI : ∀ w, P w → I w) (he : ∀ e w, P w → Q (.error (.fs e)) w) (hk : Triple S I P k Q) :
    Triple S I P (Prog.check c k) Q :=
  check (keeps hc hP hI) he hk

/-- A fact every world of the precondition gives may be assumed. -/
theorem intro_pure {φ : Prop} {p : Prog α} {Q : α → World → Prop} (hφ : ∀ w, P w → φ)
    (h : φ → Triple S I P p Q) : Triple S I P p Q :=
  fun _ _ _ hw hx => h (hφ _ hw) hw hx

/-- The consequence rule for the worlds of a cut run. -/
theorem weaken {I' : World → Prop} {p : Prog α} {Q : α → World → Prop} (h : Triple S I P p Q)
    (hI : ∀ w, I w → I' w) : Triple S I' P p Q := by
  intro w r w' hw hx
  have := h hw hx
  cases r with
  | none => exact hI _ this
  | some a => exact this

/-- Two triples of one program hold together. -/
theorem and {I' P' : World → Prop} {p : Prog α} {Q Q' : α → World → Prop}
    (h : Triple S I P p Q) (h' : Triple S I' P' p Q') :
    Triple S (fun w => I w ∧ I' w) (fun w => P w ∧ P' w) p fun a w => Q a w ∧ Q' a w := by
  intro w r w' hw hx
  have h₁ := h hw.1 hx
  have h₂ := h' hw.2 hx
  cases r <;> exact ⟨h₁, h₂⟩

end Triple

/-- A run alone is a run under failures, with any environment. -/
theorem Returns.faulty {rd : Adapter} {E : World → World → Prop} {α : Type} {p : Prog α}
    {w : World} {a : α} {w' : World} (h : Returns rd p w a w') :
    Exec (Sem.faulty rd E) p w (some a) w' :=
  Exec.mono (fun h => Or.inl h) (fun _ _ h => False.elim h) h

/-- A run whose calls all answer as `Call.run` is a run under failures too. -/
theorem Exec.faulty {rd : Adapter} {E : World → World → Prop} {α : Type} {p : Prog α}
    {w : World} {r : Option α} {w' : World} (h : Exec (Sem.exact rd E) p w r w') :
    Exec (Sem.faulty rd E) p w r w' :=
  @Exec.mono (Sem.exact rd E) (Sem.faulty rd E) (fun h => Or.inl h) (fun _ _ h => h) _ _ _ _ _ h

/-- A run alone leaves the source as it was. -/
theorem Returns.src_eq {rd : Adapter} {α : Type} {p : Prog α} {w : World} {a : α} {w' : World}
    (h : Returns rd p w a w') : w'.src = w.src :=
  h.preserve (P := fun w' => w'.src = w.src) (fun _ hs hw => (Call.run_src hs).trans hw)
    (Prog.Calls.any p) rfl

/-- A program that never calls `setPos`, run alone, changes at most the destination tree. -/
theorem Returns.treeOnly {rd : Adapter} {α : Type} {p : Prog α} {w : World} {a : α}
    {w' : World} (h : Returns rd p w a w') (hc : Prog.Calls (fun c => c.isSetPos = false) p) :
    World.treeOnly w w' :=
  h.preserve (fun hc hs hw => hw.trans (Call.run_treeOnly hc hs)) hc (World.treeOnly.refl w)

end Litestream
