import Litestream.RetentionEffect
/-!
# The monitor and the retainer side by side

With `MonitorEnabled`, `Start` runs `monitor` and `retainer` as two goroutines on one
`FileReplica`.  `r.mu` guards `r.pos` only: nothing orders the filesystem calls of a `Sync`
against those of an `EnforceRetention`, so a run of the two is any interleaving of their calls.
`Exec` runs one program from its start to its end, so this module gives programs a small-step
semantics and runs two of them on one world:

* `Prog.Step`: one small step of a program, its next call or a silent step that only reshapes
  the program (a `bind` whose first program has finished, a loop unrolled once);
* `Returns.iff_steps`: run alone, the small steps return exactly what `Returns` says;
* `Interleave`: two programs on one world, one small step of either at a time, and
  `Serializable`: every interleaving that finishes ends as a run of one after the other does;
* `Prog.next` and `interleave`: the small steps computed under a schedule, so that one given
  interleaving can be evaluated (`interleave_sound`);
* `retention_removes_synced_generation`: the retainer lists the snapshots, the monitor then
  runs a whole `Sync` that starts a generation, and the retainer, finding no retained snapshot
  of that generation in its stale list, removes it.  No serial order ends so.
-/

namespace Litestream

/-! ## 1. Small steps -/

/-- What a loop continues with after a turn of its body: another turn, or its result. -/
def Prog.loopK {α σ : Type} (body : σ → Prog (σ ⊕ α)) : σ ⊕ α → Prog α
  | .inl s => .loop body s
  | .inr a => .pure a

/-- **One small step of a program**: its next call, answered as `S` allows, or a silent step
that leaves the world alone. -/
inductive Prog.Step (S : Sem) : {α : Type} → Prog α × World → Prog α × World → Prop
  | call {α : Type} {c : Call α} {w : World} {b : α} {w' : World} :
      S.step c w b w' → Prog.Step S (.call c, w) (.pure b, w')
  | bind {α β : Type} {p p' : Prog β} {f : β → Prog α} {w w' : World} :
      Prog.Step S (p, w) (p', w') → Prog.Step S (.bind p f, w) (.bind p' f, w')
  | bindPure {α β : Type} {b : β} {f : β → Prog α} {w : World} :
      Prog.Step S (.bind (.pure b) f, w) (f b, w)
  | loop {α σ : Type} {body : σ → Prog (σ ⊕ α)} {s : σ} {w : World} :
      Prog.Step S (.loop body s, w) (.bind (body s) (Prog.loopK body), w)

namespace Prog.Step

variable {S : Sem} {α β : Type}

/-- A run from where a small step leads is a run from before it. -/
theorem exec {s s' : Prog α × World} {r : Option α} {w'' : World} (h : Prog.Step S s s')
    (h' : Exec S s'.1 s'.2 r w'') : Exec S s.1 s.2 r w'' := by
  induction h generalizing w'' with
  | call hs => cases h'; exact .call .refl hs
  | bind _ ih =>
    cases h' with
    | bind h₁ h₂ => exact .bind (ih h₁) h₂
    | bindCut h₁ => exact .bindCut (ih h₁)
  | bindPure => exact .bind .pure h'
  | loop =>
    cases h' with
    | @bind _ _ _ _ _ x _ _ _ h₁ h₂ =>
      rcases x with s' | a
      · exact .loopNext h₁ h₂
      · cases h₂; exact .loopDone h₁
    | bindCut h₁ => exact .loopCut h₁

/-- Small steps of `p` are small steps of `p >>= f`. -/
theorem steps_bind {p p' : Prog β} {f : β → Prog α} {w w' : World}
    (h : Relation.ReflTransGen (Prog.Step S) (p, w) (p', w')) :
    Relation.ReflTransGen (Prog.Step S) (.bind p f, w) (.bind p' f, w') :=
  h.lift (fun s : Prog β × World => (Prog.bind s.1 f, s.2)) fun _ _ h => Prog.Step.bind h

/-- Small steps that finish make a complete run. -/
theorem steps_exec {s : Prog α × World} {a : α} {w' : World}
    (h : Relation.ReflTransGen (Prog.Step S) s (.pure a, w')) : Exec S s.1 s.2 (some a) w' := by
  induction h using Relation.ReflTransGen.head_induction_on with
  | refl => exact .pure
  | head h _ ih => exact h.exec ih

end Prog.Step

/-- A complete run alone is a sequence of small steps. -/
theorem Exec.steps {rd : Adapter} {α : Type} {p : Prog α} {w : World} {r : Option α}
    {w' : World} (h : Exec (Sem.alone rd) p w r w') :
    ∀ a, r = some a →
      Relation.ReflTransGen (Prog.Step (Sem.alone rd)) (p, w) (.pure a, w') := by
  induction h with
  | pure => rintro a ⟨⟩; exact .refl
  | call he hs => rintro a ⟨⟩; cases Returns.env_refl he; exact .single (.call hs)
  | bind _ _ ih₁ ih₂ =>
    exact fun a ha => (Prog.Step.steps_bind (ih₁ _ rfl)).trans (.head .bindPure (ih₂ a ha))
  | loopNext _ _ ih₁ ih₂ =>
    exact fun a ha =>
      .head .loop ((Prog.Step.steps_bind (ih₁ _ rfl)).trans (.head .bindPure (ih₂ a ha)))
  | loopDone _ ih =>
    rintro a ⟨⟩
    exact .head .loop ((Prog.Step.steps_bind (ih _ rfl)).tail .bindPure)
  | cut | bindCut | loopCut => rintro a ⟨⟩

/-- **The two semantics agree**: alone, a program returns `a` in `w'` exactly when its small
steps lead to `pure a` in `w'`. -/
theorem Returns.iff_steps {rd : Adapter} {α : Type} {p : Prog α} {w : World} {a : α}
    {w' : World} :
    Returns rd p w a w' ↔
      Relation.ReflTransGen (Prog.Step (Sem.alone rd)) (p, w) (.pure a, w') :=
  ⟨fun h => Exec.steps h a rfl, Prog.Step.steps_exec⟩

/-! ## 2. Two programs on one world -/

/-- **Two programs on one world**: a step is a small step of either one. -/
inductive Interleave (S : Sem) {α β : Type} :
    Prog α × Prog β × World → Prog α × Prog β × World → Prop
  | left {p p' : Prog α} {q : Prog β} {w w' : World} :
      Prog.Step S (p, w) (p', w') → Interleave S (p, q, w) (p', q, w')
  | right {p : Prog α} {q q' : Prog β} {w w' : World} :
      Prog.Step S (q, w) (q', w') → Interleave S (p, q, w) (p, q', w')

/-- `p` and `q` run one after the other, in one order or the other, from `w`: `p` returns `a`,
`q` returns `b`, and the world ends as `w'`. -/
def Serial (rd : Adapter) {α β : Type} (p : Prog α) (q : Prog β) (w : World) (a : α) (b : β)
    (w' : World) : Prop :=
  (∃ w₁, Returns rd p w a w₁ ∧ Returns rd q w₁ b w') ∨
    (∃ w₁, Returns rd q w b w₁ ∧ Returns rd p w₁ a w')

/-- The interleavings of `p` and `q` from `w` are **serializable**: every one that finishes
ends as a serial run does, with the same results, the same destination tree and the same
`LastPos()`. -/
def Serializable (rd : Adapter) {α β : Type} (p : Prog α) (q : Prog β) (w : World) : Prop :=
  ∀ a b w', Relation.ReflTransGen (Interleave (Sem.alone rd)) (p, q, w) (.pure a, .pure b, w') →
    ∃ w'', Serial rd p q w a b w'' ∧ w''.fs = w'.fs ∧ w''.pos = w'.pos

namespace Interleave

variable {S : Sem} {α β : Type} {p p' : Prog α} {q q' : Prog β} {w w' : World}

theorem lefts (h : Relation.ReflTransGen (Prog.Step S) (p, w) (p', w')) :
    Relation.ReflTransGen (Interleave S) (p, q, w) (p', q, w') :=
  h.lift (fun s : Prog α × World => (s.1, q, s.2)) fun _ _ h => .left h

theorem rights (h : Relation.ReflTransGen (Prog.Step S) (q, w) (q', w')) :
    Relation.ReflTransGen (Interleave S) (p, q, w) (p, q', w') :=
  h.lift (fun s : Prog β × World => (p, s.1, s.2)) fun _ _ h => .right h

end Interleave

/-! ## 3. Small steps computed -/

/-- The small step of `p` from `w` when every call answers as `Call.run`; `none` once `p` has
finished. -/
def Prog.next (rd : Adapter) : {α : Type} → Prog α → World → Option (Prog α × World)
  | _, .pure _, _ => none
  | _, .call c, w => some (.pure (c.run rd w).1, (c.run rd w).2)
  | _, .bind p f, w =>
    match p with
    | .pure b => some (f b, w)
    | _ => (Prog.next rd p w).map fun s => (.bind s.1 f, s.2)
  | _, .loop body s, w => some (.bind (body s) (Prog.loopK body), w)

/-- Up to `n` small steps of `p`, fewer when it finishes first. -/
def Prog.advance (rd : Adapter) {α : Type} : Nat → Prog α → World → Prog α × World
  | 0, p, w => (p, w)
  | n + 1, p, w =>
    match p.next rd w with
    | some s => Prog.advance rd n s.1 s.2
    | none => (p, w)

/-- Two programs under a schedule: each entry runs the first program (`true`) or the second
for up to that many small steps. -/
def interleave (rd : Adapter) {α β : Type} :
    List (Bool × Nat) → Prog α × Prog β × World → Prog α × Prog β × World
  | [], s => s
  | (true, n) :: sch, (p, q, w) =>
    interleave rd sch ((p.advance rd n w).1, q, (p.advance rd n w).2)
  | (false, n) :: sch, (p, q, w) =>
    interleave rd sch (p, (q.advance rd n w).1, (q.advance rd n w).2)

section Computed

variable {rd : Adapter} {env : World → World → Prop}

theorem Prog.next_sound {α : Type} (p : Prog α) (w : World) :
    ∀ {s : Prog α × World}, p.next rd w = some s → Prog.Step (Sem.exact rd env) (p, w) s := by
  induction p, w using Prog.next.induct rd with
  | case1 => intro _ h; cases h
  | case2 => intro _ h; cases h; exact .call rfl
  | case3 => intro _ h; cases h; exact .bindPure
  | case4 _ _ p f w hp ih =>
    intro s h
    rw [Prog.next.eq_4 _ _ _ _ _ _ hp] at h
    obtain ⟨s', hs', rfl⟩ := Option.map_eq_some'.mp h
    exact .bind (ih hs')
  | case5 => intro _ h; cases h; exact .loop

theorem Prog.advance_sound {α : Type} (n : Nat) :
    ∀ (p : Prog α) (w : World),
      Relation.ReflTransGen (Prog.Step (Sem.exact rd env)) (p, w) (p.advance rd n w) := by
  induction n with
  | zero => exact fun _ _ => .refl
  | succ n ih =>
    intro p w
    rw [Prog.advance]
    split
    · exact .head (Prog.next_sound p w ‹_›) (ih _ _)
    · exact .refl

/-- **A schedule runs an interleaving.** -/
theorem interleave_sound {α β : Type} :
    ∀ (sch : List (Bool × Nat)) (s : Prog α × Prog β × World),
      Relation.ReflTransGen (Interleave (Sem.exact rd env)) s (interleave rd sch s)
  | [], _ => .refl
  | (true, n) :: sch, (p, _, w) =>
    (Interleave.lefts (Prog.advance_sound n p w)).trans (interleave_sound sch _)
  | (false, n) :: sch, (_, q, w) =>
    (Interleave.rights (Prog.advance_sound n q w)).trans (interleave_sound sch _)

end Computed

/-! ## 4. A retention pass removes the generation `Sync` has just written -/

/-- A destination holding generation `g0`, whose snapshot `0` was written at `7200`, the time
of the clock; the source, `indexZeroSource`, is in generation `g`. -/
def raceDst : World :=
  { World.fresh indexZeroSource 7200 with
    fs := ⟨[(snapshotPath "g0" 0, .file (.gzip (.raw [7])) 7200), (snapshotDir "g0", .dir 4096 0),
      (generationDir "g0", .dir 4096 0), (["generations"], .dir 4096 0)], by decide, by decide⟩ }

/-- The retainer's `DB.Pos()`, `Snapshots()` and `time.Now()`, then a whole `Sync`. -/
def raceSync : List (Bool × Nat) := [(false, 11), (true, 69)]

/-- The rest of `EnforceRetention`. -/
def raceRetain : List (Bool × Nat) := [(false, 15)]

/-- **A retention pass removes the generation a concurrent `Sync` has just started.**  From
`raceDst`, the retainer lists the snapshots, which are `g0`'s, before the monitor's `Sync`
writes snapshot `0` and WAL `0` of `g`; the retainer then lists the generations, finds no
retained snapshot of `g` in its list, and removes `g`.  Both calls return `nil`, `LastPos()` is
`(g, 0, 2)`, and the tree is as it was: no serial order ends so. -/
theorem retention_removes_synced_generation :
    ∃ (q : Prog (Except Error Unit)) (w₁ : World),
      Relation.ReflTransGen (Interleave (Sem.alone Source.shadowWALReader))
        (sync, enforceRetention hourReplica anyGeneration, raceDst) (.pure (.ok ()), q, w₁) ∧
      w₁.fs.get (snapshotPath "g" 0) = some (.file (.gzip (.raw [7])) 7200) ∧
      w₁.fs.get (walPath "g" 0) = some (.file (.raw [1, 2]) 7200) ∧
      Relation.ReflTransGen (Interleave (Sem.alone Source.shadowWALReader))
        ((.pure (.ok ()) : Prog (Except Error Unit)), q, w₁)
        (.pure (.ok ()), .pure (.ok ()), { raceDst with pos := ⟨"g", 0, 2⟩ }) ∧
      raceDst.fs.get (generationDir "g") = none ∧
      ¬ Serializable Source.shadowWALReader sync (enforceRetention hourReplica anyGeneration)
        raceDst := by
  have h₁ : Relation.ReflTransGen (Interleave (Sem.alone Source.shadowWALReader)) _ _ :=
    interleave_sound raceSync (sync, enforceRetention hourReplica anyGeneration, raceDst)
  have h₂ : Relation.ReflTransGen (Interleave (Sem.alone Source.shadowWALReader))
      (interleave Source.shadowWALReader raceSync
        (sync, enforceRetention hourReplica anyGeneration, raceDst))
      (.pure (.ok ()), .pure (.ok ()), { raceDst with pos := ⟨"g", 0, 2⟩ }) :=
    interleave_sound raceRetain _
  refine ⟨_, _, h₁, rfl, rfl, h₂, rfl, fun hser => ?_⟩
  obtain ⟨w'', hs, hfs, -⟩ := hser _ _ _ (h₁.trans h₂)
  rcases hs with ⟨w₁, hfst, hsnd⟩ | ⟨w₁, hfst, hsnd⟩ <;>
  · obtain ⟨-, rfl⟩ := hfst.det (Returns.after 60 rfl)
    obtain ⟨-, rfl⟩ := hsnd.det (Returns.after 60 rfl)
    exact absurd (congrArg (FS.get · (generationDir "g")) hfs) (by decide)

end Litestream
