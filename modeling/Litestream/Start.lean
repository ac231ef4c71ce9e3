import Litestream.Interleave
import Litestream.Monitor
import Litestream.FlatWAL
/-!
# `Start`: the monitor and the retainer, side by side, forever

With `MonitorEnabled`, `Start` runs `monitor` and `retainer` as two goroutines on one
`FileReplica`, each in a loop it leaves only when the context is cancelled: the monitor calls
`Notify()` and `Sync` each time its channel fires, the retainer `EnforceRetention` on each tick.
Here the two loops run as programs, one small step of either at a time (`Litestream.Interleave`),
every `os` call may fail, the source grows between any two steps, and the process may crash and
start both loops again with `LastPos()` zero.  The `select`s are left out: each goroutine may take
its next step at any time, which includes every schedule the channels and the ticker allow, so a
property of every run here is a property of `Start`.

`Interleave` already shows that the two methods do not serialize.  What holds of every schedule
is what every single call keeps, whichever goroutine makes it:

* `Prog.Step.preserve`: a small step keeps the calls its program may still make, and what they
  keep;
* `StartStep.preserve`: a property every call of the two loops keeps, and that growth and a
  restart keep, holds over every run;
* `walFlat_start`: no WAL directory ever gets a subdirectory, so `compress` never compresses
  (`compress_never_compresses_concurrently`).
-/

namespace Litestream

/-! ## 1. The two goroutines -/

/-- The loop of `monitor` once its channel is made: each time the `select` fires, `Notify()` and
then `Sync`, whatever it returns. -/
def monitorLoop : Prog Unit :=
  .loop (fun () => (do let _ ← monitorTurn; return .inl () : Prog (Unit ⊕ Unit))) ()

/-- The loop of `retainer`: on each tick, `EnforceRetention`, whatever it returns. -/
def retainerLoop (r : FileReplica) (isGenerationName : GenerationName) : Prog Unit :=
  .loop (fun () =>
    (do let _ ← enforceRetention r isGenerationName; return .inl () : Prog (Unit ⊕ Unit))) ()

/-- **One step of `Start`**: the source writes, one goroutine takes a small step, or the process
crashes and starts both loops again with `LastPos()` zero. -/
inductive StartStep (r : FileReplica) (isGenerationName : GenerationName) :
    Prog Unit × Prog Unit × World → Prog Unit × Prog Unit × World → Prop
  | grow {p q : Prog Unit} {w w' : World} :
      World.Grows w w' → StartStep r isGenerationName (p, q, w) (p, q, w')
  | step {s s' : Prog Unit × Prog Unit × World} :
      Interleave Sem.replica s s' → StartStep r isGenerationName s s'
  | crash {p q : Prog Unit} {w : World} :
      StartStep r isGenerationName (p, q, w)
        (monitorLoop, retainerLoop r isGenerationName, { w with pos := Pos.zero })

/-! ## 2. What every call keeps holds over every run -/

/-- A small step under `S` is one under every semantics that allows its call. -/
theorem Prog.Step.mono {S S' : Sem}
    (hs : ∀ {β : Type} {c : Call β} {w : World} {b : β} {w' : World},
      S.step c w b w' → S'.step c w b w')
    {α : Type} {s s' : Prog α × World} (h : Prog.Step S s s') : Prog.Step S' s s' := by
  induction h with
  | call h => exact .call (hs h)
  | bind _ ih => exact .bind ih
  | bindPure => exact .bindPure
  | loop => exact .loop

/-- **A small step keeps what the calls of its program keep**: what is left of the program makes
only calls it could make, and a call step keeps `P`. -/
theorem Prog.Step.preserve {S : Sem} {C : ∀ {β : Type}, Call β → Prop} {P : World → Prop}
    (hstep : ∀ {β : Type} {c : Call β} {w : World} {b : β} {w' : World},
      C c → S.step c w b w' → P w → P w')
    {α : Type} {s s' : Prog α × World} (h : Prog.Step S s s') (hc : Prog.Calls C s.1)
    (hw : P s.2) : Prog.Calls C s'.1 ∧ P s'.2 := by
  induction h with
  | call hs => cases hc with | call hc => exact ⟨.pure, hstep hc hs hw⟩
  | bind _ ih =>
    cases hc with
    | bind hp hf =>
      obtain ⟨hp', hw'⟩ := ih hp hw
      exact ⟨.bind hp' hf, hw'⟩
  | bindPure => cases hc with | bind _ hf => exact ⟨hf _, hw⟩
  | loop =>
    cases hc with
    | loop hb =>
      exact ⟨.bind (hb _) fun x => by cases x <;> first | exact .loop hb | exact .pure, hw⟩

variable {r : FileReplica} {isGen : GenerationName}

/-- **A property every call keeps holds over every run of `Start`**, from a state whose two
programs make only calls that keep it. -/
theorem StartStep.preserve {C : ∀ {β : Type}, Call β → Prop} {P : World → Prop}
    (hstep : ∀ {β : Type} {c : Call β} {w : World} {b : β} {w' : World},
      C c → Sem.replica.step c w b w' → P w → P w')
    (hgrow : ∀ w w', World.Grows w w' → P w → P w')
    (hcrash : ∀ w, P w → P { w with pos := Pos.zero })
    (hm : Prog.Calls C monitorLoop) (hr : Prog.Calls C (retainerLoop r isGen))
    {s s' : Prog Unit × Prog Unit × World} (h : Relation.ReflTransGen (StartStep r isGen) s s')
    (hs : Prog.Calls C s.1 ∧ Prog.Calls C s.2.1 ∧ P s.2.2) :
    Prog.Calls C s'.1 ∧ Prog.Calls C s'.2.1 ∧ P s'.2.2 := by
  induction h with
  | refl => exact hs
  | tail _ hst ih =>
    obtain ⟨h₁, h₂, hw⟩ := ih
    cases hst with
    | grow hg => exact ⟨h₁, h₂, hgrow _ _ hg hw⟩
    | step hi =>
      cases hi with
      | left hp =>
        obtain ⟨h₁', hw'⟩ := Prog.Step.preserve hstep hp h₁ hw
        exact ⟨h₁', h₂, hw'⟩
      | right hq =>
        obtain ⟨h₂', hw'⟩ := Prog.Step.preserve hstep hq h₂ hw
        exact ⟨h₁, h₂', hw'⟩
    | crash => exact ⟨hm, hr, hcrash _ hw⟩

/-- A schedule of the two goroutines in which no call fails is a run of `Start`. -/
theorem StartStep.of_interleave {s s' : Prog Unit × Prog Unit × World}
    (h : Relation.ReflTransGen (Interleave (Sem.exact Source.shadowWALReader World.Grows)) s s') :
    Relation.ReflTransGen (StartStep r isGen) s s' :=
  h.lift id fun _ _ h => .step <| by
    cases h with
    | left h => exact .left (h.mono Or.inl)
    | right h => exact .right (h.mono Or.inl)

/-! ## 3. The WAL directories stay flat -/

theorem monitorLoop_calls : Prog.Calls (fun c => c.mkdirLen ≤ 3) monitorLoop :=
  .loop fun _ => .bind (.bind (.call (Nat.zero_le 3)) fun _ => .bind sync_calls fun _ => .pure)
    fun _ => .pure

theorem retainerLoop_calls (r : FileReplica) (isGen : GenerationName) :
    Prog.Calls (fun c => c.mkdirLen ≤ 3) (retainerLoop r isGen) :=
  .loop fun _ => .bind (enforceRetention_calls r isGen) fun _ => .pure

/-- **Every WAL directory stays flat in every run of `Start`**: each call, of either goroutine,
done or failed part way, creates directories only down to the depth of a WAL directory. -/
theorem walFlat_start {src : Source} {clock : Int} {s : Prog Unit × Prog Unit × World}
    (h : Relation.ReflTransGen (StartStep r isGen)
      (monitorLoop, retainerLoop r isGen, World.fresh src clock) s) (g : String) :
    walFlat g s.2.2.fs :=
  (StartStep.preserve (P := fun w => walFlat g w.fs) (fun hc hs hw => walFlat_step_faulty hc hs hw)
    (fun _ _ h hw => by simpa only [h.1] using hw) (fun _ hw => hw) monitorLoop_calls
    (retainerLoop_calls r isGen) h
    ⟨monitorLoop_calls, retainerLoop_calls r isGen,
      fun _ => FS.not_isDir_of_get_none rfl⟩).2.2

/-- **`compress` never compresses, with the monitor and the retainer side by side.**  In every
run of `Start` from an empty destination, whatever the schedule of the two goroutines, with
failed calls, the source's writes and crashes anywhere: `compress(g)`, for every generation `g`,
returns `nil` and changes nothing. -/
theorem compress_never_compresses_concurrently {rd : Adapter} {src : Source} {clock : Int}
    {s : Prog Unit × Prog Unit × World}
    (h : Relation.ReflTransGen (StartStep r isGen)
      (monitorLoop, retainerLoop r isGen, World.fresh src clock) s) (g : String) :
    Returns rd (compress g) s.2.2 (.ok ()) s.2.2 := by
  simp [compress, Call.run, glob_compressPattern (walFlat_start h g)]

/-- The retainer lists the snapshots, then the monitor runs a whole `Sync` of `indexZeroSource`,
and starts another turn. -/
def startRace : Prog Unit × Prog Unit × World :=
  interleave Source.shadowWALReader [(false, 15), (true, 80)]
    (monitorLoop, retainerLoop hourReplica anyGeneration, World.fresh indexZeroSource 0)

/-- In that run WAL `0` is written, and `compress` leaves it as it is. -/
theorem compress_never_compresses_concurrently_race :
    Relation.ReflTransGen (StartStep hourReplica anyGeneration)
        (monitorLoop, retainerLoop hourReplica anyGeneration, World.fresh indexZeroSource 0)
        startRace ∧
      startRace.2.2.fs.get (walPath "g" 0) = some (.file (.raw [1, 2]) 0) ∧
      Returns Source.shadowWALReader (compress "g") startRace.2.2 (.ok ()) startRace.2.2 :=
  have h := StartStep.of_interleave (interleave_sound _ _)
  ⟨h, rfl, compress_never_compresses_concurrently h "g"⟩

end Litestream
