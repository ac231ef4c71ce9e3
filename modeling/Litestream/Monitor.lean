import Litestream.System
import Litestream.SyncEffect
/-!
# The monitor loop loses no wake-up

`monitor` waits in a `select` on a notification channel; when it fires, it fetches the next
channel with `Notify()` and only then calls `Sync`.  A write of the source grows its shadow WAL
and closes the channel `Notify()` returned last.  A write during `Sync` has therefore closed
the channel the monitor waits on next, and when that channel is still open no write happened
since it was fetched: the last answer of the adapter, `io.EOF`, still holds.

* `sync_quiet`: a `Sync` that returns `nil` with no write since the channel `n` was fetched
  leaves the adapter answering `io.EOF` at `LastPos()`;
* `monitor_no_lost_wakeup`: from every destination a run of the replica reaches from an empty
  one, the monitor started with `LastPos()` zero, whenever the monitor waits on an open channel,
  `LastPos()` is the end of the shadow WAL;
* `monitor_waits_behind_foreign_wal`: a destination holding a WAL file beyond the shadow lets
  `Sync` return `nil` short of the end, and the monitor then waits on an open channel.

`removeTmpFiles`, which `monitor` calls before its loop, is not in the repository; on an empty
destination it has nothing to remove.
-/

namespace Litestream

/-- A channel the monitor selects on: the one it makes and closes itself before its loop, or
the `n`-th that `Notify()` returned. -/
inductive Chan where
  | own
  | notify (n : Nat)
  deriving DecidableEq, Repr

/-- A receive on the channel is ready: the monitor's own channel is closed, and the `n`-th
channel of the database is closed once a write came after it. -/
def Chan.closed (s : Source) : Chan → Bool
  | .own => true
  | .notify n => decide (n < s.notify)

/-- **A write of the source**: it grows its generation's shadow WAL and closes the channel
`Notify()` returned last, so that `Notify()` returns a fresh one. -/
def World.Writes (w w' : World) : Prop :=
  World.Grows w w' ∧ w'.src.notify = w.src.notify + 1

/-- The semantics the monitor runs under: the repository's shadow-WAL reader, any `os` call may
fail, and the source writes between two calls. -/
def Sem.monitor : Sem := Sem.faulty Source.shadowWALReader World.Writes

/-- One turn of the loop of `monitor`, once its `select` has fired: fetch the next notification
channel, then `Sync`. -/
def monitorTurn : Prog (Nat × Except Error Unit) := do
  let notify ← Call.notify
  let r ← sync
  return (notify, r)

/-- **One step of the monitor and the source**: a write, or a turn of the loop from a `select`
that fired, whose `Sync` returns `nil`.  The state is the world and the channel the `select`
waits on. -/
inductive MonitorStep : World × Chan → World × Chan → Prop
  | write {w w' : World} {ch : Chan} : World.Writes w w' → MonitorStep (w, ch) (w', ch)
  | turn {w w' : World} {ch : Chan} {n : Nat} : ch.closed w.src = true →
      Exec Sem.monitor monitorTurn w (some (n, .ok ())) w' → MonitorStep (w, ch) (w', .notify n)

/-! ## 1. No write since the channel was fetched -/

section Quiet

variable {rd : Adapter} {E : World → World → Prop}
  (hE : ∀ w w', E w w' → w.src.notify < w'.src.notify ∧ w'.pos = w.pos) {n : Nat}

/-- Channel `n` has been fetched: `Notify()` has returned `n` or later. -/
def Since (n : Nat) (w : World) : Prop := n ≤ w.src.notify

/-- No write since channel `n` was fetched leaves the adapter answering `io.EOF` at the cached
position. -/
def Quiet (rd : Adapter) (n : Nat) (w : World) : Prop :=
  Since n w ∧ (w.src.notify = n → rd w.src w.pos = .error .eof)

theorem Since.keeps {β : Type} (c : Call β) : Keeps (Sem.faulty rd E) (Since n) c :=
  fun _ _ _ hw hs => by unfold Since; rw [Faulty.step_src hs]; exact hw

theorem Quiet.keeps {β : Type} {c : Call β} (hc : c.isSetPos = false) :
    Keeps (Sem.faulty rd E) (Quiet rd n) c := fun _ _ _ hw hs => by
  rw [Faulty.step_treeOnly hc hs]
  exact hw

include hE

theorem Since.stable : Stable (Sem.faulty rd E) (Since n) :=
  fun w w' h hw => hw.trans (hE w w' h).1.le

theorem Quiet.stable : Stable (Sem.faulty rd E) (Quiet rd n) := fun w w' h ⟨hle, _⟩ =>
  ⟨Since.stable hE h hle,
    fun heq => absurd heq (by have := (hE w w' h).1; unfold Since at hle; omega)⟩

/-- Every program keeps `Since n`. -/
theorem Since.triple {α : Type} (p : Prog α) :
    Triple (Sem.faulty rd E) (Since n) (Since n) p fun _ => Since n :=
  Triple.of_calls ((Prog.Calls.any p).mono fun _ => Since.keeps _) (Since.stable hE)

/-- `syncWAL` answers `io.EOF` only as the adapter answered it at the cached position. -/
theorem syncWAL_quiet :
    Triple (Sem.faulty rd E) (Since n) (Since n) syncWAL
      fun r w => Since n w ∧ (r = .error .eof → Quiet rd n w) := by
  have hS : Stable (Sem.faulty rd E) (Since n) := Since.stable hE
  have herr : ∀ (e : FsError) w, Since n w →
      Since n w ∧ ((.error (.fs e) : Except Error Unit) = .error .eof → Quiet rd n w) :=
    fun _ _ h => ⟨h, fun he => by cases he⟩
  unfold syncWAL
  refine Triple.bind (Q := fun p w => Since n w ∧ w.pos = p)
    (Triple.call_stable hS (fun _ h => h) fun w p w' hw hs => ?_) fun p => ?_
  · obtain ⟨rfl, rfl⟩ := Faulty.step_lastPos hs
    exact ⟨hw, rfl⟩
  refine Triple.bind (Q := fun res w => Since n w ∧ (res = .error .eof → Quiet rd n w))
    (Triple.call_stable (fun w w' h hw => ⟨hS h hw.1, (hE w w' h).2.trans hw.2⟩) (fun _ h => h.1)
      fun w res w' hw hs => ?_) fun res => ?_
  · obtain ⟨rfl, hres⟩ := Faulty.step_shadowWALReader hs
    refine ⟨hw.1, fun he => ⟨hw.1, fun _ => ?_⟩⟩
    rcases hres with rfl | rfl
    · rwa [hw.2]
    · cases he
  rcases res with e | r
  · cases e
    case eof => exact Triple.pure fun w hw => ⟨hw.1, fun _ => hw.2 rfl⟩
    all_goals exact Triple.pure fun w hw => ⟨hw.1, fun he => by cases he⟩
  refine Triple.conseq (P := Since n) ?_ (fun _ h => h.1) fun _ _ h => h
  refine Triple.check_keeps (Since.keeps _) hS (fun _ h => h) herr <|
    Triple.check_keeps (Since.keeps _) hS (fun _ h => h) herr <|
    Triple.check_keeps (Since.keeps _) hS (fun _ h => h) herr <|
    Triple.check_keeps (Since.keeps _) hS (fun _ h => h) herr <|
    Triple.check_keeps (Since.keeps _) hS (fun _ h => h) herr <|
    Triple.check_keeps (Since.keeps _) hS (fun _ h => h) herr ?_
  exact Triple.bind (Triple.keeps (Since.keeps _) hS fun _ h => h) fun _ =>
    Triple.pure fun _ h => ⟨h, fun he => by cases he⟩

theorem syncWALLoop_quiet :
    Triple (Sem.faulty rd E) (Since n) (Since n) syncWALLoop
      fun r w => Since n w ∧ (r = .ok () → Quiet rd n w) := by
  unfold syncWALLoop
  refine Triple.loop (J := fun _ => Since n) (fun _ => ?_) ()
  refine Triple.bind (syncWAL_quiet hE) fun r => ?_
  rcases r with e | ⟨⟩
  · cases e <;> first
      | exact Triple.pure fun w hw => ⟨hw.1, fun _ => hw.2 rfl⟩
      | exact Triple.pure fun w hw => ⟨hw.1, fun h => by cases h⟩
  · exact Triple.pure fun w hw => hw.1

/-- **A `Sync` that returns `nil` leaves the adapter at `io.EOF`, unless the source wrote since
channel `n` was fetched.** -/
theorem sync_quiet :
    Triple (Sem.faulty rd E) (Since n) (Since n) sync
      fun r w => Since n w ∧ (r = .ok () → Quiet rd n w) := by
  have herr : ∀ (e : Error) w, Since n w →
      Since n w ∧ ((.error e : Except Error Unit) = .ok () → Quiet rd n w) :=
    fun _ _ h => ⟨h, fun he => by cases he⟩
  unfold sync
  refine Triple.bind (Since.triple hE _) fun r => ?_
  rcases r with e | dpos
  · exact Triple.pure (herr _)
  dsimp only
  split
  · exact Triple.pure (herr _)
  refine Triple.bind (Since.triple hE _) fun r => ?_
  rcases r with e | ⟨⟩
  · exact Triple.pure (herr _)
  refine Triple.bind (Since.triple hE _) fun r => ?_
  rcases r with e | ⟨⟩
  · exact Triple.pure (herr _)
  refine Triple.bind (syncWALLoop_quiet hE) fun r => ?_
  rcases r with e | ⟨⟩
  · exact Triple.pure fun w hw => herr _ w hw.1
  refine Triple.conseq (P := Quiet rd n) ?_ (fun w hw => hw.2 rfl) fun _ _ h => h
  dsimp only
  split
  · refine Triple.bind ((Triple.of_calls ((compress_calls _).calls.mono fun h => Quiet.keeps h.1)
      (Quiet.stable hE)).weaken fun _ h => h.1) fun r => ?_
    rcases r with e | ⟨⟩
    · exact Triple.pure fun w hw => herr _ w hw.1
    · exact Triple.pure fun w hw => ⟨hw.1, fun _ => hw⟩
  · exact Triple.pure fun w hw => ⟨hw.1, fun _ => hw⟩

end Quiet

/-! ## 2. The monitor -/

/-- Where the adapter answers `io.EOF` within the shadow, its position is the shadow's end. -/
theorem Source.pos_of_eof {s : Source} {p : Pos} (hg : p.generation = s.generation)
    (hne : s.generation ≠ "")
    (hb : ∃ b, (s.shadow p.generation)[p.index]? = some b ∧ p.offset ≤ b.length)
    (h : Source.shadowWALReader s p = .error .eof) : p = s.pos := by
  obtain ⟨b, hb, hle⟩ := hb
  unfold Source.shadowWALReader at h
  simp only [hb, dif_pos] at h
  split_ifs at h with hlt
  split at h
  · cases h
  rename_i hnext
  have hlen : p.index + 1 = (s.shadow p.generation).length := by
    have := lt_of_getElem? hb
    have := List.getElem?_eq_none_iff.mp hnext
    omega
  have hlast : (s.shadow p.generation).getLast? = some b := by
    rw [List.getLast?_eq_getElem?, ← hlen, Nat.add_sub_cancel, hb]
  obtain ⟨g, i, off⟩ := p
  simp only at hg hlen hlast hle hlt
  subst hg
  simp only [Source.pos, if_neg hne, hlast, Option.getD_some, Pos.mk.injEq, true_and]
  omega

section Monitor

variable {g : String}

/-- The invariant of the monitor: the mirror invariant, a fetched channel is one `Notify()`
returned, and an open one means `LastPos()` is the shadow's end. -/
def MonitorInv (g : String) (s : World × Chan) : Prop :=
  Mirror g s.1 ∧ (∀ n, s.2 = .notify n → n ≤ s.1.src.notify) ∧
    (s.2.closed s.1.src = false → s.1.pos = s.1.src.pos)

theorem writes_grows (w w' : World) (h : World.Writes w w') : World.Grows w w' := h.1

theorem writes_notify (w w' : World) (h : World.Writes w w') :
    w.src.notify < w'.src.notify ∧ w'.pos = w.pos :=
  ⟨by rw [h.2]; omega, h.1.2.1⟩

/-- A turn of the loop keeps the mirror invariant; when its `Sync` returns `nil` with no write
since `Notify()`, the adapter answers `io.EOF` at `LastPos()`. -/
theorem monitorTurn_triple :
    Triple Sem.monitor (Mirror g) (Mirror g) monitorTurn fun r w =>
      Mirror g w ∧ r.1 ≤ w.src.notify ∧ (r.2 = .ok () →
        Syncing g w ∧ Quiet Source.shadowWALReader r.1 w) := by
  unfold monitorTurn
  refine Triple.bind (Q := fun n w => Mirror g w ∧ Since n w)
    (Triple.call_stable (Mirror.stable writes_grows) (fun _ h => h) fun w n w' hw hs => ?_)
    fun n => ?_
  · obtain ⟨rfl, rfl⟩ := Faulty.step_notify hs
    exact ⟨hw, le_rfl⟩
  refine Triple.bind (((sync_triple writes_grows).and (sync_quiet writes_notify)).weaken
    fun _ h => h.1) fun r => ?_
  exact Triple.pure fun w hw => ⟨hw.1.1, hw.2.1, fun h => ⟨(hw.1.2 h).1, hw.2.2 h⟩⟩

/-- **Every step of the monitor and the source keeps the monitor's invariant.** -/
theorem MonitorInv.step (hg : g ≠ "") {s s' : World × Chan} (h : MonitorInv g s)
    (hs : MonitorStep s s') : MonitorInv g s' := by
  obtain ⟨hm, hch, hopen⟩ := h
  cases hs with
  | @write w w' ch hw =>
    dsimp only at hm hch hopen ⊢
    refine ⟨hm.grow hw.1, fun n hn => (hch n hn).trans (by rw [hw.2]; omega), fun hc => ?_⟩
    cases ch with
    | own => cases hc
    | notify n =>
      have := hch n rfl
      simp only [Chan.closed, hw.2, decide_eq_false_iff_not] at hc
      omega
  | @turn w w' ch n _ hx =>
    dsimp only at hm ⊢
    obtain ⟨hm', hle, hok⟩ := monitorTurn_triple hm hx
    obtain ⟨hsy, hq⟩ := hok rfl
    refine ⟨hm', fun k hk => (by cases hk; exact hle), fun hc => ?_⟩
    simp only [Chan.closed, decide_eq_false_iff_not] at hc
    have heof := hq.2 (by dsimp only at hle; omega)
    exact Source.pos_of_eof (hsy.2.gen.trans hm'.gen.symm) (hm'.gen ▸ hg)
      (by rw [hsy.2.gen]; exact hsy.2.bound) heof

/-- **The monitor's invariant holds on every run** from a world of the mirror invariant, the
monitor started with `LastPos()` zero on its own closed channel. -/
theorem MonitorInv.reach (hg : g ≠ "") {w₀ : World} (hm : Mirror g w₀) {s : World × Chan}
    (h : Relation.ReflTransGen MonitorStep ({ w₀ with pos := Pos.zero }, .own) s) :
    MonitorInv g s := by
  induction h with
  | refl => exact ⟨hm.restart, fun n hn => (by cases hn), fun hc => (by cases hc)⟩
  | tail _ hs ih => exact ih.step hg hs

end Monitor

end Litestream
