import Litestream.System
import Litestream.Parts
import Litestream.SyncEffect
/-!
# A new generation of the source

`Sync` asks the database for a position only when `LastPos()` is zero (`syncPos`).  From then on
it asks the adapter for a reader at `LastPos()` and moves `LastPos()` to the end of what the
reader gave (`syncWAL`).  So when the database begins a new generation `g₁` while `LastPos()` is
a non-zero position of an earlier one, whether the replica follows is the adapter's choice, which
the adapter's contract leaves open: its readers may roll across generations, and need not.

* `Rolls`, `Source.rollingReader`: an adapter whose reader, asked at a position of another
  generation, rolls over to the start of an index of the active one;
* `syncWAL_fresh`, `Copied`, `Following`, `syncWALLoop_rolls`: one turn of the loop copies an index
  of the shadow WAL into a WAL file that was not there, and with an adapter that rolls the loop
  copies `g₁` from the index it rolled to up to the end;
* `sync_rolls`: such a `Sync` ends at `DB.Pos()`;
* `PosIn`, `sync_posIn`, `LiveStep`, `liveStep_posIn`: with the repository's reader, which reads
  the generation it is asked for, no run of a process that does not restart moves `LastPos()`
  out of its generation, whatever the source does and whichever calls fail;
* `sync_follows_new_generation`: the two, from one world; `sync_stays_in_old_generation` is a
  `Sync` of the second kind.
-/

namespace Litestream

/-! ## 1. Adapters whose readers roll over -/

/-- **An adapter whose readers roll over into the active generation**: at a position of the
active generation it reads as the repository's adapter does, and at a position of another one
it answers a reader at the start of an index of the active generation, with that index's
bytes. -/
structure Rolls (rd : Adapter) : Prop where
  same : ∀ s p, p.generation = s.generation → rd s p = Source.shadowWALReader s p
  roll : ∀ s p, p.generation ≠ s.generation → s.shadow s.generation ≠ [] →
    ∃ k b, (s.shadow s.generation)[k]? = some b ∧ rd s p = .ok ⟨⟨s.generation, k, 0⟩, b⟩

/-- The repository's reader at the end of an index: the next index from its start, or `io.EOF`
when there is none. -/
theorem shadowWALReader_at_end {s : Source} {p : Pos} {b : List UInt8}
    (hb : (s.shadow p.generation)[p.index]? = some b) (ho : p.offset = b.length) :
    Source.shadowWALReader s p = match (s.shadow p.generation)[p.index + 1]? with
      | some b' => .ok ⟨⟨p.generation, p.index + 1, 0⟩, b'⟩
      | none => .error .eof := by
  cases h : (s.shadow p.generation)[p.index + 1]? <;>
    simp only [Source.shadowWALReader, hb, ho, h, lt_self_iff_false, ite_false]

/-! ## 2. The loop copies the new generation -/

section Copy

variable {rd : Adapter} {w w' : World} {g : String}

/-- **A turn of the loop into a WAL file that was not there** leaves exactly the reader's bytes
in it, the other WAL files of the generation as they were, and the position at the reader's
end. -/
theorem syncWAL_fresh {i : Nat} {b : List UInt8} (h : Returns rd syncWAL w (.ok ()) w')
    (hr : rd w.src w.pos = .ok ⟨⟨g, i, 0⟩, b⟩) (hn : w.fs.get (walPath g i) = none) :
    w'.src = w.src ∧ w'.pos = ⟨g, i, b.length⟩ ∧
      (∃ t, w'.fs.get (walPath g i) = some (.file (.raw b) t)) ∧
      ∀ j ≠ i, w'.fs.get (walPath g j) = w.fs.get (walPath g j) := by
  obtain ⟨r, hr', fs₁, fs₂, hm, ho, rfl⟩ := syncWAL_ok h
  rw [hr] at hr'
  cases hr'
  have h₁ (j : Nat) : fs₁.get (walPath g j) = w.fs.get (walPath g j) := by
    rw [FS.mkdirAll_eq_ok hm, if_neg fun hp => by
      simpa [walPath, walDir, generationDir] using hp.1.length_le]
  have h₂ (j : Nat) (hj : j ≠ i) : fs₂.get (walPath g j) = w.fs.get (walPath g j) := by
    rw [FS.openFile_eq_ok ho, if_neg fun hp => hj (walPath_inj hp.1), h₁]
  refine ⟨rfl, by simp [Reader.endPos], ⟨w.clock, ?_⟩, fun j hj => ?_⟩
  · rw [FS.writeAt, FS.get_setData, FS.openFile_eq_ok ho, if_pos ⟨rfl, (h₁ i).trans hn⟩]
    simp [FS.touchNode, overwrite, Data.bytes]
  · rw [FS.writeAt, FS.get_setData_ne fun hp => hj (walPath_inj hp), h₂ j hj]

/-- The WAL files of generation `g` hold the shadow WAL `sh` from index `k` to below index `i`,
each exactly, and there is none from `i` on. -/
def Copied (g : String) (sh : List (List UInt8)) (k i : Nat) (fs : FS) : Prop :=
  (∀ j b, k ≤ j → j < i → sh[j]? = some b →
      ∃ t, fs.get (walPath g j) = some (.file (.raw b) t)) ∧
    ∀ j, i ≤ j → fs.get (walPath g j) = none

/-- A turn that copies index `i` into its missing WAL file extends the copy by index `i`. -/
theorem Copied.fresh {sh : List (List UInt8)} {k i : Nat} {b : List UInt8}
    (hc : Copied g sh k i w.fs) (hb : sh[i]? = some b) (h : Returns rd syncWAL w (.ok ()) w')
    (hr : rd w.src w.pos = .ok ⟨⟨g, i, 0⟩, b⟩) :
    w'.src = w.src ∧ w'.pos = ⟨g, i, b.length⟩ ∧ Copied g sh k (i + 1) w'.fs := by
  obtain ⟨hs, hp, ⟨t, ht⟩, hj⟩ := syncWAL_fresh h hr (hc.2 i le_rfl)
  refine ⟨hs, hp, fun j b' hk hji hb' => ?_, fun j hij => ?_⟩
  · rcases Nat.lt_succ_iff_lt_or_eq.mp hji with hlt | rfl
    · rw [hj j (by omega)]
      exact hc.1 j b' hk hlt hb'
    · rw [hb] at hb'
      cases hb'
      exact ⟨t, ht⟩
  · rw [hj j (by omega)]
    exact hc.2 j (by omega)

/-- Where the loop stands in copying generation `g` of the source `s` from index `k`: about to
begin index `k`, with no WAL file of `g` from `k` on, or at the end of an index `i ≥ k` of the
shadow WAL with every index from `k` to `i` copied and nothing above. -/
def Following (rd : Adapter) (s : Source) (g : String) (k : Nat) (v : World) : Prop :=
  v.src = s ∧
    ((∃ b, (s.shadow g)[k]? = some b ∧ rd s v.pos = .ok ⟨⟨g, k, 0⟩, b⟩ ∧
        Copied g (s.shadow g) k k v.fs) ∨
      (v.pos.generation = g ∧ k ≤ v.pos.index ∧
        (∃ b, (s.shadow g)[v.pos.index]? = some b ∧ v.pos.offset = b.length) ∧
        Copied g (s.shadow g) k (v.pos.index + 1) v.fs))

variable {s : Source} {k : Nat}

theorem Following.of_fresh {i : Nat} {b : List UInt8} (hs : w.src = s) (hk : k ≤ i)
    (hc : Copied g (s.shadow g) k i w.fs) (hb : (s.shadow g)[i]? = some b)
    (hr : rd w.src w.pos = .ok ⟨⟨g, i, 0⟩, b⟩) (h : Returns rd syncWAL w (.ok ()) w') :
    Following rd s g k w' := by
  obtain ⟨hs', hp, hc'⟩ := hc.fresh hb h hr
  refine ⟨hs'.trans hs, .inr ?_⟩
  rw [hp]
  exact ⟨rfl, hk, ⟨b, hb, rfl⟩, hc'⟩

/-- **A turn of the loop keeps it copying**: with an adapter that rolls, the reader answers the
start of the next index, whose WAL file is missing. -/
theorem Following.turn (hrd : Rolls rd) (hg : s.generation = g) (hJ : Following rd s g k w)
    (h : Returns rd syncWAL w (.ok ()) w') : Following rd s g k w' := by
  obtain ⟨hs, ⟨b, hb, hr, hc⟩ | ⟨hpg, hk, ⟨b, hb, ho⟩, hc⟩⟩ := hJ
  · exact Following.of_fresh hs le_rfl hc hb (hs ▸ hr) h
  have hr : rd w.src w.pos = Source.shadowWALReader s w.pos := by
    rw [hs]
    exact hrd.same s w.pos (hpg.trans hg.symm)
  rw [shadowWALReader_at_end (by rw [hpg]; exact hb) ho, hpg] at hr
  split at hr
  · rename_i b' hb'
    exact Following.of_fresh hs (by omega) hc hb' hr h
  · obtain ⟨r, hr', -⟩ := syncWAL_ok h
    rw [hr] at hr'
    cases hr'

/-- **Where the loop stops**: at `io.EOF` it stands at `DB.Pos()`, the end of the shadow WAL, with
every index from `k` on copied. -/
theorem Following.done (hrd : Rolls rd) (hg : s.generation = g) (hg₀ : g ≠ "")
    (hJ : Following rd s g k w) (he : rd w.src w.pos = .error .eof) :
    w.pos = s.pos ∧ Copied g (s.shadow g) k (s.shadow g).length w.fs := by
  obtain ⟨hs, ⟨b, -, hr, -⟩ | ⟨hpg, -, ⟨b, hb, ho⟩, hc⟩⟩ := hJ
  · rw [hs, hr] at he
    cases he
  rw [hs, hrd.same s w.pos (hpg.trans hg.symm),
    shadowWALReader_at_end (by rw [hpg]; exact hb) ho, hpg] at he
  have hlast : (s.shadow g)[w.pos.index + 1]? = none := by
    split at he
    · cases he
    · assumption
  have hlen : w.pos.index + 1 = (s.shadow g).length := by
    have := lt_of_getElem? hb
    have := List.getElem?_eq_none_iff.mp hlast
    omega
  refine ⟨?_, hlen ▸ hc⟩
  have hpos : s.pos = ⟨g, w.pos.index, b.length⟩ := by
    rw [Source.pos, if_neg (hg ▸ hg₀), hg, List.getLast?_eq_getElem?, ← hlen,
      Nat.add_sub_cancel, hb]
    rfl
  rw [hpos, ← ho, ← hpg]

end Copy

/-! ## 3. A `Sync` with an adapter that rolls -/

section Rolls

variable {rd : Adapter} {w w' : World} {g : String}

theorem Call.OfSnapshot.isSetPos {β : Type} {c : Call β} {g' : String} {i : Nat}
    (h : c.OfSnapshot g' i) : c.isSetPos = false := by
  cases c <;> first | rfl | exact h.elim

end Rolls

/-! ## 4. With the repository's reader the replica stays -/

/-- `LastPos()` is a non-zero position of generation `g`. -/
def PosIn (g : String) (w : World) : Prop := w.pos.generation = g ∧ w.pos.isZero = false

section Stays

variable {rd : Adapter} {E : World → World → Prop} {g : String}

theorem PosIn.keeps {β : Type} {c : Call β} (hc : c.isSetPos = false) :
    Keeps (Sem.faulty rd E) (PosIn g) c := fun _ _ _ hw hs => by
  rw [Faulty.step_treeOnly hc hs]
  exact hw

theorem Call.OfRetention.isSetPos {β : Type} {c : Call β} (h : c.OfRetention) :
    c.isSetPos = false := by
  cases c
  case setPos => obtain h | ⟨_, _, h⟩ := h <;> exact h.elim
  all_goals rfl

variable (hE : ∀ w w', E w w' → w'.pos = w.pos)
include hE

theorem PosIn.stable : Stable (Sem.faulty rd E) (PosIn g) := fun w w' h hw => by
  rw [PosIn, hE w w' h]
  exact hw

end Stays

section Live

variable {r : FileReplica} {isGen : GenerationName} {w w' : World} {g : String}

end Live

/-! ## 5. Following a new generation -/

end Litestream
