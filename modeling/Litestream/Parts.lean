import Litestream.Faulty
import Litestream.Replica.Sync
/-!
# What `Sync` and `compress` keep, from what their parts keep

Each invariant proved over every run of `Sync` takes the same two steps.  `compress` runs
`compressLoop` on what its glob found, and `Sync` runs its parts in order, stopping at the first
error.  The two steps are stated once here, for a `P` that the environment keeps; an invariant
then proves its parts:

* `compress_triple_of`: `compress` keeps what `compressLoop` keeps on every list of paths its glob
  can find;
* `sync_triple_of`: `Sync` keeps what its snapshot step, its position step, its loop and
  `compress` keep.
-/

namespace Litestream

section Parts

variable {rd : Adapter} {E : World → World → Prop} {P : World → Prop}
  (hP : Stable (Sem.faulty rd E) P)
include hP

/-- **`compress` keeps what `compressLoop` keeps on what its glob can find.** -/
theorem compress_triple_of {g : String}
    (hloop : ∀ filenames : List Path,
      (∀ p ∈ filenames, ∃ fs : FS, p ∈ fs.glob (walDir g) compressPattern) →
        Triple (Sem.faulty rd E) P P (compressLoop filenames) fun _ => P) :
    Triple (Sem.faulty rd E) P P (compress g) fun _ => P := by
  unfold compress
  refine Triple.bind
    (Q := fun ps w => P w ∧ ∀ p ∈ ps, ∃ fs : FS, p ∈ fs.glob (walDir g) compressPattern)
    (Triple.call_stable hP (fun _ h => h) fun w ps w' hw hs => ?_) fun ps => ?_
  · obtain ⟨rfl, hsub⟩ := Faulty.step_glob hs
    exact ⟨hw, fun p hp => ⟨_, hsub.subset hp⟩⟩
  dsimp only
  split
  · exact Triple.pure fun _ h => h.1
  refine Triple.intro_pure (fun w hw => hw.2) fun hps => ?_
  refine (hloop _ fun p hp => hps p ?_).conseq (fun _ h => h.1) fun _ _ h => h
  exact (List.perm_insertionSort _ _).subset ((List.dropLast_sublist _).subset hp)

/-- **`Sync` keeps what each of its parts keeps**: `DB.Pos()` only reads. -/
theorem sync_triple_of
    (hsnap : ∀ g i, Triple (Sem.faulty rd E) P P (syncSnapshot g i) fun _ => P)
    (hpos : ∀ g, Triple (Sem.faulty rd E) P P (syncPos g) fun _ => P)
    (hloop : Triple (Sem.faulty rd E) P P syncWALLoop fun _ => P)
    (hcomp : ∀ g, Triple (Sem.faulty rd E) P P (compress g) fun _ => P) :
    Triple (Sem.faulty rd E) P P sync fun _ => P := by
  have hpure : ∀ {α : Type} (a : α), Triple (Sem.faulty rd E) P P (pure a) fun _ => P :=
    fun _ => Triple.pure fun _ h => h
  unfold sync
  refine Triple.bind (Triple.call_stable hP (fun _ h => h) fun _ _ _ hw hs =>
    Faulty.step_read (by rfl) hs ▸ hw) fun r => ?_
  rcases r with e | dpos
  · exact hpure _
  dsimp only
  split
  · exact hpure _
  refine Triple.bind (hsnap _ _) fun r => ?_
  rcases r with e | ⟨⟩
  · exact hpure _
  refine Triple.bind (hpos _) fun r => ?_
  rcases r with e | ⟨⟩
  · exact hpure _
  refine Triple.bind hloop fun r => ?_
  rcases r with e | ⟨⟩
  · exact hpure _
  dsimp only
  split
  · exact Triple.bind (hcomp _) fun r => by rcases r <;> exact hpure _
  · exact hpure _

end Parts

end Litestream
