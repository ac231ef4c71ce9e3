import Litestream.SyncFrame
import Litestream.SyncEffect
/-!
# The WAL directories stay flat, so `compress` never compresses

`compress(g)` globs `**/*.wal` below the WAL directory of `g`: WAL files one directory further
down than the ones `WALPath` names.  Every directory the replica creates is made by `mkdirAll`
along a path no deeper than a WAL directory (`sync_calls`, `enforceRetention_calls`), and a
failed `mkdirAll` creates a prefix of its path (`Faulty.step_dir`).  So in every world a run of
the replica reaches, failed calls and crashes included, no WAL directory has a subdirectory, the
glob finds nothing, and `compress` returns `nil` having changed nothing: the sealed WAL files
`Sync` leaves behind are never compressed.

* `walFlat_step_faulty`, `walFlat_replicaStep`, `walFlat_reach`: the invariant;
* `compress_never_compresses`: the main theorem.
-/

namespace Litestream

section Flat

variable {rd : Adapter} {E : World → World → Prop} {g : String}

/-- A call that creates no directory deeper than a WAL directory, done or failed part way,
keeps WAL directories flat. -/
theorem walFlat_step_faulty {β : Type} {c : Call β} {w w' : World} {b : β} (hc : c.mkdirLen ≤ 3)
    (h : (Sem.faulty rd E).step c w b w') (hf : walFlat g w.fs) : walFlat g w'.fs := fun x hx =>
  (Faulty.step_dir h hx).elim (hf x) fun hl => by
    simp only [walDir, generationDir, List.length_append, List.length_cons,
      List.length_singleton] at hl
    omega

theorem Call.OfRetention.mkdirLen_le {β : Type} {c : Call β} (h : c.OfRetention) :
    c.mkdirLen ≤ 3 := by
  cases c
  case mkdirAll p =>
    obtain h | ⟨g, i, h⟩ := h
    exacts [h.elim, Call.OfSnapshot.mkdirLen_le h]
  all_goals exact Nat.zero_le 3

/-- `EnforceRetention` creates directories only along the snapshot directory it snapshots into. -/
theorem enforceRetention_calls (r : FileReplica) (isGen : GenerationName) :
    Prog.Calls (fun c => c.mkdirLen ≤ 3) (enforceRetention r isGen) :=
  (enforceRetention_footprint r isGen).calls.mono Call.OfRetention.mkdirLen_le

variable {r : FileReplica} {isGen : GenerationName} {w w' : World}

/-- **Every step of the replica keeps a WAL directory flat.** -/
theorem walFlat_replicaStep (h : ReplicaStep r isGen w w') (hf : walFlat g w.fs) :
    walFlat g w'.fs := by
  have hE : Stable Sem.replica fun w => walFlat g w.fs := fun _ _ h hw => by
    simpa only [h.1] using hw
  have hstep : ∀ {β : Type} {c : Call β} {w : World} {b : β} {w' : World},
      c.mkdirLen ≤ 3 → Sem.replica.step c w b w' → walFlat g w.fs → walFlat g w'.fs :=
    fun hc hs hw => walFlat_step_faulty hc hs hw
  cases h with
  | grow h => exact h.1 ▸ hf
  | sync h => exact Exec.preserve hstep hE h sync_calls hf
  | retain h => exact Exec.preserve hstep hE h (enforceRetention_calls r isGen) hf
  | syncCrash h => exact (Exec.preserve hstep hE h sync_calls hf :)
  | retainCrash h => exact (Exec.preserve hstep hE h (enforceRetention_calls r isGen) hf :)

/-- In every world a run of the replica reaches, every WAL directory is flat. -/
theorem walFlat_reach {src : Source} {clock : Int}
    (h : Relation.ReflTransGen (ReplicaStep r isGen) (World.fresh src clock) w) :
    walFlat g w.fs := by
  induction h with
  | refl => exact fun _ => FS.not_isDir_of_get_none rfl
  | tail _ hs ih => exact walFlat_replicaStep hs ih

/-- **`compress` never compresses.**  In every world a run of the replica reaches from an empty
destination, failed calls and crashes included, `compress(g)`, for every generation `g`,
returns `nil` and changes nothing. -/
theorem compress_never_compresses {src : Source} {clock : Int}
    (h : Relation.ReflTransGen (ReplicaStep r isGen) (World.fresh src clock) w) (g : String) :
    Returns rd (compress g) w (.ok ()) w := by
  simp [compress, Call.run, glob_compressPattern (walFlat_reach h)]

end Flat

/-- After two `Sync`s across the roll-over, WAL `0` is sealed and stays uncompressed. -/
theorem compress_never_compresses_rollOver :
    Relation.ReflTransGen (ReplicaStep hourReplica anyGeneration) (World.fresh indexZeroSource 0)
        rollOverWorld ∧
      rollOverWorld.fs.get (walPath "g" 0) = some (.file (.raw [1, 2]) 0) ∧
      rollOverWorld.fs.get (walPath "g" 1) = some (.file (.raw [3]) 0) ∧
      Returns Source.shadowWALReader (compress "g") rollOverWorld (.ok ()) rollOverWorld :=
  ⟨rollOver_reach, rfl, rfl, compress_never_compresses rollOver_reach "g"⟩

end Litestream
