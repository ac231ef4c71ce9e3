import Litestream.SoundSnapshots
/-!
# What a restore reads, wherever the replica stopped

A restore of generation `g` starts from the latest snapshot, the index `MaxSnapshotIndex(g)`
answers, and replays the WAL files from that index on, each read with `WALReader`.  `Fidelity`
(`Litestream.System`) says what the destination holds after a `Sync` that returned `nil`.  Here
the replica may have stopped anywhere: in every world a run of the replica reaches, those a
crash or a failed call leaves included, the WAL chain from the latest snapshot on has no gap and
no byte the source did not write.

* `walReader_ok_file`: on a mirrored tree, what `WALReader` reads is an uncompressed WAL file;
* `above_of_maxSnapshotIndex`: the index `MaxSnapshotIndex` answers is the latest snapshot's;
* `wal_chain_consistent`: the WAL file of an index at or above it holds a prefix of what the
  source wrote there, and every index between the snapshot and it reads back whole.
-/

namespace Litestream

section Restore

variable {rd : Adapter} {g : String} {w w₁ : World} {sh : List (List UInt8)}

/-- On a tree that mirrors `g`, `WALReader(g, k)` reads bytes only from the uncompressed file of
`k`, and changes nothing. -/
theorem walReader_ok_file {k : Nat} {d : List UInt8} (ht : Tree g w.fs sh)
    (h : Returns rd (walReader g k) w (.ok d) w₁) :
    w₁ = w ∧ ∃ t, w.fs.get (walPath g k) = some (.file (.raw d) t) := by
  by_cases hF : w.fs.get (walPath g k) = none
  · cases (Returns.det h (walReader_absent ht hF)).1
  · obtain ⟨d', t, hF⟩ := ht.wal_file hF
    obtain ⟨hd, rfl⟩ := Returns.det h (walReader_file hF)
    cases hd
    exact ⟨rfl, t, hF⟩

/-- The index `MaxSnapshotIndex(g)` answers is a snapshot's on disk, at or above every other,
and the lookup changes nothing. -/
theorem above_of_maxSnapshotIndex {S : Nat} (h : Returns rd (maxSnapshotIndex g) w (.ok S) w₁) :
    w₁ = w ∧ HasSnap g w.fs S ∧ Above g w.fs S := by
  obtain ⟨rfl, hs⟩ := hasSnap_of_maxSnapshotIndex h
  obtain ⟨S', -, hA, h'⟩ := @maxSnapshotIndex_latest rd _ _ _ hs
  cases (Returns.det h h').1
  exact ⟨rfl, hs, hA⟩

variable {r : FileReplica} {isGen : GenerationName}

/-- **The WAL chain a restore reads is consistent, wherever the replica stopped.**  In every
world a run of the replica reaches from an empty destination, failed calls and crashes included:
when `MaxSnapshotIndex(g)` answers `S` and `WALReader(g, k)` reads bytes `d` at an index `k` at
or above `S`, then `d` is a prefix of what the source wrote at `k`, and every index from `S` up
to `k` reads back whole, as the source wrote it (an index the source left empty may have no
file). -/
theorem wal_chain_consistent {src : Source} {clock : Int} (hne : src.shadow src.generation ≠ [])
    (h : Relation.ReflTransGen (ReplicaStep r isGen) (World.fresh src clock) w)
    {S k : Nat} {d : List UInt8} {w₂ : World}
    (hS : Returns rd (maxSnapshotIndex src.generation) w (.ok S) w₁)
    (hk : Returns rd (walReader src.generation k) w (.ok d) w₂) (hSk : S ≤ k) :
    (∃ b, (w.src.shadow src.generation)[k]? = some b ∧ d <+: b) ∧
      ∀ j, S ≤ j → j < k →
        ∃ b, (w.src.shadow src.generation)[j]? = some b ∧ ReadsBack src.generation w j b := by
  have ht := (Mirror.reach hne h).tree
  obtain ⟨-, -, hA⟩ := above_of_maxSnapshotIndex hS
  obtain ⟨-, t, hF⟩ := walReader_ok_file ht hk
  have habove (j : Nat) (hj : S ≤ j) : Above src.generation w.fs j :=
    fun k' hk' => (hA k' hk').trans hj
  refine ⟨ht.walPrefix k d t hF (habove k hSk), fun j hSj hjk => ?_⟩
  exact (ht.walComplete k (by simp [hF]) j hjk (habove j hSj)).readsBack ht

/-- The destination after two `Sync`s across a roll-over of `indexZeroSource`: the second runs
once the source has begun index `1`. -/
def rollOverWorld : World :=
  sync.after Source.shadowWALReader 60 { indexZeroReplica with src := indexOneSource }

/-- Two `Sync`s across the roll-over are a run of the replica. -/
theorem rollOver_reach :
    Relation.ReflTransGen (ReplicaStep hourReplica anyGeneration) (World.fresh indexZeroSource 0)
      rollOverWorld :=
  have h₁ : ReplicaStep hourReplica anyGeneration (World.fresh indexZeroSource 0) indexZeroReplica :=
    .sync (Returns.faulty (Prog.run_sound 60 sync _ (.ok ()) indexZeroReplica rfl))
  have h₂ : ReplicaStep hourReplica anyGeneration indexZeroReplica
      { indexZeroReplica with src := indexOneSource } :=
    .grow ⟨rfl, rfl, rfl, ShadowLe.append [[1, 2]] [[3]]⟩
  ((Relation.ReflTransGen.single h₁).tail h₂).tail
    (@ReplicaStep.sync _ _ _ _ (.ok ()) (Returns.faulty (Returns.after 60 rfl)))

/-- From snapshot `0`, WAL `0` reads back whole and WAL `1` as the byte the source wrote there. -/
theorem wal_chain_consistent_rollOver :
    Relation.ReflTransGen (ReplicaStep hourReplica anyGeneration) (World.fresh indexZeroSource 0)
        rollOverWorld ∧
      Returns Source.shadowWALReader (maxSnapshotIndex "g") rollOverWorld (.ok 0) rollOverWorld ∧
      Returns Source.shadowWALReader (walReader "g" 1) rollOverWorld (.ok [3]) rollOverWorld ∧
      (∃ b, (rollOverWorld.src.shadow "g")[1]? = some b ∧ [3] <+: b) ∧
      ∀ j, 0 ≤ j → j < 1 →
        ∃ b, (rollOverWorld.src.shadow "g")[j]? = some b ∧ ReadsBack "g" rollOverWorld j b :=
  have hS : Returns Source.shadowWALReader (maxSnapshotIndex "g") rollOverWorld (.ok 0)
      rollOverWorld := Prog.run_sound 20 _ _ _ _ rfl
  have hk : Returns Source.shadowWALReader (walReader "g" 1) rollOverWorld (.ok [3])
      rollOverWorld := Prog.run_sound 20 _ _ _ _ rfl
  ⟨rollOver_reach, hS, hk, wal_chain_consistent (by decide) rollOver_reach hS hk (Nat.zero_le 1)⟩

end Restore

end Litestream
