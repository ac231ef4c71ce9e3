import Litestream.Replica.Sync
/-!
# The compression sweep finds nothing

`compress(generation)` is meant to gzip every sealed WAL file of the generation (spec §4.6,
§6.2: "all prior WALs are compressed").  It finds them with
`filepath.Glob(filepath.Join(r.WALDir(generation), "**/*.wal"))`.  Go's `filepath.Match` has no
recursive wildcard: `**` is two `*`, which match one path component, so the pattern names the
`.wal` files one directory *below* the WAL directory.  `WALPath` puts them directly in it.

* `glob_compressPattern`: in a WAL directory with no subdirectory the glob is empty;
* `compress_flat`: there `compress` succeeds and changes nothing;
* `sync_leaves_sealed_wal`: two `Sync`s across an index roll-over leave both WAL files
  uncompressed.
-/

namespace Litestream

/-- **The glob of `compress` needs a subdirectory**: below a directory with no subdirectory
the pattern `**/*.wal` matches nothing. -/
theorem glob_compressPattern {fs : FS} {dir : Path} (h : ∀ x, ¬ fs.IsDir (dir ++ [x])) :
    fs.glob dir compressPattern = [] := by
  rw [compressPattern, FS.glob]
  split
  · rw [List.flatMap_eq_nil_iff]
    intro x _
    rw [FS.glob]
    split
    · exact absurd (FS.isDir_of_get ‹_›) (h x)
    · rfl
  · rfl

/-- **`compress` does nothing on the layout `Sync` writes**: when the WAL directory has no
subdirectory, `compress` returns `nil` and leaves the world as it was. -/
theorem compress_flat {rd : Adapter} {w : World} {generation : String}
    (h : ∀ x, ¬ w.fs.IsDir (walDir generation ++ [x])) :
    Returns rd (compress generation) w (.ok ()) w := by
  simp [compress, Call.run, glob_compressPattern h]

theorem compress_flat_fresh :
    (∀ x, ¬ (World.fresh Source.empty 0).fs.IsDir (walDir "g" ++ [x])) ∧
      Returns Source.shadowWALReader (compress "g") (World.fresh Source.empty 0) (.ok ())
        (World.fresh Source.empty 0) :=
  have h : ∀ x, ¬ (World.fresh Source.empty 0).fs.IsDir (walDir "g" ++ [x]) :=
    fun _ => FS.not_isDir_of_get_none rfl
  ⟨h, compress_flat h⟩

/-- A source in generation `g` whose shadow WAL holds two bytes at index `0`. -/
def indexZeroSource : Source :=
  ⟨"g", fun g => if g = "g" then [[1, 2]] else [], [7], 0, fun _ => by dsimp only; split <;> decide⟩

/-- The same source once it has begun index `1`. -/
def indexOneSource : Source :=
  ⟨"g", fun g => if g = "g" then [[1, 2], [3]] else [], [7], 0,
    fun _ => by dsimp only; split <;> decide⟩

/-- The destination after the first `Sync` of `indexZeroSource`: snapshot `0` and WAL `0`. -/
def indexZeroReplica : World :=
  ⟨⟨[(walPath "g" 0, .file (.raw [1, 2]) 0), (walDir "g", .dir 4096 0),
      (snapshotPath "g" 0, .file (.gzip (.raw [7])) 0), (snapshotDir "g", .dir 4096 0),
      (generationDir "g", .dir 4096 0), (["generations"], .dir 4096 0)], by decide, by decide⟩,
    indexZeroSource, ⟨"g", 0, 2⟩, 0, false⟩

/-- **Two `Sync`s across a roll-over leave a sealed WAL file uncompressed.**  The first `Sync`
snapshots `indexZeroSource` and copies index `0`; the source then begins index `1`, and the
second `Sync` copies it.  Both WAL files are left as `.wal`, and index `0` has no `.wal.gz`. -/
theorem sync_leaves_sealed_wal :
    ∃ w₁ w₂,
      Returns Source.shadowWALReader sync (World.fresh indexZeroSource 0) (.ok ()) w₁ ∧
      Returns Source.shadowWALReader sync { w₁ with src := indexOneSource } (.ok ()) w₂ ∧
      w₂.fs.get (walPath "g" 0) = some (.file (.raw [1, 2]) 0) ∧
      w₂.fs.get (walPath "g" 1) = some (.file (.raw [3]) 0) ∧
      w₂.fs.get (addExt (walPath "g" 0) ".gz") = none :=
  ⟨indexZeroReplica, _, Prog.run_sound 60 _ _ _ _ rfl, Returns.after 60 rfl, rfl, rfl, rfl⟩

end Litestream
