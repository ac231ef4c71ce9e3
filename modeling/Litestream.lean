import Litestream.Fs
import Litestream.Codec
import Litestream.World
import Litestream.Prog
import Litestream.Replica.Layout
import Litestream.Replica.Listing
import Litestream.Replica.Sync
import Litestream.Replica.Retention
import Litestream.Footprint
import Litestream.Lookup
import Litestream.Compress
import Litestream.RetentionEffect
import Litestream.SyncEffect
import Litestream.Faulty
import Litestream.Parts
import Litestream.CompressSafe
import Litestream.Mirror.Invariant
import Litestream.Mirror.Steps
import Litestream.Mirror.Copy
import Litestream.Mirror.Sync
import Litestream.Mirror.Retention
import Litestream.RetentionSafe
import Litestream.System
import Litestream.NewGeneration
import Litestream.SoundSnapshots
import Litestream.Restore
import Litestream.SyncFrame
import Litestream.FlatWAL
import Litestream.Shape
import Litestream.Progress.Sync
import Litestream.Progress.Retention
import Litestream.Monitor
import Litestream.Interleave
import Litestream.Start
import Litestream.Guarded
import Litestream.WithinShadow
import Litestream.Inventory
