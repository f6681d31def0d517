import UnboxedRecords.Registry.WordTypes
import UnboxedRecords.UnboxedType.Shapes
import UnboxedRecords.Record.Packing
import UnboxedRecords.Heap.Tracing
import UnboxedRecords.Proofs.RawStorage.Exactness
import UnboxedRecords.Proofs.Record.Accepted
import UnboxedRecords.Proofs.Record.Partition
import UnboxedRecords.Proofs.Record.Tightness
import UnboxedRecords.Proofs.UnboxedType.Alignment
import UnboxedRecords.Proofs.UnboxedType.Acceptance
import UnboxedRecords.Proofs.UnboxedType.Equality
import UnboxedRecords.Proofs.UnboxedType.Warnings
import UnboxedRecords.Proofs.Memory.Allocation
import UnboxedRecords.Proofs.Memory.Runs
import UnboxedRecords.Proofs.Heap.Runs
import UnboxedRecords.Proofs.Heap.Effects
import UnboxedRecords.Proofs.Heap.References
import UnboxedRecords.Proofs.Heap.Reachability
import UnboxedRecords.Proofs.Heap.Faults
import UnboxedRecords.Proofs.Heap.Isolation
import UnboxedRecords.Proofs.Heap.Opacity
import UnboxedRecords.Proofs.Heap.Alignment
import UnboxedRecords.Proofs.Heap.Atomicity
import UnboxedRecords.Proofs.Heap.RoundTrip
import UnboxedRecords.Proofs.Heap.Visits
import UnboxedRecords.Proofs.Registry.Numbering
import UnboxedRecords.Proofs.Registry.ClosedWorld
import UnboxedRecords.Proofs.Heap.DiscoveryOrder
import UnboxedRecords.Proofs.Heap.Locality
import UnboxedRecords.Proofs.Memory.Room
import UnboxedRecords.Proofs.Heap.Capacity
import UnboxedRecords.Proofs.Heap.Filling
import UnboxedRecords.Proofs.Heap.Exhaustion
import UnboxedRecords.Proofs.Heap.Padding
import UnboxedRecords.Proofs.Record.Atomicity
import UnboxedRecords.Proofs.Record.Embedding
import UnboxedRecords.Proofs.Record.Equality
import UnboxedRecords.Proofs.Record.Packing
import UnboxedRecords.Proofs.UnboxedType.Shapes
import UnboxedRecords.Proofs.Registry.WordTypes
