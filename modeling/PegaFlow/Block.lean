import Mathlib.Algebra.Ring.Nat
import PegaFlow.Lib.Table

/-!
# Blocks

The data types of the storage engine (`pegaflow-common/src/block.rs`,
`pegaflow-core/src/block.rs`, `pegaflow-core/src/seal_offload.rs`).

A hash map of the source is a `Table`.  No modelled function depends on the
iteration order of a hash map.

A pinned allocation is a number, and a host pointer is an allocation with an
offset into it.  Two live allocations never share a byte, so the pair says all
that an address says.  `MappedPinnedPtr` pairs the host address of a pinned
byte with the address the device sees it at; both name the same byte, and the
model keeps the one `HostPtr`.
-/

namespace PegaFlow

abbrev BlockHash := List UInt8

/-- The key of a stored block: the namespace isolates models from each other. -/
structure BlockKey where
  nameSpace : String
  hash : BlockHash
deriving DecidableEq, Repr

/-- A NUMA node number. -/
structure NumaNode where
  id : Nat
deriving DecidableEq, Repr

/-- `NumaNode::UNKNOWN`. -/
def NumaNode.unknown : NumaNode := ⟨2 ^ 32 - 1⟩

/-- An address in pinned host memory. -/
structure HostPtr where
  alloc : Nat
  offset : Nat
deriving DecidableEq, Repr

/-- `MappedPinnedPtr::add`. -/
def HostPtr.add (p : HostPtr) (n : Nat) : HostPtr := ⟨p.alloc, p.offset + n⟩

/-- One contiguous segment of pinned memory. -/
structure Segment where
  ptr : HostPtr
  size : Nat
deriving DecidableEq, Repr

/-- A storage-level block: an ordered list of segments. -/
structure RawBlock where
  segments : List Segment
deriving DecidableEq, Repr

namespace RawBlock

variable (b : RawBlock) (index : Nat)

def numSegments : Nat := b.segments.length

def segmentMappedPtr : Option HostPtr :=
  b.segments[index]?.map Segment.ptr

def segmentSize : Option Nat :=
  b.segments[index]?.map Segment.size

/-- The total size over all segments, which the constructors of the source
cache in a field. -/
def memoryFootprint : Nat := (b.segments.map Segment.size).sum

def singleSegment (segment : Segment) : RawBlock := ⟨[segment]⟩

def twoSegments (kSegment vSegment : Segment) : RawBlock := ⟨[kSegment, vSegment]⟩

end RawBlock

/-- An immutable block with all its slots filled. -/
structure SealedBlock where
  slots : List RawBlock
  footprint : Nat
  slotNumas : List NumaNode
  numas_length : slotNumas.length = slots.length
deriving DecidableEq

namespace SealedBlock

def getSlot (b : SealedBlock) (slotId : Nat) : Option RawBlock := b.slots[slotId]?

def memoryFootprint (b : SealedBlock) : Nat := b.footprint

/-- `SealedBlock::from_slots`: the footprint is the sum over the slots. -/
def fromSlots (slots : List (RawBlock × NumaNode)) : SealedBlock where
  slots := slots.map Prod.fst
  footprint := (slots.map fun p => p.1.memoryFootprint).sum
  slotNumas := slots.map Prod.snd
  numas_length := by simp

/-- A block of one slot with one segment. -/
def plain (size : Nat) : SealedBlock :=
  fromSlots [(.singleSegment ⟨⟨0, 0⟩, size⟩, .unknown)]

end SealedBlock

/-- What the SSD index remembers of one slot, to rebuild it. -/
structure SlotMeta where
  segmentSizes : List Nat
  numaNode : NumaNode
deriving DecidableEq, Repr

/-- `SlotMeta::total_size`, the sum `SlotMeta::new` caches. -/
def SlotMeta.totalSize (m : SlotMeta) : Nat := m.segmentSizes.sum

/-- The metadata of every slot of a block, as `prepare_batch` records it. -/
def SealedBlock.slotMetas (b : SealedBlock) : List SlotMeta :=
  List.zipWith (fun s numa => ⟨s.segments.map Segment.size, numa⟩) b.slots b.slotNumas

end PegaFlow
