import PegaFlow.Block
import PegaFlow.Lib.Range

/-!
# The SSD ring buffer

`SsdRingBuffer` of `pegaflow-core/src/backing/ssd_cache.rs`: the space
allocator of the cache files and the index of what is stored in them.

Each shard is one file used as a ring.  Its `head` and `tail` are logical
offsets that only grow; the byte at logical offset `x` is stored at file offset
`x % capacity`.  They are `u64` in the source and natural numbers here, since
2^64 written bytes are out of reach.  The keys are only compared, so they are a
type parameter.

`prepareBatch` filters the candidates, allocates space for each of the rest and
enters it as `writing`.  `commit` is called by key when a write has finished and
turns `writing` into `committed`, or drops the entry.  `get` returns only
committed entries that the tail has not passed.
-/

namespace PegaFlow.Ssd

variable {κ : Type}

/-- Metadata of a block stored in the SSD cache: the cache file, the logical
offset in its ring, the size, the offset in the file, and what is needed to
rebuild the slots. -/
structure SsdIndexEntry where
  shardId : Nat
  begin : Nat
  len : Nat
  fileOffset : Nat
  slots : List SlotMeta
deriving DecidableEq

/-- The logical offsets of an allocation. -/
def SsdIndexEntry.logicalRange (e : SsdIndexEntry) : ByteRange := ⟨e.begin, e.len⟩

/-- The bytes of the cache file an allocation takes. -/
def SsdIndexEntry.fileRange (e : SsdIndexEntry) : ByteRange := ⟨e.fileOffset, e.len⟩

/-- State of an index entry.  A `writing` entry is not readable. -/
inductive SsdEntryState where
  | writing (entry : SsdIndexEntry)
  | committed (entry : SsdIndexEntry)
deriving DecidableEq

def SsdEntryState.entry : SsdEntryState → SsdIndexEntry
  | .writing e => e
  | .committed e => e

/-- The ring of one cache file, with the keys in allocation order. -/
structure SsdShardRing (κ : Type) where
  capacity : Nat
  head : Nat
  tail : Nat
  order : List κ

/-- The rings of all cache files, the round-robin cursor for the next write and
the index. -/
structure SsdRingBuffer (κ : Type) where
  shards : List (SsdShardRing κ)
  nextShard : Nat
  entries : Table κ SsdEntryState
  next_lt : nextShard < shards.length

/-- A block write that `prepareBatch` hands to the writer, with the space
allocated for it. -/
structure WriteInfo (κ : Type) where
  key : κ
  block : SealedBlock
  entry : SsdIndexEntry
deriving DecidableEq

/-- The shard `new_sharded` makes for one capacity. -/
def SsdShardRing.new (capacity : Nat) : SsdShardRing κ := ⟨capacity, 0, 0, []⟩

/-- Where the next allocation starts: a block that does not fit before the end of
the file starts at the next wrap point. -/
def SsdShardRing.beginFor (shard : SsdShardRing κ) (size : Nat) : Nat :=
  let phys := shard.head % shard.capacity
  let spaceUntilEnd := shard.capacity - phys
  if spaceUntilEnd < size then shard.head + spaceUntilEnd else shard.head

/-- `SsdRingBuffer::new_sharded`, which asserts that there is a shard. -/
def SsdRingBuffer.newSharded (shardCapacities : List Nat) (h : shardCapacities ≠ []) :
    SsdRingBuffer κ where
  shards := shardCapacities.map SsdShardRing.new
  nextShard := 0
  entries := ∅
  next_lt := by
    rw [List.length_map]
    exact List.length_pos_of_ne_nil h

/-- The loop of `advance_tail`: drop keys from the front of the queue until one
has an entry the new tail has not passed.  The entry is looked up by key, in
whichever shard it is. -/
def pruneFront [DecidableEq κ] (newTail : Nat) :
    List κ → Table κ SsdEntryState → List κ × Table κ SsdEntryState
  | [], entries => ([], entries)
  | key :: order, entries =>
    match entries.lookup key with
    | some state =>
      if newTail ≤ state.entry.begin then (key :: order, entries)
      else pruneFront newTail order (entries.erase key)
    | none => pruneFront newTail order (entries.erase key)

namespace SsdRingBuffer

/-- Replace one shard. -/
def setShard (rb : SsdRingBuffer κ) (shardId : Nat) (shard : SsdShardRing κ) :
    SsdRingBuffer κ where
  shards := rb.shards.set shardId shard
  nextShard := rb.nextShard
  entries := rb.entries
  next_lt := by
    rw [List.length_set]
    exact rb.next_lt

/-- `SsdRingBuffer::is_offset_valid`. -/
def isOffsetValid (rb : SsdRingBuffer κ) (entry : SsdIndexEntry) : Bool :=
  match rb.shards[entry.shardId]? with
  | some shard => decide (shard.tail ≤ entry.begin)
  | none => false

variable [DecidableEq κ]

variable (rb : SsdRingBuffer κ)

/-- `SsdRingBuffer::get`. -/
def get (key : κ) : Option SsdIndexEntry :=
  match rb.entries.lookup key with
  | some (.committed e) => if rb.isOffsetValid e then some e else none
  | _ => none

/-- `SsdRingBuffer::advance_tail`. -/
def advanceTail (shardId newTail : Nat) (h : shardId < rb.shards.length) : SsdRingBuffer κ :=
  let shard := rb.shards[shardId]
  if newTail ≤ shard.tail then rb
  else
    let pruned := pruneFront newTail shard.order rb.entries
    { rb.setShard shardId { shard with tail := newTail, order := pruned.1 } with
      entries := pruned.2 }

/-- `SsdRingBuffer::allocate_contiguous`: the logical offset, the file offset
and the ring after the allocation. -/
def allocateContiguous (shardId size : Nat)
    (h : shardId < rb.shards.length) : Option (Nat × Nat × SsdRingBuffer κ) :=
  let shard := rb.shards[shardId]
  if shard.capacity < size then none
  else
    let begin := shard.beginFor size
    let head := begin + size
    let rb' := rb.setShard shardId { shard with head := head }
    let newTail := head - shard.capacity
    some (begin, begin % shard.capacity,
      rb'.advanceTail shardId newTail (by simpa [rb', setShard] using h))

/-- `SsdRingBuffer::commit`: the ring after it and the returned flag. -/
def commit (key : κ) (success : Bool) : SsdRingBuffer κ × Bool :=
  match rb.entries.lookup key with
  | none => (rb, false)
  | some (.committed _) => (rb, true)
  | some (.writing entry) =>
    if !rb.isOffsetValid entry then ({ rb with entries := rb.entries.erase key }, false)
    else if success then
      ({ rb with entries := rb.entries.insert key (.committed entry) }, true)
    else ({ rb with entries := rb.entries.erase key }, false)

/-- One round of the loop of `SsdRingBuffer::prepare_batch`: the block is dropped
when it is larger than the shard, and the cursor then stays where it is. -/
def prepareOne (key : κ) (block : SealedBlock) : Option (SsdRingBuffer κ × WriteInfo κ) :=
  let size := block.memoryFootprint
  let shardId := rb.nextShard
  match rb.allocateContiguous shardId size rb.next_lt with
  | none => none
  | some (begin, fileOffset, rb') =>
    let entry : SsdIndexEntry := ⟨shardId, begin, size, fileOffset, block.slotMetas⟩
    some
      ({ shards := rb'.shards.modify shardId fun s => { s with order := s.order ++ [key] }
         nextShard := (rb'.nextShard + 1) % rb'.shards.length
         entries := rb'.entries.insert key (.writing entry)
         next_lt := by
           rw [List.length_modify]
           exact Nat.mod_lt _ (Nat.zero_lt_of_lt rb'.next_lt) },
       ⟨key, block, entry⟩)

def prepareLoop (rb : SsdRingBuffer κ) :
    List (κ × SealedBlock) → SsdRingBuffer κ × List (WriteInfo κ)
  | [] => (rb, [])
  | (key, block) :: rest =>
    match rb.prepareOne key block with
    | none => prepareLoop rb rest
    | some (rb', w) => ((prepareLoop rb' rest).1, w :: (prepareLoop rb' rest).2)

/-- `SsdRingBuffer::prepare_batch`.  The keys the index has are filtered out once,
before the loop. -/
def prepareBatch (candidates : List (κ × SealedBlock)) : SsdRingBuffer κ × List (WriteInfo κ) :=
  rb.prepareLoop (candidates.filter fun c => (rb.entries.lookup c.1).isNone)

end SsdRingBuffer

/-- `aligned_shard_capacity` of `backing/ssd.rs`. -/
def alignedShardCapacity (capacityBytes shardCount : Nat) : Except String Nat :=
  let raw := capacityBytes / shardCount
  let capacity := raw / 512 * 512
  if capacity = 0 then
    .error "SSD cache capacity is too small for the requested shard count"
  else .ok capacity

end PegaFlow.Ssd
