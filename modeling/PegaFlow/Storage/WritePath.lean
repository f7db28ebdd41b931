import Mathlib.Data.List.Basic
import PegaFlow.Block

/-!
# The insert worker

`pegaflow-core/src/storage/write_path.rs`, `InflightBlock` of `pegaflow-core/src/block.rs`,
and `build_insert_entries` of `pegaflow-core/src/offload.rs`.  A save sends the blocks it
copied to the insert worker.  The worker groups them by hash and collects the slots of a
block until all are there; then the block is sealed and goes to the read cache.  A slot
that is there already is not replaced.

A saved block is kept with its hash.  The admission policy of the cache is not modelled:
which keys it rejects is an argument.  The byte counts of the source are for metrics and
are left out.
-/

namespace PegaFlow.Storage

/-- The blocks that a save made for one slot, with their hashes. -/
structure RawSaveLayer where
  slotId : Nat
  blocks : List (BlockHash × RawBlock)

structure RawSaveBatch where
  nameSpace : String
  totalSlots : Nat
  numaNode : NumaNode
  layers : List RawSaveLayer

/-- The slots to insert for each key. -/
abbrev InsertEntries := List (BlockKey × List (Nat × RawBlock))

/-! ## Entries -/

def RawSaveLayer.blockHashes (layer : RawSaveLayer) : List BlockHash := layer.blocks.map Prod.fst

def canUseOrderedFastPath : List RawSaveLayer → Bool
  | [] => false
  | first :: rest =>
    (first :: rest).all fun layer => decide (layer.blockHashes = first.blockHashes)

variable (nameSpace : String) (layers : List RawSaveLayer)

/-- Block by block, when all layers have the same hashes. -/
def buildOrderedInsertEntries : InsertEntries :=
  ((layers.head?.elim [] RawSaveLayer.blockHashes).zipIdx).map fun entry =>
    (⟨nameSpace, entry.1⟩, layers.filterMap fun layer =>
      layer.blocks[entry.2]?.map fun block => (layer.slotId, block.2))

/-- The blocks of all layers, with their slots. -/
def saveItems : List (BlockHash × Nat × RawBlock) :=
  layers.flatMap fun layer => layer.blocks.map fun block => (block.1, layer.slotId, block.2)

def groupItems :
    List (BlockHash × Nat × RawBlock) → Table BlockHash (List (Nat × RawBlock)) →
      Table BlockHash (List (Nat × RawBlock))
  | [], groups => groups
  | (hash, slot) :: items, groups =>
    groupItems items (groups.insert hash ((groups.lookup hash).getD [] ++ [slot]))

/-- Grouped by hash. -/
def buildHashedInsertEntries : InsertEntries :=
  (groupItems (saveItems layers) ∅).entries.map fun group => (⟨nameSpace, group.1⟩, group.2)

def buildInsertEntries (batch : RawSaveBatch) : InsertEntries :=
  if canUseOrderedFastPath batch.layers then
    buildOrderedInsertEntries batch.nameSpace batch.layers
  else buildHashedInsertEntries batch.nameSpace batch.layers

/-! ## Blocks in flight -/

/-- A block that is being written. -/
structure InflightBlock where
  slots : List (Option RawBlock)
  remaining : Nat
  footprint : Nat
  slotNumas : List NumaNode
  numas_length : slotNumas.length = slots.length
  remaining_eq : remaining = slots.countP Option.isNone

inductive SlotInsertResult where
  | inserted (completed : Bool) (footprintAdded : Nat)
  | duplicate

namespace InflightBlock

def new (totalSlots : Nat) : InflightBlock where
  slots := List.replicate totalSlots none
  remaining := totalSlots
  footprint := 0
  slotNumas := List.replicate totalSlots .unknown
  numas_length := by simp
  remaining_eq := by simp [List.countP_replicate]

variable (b : InflightBlock)

def totalSlots : Nat := b.slots.length

/-- `insert_slot`, which panics if the slot is out of range. -/
def insertSlot (slotId : Nat) (block : RawBlock) (numaNode : NumaNode) :
    Option (SlotInsertResult × InflightBlock) :=
  match h : b.slots[slotId]? with
  | none => none
  | some (some _) => some (.duplicate, b)
  | some none =>
    some
      (.inserted (b.remaining - 1 = 0) block.memoryFootprint,
        { slots := b.slots.set slotId (some block)
          remaining := b.remaining - 1
          footprint := b.footprint + block.memoryFootprint
          slotNumas := b.slotNumas.set slotId numaNode
          numas_length := by rw [List.length_set, List.length_set, b.numas_length]
          remaining_eq := by
            obtain ⟨hlt, hnone⟩ := List.getElem?_eq_some_iff.mp h
            rw [List.countP_set hlt, hnone, b.remaining_eq]
            rfl })

/-- All slots, if none is empty. -/
def filledSlots : List (Option RawBlock) → Option (List RawBlock)
  | [] => some []
  | none :: _ => none
  | some raw :: slots => (filledSlots slots).map (raw :: ·)

theorem filledSlots_eq_some {slots : List (Option RawBlock)} {raws : List RawBlock} :
    filledSlots slots = some raws ↔ slots = raws.map some := by
  induction slots generalizing raws with
  | nil => cases raws <;> simp [filledSlots]
  | cons slot slots ih =>
    cases slot with
    | none => cases raws <;> simp [filledSlots]
    | some raw => cases raws <;> simp [filledSlots, ih, and_comm]

/-- `InflightBlock::seal`, which panics if a slot is empty. -/
def sealBlock : Option SealedBlock :=
  match h : filledSlots b.slots with
  | none => none
  | some slots =>
    some
      { slots := slots
        footprint := b.footprint
        slotNumas := b.slotNumas
        numas_length := by
          rw [b.numas_length, filledSlots_eq_some.mp h, List.length_map] }

end InflightBlock

/-- `from_ordered_slot_inserts`: the slots are all there, in order. -/
def fromOrderedSlotInserts (slots : List (Nat × RawBlock)) (totalSlots : Nat)
    (numaNode : NumaNode) : Option SealedBlock :=
  if slots.length ≠ totalSlots ∨ slots.map Prod.fst ≠ List.range slots.length then none
  else some (.fromSlots (slots.map fun slot => (slot.2, numaNode)))

/-! ## The worker -/

/-- The loop of `insert_partial_slots`, which ends with the slot that completes the block. -/
def insertSlots (numaNode : NumaNode) :
    List (Nat × RawBlock) → InflightBlock → Option (Bool × InflightBlock)
  | [], b => some (false, b)
  | (slotId, block) :: slots, b =>
    match b.insertSlot slotId block numaNode with
    | none => none
    | some (.inserted true _, b') => some (true, b')
    | some (_, b') => insertSlots numaNode slots b'

/-- What a batch changes: the blocks in flight, and the blocks sealed so far. -/
structure InsertState where
  inflight : Table BlockKey InflightBlock
  sealedBlocks : List (BlockKey × SealedBlock)

/-- `insert_partial_slots`; an entry for another number of slots is logged and dropped. -/
def insertPartialSlots (totalSlots : Nat) (numaNode : NumaNode) (w : InsertState)
    (key : BlockKey) (slots : List (Nat × RawBlock)) : Option InsertState :=
  let inflightBlock := (w.inflight.lookup key).getD (.new totalSlots)
  if inflightBlock.totalSlots ≠ totalSlots then some w
  else
    match insertSlots numaNode slots inflightBlock with
    | none => none
    | some (false, b) => some { w with inflight := w.inflight.insert key b }
    | some (true, b) =>
      match b.sealBlock with
      | none => none
      | some block => some ⟨w.inflight.erase key, w.sealedBlocks ++ [(key, block)]⟩

/-- One entry of `process_insert_batch`. -/
def insertEntry (cache : Table BlockKey SealedBlock) (totalSlots : Nat) (numaNode : NumaNode)
    (w : InsertState) (key : BlockKey) (slots : List (Nat × RawBlock)) : Option InsertState :=
  if (cache.lookup key).isSome then some w
  else
    match w.inflight.lookup key with
    | some _ => insertPartialSlots totalSlots numaNode w key slots
    | none =>
      match fromOrderedSlotInserts slots totalSlots numaNode with
      | some block => some { w with sealedBlocks := w.sealedBlocks ++ [(key, block)] }
      | none => insertPartialSlots totalSlots numaNode w key slots

def insertEntries (cache : Table BlockKey SealedBlock) (totalSlots : Nat) (numaNode : NumaNode) :
    InsertEntries → InsertState → Option InsertState
  | [], w => some w
  | (key, slots) :: entries, w =>
    (insertEntry cache totalSlots numaNode w key slots).bind
      (insertEntries cache totalSlots numaNode entries)

/-- `batch_insert_refs`: a key that is there already keeps its block. -/
def batchInsertRefs (rejected : List BlockKey) :
    List (BlockKey × SealedBlock) → Table BlockKey SealedBlock → Table BlockKey SealedBlock
  | [], cache => cache
  | (key, block) :: blocks, cache =>
    batchInsertRefs rejected blocks
      (if (cache.lookup key).isSome ∨ key ∈ rejected then cache else cache.insert key block)

/-- `process_raw_save_batch`.  The result is absent if the worker panics. -/
def processRawSaveBatch (rejected : List BlockKey) (batch : RawSaveBatch)
    (inflight : Table BlockKey InflightBlock) (cache : Table BlockKey SealedBlock) :
    Option (Table BlockKey InflightBlock × Table BlockKey SealedBlock) :=
  (insertEntries cache batch.totalSlots batch.numaNode (buildInsertEntries batch)
    ⟨inflight, []⟩).map fun w => (w.inflight, batchInsertRefs rejected w.sealedBlocks cache)

end PegaFlow.Storage
