import Mathlib.Data.List.Dedup
import PegaFlow.Storage.WritePath
import PegaFlow.Engine.Instance
import PegaFlow.Engine.Transfer

/-!
# Saves

`batch_save_kv_blocks_from_ipc` of `pegaflow-core/src/offload.rs`.  A save resolves its
layers, drops the hashes that are resident, allocates pinned memory, copies the blocks from
the device to it, and sends them to the insert worker.  Page-first, a page is allocated per
block and each layer is copied to its offset in the page.

The function gives way to other threads between the filter and the copy, so it is two here:
`prepareSave` up to the filter, and `finishSave` from the allocations on.

Allocations are numbered in order, so a new one is fresh.  How many more the pinned pool
grants is a part of the pool here.
-/

namespace PegaFlow.Engine

open PegaFlow.Storage
open List Loop

structure LayerSave where
  layerName : String
  blockIds : List Nat
  blockHashes : List BlockHash

/-- The arguments of a save. -/
structure SaveCall where
  tpRank : Nat
  ppRank : Nat
  deviceId : Int
  saves : List LayerSave

/-- A layer of a save, with the blocks to save and their hashes. -/
structure LayerContext where
  layerName : String
  layout : KVCacheLayout
  slotId : Nat
  blocksToSave : List (Nat × BlockHash)

/-! ## Resolving and filtering -/

def resolveSave (topology : LayerTopology) (gpu : GpuContext) (tpRank : Nat) (save : LayerSave) :
    Except EngineError LayerContext := do
  if save.blockIds.length ≠ save.blockHashes.length then
    .error (.invalidArgument s!"block_ids length {save.blockIds.length} does not match block_hashes {save.blockHashes.length} for layer {save.layerName}")
  else
    let layerId ← topology.layerId save.layerName
    match gpu.getLayout save.layerName with
    | none => .error (.invalidArgument s!"layer {save.layerName} not registered on device")
    | some layout =>
      let slotId ← topology.slotIndex layerId tpRank
      match save.blockIds.find? fun idx => layout.numBlocks ≤ idx with
      | some idx =>
        .error (.invalidArgument s!"block_id {idx} out of range (num_blocks={layout.numBlocks}) for layer {save.layerName}")
      | none => .ok ⟨save.layerName, layout, slotId, save.blockIds.zip save.blockHashes⟩

/-- Layers without blocks to save are dropped. -/
def dropEmpty (contexts : List LayerContext) : List LayerContext :=
  contexts.filter fun ctx => !ctx.blocksToSave.isEmpty

/-- Blocks whose hash is resident are not saved. -/
def filterResident (nameSpace : String) (cache : Table BlockKey SealedBlock)
    (contexts : List LayerContext) : List LayerContext :=
  dropEmpty (contexts.map fun ctx =>
    { ctx with
      blocksToSave := ctx.blocksToSave.filter fun block =>
        (cache.lookup ⟨nameSpace, block.2⟩).isNone })

/-- A save that is past the filter; with no layers left it has nothing to do. -/
structure PreparedSave where
  call : SaveCall
  topology : LayerTopology
  gpu : GpuContext
  contexts : List LayerContext

/-- Phases 0 and 1 of a save. -/
def prepareSave (inst : InstanceContext) (cache : Table BlockKey SealedBlock) (call : SaveCall) :
    Except EngineError PreparedSave := do
  let topology ← inst.sealedTopology
  let gpu ← inst.getGpuForSaveGroup call.deviceId call.tpRank call.ppRank
  let contexts ← call.saves.mapM' (resolveSave topology gpu call.tpRank)
  return ⟨call, topology, gpu, filterResident inst.nameSpace cache (dropEmpty contexts)⟩

/-! ## Allocating -/

/-- The pinned pool: the next allocation, and how many more are granted. -/
structure PinnedPool where
  next : Nat
  granted : Nat

def PinnedPool.allocate (pool : PinnedPool) : Option (Nat × PinnedPool) :=
  if pool.granted = 0 then none else some (pool.next, ⟨pool.next + 1, pool.granted - 1⟩)

def allocPinned (pool : PinnedPool) (blocksPerAlloc stride : Nat) (what : String) :
    Except EngineError (Nat × PinnedPool) :=
  if stride * blocksPerAlloc = 0 ∨ 2 ^ 64 ≤ stride * blocksPerAlloc then
    .error (.storage s!"allocation size overflow for {what}")
  else
    match pool.allocate with
    | none => .error (.storage s!"pinned pool exhausted while allocating {what}")
    | some result => .ok result

/-- One round of the allocation loop, for `blocksPerAlloc` blocks. -/
def allocRound (layout : KVCacheLayout) (blocksPerAlloc : Nat) (pool : PinnedPool) :
    Except EngineError (List RawBlock × PinnedPool) := do
  if layout.isSplit then
    let stride := layout.paddedSegmentBytes
    let (kAlloc, pool) ← allocPinned pool blocksPerAlloc stride "K segment buffer"
    let (vAlloc, pool) ← allocPinned pool blocksPerAlloc stride "V segment buffer"
    return ((List.range blocksPerAlloc).map fun i =>
      .twoSegments ⟨⟨kAlloc, i * stride⟩, stride⟩ ⟨⟨vAlloc, i * stride⟩, stride⟩, pool)
  else
    let stride := layout.paddedBlockBytes
    let (alloc, pool) ← allocPinned pool blocksPerAlloc stride "block buffer"
    return ((List.range blocksPerAlloc).map fun i =>
      .singleSegment ⟨⟨alloc, i * stride⟩, stride⟩, pool)

def allocRounds (layout : KVCacheLayout) (blocksPerAlloc : Nat) :
    Nat → PinnedPool → Except EngineError (List RawBlock × PinnedPool)
  | 0, pool => return ([], pool)
  | allocCount + 1, pool => do
      let (blocks, pool) ← allocRound layout blocksPerAlloc pool
      let (rest, pool) ← allocRounds layout blocksPerAlloc allocCount pool
      return (blocks ++ rest, pool)

variable (topology : LayerTopology) (blockwise : Bool)

/-- The host blocks of a layer: an allocation per block, or one for all of them. -/
def allocLayer (ctx : LayerContext) (pool : PinnedPool) :
    Except EngineError (List RawBlock × PinnedPool) :=
  let numBlocks := ctx.blocksToSave.length
  if blockwise then allocRounds ctx.layout 1 numBlocks pool
  else allocRounds ctx.layout numBlocks 1 pool

/-- What a save copies, and what it sends to the insert worker. -/
structure SavePlan where
  layers : List LayerTransferData
  rawLayers : List RawSaveLayer

/-- The transfer of a layer to its host blocks. -/
def ownedLayer (ctx : LayerContext) (raws : List RawBlock) : LayerTransferData :=
  ⟨ctx.layerName, ctx.layout,
    (ctx.blocksToSave.zip raws).map fun pair => ⟨pair.1.1, .owned pair.2⟩⟩

def savedLayer (slotId : Nat) (blocksToSave : List (Nat × BlockHash)) (raws : List RawBlock) :
    RawSaveLayer :=
  ⟨slotId, (blocksToSave.zip raws).map fun pair => (pair.1.2, pair.2)⟩

def planLayerFirst (blockwise : Bool) :
    List LayerContext → PinnedPool → Except EngineError (SavePlan × PinnedPool)
  | [], pool => return (⟨[], []⟩, pool)
  | ctx :: contexts, pool => do
      let (raws, pool) ← allocLayer blockwise ctx pool
      let (rest, pool) ← planLayerFirst blockwise contexts pool
      return (⟨ownedLayer ctx raws :: rest.layers,
        savedLayer ctx.slotId ctx.blocksToSave raws :: rest.rawLayers⟩, pool)

/-! ## Page-first -/

/-- What the first loop of `alloc_page_first_targets` rejects. -/
def pageLayerError (shard : Nat) (reference : List (Nat × BlockHash)) (ctx : LayerContext) :
    Option EngineError :=
  if ctx.layout.isSplit then
    some (.invalidArgument s!"page-first save does not support split K/V (layer {ctx.layerName})")
  else if ctx.slotId ≠ shard then
    some (.invalidArgument "page-first save spans multiple shards (one writer must save one shard)")
  else if ctx.blocksToSave ≠ reference then
    some (.invalidArgument "page-first save requires the same block set across all layers")
  else none

/-- One page per block. -/
def allocPages : Nat → PinnedPool → Except EngineError (List Nat × PinnedPool)
  | 0, pool => return ([], pool)
  | n + 1, pool => do
      match pool.allocate with
      | none => .error (.storage "pinned pool exhausted while allocating page")
      | some (page, pool) =>
        let (pages, pool) ← allocPages n pool
        return (page :: pages, pool)

/-- The place of a layer in a page. -/
def pageTarget (ctx : LayerContext) (page : Nat) : RawBlock :=
  let placement := (topology.pagePlacement (topology.names.idxOf ctx.layerName)).getD (0, 0)
  .singleSegment ⟨⟨page, placement.1⟩, placement.2⟩

/-- `alloc_page_first_targets`, and the one slot that the pages become. -/
def planPageFirst (contexts : List LayerContext) (pool : PinnedPool) :
    Except EngineError (SavePlan × PinnedPool) := do
  match contexts with
  | [] => return (⟨[], []⟩, pool)
  | first :: _ =>
    let shard := first.slotId
    let pageSize := (topology.shardPageSize shard).getD 0
    let reference := first.blocksToSave
    match contexts.findSome? (pageLayerError shard reference) with
    | some e => .error e
    | none =>
      let layerIds := (contexts.map fun ctx => topology.names.idxOf ctx.layerName).dedup
      let shardLayers := (topology.shardLayerCount shard).getD 0
      if layerIds.length ≠ shardLayers then
        .error (.invalidArgument s!"page-first save must cover all {shardLayers} layers of shard {shard}, got {layerIds.length} distinct (one worker must write a shard's entire page)")
      else if pageSize = 0 then .error (.storage "page size is zero")
      else
        let (pages, pool) ← allocPages reference.length pool
        return (⟨contexts.map fun ctx => ownedLayer ctx (pages.map (pageTarget topology ctx)),
          [savedLayer shard reference
            (pages.map fun page => .singleSegment ⟨⟨page, 0⟩, pageSize⟩)]⟩, pool)

/-! ## Copying and sending -/

def planSave (contexts : List LayerContext)
    (pool : PinnedPool) : Except EngineError (SavePlan × PinnedPool) :=
  if topology.isPageFirst then planPageFirst topology contexts pool
  else planLayerFirst blockwise contexts pool

/-- Phases 2 to 4 of a save that has something to do: the host memory after the copies, the
pool, and the batch for the insert worker.  `mem` is what the devices hold when the save
copies. -/
def finishSave {β : Type} (inst : InstanceContext) (blockwise : Bool) (save : PreparedSave)
    (mem : Memory Int β) (host : Memory Nat β) (pool : PinnedPool) :
    Except TransferFault (Memory Nat β × PinnedPool × RawSaveBatch) := do
  let (plan, pool) ←
    (planSave save.topology blockwise save.contexts pool).mapError TransferFault.failed
  let (copies, _) ← buildCopyDescs plan.layers
  return (d2h save.call.deviceId mem host copies, pool,
    ⟨inst.nameSpace, save.topology.totalSlots, save.gpu.preferredNuma, plan.rawLayers⟩)

/-! ## What a prepared save holds -/

section

variable {inst : InstanceContext} {cache : Table BlockKey SealedBlock} {call : SaveCall}
variable {t : LayerTopology} {gpu : GpuContext} {tpRank : Nat} {save : LayerSave}
variable {ctx : LayerContext} {p : PreparedSave}

/-- The blocks of a layer with their hashes. -/
def LayerSave.blocks (save : LayerSave) : List (Nat × BlockHash) :=
  save.blockIds.zip save.blockHashes

theorem resolveSave_ok (h : resolveSave t gpu tpRank save = .ok ctx) :
    save.layerName ∈ t.names ∧ tpRank < t.tpSize ∧
      ∃ layout, gpu.getLayout save.layerName = some layout ∧
        (∀ block ∈ save.blocks, block.1 < layout.numBlocks) ∧
        ctx = ⟨save.layerName, layout, t.slotOf (t.names.idxOf save.layerName) tpRank,
          save.blocks⟩ := by
  unfold resolveSave at h
  split at h
  · cases h
  obtain ⟨layerId, hid, h⟩ := bind_eq_ok.mp h
  obtain ⟨hn, rfl⟩ := LayerTopology.layerId_eq_ok.mp hid
  split at h
  · cases h
  next layout hlo =>
    obtain ⟨slotId, hs, h⟩ := bind_eq_ok.mp h
    obtain ⟨-, hr, rfl⟩ := LayerTopology.slotIndex_eq_ok.mp hs
    split at h
    · cases h
    next hrg =>
      cases h
      refine ⟨hn, hr, layout, hlo, ?_, rfl⟩
      intro block hb
      simpa using find?_eq_none.mp hrg block.1 (of_mem_zip hb).1

/-- A layer of a save that is prepared. -/
structure ContextOf (t : LayerTopology) (gpu : GpuContext) (call : SaveCall) (ctx : LayerContext) :
    Prop where
  mem_names : ctx.layerName ∈ t.names
  tpRank_lt : call.tpRank < t.tpSize
  getLayout : gpu.getLayout ctx.layerName = some ctx.layout
  slotId_eq : ctx.slotId = t.slotOf (t.names.idxOf ctx.layerName) call.tpRank
  blocks : ∀ block ∈ ctx.blocksToSave, block.1 < ctx.layout.numBlocks ∧
    ∃ save ∈ call.saves, save.layerName = ctx.layerName ∧ block ∈ save.blocks

/-- What `prepareSave` makes of a call: all blocks whose hash is not resident. -/
structure Prepared (inst : InstanceContext) (cache : Table BlockKey SealedBlock) (call : SaveCall)
    (p : PreparedSave) : Prop where
  call_eq : p.call = call
  topology : inst.topology = some p.topology
  getGpu : inst.getGpu call.deviceId = some p.gpu
  contexts : ∀ ctx ∈ p.contexts, ContextOf p.topology p.gpu call ctx
  covers : ∀ save ∈ call.saves, ∀ block ∈ save.blocks,
    cache.lookup ⟨inst.nameSpace, block.2⟩ = none →
      ∃ ctx ∈ p.contexts,
        ctx.slotId = p.topology.slotOf (p.topology.names.idxOf save.layerName) call.tpRank ∧
          block ∈ ctx.blocksToSave

theorem mem_filterResident {nameSpace : String} {contexts : List LayerContext} :
    ctx ∈ filterResident nameSpace cache contexts ↔
      ctx.blocksToSave ≠ [] ∧ ∃ ctx₀ ∈ contexts,
        ctx = { ctx₀ with
          blocksToSave := ctx₀.blocksToSave.filter fun block =>
            (cache.lookup ⟨nameSpace, block.2⟩).isNone } := by
  simp only [filterResident, dropEmpty, mem_filter, mem_map]
  constructor
  · rintro ⟨⟨ctx₀, hc₀, rfl⟩, hne⟩
    exact ⟨by simpa using hne, ctx₀, hc₀, rfl⟩
  · rintro ⟨hne, ctx₀, hc₀, rfl⟩
    exact ⟨⟨ctx₀, hc₀, rfl⟩, by simpa using hne⟩

theorem prepareSave_ok (h : prepareSave inst cache call = .ok p) : Prepared inst cache call p := by
  obtain ⟨t, ht, h⟩ := bind_eq_ok.mp h
  obtain ⟨gpu, hg, h⟩ := bind_eq_ok.mp h
  obtain ⟨resolved, hresolved, h⟩ := bind_eq_ok.mp h
  cases h
  have hall := mapM_eq_ok.mp hresolved
  refine ⟨rfl, InstanceContext.sealedTopology_ok ht,
    InstanceContext.getGpuForSaveGroup_ok hg, ?_, ?_⟩
  · intro ctx hc
    obtain ⟨-, ctx₀, hc₀, rfl⟩ := mem_filterResident.mp hc
    obtain ⟨save, hs, hok⟩ := exists_item hall (mem_of_mem_filter hc₀)
    obtain ⟨hnm, hr, layout, hlo, hrg, rfl⟩ := resolveSave_ok hok
    refine ⟨hnm, hr, hlo, rfl, ?_⟩
    intro block hb
    have hm := mem_of_mem_filter hb
    exact ⟨hrg block hm, save, hs, rfl, hm⟩
  · intro save hs block hb hn
    obtain ⟨ctx₀, hc₀, hok⟩ := exists_result hall hs
    obtain ⟨-, -, layout, -, -, heq⟩ := resolveSave_ok hok
    have hm : block ∈ ctx₀.blocksToSave := by
      rw [heq]
      exact hb
    have hk : block ∈ ctx₀.blocksToSave.filter fun block =>
        (cache.lookup ⟨inst.nameSpace, block.2⟩).isNone :=
      mem_filter.mpr ⟨hm, by rw [hn]; rfl⟩
    refine ⟨_, mem_filterResident.mpr ⟨ne_nil_of_mem hk, ctx₀, ?_, rfl⟩, ?_, hk⟩
    · exact mem_filter.mpr ⟨hc₀, by simpa using ne_nil_of_mem hm⟩
    · rw [heq]

end

end PegaFlow.Engine
