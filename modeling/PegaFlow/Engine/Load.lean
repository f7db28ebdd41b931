import PegaFlow.Storage.Lease
import PegaFlow.Engine.Instance
import PegaFlow.Engine.Transfer

/-!
# Loads

`batch_load_kv_blocks_multi_layer_inner` of `pegaflow-core/src/lib.rs`.  A load consumes
query leases, which own the stored blocks, and pairs every block with a destination block
of every requested layer.

A stored block may come from another instance of the namespace, from the SSD or from
another node, so its slots need not have the sizes that this instance would give them.  The
load is accepted if every block has as many slots as the instance expects.  The sizes of
the segments are not looked at, and `SlotsFit` says what they have to be.
-/

namespace PegaFlow.Engine

open PegaFlow.Storage
open List Option Loop

/-- The arguments of a load. -/
structure LoadRequest where
  instanceId : InstanceId
  tpRank : Nat
  deviceId : Int
  layerNames : List String
  loads : List (LeaseId × List Nat)

/-- Consume the leases of a load, for the destinations and the blocks of all of them.  A
failed load does not give back the leases it consumed. -/
def consumeLeases (instanceId : InstanceId) (totalSlots : Nat) :
    LeaseManager → List (LeaseId × List Nat) →
      Except EngineError (List Nat × List SealedBlock) × LeaseManager
  | m, [] => (.ok ([], []), m)
  | m, (lease, leaseBlockIds) :: loads =>
    match m.consume instanceId lease with
    | .error e => (.error (.storage e), m)
    | .ok (blocks, m') =>
      if blocks.length ≠ leaseBlockIds.length then
        (.error (.invalidArgument s!"query lease block count {blocks.length} does not match destination block count {leaseBlockIds.length}"), m')
      else
        match blocks.find? fun block => block.2.slots.length ≠ totalSlots with
        | some block =>
          (.error (.invalidArgument s!"stored block has {block.2.slots.length} slots but instance {instanceId} expects {totalSlots}: namespace is shared by incompatible KV layouts"), m')
        | none =>
          match consumeLeases instanceId totalSlots m' loads with
          | (.error e, m'') => (.error e, m'')
          | (.ok (blockIds, blockCache), m'') =>
            (.ok (leaseBlockIds ++ blockIds, blocks.map Prod.snd ++ blockCache), m'')

/-- One destination block of a layer. -/
def loadBlock (layerName : String) (slotId hostOffset : Nat) (entry : Nat × SealedBlock) :
    Except EngineError TransferBlock :=
  if (entry.2.getSlot slotId).isNone then
    .error (.invalidArgument s!"stored block is missing slot {slotId} for layer {layerName}")
  else .ok ⟨entry.1, .cached entry.2 slotId hostOffset⟩

variable (topology : LayerTopology) (gpu : GpuContext)

/-- One layer of a load, for the destinations and their blocks. -/
def loadLayer (deviceId : Int) (tpRank : Nat)
    (entries : List (Nat × SealedBlock)) (layerName : String) :
    Except EngineError LayerTransferData :=
  match topology.layerId layerName with
  | .error e => .error e
  | .ok layerId =>
    match gpu.getLayout layerName with
    | none =>
      .error (.invalidArgument s!"layer {layerName} not registered on device {deviceId}")
    | some layout =>
      match topology.slotIndex layerId tpRank with
      | .error e => .error e
      | .ok slotId =>
        (entries.mapM' (loadBlock layerName slotId (topology.hostOffset layerId))).map
          fun blocks => ⟨layerName, layout, blocks⟩

/-- The layers of a load; a layer without blocks is dropped. -/
def loadLayers (deviceId : Int) (tpRank : Nat)
    (entries : List (Nat × SealedBlock)) (layerNames : List String) :
    Except EngineError (List LayerTransferData) :=
  (layerNames.mapM' (loadLayer topology gpu deviceId tpRank entries)).map fun layers =>
    layers.filter fun layer => !layer.blocks.isEmpty

/-- The layers that a load submits to the worker of the device; a load without layers
completes at once. -/
def batchLoad (instances : Table InstanceId InstanceContext) (m : LeaseManager)
    (req : LoadRequest) : Except EngineError (List LayerTransferData) × LeaseManager :=
  match instances.lookup req.instanceId with
  | none => (.error (.instanceMissing req.instanceId), m)
  | some inst =>
    match inst.sealedTopology with
    | .error e => (.error e, m)
    | .ok topology =>
      match inst.getGpu req.deviceId with
      | none => (.error (.workerMissing req.instanceId req.deviceId), m)
      | some gpu =>
        match consumeLeases req.instanceId topology.totalSlots m req.loads with
        | (.error e, m') => (.error e, m')
        | (.ok (blockIds, blockCache), m') =>
          (loadLayers topology gpu req.deviceId req.tpRank (blockIds.zip blockCache)
            req.layerNames, m')

/-- `process_load_task`: what the load does to the memories of the devices. -/
def processLoadTask {β : Type} (deviceId : Int) (host : Memory Nat β) (mem : Memory Int β)
    (layers : List LayerTransferData) : Except TransferFault (Memory Int β) :=
  (buildCopyDescs layers).map fun built => h2d deviceId host mem built.1

/-! ## What is accepted -/

section

variable {instances : Table InstanceId InstanceContext} {m m' : LeaseManager} {req : LoadRequest}
variable {inst : InstanceContext} {t : LayerTopology} {gpu : GpuContext} {tpRank : Nat}
variable {deviceId : Int} {layers : List LayerTransferData} {entries : List (Nat × SealedBlock)}
variable {layerNames : List String}

/-- The load finds the instance, its topology and the device. -/
structure Resolves (instances : Table InstanceId InstanceContext) (req : LoadRequest)
    (t : LayerTopology) (gpu : GpuContext) : Prop where
  exists_inst : ∃ inst, instances.lookup req.instanceId = some inst ∧ inst.topology = some t ∧
    inst.getGpu req.deviceId = some gpu

theorem Resolves.unique {t' : LayerTopology} {gpu' : GpuContext} (h : Resolves instances req t gpu)
    (h' : Resolves instances req t' gpu') : t = t' ∧ gpu = gpu' := by
  obtain ⟨inst, hin, ht, hg⟩ := h
  obtain ⟨inst', hin', ht', hg'⟩ := h'
  cases hin.symm.trans hin'
  exact ⟨some.inj (ht.symm.trans ht'), some.inj (hg.symm.trans hg')⟩

/-- The leases of a load put the found block to the destination `blockIdx`. -/
def Assigned (m : LeaseManager) (loads : List (LeaseId × List Nat)) (blockIdx : Nat)
    (found : FoundBlock) : Prop :=
  ∃ load ∈ loads, ∃ lease, m.leases.lookup load.1 = some lease ∧
    (blockIdx, found) ∈ load.2.zip lease.blocks

/-- What consumed leases give. -/
structure Consumed (m : LeaseManager) (loads : List (LeaseId × List Nat)) (blockIds : List Nat)
    (blockCache : List SealedBlock) : Prop where
  blockIds_eq : blockIds = loads.flatMap Prod.snd
  granted : ∀ load ∈ loads, ∃ lease, m.leases.lookup load.1 = some lease
  mem_iff : ∀ blockIdx block, (blockIdx, block) ∈ blockIds.zip blockCache ↔
    ∃ key, Assigned m loads blockIdx (key, block)

variable {loads : List (LeaseId × List Nat)}

/-- Leases that hold the same blocks as before assign the same blocks. -/
theorem assigned_iff (hlss : ∀ k lease', m'.leases.lookup k = some lease' →
      ∃ lease, m.leases.lookup k = some lease ∧ lease.blocks = lease'.blocks)
    (hgr : ∀ load ∈ loads, ∃ lease, m'.leases.lookup load.1 = some lease) {blockIdx : Nat}
    {found : FoundBlock} : Assigned m' loads blockIdx found ↔ Assigned m loads blockIdx found := by
  constructor
  · rintro ⟨load, hl, lease', hls', hp⟩
    obtain ⟨lease, hls, hsm⟩ := hlss load.1 lease' hls'
    exact ⟨load, hl, lease, hls, hsm ▸ hp⟩
  · rintro ⟨load, hl, lease, hls, hp⟩
    obtain ⟨lease', hls'⟩ := hgr load hl
    obtain ⟨before, hbef, hsm⟩ := hlss load.1 lease' hls'
    cases hls.symm.trans hbef
    exact ⟨load, hl, lease', hls', hsm ▸ hp⟩

variable {blockIds : List Nat} {blockCache : List SealedBlock}

theorem Consumed.cons {ids : List Nat} {token : LeaseId} {lease : QueryLease}
    (hls : m.leases.lookup token = some lease) (hlen : lease.blocks.length = ids.length)
    (hlss : ∀ k lease', m'.leases.lookup k = some lease' →
      ∃ lease, m.leases.lookup k = some lease ∧ lease.blocks = lease'.blocks)
    (h : Consumed m' loads blockIds blockCache) :
    Consumed m ((token, ids) :: loads) (ids ++ blockIds)
      (lease.blocks.map Prod.snd ++ blockCache) := by
  refine ⟨?_, ?_, ?_⟩
  · rw [flatMap_cons, h.blockIds_eq]
  · intro load hl
    rcases mem_cons.mp hl with rfl | hl
    · exact ⟨lease, hls⟩
    obtain ⟨lease', hls'⟩ := h.granted load hl
    obtain ⟨before, hbef, -⟩ := hlss load.1 lease' hls'
    exact ⟨before, hbef⟩
  · intro blockIdx block
    rw [zip_append (by rw [length_map, hlen]), mem_append, h.mem_iff, zip_map_right]
    simp only [assigned_iff hlss h.granted, List.mem_map]
    constructor
    · rintro (⟨⟨_, key, _⟩, hp, ⟨⟩⟩ | ⟨key, load, hl, hr⟩)
      · exact ⟨key, (token, ids), mem_cons_self, lease, hls, hp⟩
      · exact ⟨key, load, mem_cons_of_mem _ hl, hr⟩
    · rintro ⟨key, load, hl, lease', hls', hp⟩
      rcases mem_cons.mp hl with rfl | hl
      · cases hls.symm.trans hls'
        exact Or.inl ⟨(blockIdx, key, block), hp, rfl⟩
      · exact Or.inr ⟨key, load, hl, lease', hls', hp⟩

theorem consumeLeases_ok {instanceId : InstanceId} {totalSlots : Nat}
    (h : consumeLeases instanceId totalSlots m loads = (.ok (blockIds, blockCache), m')) :
    Consumed m loads blockIds blockCache := by
  induction loads generalizing m blockIds blockCache with
  | nil =>
    cases h
    exact ⟨rfl, by simp, by simp [Assigned]⟩
  | cons load loads ih =>
    unfold consumeLeases at h
    split at h
    · cases h
    next blocks m₁ hcs =>
      split at h
      · cases h
      next hlen =>
        split at h
        · cases h
        split at h
        · cases h
        next hr =>
          cases h
          obtain ⟨⟨lease, hls, rfl⟩, hlss⟩ := LeaseManager.consume_ok hcs
          exact .cons hls (not_not.mp hlen) hlss (ih hr)

/-- The block that a layer of a load makes of a destination. -/
def loadedBlock (t : LayerTopology) (tpRank : Nat) (layerName : String)
    (entry : Nat × SealedBlock) : TransferBlock :=
  ⟨entry.1, .cached entry.2 (t.slotOf (t.names.idxOf layerName) tpRank)
    (t.hostOffset (t.names.idxOf layerName))⟩

/-- A layer of a load, made of the destinations and their blocks. -/
structure LayerLoad (t : LayerTopology) (gpu : GpuContext) (tpRank : Nat)
    (entries : List (Nat × SealedBlock)) (layerName : String) (layer : LayerTransferData) :
    Prop where
  mem_names : layerName ∈ t.names
  tpRank_lt : tpRank < t.tpSize
  name_eq : layer.layerName = layerName
  getLayout : gpu.getLayout layerName = some layer.layout
  blocks_eq : layer.blocks = entries.map (loadedBlock t tpRank layerName)
  slots : ∀ entry ∈ entries,
    (entry.2.getSlot (t.slotOf (t.names.idxOf layerName) tpRank)).isSome

variable {layerName : String} {layer : LayerTransferData}

theorem LayerLoad.unique {layer' : LayerTransferData}
    (h : LayerLoad t gpu tpRank entries layerName layer)
    (h' : LayerLoad t gpu tpRank entries layerName layer') : layer = layer' := by
  obtain ⟨name, layout, blocks⟩ := layer
  obtain ⟨name', layout', blocks'⟩ := layer'
  obtain rfl : name = name' := h.name_eq.trans h'.name_eq.symm
  obtain rfl : layout = layout' := some.inj (h.getLayout.symm.trans h'.getLayout)
  obtain rfl : blocks = blocks' := h.blocks_eq.trans h'.blocks_eq.symm
  rfl

variable {slotId hostOffset : Nat}

theorem loadBlock_eq_ok {entry : Nat × SealedBlock} {block : TransferBlock} :
    loadBlock layerName slotId hostOffset entry = .ok block ↔
      (entry.2.getSlot slotId).isSome ∧ ⟨entry.1, .cached entry.2 slotId hostOffset⟩ = block := by
  unfold loadBlock
  cases entry.2.getSlot slotId <;> simp

theorem loadBlocks_eq_ok {blocks : List TransferBlock} :
    entries.mapM' (loadBlock layerName slotId hostOffset) = .ok blocks ↔
      (∀ entry ∈ entries, (entry.2.getSlot slotId).isSome) ∧
        blocks = entries.map fun entry => ⟨entry.1, .cached entry.2 slotId hostOffset⟩ := by
  rw [mapM_eq_ok]
  simp only [loadBlock_eq_ok]
  induction entries generalizing blocks with
  | nil => simp
  | cons entry entries ih =>
    rw [forall₂_cons_left_iff]
    simp only [ih, forall_mem_cons, map_cons]
    constructor
    · rintro ⟨_, _, ⟨hs, rfl⟩, ⟨hsl, rfl⟩, rfl⟩
      exact ⟨⟨hs, hsl⟩, rfl⟩
    · rintro ⟨⟨hs, hsl⟩, rfl⟩
      exact ⟨_, _, ⟨hs, rfl⟩, ⟨hsl, rfl⟩, rfl⟩

theorem loadLayer_eq_ok :
    loadLayer t gpu deviceId tpRank entries layerName = .ok layer ↔
      LayerLoad t gpu tpRank entries layerName layer := by
  constructor
  · intro h
    unfold loadLayer at h
    split at h
    · cases h
    next layerId hid =>
      split at h
      · cases h
      next layout hlo =>
        split at h
        · cases h
        next slotId hs =>
          cases hbs :
              entries.mapM' (loadBlock layerName slotId (t.hostOffset layerId)) with
          | error e =>
            rw [hbs] at h
            cases h
          | ok blocks =>
            rw [hbs] at h
            cases h
            obtain ⟨hn, rfl⟩ := LayerTopology.layerId_eq_ok.mp hid
            obtain ⟨-, hr, rfl⟩ := LayerTopology.slotIndex_eq_ok.mp hs
            obtain ⟨hsl, rfl⟩ := loadBlocks_eq_ok.mp hbs
            exact ⟨hn, hr, rfl, hlo, rfl, hsl⟩
  · intro h
    obtain ⟨hn, hr, rfl, hlo, hbs, hsl⟩ := h
    have hid : t.layerId layer.layerName = .ok (t.names.idxOf layer.layerName) :=
      LayerTopology.layerId_eq_ok.mpr ⟨hn, rfl⟩
    have hs := LayerTopology.slotIndex_eq_ok.mpr ⟨idxOf_lt_length_of_mem hn, hr, rfl⟩
    simp only [loadLayer, hid, hlo, hs, loadBlocks_eq_ok.mpr ⟨hsl, hbs⟩, Except.map]

/-- The layers of an accepted load. -/
theorem loadLayers_ok (h : loadLayers t gpu deviceId tpRank entries layerNames = .ok layers) :
    (∀ layer ∈ layers, ∃ name ∈ layerNames, LayerLoad t gpu tpRank entries name layer) ∧
      (entries ≠ [] → ∀ name ∈ layerNames,
        ∃ layer ∈ layers, LayerLoad t gpu tpRank entries name layer) := by
  unfold loadLayers at h
  obtain ⟨all, hl, rfl⟩ := map_eq_ok.mp h
  have hall : List.Forall₂ (LayerLoad t gpu tpRank entries) layerNames all := by
    simpa only [loadLayer_eq_ok] using mapM_eq_ok.mp hl
  constructor
  · intro layer hlay
    exact exists_item hall (mem_of_mem_filter hlay)
  · intro hne name hn
    obtain ⟨layer, hlay, hld⟩ := exists_result hall hn
    refine ⟨layer, mem_filter.mpr ⟨hlay, ?_⟩, hld⟩
    rw [hld.blocks_eq]
    simpa using hne

theorem batchLoad_ok (h : (batchLoad instances m req).1 = .ok layers) :
    ∃ t gpu blockIds blockCache, Resolves instances req t gpu ∧
      Consumed m req.loads blockIds blockCache ∧
      loadLayers t gpu req.deviceId req.tpRank (blockIds.zip blockCache) req.layerNames
        = .ok layers := by
  unfold batchLoad at h
  split at h
  · cases h
  next inst hin =>
    split at h
    · cases h
    next t ht =>
      split at h
      · cases h
      next gpu hg =>
        split at h
        · cases h
        next blockIds blockCache m₁ hcs =>
          exact ⟨t, gpu, blockIds, blockCache,
            ⟨inst, hin, InstanceContext.sealedTopology_ok ht, hg⟩, consumeLeases_ok hcs, h⟩

variable {item : LayerTransferData × TransferBlock}

theorem mem_transfers : item ∈ transfers layers ↔ item.1 ∈ layers ∧ item.2 ∈ item.1.blocks := by
  unfold transfers
  simp only [List.mem_flatMap, List.mem_map]
  constructor
  · rintro ⟨layer, hl, block, hb, rfl⟩
    exact ⟨hl, hb⟩
  · rintro ⟨hl, hb⟩
    exact ⟨item.1, hl, item.2, hb, rfl⟩

/-- The transfers of a load: every requested layer with every destination. -/
theorem mem_transfers_loadLayers
    (h : loadLayers t gpu deviceId tpRank entries layerNames = .ok layers) :
    item ∈ transfers layers ↔
      ∃ name ∈ layerNames, LayerLoad t gpu tpRank entries name item.1 ∧
        ∃ entry ∈ entries, item.2 = loadedBlock t tpRank name entry := by
  obtain ⟨hs, hcompl⟩ := loadLayers_ok h
  rw [mem_transfers]
  constructor
  · rintro ⟨hlay, hb⟩
    obtain ⟨name, hn, hl⟩ := hs item.1 hlay
    rw [hl.blocks_eq] at hb
    obtain ⟨entry, hent, heq⟩ := List.mem_map.mp hb
    exact ⟨name, hn, hl, entry, hent, heq.symm⟩
  · rintro ⟨name, hn, hl, entry, hent, hb⟩
    obtain ⟨layer, hlay, hl'⟩ := hcompl (ne_nil_of_mem hent) name hn
    have heq : layer = item.1 := hl'.unique hl
    refine ⟨heq ▸ hlay, ?_⟩
    rw [hl.blocks_eq, hb]
    exact mem_map_of_mem hent

/-! ## Loads stay inside the stored slots -/

/-- The descriptors of a block, all inside the segments of the slot it reads. -/
def ReadsInside (item : LayerTransferData × TransferBlock) (part : List CopyDesc) : Prop :=
  blockDescs item.1 item.2 = .ok part ∧
    ∃ raw, item.2.block.raw = some raw ∧
      List.Forall₂ CopyDesc.Inside part
        (segmentsFor raw (item.1.layout.copiesOf item.2.blockIdx))

/-- Building the descriptors of the layers does not panic, and those of every block stay
inside the slot it reads. -/
def StaysInside (layers : List LayerTransferData) : Prop :=
  buildCopyDescs layers ≠ .error .panicked ∧
    ∀ descs total, buildCopyDescs layers = .ok (descs, total) →
      ∃ parts, descs = parts.flatten ∧ List.Forall₂ ReadsInside (transfers layers) parts

variable (instances)

/-- The stored slots are as large as the layers read from them need. -/
def SlotsFit (m : LeaseManager) (req : LoadRequest) : Prop :=
  ∀ t gpu, Resolves instances req t gpu →
    ∀ name ∈ req.layerNames, ∀ layout, gpu.getLayout name = some layout →
      ∀ blockIdx found, Assigned m req.loads blockIdx found →
        ∀ raw, found.2.getSlot (t.slotOf (t.names.idxOf name) req.tpRank) = some raw →
          SlotHolds raw (t.hostOffset (t.names.idxOf name)) layout.toAddressing

/-- The destinations are blocks of the layers. -/
def DestinationsInRange (req : LoadRequest) : Prop :=
  ∀ t gpu, Resolves instances req t gpu →
    ∀ name ∈ req.layerNames, ∀ layout, gpu.getLayout name = some layout →
      ∀ load ∈ req.loads, ∀ blockIdx ∈ load.2, blockIdx < layout.numBlocks

variable {instances}

/-- Blocks whose slots are large enough are read inside them. -/
theorem staysInside_of_holds (h : ∀ item ∈ transfers layers, ∃ raw, item.2.block.raw = some raw ∧
      SlotHolds raw item.2.block.hostOffset item.1.layout.toAddressing) :
    StaysInside layers := by
  have hb : ∀ item ∈ transfers layers, ∃ raw descs, item.2.block.raw = some raw ∧
      rawDescs raw item.2.block.hostOffset (item.1.layout.copiesOf item.2.blockIdx) = some descs ∧
      List.Forall₂ CopyDesc.Inside descs
        (segmentsFor raw (item.1.layout.copiesOf item.2.blockIdx)) := by
    intro item hi
    obtain ⟨raw, hr, hhd⟩ := h item hi
    obtain ⟨descs, hds, hins⟩ := (slotHolds_iff item.2.blockIdx).mp hhd
    exact ⟨raw, descs, hr, hds, hins⟩
  refine ⟨?_, ?_⟩
  · intro hpanic
    obtain ⟨item, hi, herr⟩ := buildCopyDescs_eq_error hpanic
    obtain ⟨raw, descs, hr, hds, -⟩ := hb item hi
    unfold blockDescs Addressing.blockCopies at herr
    split at herr
    · cases herr
    next copies hcps =>
      split at hcps
      · cases hcps
      cases hcps
      rw [hr] at herr
      simp only [hds] at herr
      cases herr
  · intro descs total hblt
    obtain ⟨parts, hparts, hflat, -⟩ := buildCopyDescs_eq_ok.mp hblt
    refine ⟨parts, hflat, ?_⟩
    refine ((forall₂_and_left _ _).mpr ⟨hb, hparts⟩).imp ?_
    rintro item part ⟨⟨raw, descs, hr, hds, hins⟩, hp⟩
    obtain ⟨-, raw', hr', hds'⟩ := blockDescs_eq_ok.mp hp
    cases hr.symm.trans hr'
    cases hds.symm.trans hds'
    exact ⟨hp, raw, hr, hins⟩

/-- Blocks in range that are read inside their slots have slots that are large enough. -/
theorem holds_of_staysInside (h : StaysInside layers)
    (hrg : ∀ item ∈ transfers layers, item.2.blockIdx < item.1.layout.numBlocks)
    (hi : item ∈ transfers layers) :
    ∃ raw, item.2.block.raw = some raw ∧
      SlotHolds raw item.2.block.hostOffset item.1.layout.toAddressing := by
  cases hblt : buildCopyDescs layers with
  | error e =>
    cases e with
    | panicked => exact absurd hblt h.1
    | failed e =>
      obtain ⟨item', hi', herr⟩ := buildCopyDescs_eq_error hblt
      unfold blockDescs Addressing.blockCopies at herr
      rw [if_neg (Nat.not_le.mpr (hrg item' hi'))] at herr
      dsimp only at herr
      split at herr
      · cases herr
      · split at herr <;> cases herr
  | ok built =>
    obtain ⟨parts, -, hparts⟩ := h.2 built.1 built.2 hblt
    obtain ⟨part, -, hp, raw, hr, hins⟩ := exists_result hparts hi
    obtain ⟨-, raw', hr', hds⟩ := blockDescs_eq_ok.mp hp
    cases hr.symm.trans hr'
    exact ⟨raw, hr, (slotHolds_iff item.2.blockIdx).mpr ⟨part, hds, hins⟩⟩

/-- An accepted load stays inside the stored slots if they are large enough, and, for
destinations in range, only then. -/
theorem load_staysInside_iff (h : (batchLoad instances m req).1 = .ok layers) :
    (SlotsFit instances m req → StaysInside layers) ∧
      (DestinationsInRange instances req → (StaysInside layers ↔ SlotsFit instances m req)) := by
  obtain ⟨t, gpu, blockIds, blockCache, hresolves, hconsumed, hlayers⟩ := batchLoad_ok h
  have hfit : SlotsFit instances m req → StaysInside layers := by
    intro hfit
    refine staysInside_of_holds ?_
    intro item hitem
    obtain ⟨name, hname, hload, entry, hentry, hblock⟩ :=
      (mem_transfers_loadLayers hlayers).mp hitem
    obtain ⟨raw, hraw⟩ := isSome_iff_exists.mp (hload.slots entry hentry)
    rw [hblock]
    obtain ⟨key, hassigned⟩ := (hconsumed.mem_iff entry.1 entry.2).mp hentry
    exact ⟨raw, hraw, hfit t gpu hresolves name hname item.1.layout hload.getLayout entry.1
      (key, entry.2) hassigned raw hraw⟩
  refine ⟨hfit, fun hrange => ⟨?_, hfit⟩⟩
  intro hinside t' gpu' hresolves' name hname layout hlayout blockIdx found hassigned raw hraw
  obtain ⟨rfl, rfl⟩ := hresolves.unique hresolves'
  have hranges : ∀ item ∈ transfers layers, item.2.blockIdx < item.1.layout.numBlocks := by
    intro item hitem
    obtain ⟨name, hname, hload, entry, hentry, hblock⟩ :=
      (mem_transfers_loadLayers hlayers).mp hitem
    have hid := (of_mem_zip hentry).1
    rw [hconsumed.blockIds_eq] at hid
    obtain ⟨load, hmem, hid⟩ := List.mem_flatMap.mp hid
    rw [hblock]
    exact hrange t gpu hresolves name hname item.1.layout hload.getLayout load hmem entry.1 hid
  have hentry := (hconsumed.mem_iff blockIdx found.2).mpr ⟨found.1, hassigned⟩
  obtain ⟨layer, hlayer, hload⟩ :=
    (loadLayers_ok hlayers).2 (ne_nil_of_mem hentry) name hname
  have hitem : (layer, loadedBlock t req.tpRank name (blockIdx, found.2)) ∈ transfers layers :=
    (mem_transfers_loadLayers hlayers).mpr ⟨name, hname, hload, (blockIdx, found.2), hentry, rfl⟩
  obtain ⟨raw', hraw', hholds⟩ := holds_of_staysInside hinside hranges hitem
  cases hraw.symm.trans hraw'
  cases hlayout.symm.trans hload.getLayout
  exact hholds

end

/-- An instance of one worker with one layer, of blocks of 8 bytes. -/
def oneLayer : Option InstanceContext :=
  Run.exec (InstanceContext.step none) ⟨"i", "ns", 1, 1, false, ∅, none⟩
    [⟨0, 0, 0, ⟨0⟩, [⟨"layer", 4096, 8, 1, 8, 0, 1, none⟩]⟩]

/-- The load of one stored block into the block 0 of the layer. -/
def loadStored (inst : InstanceContext) (block : SealedBlock) :
    Except EngineError (List LayerTransferData) × LeaseManager :=
  batchLoad (AList.singleton "i" inst)
    (LeaseManager.empty.create "i" [(⟨"ns", [1]⟩, block)] 1).2
    ⟨"i", 0, 0, ["layer"], [(0, [0])]⟩

theorem load_staysInside_iff_exact_slot :
    ∃ inst ∈ oneLayer, ∃ layers ∈ (loadStored inst (.plain 8)).1.toOption,
      layers ≠ [] ∧ StaysInside layers := by
  have hrun : ∃ inst ∈ oneLayer, ∃ layers ∈ (loadStored inst (.plain 8)).1.toOption,
      layers.length = 1 ∧ (∀ t ∈ inst.topology, t.hostOffset 0 = 0 ∧ t.names = ["layer"]) ∧
        ∀ gpu ∈ inst.getGpu 0, ∀ layout ∈ gpu.getLayout "layer",
          layout.seg = .contiguous ∧ layout.blockBytes = 8 := by
    decide
  obtain ⟨inst, hinst, layers, hlayers, hlength, htopology, hlayouts⟩ := hrun
  have hne : layers ≠ [] := by
    rintro rfl
    cases hlength
  refine ⟨inst, hinst, layers, hlayers, hne, ?_⟩
  refine (load_staysInside_iff (eq_ok_of_mem_toOption hlayers)).1 ?_
  rintro t gpu ⟨inst', hinst', ht, hgpu⟩ name hname layout hlayout blockIdx found hassigned raw hraw
  cases hinst'
  cases mem_singleton.mp hname
  obtain ⟨hoffset, hnames⟩ := htopology t ht
  obtain ⟨hseg, hbytes⟩ := hlayouts gpu hgpu layout hlayout
  obtain ⟨load, hload, lease, hlease, hpair⟩ := hassigned
  cases mem_singleton.mp hload
  cases hlease
  cases mem_singleton.mp hpair
  cases mem_singleton.mp (mem_of_getElem? hraw)
  have hindex : t.names.idxOf "layer" = 0 := by rw [hnames]; decide
  simp [SlotHolds, hseg, hbytes, hindex, hoffset, RawBlock.singleSegment]

/-- A stored block whose slot has 4 bytes is accepted, and read past its end; one whose
slot has no segment is accepted, and the worker panics. -/
theorem small_slot_is_read_past_its_end :
    ∃ inst ∈ oneLayer,
      (∃ layers ∈ (loadStored inst (.plain 4)).1.toOption, ¬ StaysInside layers) ∧
        ∃ layers ∈ (loadStored inst (.fromSlots [(⟨[]⟩, .unknown)])).1.toOption,
          buildCopyDescs layers = .error .panicked := by
  have hrun : ∃ inst ∈ oneLayer, (∃ layers ∈ (loadStored inst (.plain 4)).1.toOption,
        (∀ item ∈ transfers layers, item.2.blockIdx < item.1.layout.numBlocks) ∧
          ∃ item ∈ transfers layers, item.2.block.raw = some ⟨[⟨⟨0, 0⟩, 4⟩]⟩ ∧
            item.1.layout.seg = .contiguous ∧ item.1.layout.blockBytes = 8) ∧
        ∃ layers ∈ (loadStored inst (.fromSlots [(⟨[]⟩, .unknown)])).1.toOption,
          buildCopyDescs layers = .error .panicked := by
    decide
  obtain ⟨inst, hinst, ⟨layers, hlayers, hrange, item, hitem, hraw, hseg, hbytes⟩, hpanic⟩ := hrun
  refine ⟨inst, hinst, ⟨layers, hlayers, fun hinside => ?_⟩, hpanic⟩
  obtain ⟨raw, hraw', hholds⟩ := holds_of_staysInside hinside hrange hitem
  cases hraw.symm.trans hraw'
  simp only [SlotHolds, hseg, hbytes] at hholds
  omega

end PegaFlow.Engine
