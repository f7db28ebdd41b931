import PegaFlow.Engine.Load
import PegaFlow.Engine.SaveMachine

/-!
# From a save to a load

The two halves meet at `Supplied`: saves make stored slots that hold what was on the devices,
and a load of slots that hold it puts it to its destinations.  The layouts of the saving and
the loading device may differ in everything but the geometry of the layer, which the sealed
instance makes them share; so the host side of the descriptors is the same on both ways.

A load that requests several layers writes all of them.  Nothing in the engine keeps two
layers of a device from being registered with overlapping memory, so a layer is read back if
the destination blocks of the other requested layers do not overlap its own.
-/

namespace PegaFlow.Engine

open PegaFlow.Storage
open List Option Loop

/-! ## Layouts of one geometry -/

section

variable {ssd : Option Alignment} {l l' : KVCacheLayout}

theorem Addressing.shape_copiesOf (a : Addressing) (i : Nat) :
    (a.copiesOf i).shape =
      if a.isSplit then [a.segmentBytes, a.segmentBytes] else [a.segmentBytes * a.segments] := by
  unfold copiesOf isSplit
  cases a.seg <;> rfl

/-- Blocks of one geometry have ranges of the same sizes. -/
theorem KVCacheLayout.shape_eq (h : l.PaddedFor ssd) (h' : l'.PaddedFor ssd)
    (hgeo : l.geometry = l'.geometry) (i j : Nat) :
    (l.copiesOf i).shape = (l'.copiesOf j).shape := by
  have hseg : l.segmentBytes = l'.segmentBytes := congrArg Geometry.segmentBytes hgeo
  have hspl : l.isSplit = l'.isSplit := congrArg Geometry.isSplit hgeo
  rw [Addressing.shape_copiesOf, Addressing.shape_copiesOf, hseg, hspl,
    KVCacheLayout.segments_eq h h' hgeo]

end

/-! ## Loading stored blocks -/

/-- The destination blocks of all leases. -/
def LoadRequest.destinations (req : LoadRequest) : List Nat := req.loads.flatMap Prod.snd

/-- The bytes are what a save found on its device, for a block of the layer that it saved
under the hash to the slot of the tp rank. -/
def Restored {β : Type} (inst : InstanceContext) (t : LayerTopology)
    (saves : List (SaveCall × Memory Int β)) (name : String) (hash : BlockHash) (tpRank : Nat)
    (bytes : List (List β)) : Prop :=
  ∃ saved ∈ saves, ∃ layout blockIdx, SavedBlock inst name hash saved.1 layout blockIdx ∧
    t.slotOf (t.names.idxOf name) saved.1.tpRank = t.slotOf (t.names.idxOf name) tpRank ∧
    bytes = contents saved.2 saved.1.deviceId (layout.copiesOf blockIdx)

/-- The destination blocks of two layers share no byte. -/
def LayersApart (blockIds : List Nat) (layout layout' : KVCacheLayout) : Prop :=
  ∀ i ∈ blockIds, ∀ j ∈ blockIds, ∀ c ∈ (layout.copiesOf i).toList,
    ∀ c' ∈ (layout'.copiesOf j).toList, c.range.Disjoint c'.range

section

variable {β : Type} {ssd : Option Alignment} {inst : InstanceContext} {t : LayerTopology}
variable {gpu : GpuContext} {tpRank : Nat} {entries : List (Nat × SealedBlock)}
variable {layerNames : List String} {layers : List LayerTransferData} {deviceId : Int}
variable {s : EngineState β} {hash : BlockHash} {name : String} {layout : KVCacheLayout}

/-- The descriptors of a supplied slot can be built for a block of the loading device, and
read what a save copied. -/
theorem Supplied.exists_descs {raw : RawBlock} (hwf : inst.WF ssd) (ht : inst.topology = some t)
    (hg : inst.getGpu deviceId = some gpu) (hn : name ∈ t.names) (hr : tpRank < t.tpSize)
    (hlo : gpu.getLayout name = some layout) (i : Nat)
    (h : Supplied inst t hash s (t.slotOf (t.names.idxOf name) tpRank) raw) :
    ∃ descs, rawDescs raw (t.hostOffset (t.names.idxOf name)) (layout.copiesOf i) = some descs ∧
      Restored inst t s.saved name hash tpRank (hostContents s.host descs) := by
  obtain ⟨saved, hsd, hs, layout', blockIdx, hb, descs, hds, hby, -⟩ :=
    h name hn tpRank hr rfl
  obtain ⟨gpu', hg', hlo'⟩ := hb.getLayout
  have hm := InstanceContext.mem_gpus_of_getGpu hg
  have hm' := InstanceContext.mem_gpus_of_getGpu hg'
  have hshape : (layout.copiesOf i).shape = (layout'.copiesOf blockIdx).shape :=
    KVCacheLayout.shape_eq (hwf.padded gpu hm name layout hlo)
      (hwf.padded gpu' hm' name layout' hlo')
      ((hwf.agree t ht).geometry_eq gpu hm gpu' hm' name layout layout' hlo hlo') i
      blockIdx
  obtain ⟨descs', hds', hsm⟩ := rawDescs_of_shape s.host hshape hds
  exact ⟨descs', hds', saved, hsd, layout', blockIdx, hb, hs, hsm.trans hby⟩

/-! ## Descriptors of a load -/

variable {layer layer' : LayerTransferData} {block block' : TransferBlock}
variable {part part' : List CopyDesc} {d d' : CopyDesc}

section

variable (h : blockDescs layer block = .ok part)
include h

theorem mem_copiesOf_of_desc (hd : d ∈ part) :
    (⟨d.device, d.size⟩ : BlockCopy) ∈ (layer.layout.copiesOf block.blockIdx).toList := by
  obtain ⟨-, raw, -, hds⟩ := blockDescs_eq_ok.mp h
  rw [← rawDescs_device hds]
  exact mem_map_of_mem hd

instance : Std.Symm DeviceApart where
  symm _ _ h := h.symm

theorem blockDescs_pairwise : part.Pairwise DeviceApart := by
  obtain ⟨-, raw, -, hds⟩ := blockDescs_eq_ok.mp h
  have hpairwise := layer.layout.accepted.copiesOf_pairwise block.blockIdx
  rw [← rawDescs_device hds, pairwise_map] at hpairwise
  exact hpairwise

/-- Blocks of a layer with different destinations do not overlap on the device, nor do the
ranges of one block. -/
theorem deviceApart_of_layer (h' : blockDescs layer block' = .ok part')
    (hb : block.blockIdx = block'.blockIdx → block = block') (hd : d ∈ part) (hd' : d' ∈ part') :
    d' = d ∨ DeviceApart d d' := by
  by_cases hsm : block.blockIdx = block'.blockIdx
  · cases hb hsm
    cases h.symm.trans h'
    refine or_iff_not_imp_left.mpr fun hne => ?_
    exact (blockDescs_pairwise h).forall hd hd' (Ne.symm hne)
  · obtain ⟨hrg, -⟩ := blockDescs_eq_ok.mp h
    obtain ⟨hrg', -⟩ := blockDescs_eq_ok.mp h'
    exact Or.inr (layer.layout.accepted.copiesOf_disjoint hrg hrg' hsm
      (mem_copiesOf_of_desc h hd) (mem_copiesOf_of_desc h' hd'))

end

variable {entry : Nat × SealedBlock}

/-- The descriptors of one block of a load. -/
theorem LayerLoad.exists_part (hwf : inst.WF ssd) (ht : inst.topology = some t)
    (hg : inst.getGpu deviceId = some gpu) (hl : LayerLoad t gpu tpRank entries name layer)
    (hent : entry ∈ entries) (hrg : entry.1 < layer.layout.numBlocks)
    (hhd : SealedBlock.Holds (Supplied inst t hash s) t.totalSlots entry.2) :
    ∃ part, blockDescs layer (loadedBlock t tpRank name entry) = .ok part ∧
      Restored inst t s.saved name hash tpRank (hostContents s.host part) := by
  obtain ⟨raw, hr⟩ := isSome_iff_exists.mp (hl.slots entry hent)
  obtain ⟨part, hp, hrestored⟩ := (hhd.slots _ raw hr).exists_descs hwf ht hg
    hl.mem_names hl.tpRank_lt hl.getLayout entry.1
  exact ⟨part, blockDescs_eq_ok.mpr ⟨hrg, raw, hr, hp⟩, hrestored⟩

/-! ## What a load does to the device -/

variable {items : List (LayerTransferData × TransferBlock)} {item : LayerTransferData × TransferBlock}
variable {parts : List (List CopyDesc)} {mem mem' : Memory Int β} {host : Memory Nat β}

/-- A block that shares no byte with another one is loaded. -/
theorem Built.h2d_contents (h : Built items parts) (hi : item ∈ items)
    (hp : blockDescs item.1 item.2 = .ok part)
    (hap : ∀ item' ∈ items, ∀ part', blockDescs item'.1 item'.2 = .ok part' →
      ∀ d ∈ part, ∀ d' ∈ part', d' = d ∨ DeviceApart d d') :
    contents (h2d deviceId host mem parts.flatten) deviceId
      (item.1.layout.copiesOf item.2.blockIdx) = hostContents host part := by
  obtain ⟨-, raw, -, hds⟩ := blockDescs_eq_ok.mp hp
  obtain ⟨built, hm, hok⟩ := exists_result h hi
  cases hp.symm.trans hok
  rw [contents_eq hds]
  refine map_congr_left fun d hd => ?_
  refine h2d_read (mem_flatten.mpr ⟨part, hm, hd⟩) ?_
  intro d' hd'
  obtain ⟨part', hp', hd'⟩ := mem_flatten.mp hd'
  obtain ⟨item', hi', hok'⟩ := exists_item h hp'
  exact hap item' hi' part' hok' d hd d' hd'

theorem Built.h2d_unchanged {k : Int} {x : Nat} (h : Built items parts)
    (houtside : k = deviceId → ∀ item ∈ items,
      ∀ c ∈ (item.1.layout.copiesOf item.2.blockIdx).toList, x ∉ c.range) :
    h2d deviceId host mem parts.flatten k x = mem k x := by
  refine h2d_of_not_mem fun hk d hd => ?_
  obtain ⟨part, hp, hd⟩ := mem_flatten.mp hd
  obtain ⟨item, hi, hok⟩ := exists_item h hp
  exact houtside hk item hi _ (mem_copiesOf_of_desc hok hd)

variable {blockIds : List Nat}

/-- A block of a load shares no byte with another one, if the destinations are distinct and
the layer is apart from the other requested ones. -/
theorem LayerLoad.apart {blockCache : List SealedBlock}
    (hls : loadLayers t gpu deviceId tpRank (blockIds.zip blockCache) layerNames = .ok layers)
    (hnd : blockIds.Nodup) (hl : LayerLoad t gpu tpRank (blockIds.zip blockCache) name layer)
    (hap : ∀ name' ∈ layerNames, name' ≠ name → ∀ layout', gpu.getLayout name' = some layout' →
      LayersApart blockIds layer.layout layout') (hent : entry ∈ blockIds.zip blockCache)
    (hp : blockDescs layer (loadedBlock t tpRank name entry) = .ok part)
    (hi : item ∈ transfers layers) (hp' : blockDescs item.1 item.2 = .ok part')
    (hd : d ∈ part) (hd' : d' ∈ part') : d' = d ∨ DeviceApart d d' := by
  obtain ⟨name', hn', hl', entry', hent', heq⟩ :=
    (mem_transfers_loadLayers hls).mp hi
  rw [heq] at hp'
  by_cases hsm : name' = name
  · subst hsm
    rw [hl'.unique hl] at hp'
    refine deviceApart_of_layer hp hp' ?_ hd hd'
    intro hindex
    rw [eq_of_mem_zip_left hnd hent hent' hindex]
  · exact Or.inr (hap name' hn' hsm item.1.layout hl'.getLayout entry.1
      (of_mem_zip hent).1 entry'.1 (of_mem_zip hent').1 _
      (mem_copiesOf_of_desc hp hd) _ (mem_copiesOf_of_desc hp' hd'))

/-- What a load leaves on the devices: the saved bytes in the destination blocks, and
everything else as it was. -/
structure LoadsBack (inst : InstanceContext) (t : LayerTopology)
    (saves : List (SaveCall × Memory Int β)) (gpu : GpuContext) (m : LeaseManager)
    (req : LoadRequest) (mem mem' : Memory Int β) : Prop where
  restored : ∀ name ∈ req.layerNames, ∀ layout, gpu.getLayout name = some layout →
    (∀ name' ∈ req.layerNames, name' ≠ name → ∀ layout', gpu.getLayout name' = some layout' →
      LayersApart req.destinations layout layout') →
    ∀ blockIdx found, Assigned m req.loads blockIdx found →
      Restored inst t saves name found.1.hash req.tpRank
        (contents mem' req.deviceId (layout.copiesOf blockIdx))
  unchanged : ∀ k x, (k = req.deviceId → ∀ name ∈ req.layerNames, ∀ layout,
      gpu.getLayout name = some layout → ∀ blockIdx ∈ req.destinations,
        ∀ c ∈ (layout.copiesOf blockIdx).toList, x ∉ c.range) →
    mem' k x = mem k x

variable {instances : Table InstanceId InstanceContext} {m : LeaseManager} {req : LoadRequest}

theorem load_restores (hwf : inst.WF ssd) (ht : inst.topology = some t)
    (hin : instances.lookup req.instanceId = some inst)
    (hg : inst.getGpu req.deviceId = some gpu) (h : (batchLoad instances m req).1 = .ok layers)
    (hasg : ∀ blockIdx found, Assigned m req.loads blockIdx found →
      SealedBlock.Holds (Supplied inst t found.1.hash s) t.totalSlots found.2)
    (hrg : DestinationsInRange instances req) (hnd : req.destinations.Nodup)
    (mem : Memory Int β) :
    ∃ mem', processLoadTask req.deviceId s.host mem layers = .ok mem' ∧
      LoadsBack inst t s.saved gpu m req mem mem' := by
  obtain ⟨t', gpu', blockIds, blockCache, hrsv, hconsd, hls⟩ := batchLoad_ok h
  have hrsv' : Resolves instances req t gpu := ⟨inst, hin, ht, hg⟩
  obtain ⟨rfl, rfl⟩ := hrsv.unique hrsv'
  obtain rfl : blockIds = req.destinations := hconsd.blockIds_eq
  have hinRange : ∀ name ∈ req.layerNames, ∀ layout, gpu'.getLayout name = some layout →
      ∀ entry ∈ req.destinations.zip blockCache, entry.1 < layout.numBlocks := by
    intro name hn layout hlo entry hent
    obtain ⟨load, hl, hm⟩ := mem_flatMap.mp (of_mem_zip hent).1
    exact hrg t' gpu' hrsv name hn layout hlo load hl entry.1 hm
  -- Every block of the load has descriptors, and they read what was saved.
  have hb : ∀ name ∈ req.layerNames, ∀ layer,
      LayerLoad t' gpu' req.tpRank (req.destinations.zip blockCache) name layer →
      ∀ i found, Assigned m req.loads i found →
        ∃ part, blockDescs layer (loadedBlock t' req.tpRank name (i, found.2)) = .ok part ∧
          Restored inst t' s.saved name found.1.hash req.tpRank (hostContents s.host part) := by
    intro name hn layer hl i found hfd
    have hent := (hconsd.mem_iff i found.2).mpr ⟨found.1, hfd⟩
    exact hl.exists_part hwf ht hg hent
      (hinRange name hn layer.layout hl.getLayout _ hent) (hasg i found hfd)
  cases hblt : buildCopyDescs layers with
  | error e =>
    obtain ⟨item, hi, herr⟩ := buildCopyDescs_eq_error hblt
    obtain ⟨name, hn, hl, entry, hent, heq⟩ :=
      (mem_transfers_loadLayers hls).mp hi
    obtain ⟨key, hfd⟩ := (hconsd.mem_iff entry.1 entry.2).mp hent
    obtain ⟨part, hp, -⟩ := hb name hn item.1 hl entry.1 (key, entry.2) hfd
    rw [heq, hp] at herr
    cases herr
  | ok built =>
    obtain ⟨parts, hparts, hds, -⟩ := buildCopyDescs_eq_ok.mp hblt
    refine ⟨h2d req.deviceId s.host mem built.1, ?_, ?_, ?_⟩
    · rw [processLoadTask, hblt]
      rfl
    · intro name hn layout hlo hap i found hfd
      have hent := (hconsd.mem_iff i found.2).mpr ⟨found.1, hfd⟩
      obtain ⟨layer, hlay, hl⟩ :=
        (loadLayers_ok hls).2 (ne_nil_of_mem hent) name hn
      obtain rfl : layer.layout = layout := some.inj (hl.getLayout.symm.trans hlo)
      obtain ⟨part, hp, hrestored⟩ := hb name hn layer hl i found hfd
      have hi : (layer, loadedBlock t' req.tpRank name (i, found.2)) ∈ transfers layers :=
        (mem_transfers_loadLayers hls).mpr ⟨name, hn, hl, (i, found.2), hent, rfl⟩
      have hcontents : contents (h2d req.deviceId s.host mem parts.flatten) req.deviceId
          (layer.layout.copiesOf i) = hostContents s.host part :=
        hparts.h2d_contents hi hp fun item' hi' part' hp' d hd d' hd' =>
          hl.apart hls hnd hap hent hp hi' hp' hd hd'
      rw [hds, hcontents]
      exact hrestored
    · intro k x houtside
      rw [hds]
      refine hparts.h2d_unchanged fun hk item hi c hc => ?_
      obtain ⟨name, hn, hl, entry, hent, heq⟩ :=
        (mem_transfers_loadLayers hls).mp hi
      rw [heq] at hc
      exact houtside hk name hn item.1.layout hl.getLayout entry.1 (of_mem_zip hent).1 c hc

/-- A load of a new lease is accepted, if its blocks have the slots that the instance
expects. -/
theorem new_lease_accepted {instanceId : InstanceId} {blocks : List FoundBlock} (m : LeaseManager)
    (consumers : Nat) (ht : inst.topology = some t)
    (hin : instances.lookup instanceId = some inst) (hg : inst.getGpu deviceId = some gpu)
    (hr : tpRank < t.tpSize)
    (hnms : ∀ name ∈ layerNames, name ∈ t.names ∧ (gpu.getLayout name).isSome)
    (hlen : blocks.length = blockIds.length)
    (hsl : ∀ found ∈ blocks, found.2.slots.length = t.totalSlots) :
    ∃ layers, (batchLoad instances (m.create instanceId blocks consumers).2
      ⟨instanceId, tpRank, deviceId, layerNames,
        [((m.create instanceId blocks consumers).1, blockIds)]⟩).1 = .ok layers := by
  obtain ⟨m', hcs⟩ := m.exists_consume_create instanceId blocks consumers
  have htop : inst.sealedTopology = .ok t := by
    rw [InstanceContext.sealedTopology, ht]
  have hfind : (blocks.find? fun block => block.2.slots.length ≠ t.totalSlots) = none := by
    rw [find?_eq_none]
    intro found hfd
    simpa using hsl found hfd
  have hlay : ∀ name ∈ layerNames, ∀ e,
      loadLayer t gpu deviceId tpRank (blockIds.zip (blocks.map Prod.snd)) name ≠ .error e := by
    intro name hn e herr
    obtain ⟨hm, hs⟩ := hnms name hn
    obtain ⟨layout, hlo⟩ := isSome_iff_exists.mp hs
    have hld : LayerLoad t gpu tpRank (blockIds.zip (blocks.map Prod.snd)) name
        ⟨name, layout, (blockIds.zip (blocks.map Prod.snd)).map (loadedBlock t tpRank name)⟩ := by
      refine ⟨hm, hr, rfl, hlo, rfl, ?_⟩
      intro entry hent
      obtain ⟨found, hfd, heq⟩ := mem_map.mp (of_mem_zip hent).2
      have hlt : t.slotOf (t.names.idxOf name) tpRank < found.2.slots.length := by
        rw [hsl found hfd]
        exact LayerTopology.slotOf_lt (idxOf_lt_length_of_mem hm) hr
      rw [← heq, SealedBlock.getSlot, getElem?_eq_getElem hlt]
      rfl
    rw [loadLayer_eq_ok.mpr hld] at herr
    cases herr
  simp only [batchLoad, hin, htop, hg, consumeLeases, hcs, hlen, ne_eq,
    not_true_eq_false, if_false, hfind, append_nil]
  unfold loadLayers
  cases hl : layerNames.mapM'
      (loadLayer t gpu deviceId tpRank (blockIds.zip (blocks.map Prod.snd))) with
  | error e =>
    obtain ⟨name, hn, herr⟩ := mapM_eq_error hl
    exact absurd herr (hlay name hn e)
  | ok all => exact ⟨_, rfl⟩

/-! ## Round trips -/

/-- The block is what is stored under one of the hashes. -/
def StoredUnder (inst : InstanceContext) (hashes : List BlockHash) (s : EngineState β)
    (found : FoundBlock) : Prop :=
  ∃ hash ∈ hashes, found.1 = inst.key hash ∧ s.cache.lookup found.1 = some found.2

/-- A load of blocks stored under the hashes is accepted, and it puts what was saved under
them to its destinations. -/
structure RoundTrip (inst : InstanceContext) (t : LayerTopology) (hashes : List BlockHash)
    (s : EngineState β) : Prop where
  accepted : ∀ (instances : Table InstanceId InstanceContext) (m : LeaseManager) instanceId
    deviceId gpu tpRank layerNames blocks blockIds consumers,
    instances.lookup instanceId = some inst → inst.getGpu deviceId = some gpu →
    tpRank < t.tpSize → (∀ name ∈ layerNames, (gpu.getLayout name).isSome) →
    blocks.length = blockIds.length → (∀ found ∈ blocks, StoredUnder inst hashes s found) →
      ∃ layers, (batchLoad instances (m.create instanceId blocks consumers).2
        ⟨instanceId, tpRank, deviceId, layerNames,
          [((m.create instanceId blocks consumers).1, blockIds)]⟩).1 = .ok layers
  loads : ∀ (instances : Table InstanceId InstanceContext) m req gpu layers,
    instances.lookup req.instanceId = some inst → inst.getGpu req.deviceId = some gpu →
    (batchLoad instances m req).1 = .ok layers →
    (∀ blockIdx found, Assigned m req.loads blockIdx found → StoredUnder inst hashes s found) →
    DestinationsInRange instances req → req.destinations.Nodup → ∀ mem : Memory Int β,
      ∃ mem', processLoadTask req.deviceId s.host mem layers = .ok mem' ∧
        LoadsBack inst t s.saved gpu m req mem mem'

variable {blockwise : Bool} {s₀ : EngineState β} {events : List (EngineEvent β)}
variable {hashes : List BlockHash}

end

/-- A save of the only block of the layer. -/
def saveBlock : SaveCall := ⟨0, 0, 0, [⟨"layer", [0], [[1]]⟩]⟩

/-- The save of a block of a device where every byte holds its address, and the insertion
of what it sent. -/
def saveOnce : List (EngineEvent Nat) :=
  [.start saveBlock, .finish 0 (fun _ address => address) 1, .insert []]

def idle : EngineState Nat := ⟨fun _ _ => 0, 0, ∅, ∅, [], [], []⟩

end PegaFlow.Engine
