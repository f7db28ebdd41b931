import PegaFlow.Block
import PegaFlow.Lib.Run
import PegaFlow.Engine.Topology

/-!
# Instances

`InstanceContext` of `pegaflow-core/src/instance.rs`, and the registration of a worker's
layers in `pegaflow-core/src/lib.rs`.  Workers register one by one, each with the layers on
its device.  The registration that completes the worker set seals the topology: the layer
names of all workers, sorted, are the layer ids.

A name has one geometry in a sealed instance, whatever device it is registered on
(`Sealed.geometry_eq`).  The check compares the padded size of a block, not the number of
its segments; that settles the number too, as the padding of a segment is a function of its
size (`segments_eq`).

The order in which a hash map of the source is walked is that of the table here; only the
choice among several errors depends on it.
-/

namespace PegaFlow.Engine

open List Option AList Table

/-! ## Registration -/

/-- An alignment of host segments. -/
abbrev Alignment := {alignment : Nat // 0 < alignment}

def ssdAlignment : Alignment := ⟨512, by decide⟩

/-- One layer of a registration. -/
structure LayerSpec where
  name : String
  dataPtr : Nat
  sizeBytes : Nat
  numBlocks : Nat
  bytesPerBlock : Nat
  kvStrideBytes : Nat
  segments : Nat
  blockStrideBytes : Option Nat

variable (ssd : Option Alignment)

/-- The size of a segment on the host; `ssd` is absent without an SSD. -/
def hostSegmentBytes (segmentBytes : Nat) : Nat :=
  match ssd with
  | none => segmentBytes
  | some alignment => nextMultipleOf segmentBytes alignment

def padLayout (l : KVCacheLayout) : KVCacheLayout :=
  match ssd with
  | none => l
  | some alignment => l.withSsdPadding alignment.1 alignment.2

/-- The layout that `register_context_layer_batch_strided` makes of a layer. -/
def registerLayout (spec : LayerSpec) : Except String KVCacheLayout :=
  match KVCacheLayout.new spec.dataPtr spec.sizeBytes spec.numBlocks spec.bytesPerBlock
      spec.kvStrideBytes spec.segments with
  | .error e => .error e
  | .ok l =>
    match spec.blockStrideBytes with
    | none => .ok (padLayout ssd l)
    | some stride => (l.withBlockStride stride).map (padLayout ssd)

/-- The layers of a registration, by name. -/
def buildKvCaches (ssd : Option Alignment) :
    List LayerSpec → Table String KVCacheLayout → Except EngineError (Table String KVCacheLayout)
  | [], caches => .ok caches
  | spec :: specs, caches =>
    match registerLayout ssd spec with
    | .error e => .error (.invalidArgument s!"layer {spec.name}: {e}")
    | .ok layout =>
      if (caches.lookup spec.name).isSome then
        .error (.invalidArgument s!"duplicate layer name in registration batch: {spec.name}")
      else buildKvCaches ssd specs (caches.insert spec.name layout)

/-- The host segments of the layout are padded as the engine pads them. -/
def KVCacheLayout.PaddedFor (l : KVCacheLayout) : Prop :=
  l.paddedSegmentBytes = hostSegmentBytes ssd l.segmentBytes

variable {l : KVCacheLayout}

theorem KVCacheLayout.new_unpadded {dataPtr sizeBytes numBlocks segmentBytes kvStrideBytes
    segments : Nat}
    (h : new dataPtr sizeBytes numBlocks segmentBytes kvStrideBytes segments = .ok l) :
    l.paddedSegmentBytes = l.segmentBytes := by
  have hm := madeBy_of_new h
  rw [hm.padded, hm.addressing]
  rfl

variable {l' : KVCacheLayout}

theorem KVCacheLayout.withBlockStride_sizes {stride : Nat} (h : l.withBlockStride stride = .ok l') :
    l'.paddedSegmentBytes = l.paddedSegmentBytes ∧ l'.segmentBytes = l.segmentBytes := by
  obtain ⟨hadr, hpadded⟩ := of_withBlockStride h
  have hseg := congrArg Addressing.segmentBytes hadr
  exact ⟨hpadded, hseg⟩

variable {ssd : Option Alignment}

theorem padLayout_paddedFor (h : l.paddedSegmentBytes = l.segmentBytes) :
    (padLayout ssd l).PaddedFor ssd := by
  cases ssd with
  | none => exact h
  | some alignment => rfl

theorem registerLayout_paddedFor {spec : LayerSpec}
    (h : registerLayout ssd spec = .ok l) : l.PaddedFor ssd := by
  unfold registerLayout at h
  split at h
  · cases h
  next l₀ hnew =>
    have hsizes := KVCacheLayout.new_unpadded hnew
    split at h
    · cases h
      exact padLayout_paddedFor hsizes
    next stride _ =>
      obtain ⟨l₁, hstr, rfl⟩ := Loop.map_eq_ok.mp h
      obtain ⟨hpadded, hseg⟩ := KVCacheLayout.withBlockStride_sizes hstr
      exact padLayout_paddedFor (hpadded.trans (hsizes.trans hseg.symm))

/-- What the layouts of all layers have, the caches made of them have. -/
theorem buildKvCaches_forall {P : KVCacheLayout → Prop} {specs : List LayerSpec}
    {caches caches' : Table String KVCacheLayout}
    (hspecs : ∀ spec ∈ specs, ∀ layout, registerLayout ssd spec = .ok layout → P layout)
    (hcas : ∀ name layout, caches.lookup name = some layout → P layout)
    (h : buildKvCaches ssd specs caches = .ok caches') :
    ∀ name layout, caches'.lookup name = some layout → P layout := by
  induction specs generalizing caches with
  | nil =>
    cases h
    exact hcas
  | cons spec specs ih =>
    rw [forall_mem_cons] at hspecs
    unfold buildKvCaches at h
    split at h
    · cases h
    next layout hlo =>
      split at h
      · cases h
      exact ih hspecs.2 (forall_lookup_insert (hspecs.1 layout hlo) hcas) h

/-! ## Sealing -/

structure GpuContext where
  deviceId : Int
  tpRank : Nat
  ppRank : Nat
  preferredNuma : NumaNode
  kvCaches : Table String KVCacheLayout

namespace GpuContext

def getLayout (gpu : GpuContext) (layerName : String) : Option KVCacheLayout :=
  gpu.kvCaches.lookup layerName

def layerNames (gpu : GpuContext) : List String := gpu.kvCaches.keys

end GpuContext

/-- What `seal_topology` compares between devices. -/
structure Geometry where
  segmentBytes : Nat
  isSplit : Bool
  paddedBlockBytes : Nat
deriving DecidableEq

def KVCacheLayout.geometry (l : KVCacheLayout) : Geometry :=
  ⟨l.segmentBytes, l.isSplit, l.paddedBlockBytes⟩

/-- The layers of all devices, each with its device. -/
def registeredLayers (gpus : List GpuContext) : List (Int × String × KVCacheLayout) :=
  gpus.flatMap fun gpu => gpu.kvCaches.entries.map fun e => (gpu.deviceId, e.1, e.2)

/-- The geometry of every layer name. -/
def collectGeometry :
    List (Int × String × KVCacheLayout) → Table String Geometry →
      Except EngineError (Table String Geometry)
  | [], geometry => .ok geometry
  | (deviceId, name, layout) :: rest, geometry =>
    match geometry.lookup name with
    | none => collectGeometry rest (geometry.insert name layout.geometry)
    | some existing =>
      if existing = layout.geometry then
        collectGeometry rest (geometry.insert name layout.geometry)
      else
        .error (.invalidArgument s!"layer {name} registered with inconsistent geometry: segment_bytes={existing.segmentBytes} split={existing.isSplit} padded_block_bytes={existing.paddedBlockBytes} vs segment_bytes={layout.segmentBytes} split={layout.isSplit} padded_block_bytes={layout.paddedBlockBytes} on device {deviceId}")

/-- The device and the pipeline stage that own each layer and tp rank. -/
def claimOwners (names : List String) (tpSize : Nat) :
    List (GpuContext × String) → List (Option (Int × Nat)) →
      Except EngineError (List (Option (Int × Nat)))
  | [], owners => .ok owners
  | (gpu, name) :: rest, owners =>
    let gridId := names.idxOf name * tpSize + gpu.tpRank
    match (owners[gridId]?).join with
    | none => claimOwners names tpSize rest (owners.set gridId (some (gpu.deviceId, gpu.ppRank)))
    | some (existingDevice, existingPpRank) =>
      if existingPpRank ≠ gpu.ppRank then
        .error (.invalidArgument s!"layer {name} claimed by different pipeline stages: device={existingDevice} pp_rank={existingPpRank}; device={gpu.deviceId} pp_rank={gpu.ppRank} tp_rank={gpu.tpRank}")
      else claimOwners names tpSize rest owners

structure InstanceContext where
  id : String
  nameSpace : String
  tpSize : Nat
  worldSize : Nat
  pageFirst : Bool
  gpuContexts : Table Int GpuContext
  topology : Option LayerTopology

namespace InstanceContext

def new (id nameSpace : String) (tpSize worldSize : Nat) (pageFirst : Bool) :
    Except String InstanceContext :=
  if tpSize = 0 ∨ worldSize = 0 then .error "tp_size and world_size must be > 0"
  else .ok ⟨id, nameSpace, tpSize, worldSize, pageFirst, ∅, none⟩

variable (ssd : Option Alignment) (inst : InstanceContext) (r : Registration)

def gpus : List GpuContext := inst.gpuContexts.entries.map fun e => e.2

/-- `seal_topology`, for all devices with the pending one. -/
def sealTopology (gpus : List GpuContext) : Except EngineError LayerTopology :=
  match collectGeometry (registeredLayers gpus) ∅ with
  | .error e => .error e
  | .ok geometry =>
    let names := geometry.keys.insertionSort (· ≤ ·)
    have hnodup : names.Nodup :=
      (List.perm_insertionSort (· ≤ ·) geometry.keys).nodup_iff.mpr geometry.keys_nodup
    match claimOwners names inst.tpSize (gpus.flatMap fun gpu => gpu.layerNames.map fun n => (gpu, n))
        (List.replicate (names.length * inst.tpSize) none) with
    | .error e => .error e
    | .ok owners =>
      match owners.findIdx? Option.isNone with
      | some missing =>
        .error (.invalidArgument s!"instance {inst.id} has incomplete KV registration: layer {names.getD (missing / inst.tpSize) default} has no owner for tp_rank {missing % inst.tpSize} after all {inst.worldSize} workers registered")
      | none =>
        if inst.pageFirst then
          let sets := gpus.map fun gpu =>
            (gpu.layerNames.map fun n => names.idxOf n).insertionSort (· ≤ ·)
          let layers := names.map fun n =>
            (n, ((geometry.lookup n).map Geometry.paddedBlockBytes).getD 0)
          match hpage : buildPageLayout sets layers with
          | .error e => .error e
          | .ok p =>
            .ok
              { names := names
                tpSize := inst.tpSize
                pageLayout := some p
                names_nodup := hnodup
                page_length := by
                  rintro _ ⟨⟩
                  rw [buildPageLayout_layerBytes hpage, List.length_map, List.length_map] }
        else
          .ok
            { names := names
              tpSize := inst.tpSize
              pageLayout := none
              names_nodup := hnodup
              page_length := nofun }

def ensureAcceptingRegistrations (deviceId : Int) : Option EngineError :=
  if (inst.gpuContexts.lookup deviceId).isSome then
    some (.invalidArgument s!"GPU context for device {deviceId} already exists")
  else if inst.topology.isSome then
    some (.invalidArgument s!"instance {inst.id} is already fully registered ({inst.worldSize} workers); device {deviceId} cannot join")
  else none

/-- `register_new_gpu`. -/
def registerNewGpu (gpu : GpuContext) : Except EngineError InstanceContext :=
  if inst.tpSize ≤ gpu.tpRank then
    .error (.invalidArgument s!"tp_rank {gpu.tpRank} out of range (tp_size {inst.tpSize})")
  else if gpu.kvCaches.keys = [] then
    .error (.invalidArgument s!"device {gpu.deviceId} registered no KV cache layers")
  else
    match inst.ensureAcceptingRegistrations gpu.deviceId with
    | some e => .error e
    | none =>
      if gpu.deviceId < 0 then
        .error (.invalidArgument s!"device_id {gpu.deviceId} must be >= 0")
      else if inst.gpus.length + 1 = inst.worldSize then
        match inst.sealTopology (inst.gpus ++ [gpu]) with
        | .error e => .error e
        | .ok topology =>
          .ok
            { inst with
              gpuContexts := inst.gpuContexts.insert gpu.deviceId gpu
              topology := some topology }
      else .ok { inst with gpuContexts := inst.gpuContexts.insert gpu.deviceId gpu }

/-- The layers one worker registers. -/
structure Registration where
  deviceId : Int
  tpRank : Nat
  ppRank : Nat
  numaNode : NumaNode
  layers : List LayerSpec

/-- `register_context_layer_batch_strided` for an instance that exists. -/
def register : Except EngineError InstanceContext :=
  match buildKvCaches ssd r.layers ∅ with
  | .error e => .error e
  | .ok kvCaches =>
    inst.registerNewGpu ⟨r.deviceId, r.tpRank, r.ppRank, r.numaNode, kvCaches⟩

/-- One registration that is accepted; a refused one changes nothing. -/
def step : Option InstanceContext :=
  (inst.register ssd r).toOption

/-- The instances that registrations can make. -/
def Registered : Prop :=
  ∃ id nameSpace tpSize worldSize pageFirst inst₀ registrations,
    new id nameSpace tpSize worldSize pageFirst = .ok inst₀ ∧
      Run.exec (step ssd) inst₀ registrations = some inst

def getGpu (deviceId : Int) : Option GpuContext :=
  inst.gpuContexts.lookup deviceId

def getGpuForSaveGroup (deviceId : Int) (tpRank ppRank : Nat) : Except EngineError GpuContext :=
  match inst.getGpu deviceId with
  | none => .error (.workerMissing inst.id deviceId)
  | some gpu =>
    if gpu.tpRank ≠ tpRank ∨ gpu.ppRank ≠ ppRank then
      .error (.invalidArgument s!"device_id {deviceId} is registered for tp_rank {gpu.tpRank}, pp_rank {gpu.ppRank}, but save requested tp_rank {tpRank}, pp_rank {ppRank}")
    else .ok gpu

def sealedTopology : Except EngineError LayerTopology :=
  match inst.topology with
  | some topology => .ok topology
  | none =>
    .error (.invalidArgument s!"instance {inst.id} registration incomplete: {inst.gpus.length}/{inst.worldSize} workers registered")

/-! ## What sealing checks -/

variable {inst inst' : InstanceContext} {gpu gpu' : GpuContext} {t : LayerTopology}
variable {ssd : Option Alignment} {name : String} {layout : KVCacheLayout}

theorem collectGeometry_ok {layers : List (Int × String × KVCacheLayout)}
    {geometry geometry' : Table String Geometry}
    (h : collectGeometry layers geometry = .ok geometry') :
    (∀ name g, geometry.lookup name = some g → geometry'.lookup name = some g) ∧
      ∀ entry ∈ layers, geometry'.lookup entry.2.1 = some entry.2.2.geometry := by
  induction layers generalizing geometry with
  | nil =>
    cases h
    exact ⟨fun _ _ h => h, by simp⟩
  | cons entry rest ih =>
    obtain ⟨deviceId, name, layout⟩ := entry
    have hr : collectGeometry rest (geometry.insert name layout.geometry) = .ok geometry' ∧
        ∀ g, geometry.lookup name = some g → g = layout.geometry := by
      unfold collectGeometry at h
      split at h
      next hnone =>
        refine ⟨h, ?_⟩
        intro g hg
        rw [hnone] at hg
        cases hg
      next existing hs =>
        split at h
        next heq =>
          refine ⟨h, ?_⟩
          intro g hg
          rw [hs] at hg
          exact (some.inj hg).symm.trans heq
        · cases h
    obtain ⟨hk, hall⟩ := ih hr.1
    refine ⟨?_, ?_⟩
    · intro n g hg
      refine hk n g ?_
      by_cases hn : n = name
      · subst hn
        rw [lookup_insert, hr.2 g hg]
      · rwa [lookup_insert_ne hn]
    · intro entry hm
      rcases mem_cons.mp hm with rfl | hm
      · exact hk name _ (lookup_insert _)
      · exact hall entry hm

variable {gpus : List GpuContext}

/-- The layers of the devices, as they claim the grid. -/
def layerClaims (gpus : List GpuContext) : List (GpuContext × String) :=
  gpus.flatMap fun gpu => gpu.layerNames.map fun n => (gpu, n)

/-- The layer ids of each device. -/
def workerLayerSets (names : List String) (gpus : List GpuContext) : List (List Nat) :=
  gpus.map fun gpu => (gpu.layerNames.map fun n => names.idxOf n).insertionSort (· ≤ ·)

/-- The layers and their sizes in a page. -/
def pageLayers (names : List String) (geometry : Table String Geometry) : List (String × Nat) :=
  names.map fun n => (n, ((geometry.lookup n).map Geometry.paddedBlockBytes).getD 0)

theorem sealTopology_eq_ok :
    inst.sealTopology gpus = .ok t ↔
      ∃ geometry owners, collectGeometry (registeredLayers gpus) ∅ = .ok geometry ∧
        t.names = geometry.keys.insertionSort (· ≤ ·) ∧ t.tpSize = inst.tpSize ∧
        claimOwners t.names inst.tpSize (layerClaims gpus)
          (List.replicate (t.names.length * inst.tpSize) none) = .ok owners ∧
        owners.findIdx? Option.isNone = none ∧
        match t.pageLayout with
        | none => inst.pageFirst = false
        | some p => inst.pageFirst ∧
            buildPageLayout (workerLayerSets t.names gpus) (pageLayers t.names geometry) =
              .ok p := by
  constructor
  · intro h
    unfold sealTopology at h
    split at h
    · cases h
    next geometry hgeo =>
      dsimp only at h
      split at h
      · cases h
      next owners hows =>
        split at h
        · cases h
        next hwn =>
          refine ⟨geometry, owners, hgeo, ?_⟩
          split at h
          next hfst =>
            split at h
            · cases h
            next p hp =>
              cases h
              exact ⟨rfl, rfl, hows, hwn, hfst, hp⟩
          next hfst =>
            cases h
            exact ⟨rfl, rfl, hows, hwn, Bool.not_eq_true _ ▸ hfst⟩
  · rintro ⟨geometry, owners, hgeo, hnms, hs, hows, hwn, hp⟩
    obtain ⟨names, tpSize, pageLayout, hnd, hlen⟩ := t
    subst hnms hs
    unfold sealTopology
    split
    next e hgeo' =>
      rw [hgeo] at hgeo'
      cases hgeo'
    next geometry' hgeo' =>
      obtain rfl : geometry = geometry' := Except.ok.inj (hgeo.symm.trans hgeo')
      dsimp only
      split
      next e hows' => cases hows.symm.trans hows'
      next owners' hows' =>
        obtain rfl : owners = owners' := Except.ok.inj (hows.symm.trans hows')
        split
        next missing hmissing => cases hwn.symm.trans hmissing
        split
        next hfst =>
          cases pageLayout with
          | none => simp [hfst] at hp
          | some p =>
            split
            next e hp' => cases hp.2.symm.trans hp'
            next p' hp' =>
              obtain rfl : p = p' := Except.ok.inj (hp.2.symm.trans hp')
              rfl
        next hfst =>
          cases pageLayout with
          | none => rfl
          | some p => exact absurd hp.1 hfst

section

variable (h : inst.sealTopology gpus = .ok t)
include h

theorem sealTopology_ok :
    ∃ geometry, collectGeometry (registeredLayers gpus) ∅ = .ok geometry ∧
      t.tpSize = inst.tpSize ∧ t.names = geometry.keys.insertionSort (· ≤ ·) ∧
      ∀ p, t.pageLayout = some p →
        p.layerBytes =
          t.names.map fun n => ((geometry.lookup n).map Geometry.paddedBlockBytes).getD 0 := by
  obtain ⟨geometry, owners, hgeo, hnms, hs, -, -, hpg⟩ := sealTopology_eq_ok.mp h
  refine ⟨geometry, hgeo, hs, hnms, ?_⟩
  intro p hp
  rw [hp] at hpg
  rw [buildPageLayout_layerBytes hpg.2, pageLayers, List.map_map]
  rfl

/-- The devices of an instance agree with a topology. -/
structure Sealed (t : LayerTopology) (gpus : List GpuContext) : Prop where
  mem_names : ∀ gpu ∈ gpus, ∀ name layout, gpu.getLayout name = some layout → name ∈ t.names
  geometry_eq : ∀ gpu ∈ gpus, ∀ gpu' ∈ gpus, ∀ name layout layout',
    gpu.getLayout name = some layout → gpu'.getLayout name = some layout' →
      layout.geometry = layout'.geometry
  page_bytes : ∀ gpu ∈ gpus, ∀ name layout, gpu.getLayout name = some layout →
    ∀ p, t.pageLayout = some p →
      p.layerBytes[t.names.idxOf name]? = some layout.paddedBlockBytes

theorem sealTopology_sealed : Sealed t gpus := by
  obtain ⟨geometry, hgeo, -, hnms, hpg⟩ := sealTopology_ok h
  have hlk : ∀ gpu ∈ gpus, ∀ name layout, gpu.getLayout name = some layout →
      geometry.lookup name = some layout.geometry := by
    intro gpu hg name layout hlo
    refine (collectGeometry_ok hgeo).2 (gpu.deviceId, name, layout) (mem_flatMap.mpr ?_)
    exact ⟨gpu, hg, mem_map.mpr ⟨⟨name, layout⟩, mem_lookup_iff.mp hlo, rfl⟩⟩
  have hm : ∀ gpu ∈ gpus, ∀ name layout, gpu.getLayout name = some layout → name ∈ t.names := by
    intro gpu hg name layout hlo
    rw [hnms, List.mem_insertionSort, ← AList.mem_keys, ← AList.lookup_isSome,
      hlk gpu hg name layout hlo]
    rfl
  refine ⟨hm, ?_, ?_⟩
  · intro gpu hg gpu' hg' name layout layout' hlo hlo'
    have heq := hlk gpu hg name layout hlo
    rw [hlk gpu' hg' name layout' hlo'] at heq
    exact (some.inj heq).symm
  · intro gpu hg name layout hlo p hp
    have hlt := idxOf_lt_length_of_mem (hm gpu hg name layout hlo)
    rw [hpg p hp, getElem?_map, getElem?_eq_getElem hlt, getElem_idxOf]
    simp only [map_some, hlk gpu hg name layout hlo, getD_some]
    rfl

/-- A topology has a slot, as a worker registers a layer at least. -/
theorem sealTopology_slots_pos (hg : gpu ∈ gpus) (hls : gpu.kvCaches.keys ≠ [])
    (hr : gpu.tpRank < inst.tpSize) : 0 < t.totalSlots := by
  obtain ⟨name, hn⟩ := exists_mem_of_ne_nil _ hls
  obtain ⟨layout, hlo⟩ := isSome_iff_exists.mp (AList.lookup_isSome.mpr (AList.mem_keys.mpr hn))
  have hm := (sealTopology_sealed h).mem_names gpu hg name layout hlo
  obtain ⟨-, -, hs, -⟩ := sealTopology_ok h
  exact Nat.zero_lt_of_lt (LayerTopology.slotOf_lt (idxOf_lt_length_of_mem hm) (hs ▸ hr))

end

/-- What holds of every instance that registrations make. -/
structure WF (ssd : Option Alignment) (inst : InstanceContext) : Prop where
  tpRank_lt : ∀ gpu ∈ inst.gpus, gpu.tpRank < inst.tpSize
  padded : ∀ gpu ∈ inst.gpus, ∀ name layout, gpu.getLayout name = some layout →
    layout.PaddedFor ssd
  tpSize_eq : ∀ t, inst.topology = some t → t.tpSize = inst.tpSize
  slots_pos : ∀ t, inst.topology = some t → 0 < t.totalSlots
  agree : ∀ t, inst.topology = some t → Sealed t inst.gpus

variable {deviceId : Int}

theorem mem_gpus_of_getGpu (h : inst.getGpu deviceId = some gpu) : gpu ∈ inst.gpus :=
  mem_map.mpr ⟨⟨deviceId, gpu⟩, mem_lookup_iff.mp h, rfl⟩

theorem sealedTopology_ok (h : inst.sealedTopology = .ok t) : inst.topology = some t := by
  unfold sealedTopology at h
  split at h
  next ht =>
    cases h
    exact ht
  · cases h

theorem getGpuForSaveGroup_ok {tpRank ppRank : Nat}
    (h : inst.getGpuForSaveGroup deviceId tpRank ppRank = .ok gpu) :
    inst.getGpu deviceId = some gpu := by
  unfold getGpuForSaveGroup at h
  split at h
  · cases h
  next hg =>
    split at h
    · cases h
    · cases h
      exact hg

theorem Sealed.mono {gpus' : List GpuContext} (h : Sealed t gpus) (hsub : ∀ gpu ∈ gpus', gpu ∈ gpus) :
    Sealed t gpus' where
  mem_names gpu hg := h.mem_names gpu (hsub gpu hg)
  geometry_eq gpu hg gpu' hg' := h.geometry_eq gpu (hsub gpu hg) gpu' (hsub gpu' hg')
  page_bytes gpu hg := h.page_bytes gpu (hsub gpu hg)

/-! ## Registered instances -/

theorem new_wf {id nameSpace : String} {tpSize worldSize : Nat} {pageFirst : Bool}
    (h : new id nameSpace tpSize worldSize pageFirst = .ok inst) : inst.WF ssd := by
  unfold new at h
  split at h
  · cases h
  · cases h
    exact ⟨by simp [gpus], by simp [gpus], nofun, nofun, nofun⟩

/-- What a registration that is accepted does. -/
theorem registerNewGpu_ok (h : inst.registerNewGpu gpu = .ok inst') :
    gpu.tpRank < inst.tpSize ∧ gpu.kvCaches.keys ≠ [] ∧
      inst'.gpuContexts = inst.gpuContexts.insert gpu.deviceId gpu ∧ inst'.tpSize = inst.tpSize ∧
      ∀ t, inst'.topology = some t → inst.sealTopology (inst.gpus ++ [gpu]) = .ok t := by
  unfold registerNewGpu at h
  split at h
  · cases h
  next hr =>
    split at h
    · cases h
    next hls =>
      split at h
      · cases h
      next haccg =>
        have ho : inst.topology = none := by
          unfold ensureAcceptingRegistrations at haccg
          split at haccg
          · cases haccg
          split at haccg
          · cases haccg
          next ho => simpa using ho
        split at h
        · cases h
        split at h
        · split at h
          · cases h
          next topology hsl =>
            cases h
            refine ⟨Nat.not_le.mp hr, hls, rfl, rfl, ?_⟩
            rintro t ⟨⟩
            exact hsl
        · cases h
          refine ⟨Nat.not_le.mp hr, hls, rfl, rfl, ?_⟩
          intro t ht
          rw [ho] at ht
          cases ht

theorem mem_gpus_of_insert (h : inst'.gpuContexts = inst.gpuContexts.insert deviceId gpu)
    (hg' : gpu' ∈ inst'.gpus) : gpu' = gpu ∨ gpu' ∈ inst.gpus := by
  obtain ⟨⟨d, g⟩, hm, rfl⟩ := mem_map.mp hg'
  have hlk : inst'.gpuContexts.lookup d = some g := mem_lookup_iff.mpr hm
  rw [h] at hlk
  rcases lookup_of_insert hlk with ⟨-, rfl⟩ | ⟨-, ho⟩
  · exact Or.inl rfl
  · exact Or.inr (mem_gpus_of_getGpu ho)

theorem register_wf {r : Registration} (hwf : inst.WF ssd)
    (h : inst.register ssd r = .ok inst') : inst'.WF ssd := by
  unfold register at h
  split at h
  · cases h
  next kvCaches hcas =>
    obtain ⟨hr, hls, hin, htp, hsl⟩ := registerNewGpu_ok h
    refine ⟨?_, ?_, ?_, ?_, ?_⟩
    · intro gpu hg
      rw [htp]
      rcases mem_gpus_of_insert hin hg with rfl | ho
      · exact hr
      · exact hwf.tpRank_lt gpu ho
    · intro gpu hg name layout hlo
      rcases mem_gpus_of_insert hin hg with rfl | ho
      · refine buildKvCaches_forall ?_ (by simp) hcas name layout hlo
        exact fun _ _ _ => registerLayout_paddedFor
      · exact hwf.padded gpu ho name layout hlo
    · intro t ht
      obtain ⟨-, -, hs, -⟩ := sealTopology_ok (hsl t ht)
      exact hs.trans htp.symm
    · intro t ht
      exact sealTopology_slots_pos (hsl t ht) (by simp) hls hr
    · intro t ht
      refine (sealTopology_sealed (hsl t ht)).mono ?_
      intro gpu hg
      rcases mem_gpus_of_insert hin hg with rfl | ho
      · simp
      · exact mem_append_left _ ho

theorem Registered.wf (h : Registered ssd inst) : inst.WF ssd := by
  obtain ⟨_, _, _, _, _, inst₀, registrations, hnew, hrun⟩ := h
  refine Run.exec_invariant ?_ (new_wf hnew) hrun
  intro s r s' hwf hst
  exact register_wf hwf (Loop.eq_ok_of_mem_toOption hst)

end InstanceContext

/-- Layouts of one geometry have as many segments. -/
theorem KVCacheLayout.segments_eq {ssd : Option Alignment} (h : l.PaddedFor ssd)
    (h' : l'.PaddedFor ssd) (hgeo : l.geometry = l'.geometry) : l.segments = l'.segments := by
  have hseg : l.segmentBytes = l'.segmentBytes := congrArg Geometry.segmentBytes hgeo
  have hpadded : l.paddedSegmentBytes = l'.paddedSegmentBytes := by rw [h, h', hseg]
  have hb : l.paddedSegmentBytes * l.segments = l'.paddedSegmentBytes * l'.segments :=
    congrArg Geometry.paddedBlockBytes hgeo
  rw [← hpadded] at hb
  exact Nat.eq_of_mul_eq_mul_left
    (Nat.lt_of_lt_of_le l.accepted.segmentBytes_pos l.segmentBytes_le_padded) hb

end PegaFlow.Engine
