import PegaFlow.Server.Service

/-!
# Copies and the tensors they go by

The registry holds the tensors of a context, which keep its device memory mapped.  The engine knows
the same memory by the layouts of the devices, and a save or load takes copies of them to a worker.
Nothing ties the two together: a cleanup drops the tensors of an instance while transfers of it are
queued or copying, and before the instance is unregistered, so that further transfers still find it.

Copies go by mapped memory if a cleanup waits for what is under way (`Drains`): the tensors of an
instance are dropped when no transfer and no registration of the instance is under way, the keys that
begin with its id are its own, no transfer is taken on until the instance is unregistered, and
nothing makes the cleanup stop in between.  Rollbacks need no condition: the context that a failed
registration drops is its own, and the engine never saw it.

`Mapped` is what such runs keep.  The layouts of an instance that transfers can find are those of
tensors the registry holds, and so are the layouts that a transfer has taken (`Live`).
-/

namespace PegaFlow.Server

open PegaFlow.Engine
open PegaFlow.Storage (InstanceId)
open List AList Table Run Loop

/-! ## The memory of a layout -/

/-- The device memory of the layout: its address and its size. -/
def layoutRegion (layout : KVCacheLayout) : Nat × Nat := (layout.dataPtr, layout.sizeBytes)

/-- The device memory of the layers. -/
def cacheRegions (kvCaches : Table String KVCacheLayout) : List (Nat × Nat) :=
  kvCaches.entries.map fun e => layoutRegion e.2

variable {kvCaches : Table String KVCacheLayout}

theorem mem_cacheRegions {region : Nat × Nat} :
    region ∈ cacheRegions kvCaches ↔
      ∃ name layout, kvCaches.lookup name = some layout ∧ layoutRegion layout = region := by
  rw [cacheRegions, mem_map]
  constructor
  · rintro ⟨⟨name, layout⟩, hmem, rfl⟩
    exact ⟨name, layout, mem_lookup_iff.mpr hmem, rfl⟩
  · rintro ⟨name, layout, hlk, rfl⟩
    exact ⟨⟨name, layout⟩, mem_lookup_iff.mp hlk, rfl⟩

variable {layout : KVCacheLayout}

theorem new_region {dataPtr sizeBytes numBlocks segmentBytes kvStrideBytes segments : Nat}
    (h : KVCacheLayout.new dataPtr sizeBytes numBlocks segmentBytes kvStrideBytes segments =
      .ok layout) : layoutRegion layout = (dataPtr, sizeBytes) := by
  have hmd := KVCacheLayout.madeBy_of_new h
  rw [layoutRegion, hmd.addressing]
  rfl

theorem padLayout_region (ssd : Option Engine.Alignment) (layout : KVCacheLayout) :
    layoutRegion (padLayout ssd layout) = layoutRegion layout := by
  cases ssd with
  | none | some alignment => rfl

variable {spec : LayerSpec}

theorem registerLayout_region {ssd : Option Engine.Alignment}
    (hstr : spec.blockStrideBytes = none) (h : registerLayout ssd spec = .ok layout) :
    layoutRegion layout = (spec.dataPtr, spec.sizeBytes) := by
  unfold registerLayout at h
  split at h
  · cases h
  next made hnew =>
    rw [hstr] at h
    cases h
    rw [padLayout_region, new_region hnew]

variable {metadatas : List TensorMetadata}

variable {req : RegisterRequest}

theorem RegisterRequest.mem_specs (h : spec ∈ req.specs metadatas) :
    spec.blockStrideBytes = none ∧
      (spec.dataPtr, spec.sizeBytes) ∈ metadatas.map TensorMetadata.region := by
  obtain ⟨⟨layer, metadata⟩, hmem, rfl⟩ := mem_map.mp h
  exact ⟨rfl, mem_map.mpr ⟨metadata, (of_mem_zip hmem).2, rfl⟩⟩

/-- The caches of a registration are of the memory of its tensors. -/
theorem RegisterRequest.cacheRegions_subset {ssd : Option Engine.Alignment}
    (h : buildKvCaches ssd (req.specs metadatas) ∅ = .ok kvCaches) :
    ∀ region ∈ cacheRegions kvCaches, region ∈ metadatas.map TensorMetadata.region := by
  intro region hrgn
  obtain ⟨name, layout, hlk, rfl⟩ := mem_cacheRegions.mp hrgn
  refine buildKvCaches_forall (P := fun layout => layoutRegion layout ∈ _) ?_ (by simp) h name
    layout hlk
  intro spec hspec layout hlo
  obtain ⟨hstr, hm⟩ := mem_specs hspec
  rw [registerLayout_region hstr hlo]
  exact hm

/-- The layouts of a transfer are those of the device it names. -/
theorem TransferRequest.layouts_ok {req : TransferRequest} {inst : InstanceContext}
    {layouts : List (String × KVCacheLayout)} (h : req.layouts inst = .ok layouts) :
    ∃ gpu, inst.gpuContexts.lookup req.deviceId = some gpu ∧
      ∀ e ∈ layouts, gpu.getLayout e.1 = some e.2 := by
  unfold TransferRequest.layouts at h
  split at h
  · cases h
  next topology _ =>
    split at h
    · cases h
    next gpu hg =>
      refine ⟨gpu, ?_, ?_⟩
      · unfold TransferRequest.gpu at hg
        split at hg
        · unfold InstanceContext.getGpuForSaveGroup InstanceContext.getGpu at hg
          split at hg
          · cases hg
          next hlk =>
            split at hg
            · cases hg
            · cases hg
              exact hlk
        · split at hg
          · cases hg
          next hlk =>
            cases hg
            exact hlk
      · intro e he
        obtain ⟨name, -, hlo⟩ := exists_item (mapM_eq_ok.mp h) he
        unfold TransferRequest.layout at hlo
        split at hlo
        · cases hlo
        split at hlo
        next hfd =>
          cases hlo
          exact hfd
        · cases hlo
        · cases hlo

/-! ## What a cleanup waits for -/

namespace ServerState

variable {ssd : Option Engine.Alignment} {s s' : ServerState} {ev : ServerEvent}

/-- A cleanup drops the tensors of an instance only when no transfer and no registration of it is
under way and only if they are its own, and no transfer is taken on between that and the end of the
cleanup. -/
def Drains (s : ServerState) : ServerEvent → Prop
  | .dropTensors cleanup =>
    ∀ c ∈ s.cleanups.lookup cleanup,
      (∀ e ∈ s.transfers.entries, e.2.req.instanceId ≠ c.instanceId) ∧
      (∀ e ∈ s.calls.entries, e.2.req.instanceId ≠ c.instanceId) ∧
      ∀ context ∈ s.contexts.instanceContexts c.instanceId,
        context.stamp.instanceId = c.instanceId
  | .cancelCleanup cleanup => ∀ c ∈ s.cleanups.lookup cleanup, c.stage = .dropTensors
  | .resolve _ req =>
    ∀ e ∈ s.cleanups.entries, e.2.instanceId = req.instanceId → e.2.stage = .dropTensors
  | _ => True

instance : ∀ ev, Decidable (s.Drains ev)
  | .dropTensors _ | .cancelCleanup _ | .resolve _ _ => inferInstanceAs (Decidable (∀ _ ∈ _, _))
  | .issueToken _ | .install _ | .closeSession _ _ | .unregisterContext _ _ | .unregister _
  | .materialize _ _ _ | .enterInstance _ | .registerGpu _ _ _ | .rollback _ | .cancelCall _
  | .prepare _ _ | .refuseTransfer _ | .startCopy _ | .finishCopy _ => isTrue trivial

/-! ## Mapped memory -/

/-- The context of the number is registered, for the instance, and keeps the memory mapped; no
registration is still to decide about it. -/
structure Live (s : ServerState) (serial : Nat) (instanceId : InstanceId)
    (regions : List (Nat × Nat)) : Prop where
  registered : ∃ key context, s.contexts.lookup key = some context ∧
    context.stamp.serial = serial ∧ context.stamp.instanceId = instanceId ∧
    ∀ region ∈ regions, context.Maps region
  settled : ∀ call c, s.calls.lookup call = some c → c.serial ≠ serial

/-- All devices of the instance are registered from live contexts. -/
def AllLive (s : ServerState) (i : Nat) (instanceId : InstanceId) : Prop :=
  ∀ inst, s.heap.lookup i = some inst →
    ∀ deviceId gpu, inst.context.gpuContexts.lookup deviceId = some gpu →
      ∃ origin, inst.origins.lookup deviceId = some origin ∧
        s.Live origin.serial instanceId (cacheRegions gpu.kvCaches)

end ServerState

/-- The memory that a registration is about. -/
def RegisterStage.regions : RegisterStage → List (Nat × Nat)
  | .materialized metadatas => metadatas.map TensorMetadata.region
  | .entered _ kvCaches => cacheRegions kvCaches
  | .failed _ => []

/-- The memory of the layouts. -/
def transferRegions (layouts : List (String × KVCacheLayout)) : List (Nat × Nat) :=
  layouts.map fun e => layoutRegion e.2

namespace ServerState

variable {ssd : Option Engine.Alignment} {s s' : ServerState} {ev : ServerEvent}

variable (s)

/-- What a transfer holds is live. -/
def Holds (t : Transfer) : Prop :=
  match t.stage with
  | .resolved i => s.Names i t.req.instanceId ∧ s.AllLive i t.req.instanceId
  | .queued serial layouts | .copying serial layouts =>
    s.Live serial t.req.instanceId (transferRegions layouts)

/-- A registration has its context under its key. -/
def Owns (c : RegisterCall) : Prop :=
  ∃ context, s.contexts.lookup c.req.key = some context ∧ context.stamp.serial = c.serial ∧
    context.stamp.instanceId = c.req.instanceId ∧ ∀ region ∈ c.stage.regions, context.Maps region

/-- A cleanup of the instance has dropped its tensors and not yet unregistered it. -/
def Unregistering (instanceId : InstanceId) : Prop :=
  ∃ cleanup c, s.cleanups.lookup cleanup = some c ∧ c.instanceId = instanceId ∧
    c.stage = .unregister

variable {s}

structure Mapped (s : ServerState) : Prop where
  wired : s.Wired
  context_lt : ∀ key context, s.contexts.lookup key = some context →
    context.stamp.serial < s.nextContext
  call : ∀ call c, s.calls.lookup call = some c → s.Owns c
  call_inj : ∀ call call' c c', s.calls.lookup call = some c → s.calls.lookup call' = some c' →
    c.serial = c'.serial → call = call'
  registered : ∀ instanceId i, s.instances.lookup instanceId = some i →
    s.AllLive i instanceId ∨ s.Unregistering instanceId
  transfer : ∀ transfer t, s.transfers.lookup transfer = some t → s.Holds t

/-! ## What a step keeps live -/

/-- The step does not drop the tensors of the instance. -/
def Avoids (s : ServerState) (ev : ServerEvent) (instanceId : InstanceId) : Prop :=
  ∀ cleanup c, ev = .dropTensors cleanup → s.cleanups.lookup cleanup = some c →
    c.instanceId ≠ instanceId

variable {key : String} {context : ContextState}

/-- A context of another instance than the one a cleanup drops stays. -/
theorem Drains.lookup_dropInstance {cleanup : Nat} {c : Cleanup}
    (hcd : s.Drains (.dropTensors cleanup)) (hcl : s.cleanups.lookup cleanup = some c)
    (hc : s.contexts.lookup key = some context)
    (hoth : context.stamp.instanceId ≠ c.instanceId) :
    (s.contexts.dropInstance c.instanceId).lookup key = some context := by
  rw [Contexts.lookup_dropInstance, if_neg, hc]
  intro hk
  exact hoth ((hcd c hcl).2.2 context (Contexts.mem_instanceContexts.mpr ⟨key, hk, hc⟩))

variable {call : Nat}

variable {c : RegisterCall}

/-- A context of another registration than the one rolled back stays. -/
theorem Mapped.lookup_dropContext (hm : s.Mapped) (hcall : s.calls.lookup call = some c)
    (hc : s.contexts.lookup key = some context) (hoth : c.serial ≠ context.stamp.serial) :
    (s.contexts.dropContext c.req.key).lookup key = some context := by
  rw [Contexts.lookup_dropContext, if_neg, hc]
  rintro rfl
  obtain ⟨own, hown, hser, -⟩ := hm.call call c hcall
  cases hown.symm.trans hc
  exact hoth hser.symm

variable {serial : Nat} {instanceId : InstanceId} {regions : List (Nat × Nat)}

section

variable (hlive : s.Live serial instanceId regions) (hm : s.Mapped)
include hlive hm

theorem Live.registered_step (hcd : s.Drains ev) (havo : s.Avoids ev instanceId)
    (h : Step ssd s ev s') :
    ∃ key context, s'.contexts.lookup key = some context ∧ context.stamp.serial = serial ∧
      context.stamp.instanceId = instanceId ∧ ∀ region ∈ regions, context.Maps region := by
  obtain ⟨key, context, hc, hser, hid, hms⟩ := hlive.registered
  cases h with
  | dropTensors hcl hst =>
    refine ⟨key, context, hcd.lookup_dropInstance hcl hc ?_, hser, hid, hms⟩
    rw [hid]
    exact (havo _ _ rfl hcl).symm
  | materialize hfr hf hstm hnew =>
    refine ⟨key, context, (lookup_insert_ne ?_).trans hc, hser, hid, hms⟩
    rintro rfl
    rw [hf] at hc
    cases hc
  | rollback hcall hst =>
    refine ⟨key, context, hm.lookup_dropContext hcall hc ?_, hser, hid, hms⟩
    rw [hser]
    exact hlive.settled _ _ hcall
  | _ => exact ⟨key, context, hc, hser, hid, hms⟩

theorem Live.settled_step (h : Step ssd s ev s') :
    ∀ call c, s'.calls.lookup call = some c → c.serial ≠ serial := by
  intro k c hk
  cases h with
  | materialize =>
    rcases lookup_of_insert hk with ⟨-, rfl⟩ | ⟨-, hk⟩
    · obtain ⟨key, context, hctx, rfl, -⟩ := hlive.registered
      exact (Nat.ne_of_lt (hm.context_lt key context hctx)).symm
    · exact hlive.settled k c hk
  | enterFails hc | enterExisting hc | enterNew hc | registerFails hc =>
    rcases lookup_of_insert hk with ⟨-, rfl⟩ | ⟨-, hk⟩
    · have hse := hlive.settled _ _ hc
      exact hse
    · exact hlive.settled k c hk
  | registerGpu | rollback | cancelCall => exact hlive.settled k c (lookup_of_erase hk).2
  | _ => exact hlive.settled k c hk

theorem Live.step (hc : s.Drains ev) (havo : s.Avoids ev instanceId) (h : Step ssd s ev s') :
    s'.Live serial instanceId regions :=
  ⟨hlive.registered_step hm hc havo h, hlive.settled_step hm h⟩

end

variable {i : Nat}

/-- The context of a registration whose device was added is live. -/
theorem Mapped.live_of_registered {kvCaches : Table String KVCacheLayout} (hm : s.Mapped)
    (hc : s.calls.lookup call = some c) (hst : c.stage = .entered i kvCaches)
    (hctxs : s'.contexts = s.contexts) (hcs : s'.calls = s.calls.erase call) :
    s'.Live c.serial c.req.instanceId (cacheRegions kvCaches) := by
  obtain ⟨context, hctx, hser, hid, hms⟩ := hm.call call c hc
  rw [hst] at hms
  refine ⟨⟨c.req.key, context, hctxs ▸ hctx, hser, hid, hms⟩, ?_⟩
  intro k c' hk hsm
  rw [hcs] at hk
  obtain ⟨hne, hk⟩ := lookup_of_erase hk
  exact hne (hm.call_inj k call c' c hk hc hsm)

theorem AllLive.step (hall : s.AllLive i instanceId) (hnms : s.Names i instanceId) (hm : s.Mapped)
    (hcd : s.Drains ev) (havo : s.Avoids ev instanceId) (h : Step ssd s ev s') :
    s'.AllLive i instanceId := by
  have hk : ∀ inst, s.heap.lookup i = some inst → ∀ deviceId gpu,
      inst.context.gpuContexts.lookup deviceId = some gpu →
        ∃ origin, inst.origins.lookup deviceId = some origin ∧
          s'.Live origin.serial instanceId (cacheRegions gpu.kvCaches) := by
    intro inst hin deviceId gpu hg
    obtain ⟨origin, horg, hlive⟩ := hall inst hin deviceId gpu hg
    exact ⟨origin, horg, hlive.step hm hcd havo h⟩
  cases h with
  | enterNew =>
    intro inst hin
    rcases lookup_of_insert hin with ⟨rfl, -⟩ | ⟨-, hin⟩
    · exact absurd (hnms.lt hm.wired) (Nat.lt_irrefl _)
    · exact hk inst hin
  | registerGpu hc hst hin hok =>
    intro inst' hin' deviceId gpu hg
    rcases lookup_of_insert hin' with ⟨rfl, rfl⟩ | ⟨-, hin'⟩
    · obtain ⟨-, -, hgs, -, -⟩ := InstanceContext.registerNewGpu_ok hok
      rw [hgs] at hg
      rcases lookup_of_insert hg with ⟨rfl, rfl⟩ | ⟨hne, hg⟩
      · -- the device just added comes from the context of this registration
        refine ⟨_, lookup_insert _, ?_⟩
        obtain ⟨inst₁, hin₁, rfl⟩ := hnms
        obtain ⟨inst₂, hin₂, hid⟩ := hm.wired.entered _ _ _ _ hc hst
        cases hin₁.symm.trans hin₂
        rw [hid]
        exact hm.live_of_registered hc hst rfl rfl
      · obtain ⟨origin, horg, hlive⟩ := hk _ hin deviceId gpu hg
        exact ⟨origin, (lookup_insert_ne hne).trans horg, hlive⟩
    · exact hk inst' hin' deviceId gpu hg
  | _ => exact hk

variable {t : Transfer}

theorem Holds.step (hhd : s.Holds t) (hm : s.Mapped) (hc : s.Drains ev)
    (havo : s.Avoids ev t.req.instanceId) (h : Step ssd s ev s') : s'.Holds t := by
  unfold Holds at hhd ⊢
  cases hst : t.stage with
  | resolved i =>
    rw [hst] at hhd
    obtain ⟨hnms, hall⟩ := hhd
    exact ⟨hnms.step (hnms.lt hm.wired) h, hall.step hnms hm hc havo h⟩
  | queued serial layouts | copying serial layouts =>
    rw [hst] at hhd
    exact hhd.step hm hc havo h

/-! ## The invariant -/

theorem Mapped.context_lt_step (hm : s.Mapped) (h : Step ssd s ev s') :
    ∀ key context, s'.contexts.lookup key = some context →
      context.stamp.serial < s'.nextContext := by
  intro key context hc
  cases h with
  | dropTensors => exact hm.context_lt key context (Contexts.lookup_of_dropInstance hc).2
  | materialize hfr hf hstm hms =>
    rcases lookup_of_insert hc with ⟨-, rfl⟩ | ⟨-, hc⟩
    · rw [hstm]
      exact Nat.lt_succ_self _
    · exact Nat.lt_succ_of_lt (hm.context_lt key context hc)
  | rollback =>
    rw [Contexts.lookup_dropContext] at hc
    split at hc
    · cases hc
    · exact hm.context_lt key context hc
  | _ => exact hm.context_lt key context hc

/-- The context of a registration stays under its key, whoever takes a step. -/
theorem Mapped.owns_kept (hm : s.Mapped) (hcd : s.Drains ev)
    (hcall : s.calls.lookup call = some c) (h : Step ssd s ev s')
    (hstays : s'.calls.lookup call ≠ none) : s'.Owns c := by
  obtain ⟨context, hc, hser, hid, hms⟩ := hm.call call c hcall
  cases h with
  | dropTensors hcl hst =>
    refine ⟨context, hcd.lookup_dropInstance hcl hc ?_, hser, hid, hms⟩
    rw [hid]
    exact (hcd _ hcl).2.1 ⟨call, c⟩ (mem_lookup_iff.mp hcall)
  | materialize hfr hf hstm hnew =>
    refine ⟨context, (lookup_insert_ne ?_).trans hc, hser, hid, hms⟩
    intro hk
    rw [hk, hf] at hc
    cases hc
  | rollback hc' hst =>
    next call' c' e =>
    refine ⟨context, hm.lookup_dropContext hc' hc ?_, hser, hid, hms⟩
    intro hsm
    cases hm.call_inj call' call c' c hc' hcall (hsm.trans hser)
    exact hstays (lookup_erase _ _)
  | _ => exact ⟨context, hc, hser, hid, hms⟩

/-- A registration that takes a step is still about memory that its context maps. -/
theorem Owns.setStage {stage : RegisterStage} (howns : s.Owns c)
    (hregions : ∀ region ∈ stage.regions, region ∈ c.stage.regions) : s.Owns { c with stage } := by
  obtain ⟨context, hc, hser, hid, hms⟩ := howns
  exact ⟨context, hc, hser, hid, fun region hmem => hms region (hregions region hmem)⟩

theorem Mapped.call_step (hm : s.Mapped) (hcd : s.Drains ev) (h : Step ssd s ev s') :
    ∀ call c, s'.calls.lookup call = some c → s'.Owns c := by
  intro k c hk
  have hkept : ∀ c₀, s.calls.lookup k = some c₀ → s'.Owns c₀ := by
    intro c₀ hk₀
    refine hm.owns_kept hcd hk₀ h ?_
    rw [hk]
    exact Option.some_ne_none c
  cases h with
  | materialize hfr hf hstm hms =>
    rcases lookup_of_insert hk with ⟨-, rfl⟩ | ⟨-, hk⟩
    · refine ⟨_, lookup_insert _, ?_, ?_, ?_⟩
      · rw [hstm]
      · rw [hstm]
      · intro region hrgn
        obtain ⟨metadata, hmem, rfl⟩ := mem_map.mp hrgn
        exact hms metadata hmem
    · exact hkept c hk
  | enterFails hc e | registerFails hc e =>
    rcases lookup_of_insert hk with ⟨rfl, rfl⟩ | ⟨-, hk⟩
    · exact (hkept _ hc).setStage (by simp [RegisterStage.regions])
    · exact hkept c hk
  | enterExisting hc hst hcas | enterNew hc hst hcas =>
    rcases lookup_of_insert hk with ⟨rfl, rfl⟩ | ⟨-, hk⟩
    · refine (hkept _ hc).setStage ?_
      rw [hst]
      exact RegisterRequest.cacheRegions_subset hcas
    · exact hkept c hk
  | registerGpu | rollback | cancelCall => exact hkept c (lookup_of_erase hk).2
  | _ => exact hkept c hk

variable {k : Nat}

/-- The call that a step leaves under a number had the same serial before, if there was one. -/
theorem Mapped.serial_eq (h : Step ssd s ev s') (hk : s'.calls.lookup k = some c) :
    (∃ c₀, s.calls.lookup k = some c₀ ∧ c.serial = c₀.serial) ∨
      (s.calls.lookup k = none ∧ c.serial = s.nextContext ∧
        ∀ k' c', k' ≠ k → s'.calls.lookup k' = some c' → s.calls.lookup k' = some c') := by
  cases h with
  | materialize hfr =>
    rcases lookup_of_insert hk with ⟨rfl, rfl⟩ | ⟨-, hk⟩
    · refine Or.inr ⟨hfr, rfl, ?_⟩
      intro k' c' hne hk'
      exact (lookup_insert_ne hne).symm.trans hk'
    · exact Or.inl ⟨c, hk, rfl⟩
  | enterFails hc | enterExisting hc | enterNew hc | registerFails hc =>
    rcases lookup_of_insert hk with ⟨rfl, rfl⟩ | ⟨-, hk⟩
    · exact Or.inl ⟨_, hc, rfl⟩
    · exact Or.inl ⟨c, hk, rfl⟩
  | registerGpu | rollback | cancelCall =>
    exact Or.inl ⟨c, (lookup_of_erase hk).2, rfl⟩
  | _ => exact Or.inl ⟨c, hk, rfl⟩

theorem Mapped.serial_lt (hm : s.Mapped) (hk : s.calls.lookup k = some c) :
    c.serial < s.nextContext := by
  obtain ⟨context, hc, hser, -⟩ := hm.call k c hk
  rw [← hser]
  exact hm.context_lt _ context hc

theorem Mapped.call_inj_step (hm : s.Mapped) (h : Step ssd s ev s') :
    ∀ call call' c c', s'.calls.lookup call = some c → s'.calls.lookup call' = some c' →
      c.serial = c'.serial → call = call' := by
  intro k k' c c' hk hk' hser
  by_contra hne
  rcases serial_eq h hk with ⟨c₀, hk₀, heq⟩ | ⟨-, heq, ho⟩
  · rcases serial_eq h hk' with ⟨c₁, hk₁, heq'⟩ | ⟨-, heq', ho⟩
    · exact hne (hm.call_inj k k' c₀ c₁ hk₀ hk₁ (heq.symm.trans (hser.trans heq')))
    · exact Nat.ne_of_lt (hm.serial_lt (ho k c hne hk)) (hser.trans heq')
  · exact Nat.ne_of_lt (hm.serial_lt (ho k' c' (Ne.symm hne) hk')) (hser.symm.trans heq)

/-- A cleanup that is about to unregister stays so until it does. -/
theorem Unregistering.step (hun : s.Unregistering instanceId) (hcd : s.Drains ev)
    (h : Step ssd s ev s') (hi : s'.instances.lookup instanceId = some i) :
    s'.Unregistering instanceId := by
  obtain ⟨cleanup, c, hc, rfl, hst⟩ := hun
  cases h with
  | closeSession hses hfr | unregisterContext _ hfr =>
    refine ⟨cleanup, c, (lookup_insert_ne ?_).trans hc, rfl, hst⟩
    rintro rfl
    rw [hfr] at hc
    cases hc
  | dropTensors hcl hdrop =>
    refine ⟨cleanup, c, (lookup_insert_ne ?_).trans hc, rfl, hst⟩
    rintro rfl
    cases hcl.symm.trans hc
    cases hdrop.symm.trans hst
  | unregister hcl =>
    refine ⟨cleanup, c, (lookup_erase_ne ?_).trans hc, rfl, hst⟩
    rintro rfl
    cases hcl.symm.trans hc
    exact (lookup_of_erase hi).1 rfl
  | cancelCleanup =>
    refine ⟨cleanup, c, (lookup_erase_ne ?_).trans hc, rfl, hst⟩
    rintro rfl
    cases (hcd c hc).symm.trans hst
  | _ => exact ⟨cleanup, c, hc, rfl, hst⟩

/-- A step that drops the tensors of the instance leaves its cleanup about to unregister it. -/
theorem avoids_or_unregistering (instanceId : InstanceId) (h : Step ssd s ev s') :
    s.Avoids ev instanceId ∨ s'.Unregistering instanceId := by
  cases h with
  | dropTensors hcl hst =>
    next cleanup c =>
    by_cases hid : c.instanceId = instanceId
    · exact Or.inr ⟨cleanup, _, lookup_insert _, hid, rfl⟩
    refine Or.inl ?_
    rintro _ c' ⟨⟩ hc'
    cases hcl.symm.trans hc'
    exact hid
  | _ =>
    refine Or.inl ?_
    intro _ _ hev
    cases hev

theorem Mapped.registered_kept (hm : s.Mapped) (hc : s.Drains ev) (h : Step ssd s ev s')
    (hi : s.instances.lookup instanceId = some i) (hi' : s'.instances.lookup instanceId = some i) :
    s'.AllLive i instanceId ∨ s'.Unregistering instanceId := by
  rcases hm.registered instanceId i hi with hall | hun
  · rcases avoids_or_unregistering instanceId h with havo | hun
    · exact Or.inl (hall.step (hm.wired.registered instanceId i hi) hm hc havo h)
    · exact Or.inr hun
  · exact Or.inr (hun.step hc h hi')

theorem Mapped.registered_step (hm : s.Mapped) (hc : s.Drains ev) (h : Step ssd s ev s') :
    ∀ instanceId i, s'.instances.lookup instanceId = some i →
      s'.AllLive i instanceId ∨ s'.Unregistering instanceId := by
  intro instanceId i hi'
  have hk := fun hi => hm.registered_kept hc h hi hi'
  cases h with
  | unregister => exact hk (lookup_of_erase hi').2
  | enterNew hcall hst hcas hid hgs =>
    rcases lookup_of_insert hi' with ⟨-, rfl⟩ | ⟨-, hi⟩
    · refine Or.inl ?_
      intro inst hin deviceId gpu hg
      cases (lookup_insert _).symm.trans hin
      rw [hgs] at hg
      cases hg
    · exact hk hi
  | _ => exact hk hi'

theorem Drains.avoids {transfer : Nat} (hcd : s.Drains ev)
    (htr : s.transfers.lookup transfer = some t) : s.Avoids ev t.req.instanceId := by
  rintro cleanup c rfl hc heq
  exact (hcd c hc).1 ⟨transfer, t⟩ (mem_lookup_iff.mp htr) heq.symm

theorem Mapped.transfer_step (hm : s.Mapped) (hcd : s.Drains ev) (h : Step ssd s ev s') :
    ∀ transfer t, s'.transfers.lookup transfer = some t → s'.Holds t := by
  intro k t hk
  have hkept : ∀ k₀ t₀, s.transfers.lookup k₀ = some t₀ → s'.Holds t₀ :=
    fun k₀ t₀ hk₀ => (hm.transfer k₀ t₀ hk₀).step hm hcd (hcd.avoids hk₀) h
  have hfd : ∀ t₀ : Transfer, s.Holds t₀ → s.Avoids ev t₀.req.instanceId → s'.Holds t₀ :=
    fun t₀ hhd havo => hhd.step hm hcd havo h
  cases h with
  | resolve hin =>
    rcases lookup_of_insert hk with ⟨-, rfl⟩ | ⟨-, hk⟩
    · obtain ⟨hi, -⟩ := instance?_eq_some.mp hin
      refine hfd _ ⟨hm.wired.registered _ _ hi, ?_⟩ (by rintro _ _ ⟨⟩)
      rcases hm.registered _ _ hi with hall | ⟨cleanup, c, hc, hid, hst⟩
      · exact hall
      · cases (hcd ⟨cleanup, c⟩ (mem_lookup_iff.mp hc) hid).symm.trans hst
    · exact hkept k t hk
  | prepare htr hst hin hlos horg =>
    rcases lookup_of_insert hk with ⟨-, rfl⟩ | ⟨-, hk⟩
    · have hhd := hkept _ _ htr
      unfold Holds at hhd
      rw [hst] at hhd
      obtain ⟨gpu, hg, hlo⟩ := TransferRequest.layouts_ok hlos
      obtain ⟨origin', horg', hlive⟩ := hhd.2 _ hin _ gpu hg
      cases horg.symm.trans horg'
      obtain ⟨key, context, hctx, hser, hid, hms⟩ := hlive.registered
      refine ⟨⟨key, context, hctx, hser, hid, ?_⟩, hlive.settled⟩
      intro region hrgn
      obtain ⟨e, he, rfl⟩ := mem_map.mp hrgn
      exact hms _ (mem_cacheRegions.mpr ⟨e.1, e.2, hlo e (mem_filter.mp he).1, rfl⟩)
    · exact hkept k t hk
  | startCopy htr hst =>
    rcases lookup_of_insert hk with ⟨-, rfl⟩ | ⟨-, hk⟩
    · have hhd := hkept _ _ htr
      unfold Holds at hhd
      rw [hst] at hhd
      exact hhd
    · exact hkept k t hk
  | nothingToCopy | refuseTransfer | finishCopy => exact hkept k t (lookup_of_erase hk).2
  | _ => exact hkept k t hk

theorem Mapped.step (hm : s.Mapped) (hc : s.Drains ev) (h : Step ssd s ev s') : s'.Mapped where
  wired := hm.wired.step h
  context_lt := hm.context_lt_step h
  call := hm.call_step hc h
  call_inj := hm.call_inj_step h
  registered := hm.registered_step hc h
  transfer := hm.transfer_step hc h

theorem new_mapped : new.Mapped := by
  refine ⟨new_wired, ?_, ?_, ?_, ?_, ?_⟩
  · intro key context h
    cases h
  · intro call c h
    cases h
  · intro call call' c c' h
    cases h
  · intro instanceId i h
    cases h
  · intro transfer t h
    cases h

/-- The registry holds the context that the transfer took its layouts from, and in it the tensors
whose memory the layouts are of. -/
def CopiesMapped (s : ServerState) (t : Transfer) : Prop :=
  match t.stage with
  | .copying serial layouts =>
    ∃ key context, s.contexts.lookup key = some context ∧ context.stamp.serial = serial ∧
      ∀ e ∈ layouts, context.Maps (layoutRegion e.2)
  | _ => True

/-- A copy goes by memory of a context that the registry still holds, in runs in which cleanups wait
for the transfers and registrations of their instance. -/
theorem copies_mapped (ssd : Option Engine.Alignment) {events : List ServerEvent} {s : ServerState}
    (hcond : Run.Meets (step ssd) Drains new events)
    (hrun : Run.exec (step ssd) new events = some s) :
    ∀ transfer t, s.transfers.lookup transfer = some t → s.CopiesMapped t := by
  have hm : s.Mapped :=
    exec_invariant_of_meets (I := Mapped) (fun _ _ _ hm hev h => hm.step hev (step_cases h))
      new_mapped hcond hrun
  intro transfer t ht
  have hholds := hm.transfer transfer t ht
  unfold Holds at hholds
  unfold CopiesMapped
  cases hstage : t.stage with
  | resolved i | queued serial layouts => trivial
  | copying serial layouts =>
    rw [hstage] at hholds
    obtain ⟨key, context, hcontext, hserial, -, hmaps⟩ := hholds.registered
    exact ⟨key, context, hcontext, hserial, fun e he => hmaps _ (mem_map_of_mem he)⟩

/-- A save of the layer. -/
def oneSave : TransferRequest := ⟨"i", 0, .save 0 0, ["l"]⟩

/-- A worker registers and saves, is unregistered, registers again and saves. -/
def savesInTurn : List ServerEvent :=
  [.materialize 0 oneWorker oneTensor, .enterInstance 0, .registerGpu 0 ⟨0⟩ none,
    .resolve 0 oneSave, .prepare 0 ["l"], .startCopy 0, .unregisterContext "i" 0, .finishCopy 0,
    .dropTensors 0, .unregister 0, .materialize 0 oneWorker oneTensor, .enterInstance 0,
    .registerGpu 0 ⟨0⟩ none, .resolve 0 oneSave, .prepare 0 ["l"], .startCopy 0]

theorem copies_mapped_saves_in_turn :
    ∃ s ∈ Run.exec (step none) new savesInTurn, ∃ t, s.transfers.lookup 0 = some t ∧
      (∃ layouts, t.stage = .copying 1 layouts ∧ layouts.length = 1) ∧ s.CopiesMapped t := by
  have hrun : exec (step none) new savesInTurn = some _ := rfl
  exact ⟨_, hrun, _, rfl, ⟨_, rfl, rfl⟩, copies_mapped none (by decide +kernel) hrun 0 _ rfl⟩

/-- A queued save outlives the tensors that `unregister_context` drops, and its copy starts. -/
theorem copy_after_drop :
    ∃ s ∈ Run.exec (step none) new
      [.materialize 0 oneWorker oneTensor, .enterInstance 0, .registerGpu 0 ⟨0⟩ none,
        .resolve 0 oneSave, .prepare 0 ["l"], .unregisterContext "i" 0, .dropTensors 0,
        .startCopy 0],
      ∃ t, s.transfers.lookup 0 = some t ∧ s.contexts.keys = [] ∧ ¬ s.CopiesMapped t := by
  refine ⟨_, rfl, _, rfl, by decide +kernel, ?_⟩
  rintro ⟨key, context, hcontext, -⟩
  cases hcontext

end ServerState

end PegaFlow.Server
