import PegaFlow.Lib.Run
import PegaFlow.Engine.PagePlan
import PegaFlow.Storage.InsertWorker

/-!
# Saves and the insert worker

The saves of one instance, the insert worker and the cache as one event machine.  A save
starts, and copies and sends its blocks later, so other saves and the worker can run in
between.  The worker takes one batch at a time.  The cache may reject a block or evict it,
and a block that stays in flight too long is collected.

`saved` is a history of the saves that returned without an error, each with what the devices
held when it copied.  The machine does not read it.

The invariant says where stored bytes come from: every slot that is queued, in flight or
resident under a key that was not there before holds, for each layer, what a save of the
history found on its device (`Supplied`).
-/

namespace PegaFlow.Engine

open PegaFlow.Storage
open List Option Table Run Loop

structure EngineState (β : Type) where
  host : Memory Nat β
  nextAlloc : Nat
  cache : Table BlockKey SealedBlock
  inflight : Table BlockKey InflightBlock
  started : List PreparedSave
  queue : List RawSaveBatch
  saved : List (SaveCall × Memory Int β)

inductive EngineEvent (β : Type) where
  /-- A save is called, and gets as far as the filter. -/
  | start (call : SaveCall)
  /-- A started save allocates, copies and sends; `granted` allocations are possible. -/
  | finish (index : Nat) (mem : Memory Int β) (granted : Nat)
  /-- The worker processes the oldest batch; the cache rejects the given keys. -/
  | insert (rejected : List BlockKey)
  | evict (key : BlockKey)
  /-- `gc_inflight` removes blocks in flight. -/
  | collect (keys : List BlockKey)

namespace EngineState

variable {β : Type}

def step (inst : InstanceContext) (blockwise : Bool) (s : EngineState β) :
    EngineEvent β → Option (EngineState β)
  | .start call =>
    match prepareSave inst s.cache call with
    | .error _ => some s
    | .ok p => some { s with started := s.started ++ [p] }
  | .finish index mem granted =>
    match s.started[index]? with
    | none => none
    | some p =>
      let s' := { s with started := s.started.eraseIdx index }
      if p.contexts.isEmpty then some { s' with saved := s.saved ++ [(p.call, mem)] }
      else
        match finishSave inst blockwise p mem s.host ⟨s.nextAlloc, granted⟩ with
        | .error _ => some s'
        | .ok (host, pool, batch) =>
          some
            { s' with
              host := host
              nextAlloc := pool.next
              queue := s.queue ++ [batch]
              saved := s.saved ++ [(p.call, mem)] }
  | .insert rejected =>
    match s.queue with
    | [] => none
    | batch :: queue =>
      (processRawSaveBatch rejected batch s.inflight s.cache).map fun result =>
        { s with queue := queue, inflight := result.1, cache := result.2 }
  | .evict key => some { s with cache := s.cache.erase key }
  | .collect keys =>
    some { s with inflight := keys.foldl (fun inflight key => inflight.erase key) s.inflight }

/-- Nothing is under way, and nothing has been saved. -/
structure Idle (s : EngineState β) : Prop where
  started : s.started = []
  queue : s.queue = []
  saved : s.saved = []

end EngineState

/-- The event does not remove the key or keep it out of the cache. -/
def EngineEvent.Keeps {β : Type} (key : BlockKey) : EngineEvent β → Prop
  | .start _ => True
  | .finish _ _ _ => True
  | .insert rejected => key ∉ rejected
  | .evict key' => key' ≠ key
  | .collect keys => key ∉ keys

/-! ## Where stored bytes come from -/

section

variable {β : Type} {ssd : Option Alignment} {inst : InstanceContext} {t : LayerTopology}
variable {s s' : EngineState β} {hash : BlockHash} {slot : Nat} {raw : RawBlock}

/-- The call saves the block `blockIdx` of a layer under the hash, from a device where the
layer has the given layout. -/
structure SavedBlock (inst : InstanceContext) (name : String) (hash : BlockHash) (call : SaveCall)
    (layout : KVCacheLayout) (blockIdx : Nat) : Prop where
  getLayout : ∃ gpu, inst.getGpu call.deviceId = some gpu ∧ gpu.getLayout name = some layout
  saves : ∃ save ∈ call.saves, save.layerName = name ∧ (blockIdx, hash) ∈ save.blocks

variable (inst) (t) (hash)

/-- The stored block, read as the given layer, holds what the call copied from its device
under the hash. -/
def ImageOf (host : Memory Nat β)
    (nextAlloc : Nat) (raw : RawBlock) (name : String) (saved : SaveCall × Memory Int β) : Prop :=
  ∃ layout blockIdx, SavedBlock inst name hash saved.1 layout blockIdx ∧
    Image host nextAlloc raw (t.hostOffset (t.names.idxOf name)) (layout.copiesOf blockIdx)
      (contents saved.2 saved.1.deviceId (layout.copiesOf blockIdx))

/-- For every layer of the slot, the stored block holds what a save copied from its
device. -/
def Supplied (s : EngineState β) (slot : Nat) (raw : RawBlock) : Prop :=
  ∀ name ∈ t.names, ∀ tpRank, tpRank < t.tpSize → t.slotOf (t.names.idxOf name) tpRank = slot →
    ∃ saved ∈ s.saved, t.slotOf (t.names.idxOf name) saved.1.tpRank = slot ∧
      ImageOf inst t hash s.host s.nextAlloc raw name saved

variable {inst} {t} {hash}

/-- The history grows, and host memory that was in use is unchanged. -/
structure Extends (s s' : EngineState β) : Prop where
  saved : ∀ saved ∈ s.saved, saved ∈ s'.saved
  nextAlloc : s.nextAlloc ≤ s'.nextAlloc
  host : ∀ p : HostPtr, p.alloc < s.nextAlloc → ∀ len,
    s'.host.read p.alloc p.offset len = s.host.read p.alloc p.offset len

/-- The state differs in what is under way or cached only. -/
theorem Extends.of_eq (hsd : s'.saved = s.saved) (hn : s'.nextAlloc = s.nextAlloc)
    (hhost : s'.host = s.host) : Extends s s' where
  saved saved h := hsd ▸ h
  nextAlloc := Nat.le_of_eq hn.symm
  host p _ len := by rw [hhost]

variable {host host' : Memory Nat β}

theorem Image.mono {hi hi' offset : Nat} {copies : BlockCopies} {bytes : List (List β)}
    (h : Image host hi raw offset copies bytes) (hhi : hi ≤ hi')
    (hhost : ∀ p : HostPtr, p.alloc < hi → ∀ len,
      host'.read p.alloc p.offset len = host.read p.alloc p.offset len) :
    Image host' hi' raw offset copies bytes := by
  obtain ⟨descs, hds, hby, hlt⟩ := h
  refine ⟨descs, hds, ?_, fun d hd => Nat.lt_of_lt_of_le (hlt d hd) hhi⟩
  rw [← hby]
  exact map_congr_left fun d hd => hhost d.host (hlt d hd) d.size

theorem Supplied.mono (h : Supplied inst t hash s slot raw) (hext : Extends s s') :
    Supplied inst t hash s' slot raw := by
  intro name hn tpRank hr hs
  obtain ⟨saved, hsd, hs', layout, blockIdx, hb, himage⟩ := h name hn tpRank hr hs
  exact ⟨saved, hext.saved saved hsd, hs', layout, blockIdx, hb,
    himage.mono hext.nextAlloc hext.host⟩

/-! ## One save -/

/-- A save that is past the filter. -/
structure Ready (inst : InstanceContext) (t : LayerTopology) (p : PreparedSave) : Prop where
  topology_eq : p.topology = t
  getGpu : inst.getGpu p.call.deviceId = some p.gpu
  contexts : ∀ ctx ∈ p.contexts, ContextOf t p.gpu p.call ctx

/-- What a save does to the host memory, and the batch it sends. -/
structure Finished (inst : InstanceContext) (t : LayerTopology) (p : PreparedSave)
    (mem : Memory Int β) (host host' : Memory Nat β) (lo hi : Nat) (batch : RawSaveBatch) :
    Prop where
  le : lo ≤ hi
  kept : ∀ q : HostPtr, q.alloc < lo → ∀ len,
    host'.read q.alloc q.offset len = host.read q.alloc q.offset len
  totalSlots_eq : batch.totalSlots = t.totalSlots
  slot_lt : ∀ key slot raw, batch.Has key slot raw → slot < t.totalSlots
  stored : ∀ key slot raw, batch.Has key slot raw →
    ∀ name ∈ t.names, ∀ tpRank, tpRank < t.tpSize → t.slotOf (t.names.idxOf name) tpRank = slot →
      t.slotOf (t.names.idxOf name) p.call.tpRank = slot ∧
        ImageOf inst t key.hash host' hi raw name (p.call, mem)
  covers : ∀ ctx ∈ p.contexts, ∀ block ∈ ctx.blocksToSave,
    ∃ raw, batch.Has ⟨inst.nameSpace, block.2⟩ ctx.slotId raw

variable {p : PreparedSave} {pool pool' : PinnedPool}

section

variable (hwf : inst.WF ssd) (ht : inst.topology = some t) (hrdy : Ready inst t p)
include hwf ht hrdy

theorem planSave_sound {blockwise : Bool} {plan : SavePlan}
    (h : planSave t blockwise p.contexts pool = .ok (plan, pool')) :
    plan.Sound t p.contexts pool.next pool'.next := by
  unfold planSave LayerTopology.isPageFirst at h
  cases hp : t.pageLayout with
  | none =>
    rw [hp] at h
    exact planLayerFirst_sound hp hrdy.contexts h
  | some page =>
    rw [hp] at h
    exact planPageFirst_sound hp (hwf.agree t ht)
      (InstanceContext.mem_gpus_of_getGpu hrdy.getGpu) hrdy.contexts h

variable {mem : Memory Int β} {batch : RawSaveBatch}

theorem finishSave_ok {blockwise : Bool}
    (h : finishSave inst blockwise p mem host pool = .ok (host', pool', batch)) :
    Finished inst t p mem host host' pool.next pool'.next batch := by
  obtain ⟨⟨plan, pool₁⟩, hp, h⟩ := bind_eq_ok.mp h
  obtain ⟨⟨descs, total⟩, hblt, h⟩ := bind_eq_ok.mp h
  cases h
  have hs : plan.Sound t p.contexts pool.next pool'.next := by
    rw [hrdy.topology_eq] at hp
    cases hok : planSave t blockwise p.contexts pool with
    | error e =>
      rw [hok] at hp
      cases hp
    | ok result =>
      rw [hok] at hp
      cases hp
      exact planSave_sound hwf ht hrdy hok
  refine ⟨hs.le, ?_, by rw [hrdy.topology_eq], ?_, ?_, ?_⟩
  · intro q hq len
    refine d2h_read_of_ne ?_
    intro d hd
    have hfr := hs.fresh hblt hd
    omega
  · rintro key slot raw ⟨-, layer, hl, rfl, -⟩
    obtain ⟨ctx, hctx, hslot⟩ := hs.slots layer hl
    have hc := hrdy.contexts ctx hctx
    rw [hslot, hc.slotId_eq]
    exact LayerTopology.slotOf_lt (idxOf_lt_length_of_mem hc.mem_names) hc.tpRank_lt
  · rintro key slot raw ⟨-, layer, hl, rfl, hent⟩ name hn tpRank hr hslot
    obtain ⟨ctx, hctx, rfl, item, hcps, hsm⟩ :=
      hs.stored layer hl (key.hash, raw) hent name hn tpRank hr hslot
    have hc := hrdy.contexts ctx hctx
    obtain ⟨raw', hplc⟩ := hs.placed item hcps.mem
    obtain ⟨-, save, hsv, hlayerName, hb⟩ := hc.blocks _ hcps.block
    obtain ⟨ctx', hctx', hs'⟩ := hs.slots layer hl
    have hc' := hrdy.contexts ctx' hctx'
    have hshared : t.slotOf (t.names.idxOf ctx.layerName) tpRank
        = t.slotOf (t.names.idxOf ctx'.layerName) p.call.tpRank := by
      rw [hslot, hs', hc'.slotId_eq]
    have hsm' : t.slotOf (t.names.idxOf ctx.layerName) p.call.tpRank = layer.slotId :=
      (LayerTopology.slotOf_eq_of_eq hr hc.tpRank_lt hshared).trans hslot
    have himage := hs.image mem host p.call.deviceId hblt hcps.mem hplc.block_eq
    rw [hcps.layout_eq, Image, ← hsm raw' hplc.block_eq] at himage
    exact ⟨hsm', ctx.layout, item.2.blockIdx,
      ⟨⟨p.gpu, hrdy.getGpu, hc.getLayout⟩, save, hsv, hlayerName, hb⟩, himage⟩
  · intro ctx hctx block hb
    obtain ⟨layer, hl, hslot, raw, hent⟩ := hs.covers ctx hctx block hb
    exact ⟨raw, rfl, layer, hl, hslot, hent⟩

end

/-! ## The invariant -/

/-- The key that the instance stores a block under. -/
abbrev InstanceContext.key (inst : InstanceContext) (hash : BlockHash) : BlockKey :=
  ⟨inst.nameSpace, hash⟩

/-- A batch for the insert worker. -/
structure Queued (inst : InstanceContext) (t : LayerTopology) (hash : BlockHash)
    (s : EngineState β) (batch : RawSaveBatch) : Prop where
  totalSlots_eq : batch.totalSlots = t.totalSlots
  slot_lt : ∀ key slot raw, batch.Has key slot raw → slot < t.totalSlots
  supplied : ∀ slot raw, batch.Has (inst.key hash) slot raw → Supplied inst t hash s slot raw

/-- Whatever is stored under the hash was supplied by saves. -/
structure Inv (inst : InstanceContext) (t : LayerTopology) (hash : BlockHash)
    (s : EngineState β) : Prop where
  started : ∀ p ∈ s.started, Ready inst t p
  queue : ∀ batch ∈ s.queue, Queued inst t hash s batch
  holds : KeyHolds (Supplied inst t hash s) t.totalSlots (inst.key hash) s.inflight s.cache

variable (inst) (t) (hash)

/-- The call saves a block of the slot under the hash. -/
def Covers (call : SaveCall) (slot : Nat) : Prop :=
  ∃ save ∈ call.saves, t.slotOf (t.names.idxOf save.layerName) call.tpRank = slot ∧
    ∃ block ∈ save.blocks, block.2 = hash

instance (call : SaveCall) (slot : Nat) : Decidable (Covers t hash call slot) :=
  inferInstanceAs (Decidable (∃ save ∈ call.saves, _ ∧ ∃ block ∈ save.blocks, _))

/-- The slot is with the insert worker, on its way or there. -/
def Arrives (s : EngineState β) (slot : Nat) : Prop :=
  Present (inst.key hash) slot s.inflight s.cache ∨
    ∃ batch ∈ s.queue, ∃ raw, batch.Has (inst.key hash) slot raw

/-- The slots that a started save covers are there, or it will copy them. -/
def Pending (s : EngineState β) (p : PreparedSave) : Prop :=
  ∀ slot, Covers t hash p.call slot → Present (inst.key hash) slot s.inflight s.cache ∨
    ∃ ctx ∈ p.contexts, ctx.slotId = slot ∧ ∃ block ∈ ctx.blocksToSave, block.2 = hash

variable {inst} {t} {hash}

/-- No slot of a save is lost. -/
structure Delivery (inst : InstanceContext) (t : LayerTopology) (hash : BlockHash)
    (s : EngineState β) : Prop where
  started : ∀ p ∈ s.started, Pending inst t hash s p
  saved : ∀ saved ∈ s.saved, ∀ slot, Covers t hash saved.1 slot → Arrives inst hash s slot

/-- What one event does to the invariants. -/
structure Advances (inst : InstanceContext) (t : LayerTopology) (hash : BlockHash)
    (e : EngineEvent β) (s s' : EngineState β) : Prop where
  inv : Inv inst t hash s'
  delivery : e.Keeps (inst.key hash) → Delivery inst t hash s → Delivery inst t hash s'

theorem Queued.mono (h : Queued inst t hash s batch) (hext : Extends s s') :
    Queued inst t hash s' batch :=
  ⟨h.totalSlots_eq, h.slot_lt, fun slot raw hr => (h.supplied slot raw hr).mono hext⟩

theorem Inv.mono (h : Inv inst t hash s) (hext : Extends s s')
    (hstarted : ∀ p ∈ s'.started, p ∈ s.started ∨ Ready inst t p)
    (hqu : ∀ batch ∈ s'.queue, batch ∈ s.queue ∨ Queued inst t hash s' batch)
    (hinf : ∀ b, s'.inflight.lookup (inst.key hash) = some b →
      s.inflight.lookup (inst.key hash) = some b)
    (hcch : ∀ block, s'.cache.lookup (inst.key hash) = some block →
      s.cache.lookup (inst.key hash) = some block) :
    Inv inst t hash s' where
  started p hp := (hstarted p hp).elim (h.started p) id
  queue batch hbt :=
    (hqu batch hbt).elim (fun ho => (h.queue batch ho).mono hext) id
  holds := h.holds.mono (fun _ _ hsup => hsup.mono hext) hinf hcch

theorem Delivery.mono (h : Delivery inst t hash s)
    (hps : ∀ slot, Present (inst.key hash) slot s.inflight s.cache →
      Present (inst.key hash) slot s'.inflight s'.cache)
    (harr : ∀ slot, Arrives inst hash s slot → Arrives inst hash s' slot)
    (hstarted : ∀ p ∈ s'.started, p ∈ s.started ∨ Pending inst t hash s' p)
    (hsd : ∀ saved ∈ s'.saved, saved ∈ s.saved ∨
      ∀ slot, Covers t hash saved.1 slot → Arrives inst hash s' slot) :
    Delivery inst t hash s' where
  started p hp := by
    rcases hstarted p hp with ho | hnew
    · intro slot hcov
      exact (h.started p ho slot hcov).imp_left (hps slot)
    · exact hnew
  saved saved hm := by
    rcases hsd saved hm with ho | hnew
    · intro slot hcov
      exact harr slot (h.saved saved ho slot hcov)
    · exact hnew

/-! ## Every event -/

variable {blockwise : Bool}

theorem start_advances {call : SaveCall} (ht : inst.topology = some t) (hi : Inv inst t hash s)
    (h : s.step inst blockwise (.start call) = some s') :
    Advances inst t hash (.start call) s s' := by
  unfold EngineState.step at h
  dsimp only at h
  split at h
  · cases h
    exact ⟨hi, fun _ hdel => hdel⟩
  next p hp =>
    cases h
    have hprep := prepareSave_ok hp
    have htop : p.topology = t := some.inj (hprep.topology.symm.trans ht)
    have hrdy : Ready inst t p := by
      refine ⟨htop, ?_, ?_⟩
      · rw [hprep.call_eq]
        exact hprep.getGpu
      · rw [hprep.call_eq, ← htop]
        exact hprep.contexts
    have hpd : Pending inst t hash s p := by
      rintro slot ⟨save, hsv, rfl, block, hb, rfl⟩
      rw [hprep.call_eq] at hsv ⊢
      cases hres : s.cache.lookup (inst.key block.2) with
      | some found =>
        refine Or.inl (Or.inl ?_)
        rw [hres]
        rfl
      | none =>
        obtain ⟨ctx, hc, hs, hm⟩ := hprep.covers save hsv block hb hres
        rw [htop] at hs
        exact Or.inr ⟨ctx, hc, hs, block, hm, rfl⟩
    refine ⟨?_, fun _ hdel => ?_⟩
    · refine hi.mono (.of_eq rfl rfl rfl) ?_ (fun _ => Or.inl) (fun _ => id) (fun _ => id)
      intro p' hp'
      refine (mem_append.mp hp').imp_right fun hnew => ?_
      rw [mem_singleton.mp hnew]
      exact hrdy
    · refine hdel.mono (fun _ => id) (fun _ => id) ?_ (fun _ => Or.inl)
      intro p' hp'
      refine (mem_append.mp hp').imp_right fun hnew => ?_
      rw [mem_singleton.mp hnew]
      exact hpd

variable {index granted : Nat}

/-- What a save that has something to do leaves behind. -/
theorem Finished.advances {next : Nat} (hi : Inv inst t hash s) (hp : p ∈ s.started)
    (h : Finished inst t p mem s.host host s.nextAlloc next batch) :
    Advances inst t hash (.finish index mem granted) s
      { s with
        host := host
        nextAlloc := next
        started := s.started.eraseIdx index
        queue := s.queue ++ [batch]
        saved := s.saved ++ [(p.call, mem)] } := by
  refine ⟨?_, fun _ hdel => ?_⟩
  · refine hi.mono ⟨fun saved => mem_append_left _, h.le, h.kept⟩
      (fun p' hp' => Or.inl (mem_of_mem_eraseIdx hp')) ?_ (fun _ => id) (fun _ => id)
    intro batch' hbt
    refine (mem_append.mp hbt).imp_right fun hnew => ?_
    rw [mem_singleton.mp hnew]
    refine ⟨h.totalSlots_eq, h.slot_lt, ?_⟩
    intro slot raw hr name hn tpRank hrk hs
    obtain ⟨hsm, himage⟩ := h.stored _ slot raw hr name hn tpRank hrk hs
    exact ⟨(p.call, mem), by simp, hsm, himage⟩
  · refine hdel.mono (fun _ => id) ?_ (fun p' hp' => Or.inl (mem_of_mem_eraseIdx hp')) ?_
    · rintro slot (hps | ⟨batch', hbt, hr⟩)
      · exact Or.inl hps
      · exact Or.inr ⟨batch', mem_append_left _ hbt, hr⟩
    · intro saved hsd
      refine (mem_append.mp hsd).imp_right fun hnew => ?_
      rw [mem_singleton.mp hnew]
      intro slot hcov
      rcases hdel.started p hp slot hcov with
        hps | ⟨ctx, hc, rfl, block, hb, rfl⟩
      · exact Or.inl hps
      · exact Or.inr ⟨batch, by simp, h.covers ctx hc block hb⟩

theorem finish_advances (hwf : inst.WF ssd) (ht : inst.topology = some t) (hi : Inv inst t hash s)
    (h : s.step inst blockwise (.finish index mem granted) = some s') :
    Advances inst t hash (.finish index mem granted) s s' := by
  unfold EngineState.step at h
  dsimp only at h
  split at h
  · cases h
  next p hindex =>
    have hp := mem_of_getElem? hindex
    have herased : ∀ p' ∈ s.started.eraseIdx index, p' ∈ s.started := fun p' =>
      mem_of_mem_eraseIdx
    split at h
    next hemp =>
      cases h
      refine ⟨?_, fun _ hdel => ?_⟩
      · exact hi.mono ⟨fun saved => mem_append_left _, Nat.le_refl _, fun _ _ _ => rfl⟩
          (fun p' hp' => Or.inl (herased p' hp')) (fun _ => Or.inl) (fun _ => id) (fun _ => id)
      · refine hdel.mono (fun _ => id) (fun _ => id) (fun p' hp' => Or.inl (herased p' hp')) ?_
        intro saved hsd
        refine (mem_append.mp hsd).imp_right fun hnew => ?_
        rw [mem_singleton.mp hnew]
        intro slot hcov
        rcases hdel.started p hp slot hcov with hps | ⟨ctx, hc, -⟩
        · exact Or.inl hps
        · rw [isEmpty_iff.mp hemp] at hc
          cases hc
    · split at h
      · cases h
        refine ⟨?_, fun _ hdel => ?_⟩
        · exact hi.mono (.of_eq rfl rfl rfl) (fun p' hp' => Or.inl (herased p' hp'))
            (fun _ => Or.inl) (fun _ => id) (fun _ => id)
        · exact hdel.mono (fun _ => id) (fun _ => id)
            (fun p' hp' => Or.inl (herased p' hp')) (fun _ => Or.inl)
      next host pool batch hfinish =>
        cases h
        exact (finishSave_ok hwf ht (hi.started p hp) hfinish).advances hi hp

/-- The worker does not panic on the oldest batch. -/
theorem insert_advances (blockwise : Bool) (rejected : List BlockKey) (hwf : inst.WF ssd)
    (ht : inst.topology = some t) (hi : Inv inst t hash s) (hqu : s.queue ≠ []) :
    ∃ s', s.step inst blockwise (.insert rejected) = some s' ∧ s'.queue = s.queue.tail ∧
      Advances inst t hash (.insert rejected) s s' := by
  obtain ⟨batch, queue, hbts⟩ := exists_cons_of_ne_nil hqu
  have hm : batch ∈ s.queue := by simp [hbts]
  obtain ⟨htot, hsl, hsup⟩ := hi.queue batch hm
  obtain ⟨inflight, cache, hprocess, hhd, hps⟩ :=
    processRawSaveBatch_spec rejected (hwf.slots_pos t ht) htot hsl hsup hi.holds
  refine ⟨{ s with queue := queue, inflight := inflight, cache := cache }, ?_, ?_, ?_, ?_⟩
  · simp only [EngineState.step, hbts, hprocess, map_some]
  · rw [hbts]
    rfl
  · refine ⟨hi.started, ?_, hhd⟩
    intro batch' hbt'
    exact (hi.queue batch' (by simp [hbts, hbt'])).mono (.of_eq rfl rfl rfl)
  · intro hkp hdel
    refine hdel.mono (fun slot h => hps hkp slot (Or.inl h)) ?_ (fun _ => Or.inl) (fun _ => Or.inl)
    rintro slot (ho | ⟨batch', hbt', hraw⟩)
    · exact Or.inl (hps hkp slot (Or.inl ho))
    · rw [hbts] at hbt'
      rcases mem_cons.mp hbt' with rfl | hr
      · exact Or.inl (hps hkp slot (Or.inr hraw))
      · exact Or.inr ⟨batch', hr, hraw⟩

/-- Removing keys other than that of the hash keeps its slots. -/
theorem remove_advances {e : EngineEvent β} {inflight : Table BlockKey InflightBlock}
    {cache : Table BlockKey SealedBlock} (hi : Inv inst t hash s)
    (hinf : ∀ b, inflight.lookup (inst.key hash) = some b →
      s.inflight.lookup (inst.key hash) = some b)
    (hcch : ∀ block, cache.lookup (inst.key hash) = some block →
      s.cache.lookup (inst.key hash) = some block)
    (hkp : e.Keeps (inst.key hash) →
      inflight.lookup (inst.key hash) = s.inflight.lookup (inst.key hash) ∧
        cache.lookup (inst.key hash) = s.cache.lookup (inst.key hash)) :
    Advances inst t hash e s { s with inflight := inflight, cache := cache } := by
  refine ⟨?_, fun h hdel => ?_⟩
  · exact hi.mono (.of_eq rfl rfl rfl) (fun _ => Or.inl) (fun _ => Or.inl) hinf hcch
  · obtain ⟨hsm, hsm'⟩ := hkp h
    have hps : ∀ slot, Present (inst.key hash) slot s.inflight s.cache →
        Present (inst.key hash) slot inflight cache := by
      intro slot ho
      unfold Present
      rwa [hsm, hsm']
    exact hdel.mono hps (fun slot => Or.imp_left (hps slot)) (fun _ => Or.inl) (fun _ => Or.inl)

theorem step_advances {e : EngineEvent β} (hwf : inst.WF ssd) (ht : inst.topology = some t)
    (hi : Inv inst t hash s) (h : s.step inst blockwise e = some s') :
    Advances inst t hash e s s' := by
  cases e with
  | start call => exact start_advances ht hi h
  | finish index mem granted => exact finish_advances hwf ht hi h
  | insert rejected =>
    have hqu : s.queue ≠ [] := by
      intro hnil
      simp only [EngineState.step, hnil] at h
      cases h
    obtain ⟨next, hn, -, hadv⟩ := insert_advances blockwise rejected hwf ht hi hqu
    cases h.symm.trans hn
    exact hadv
  | evict key =>
    cases h
    refine remove_advances hi (fun _ => id) (fun block hb => (lookup_of_erase hb).2) ?_
    intro hne
    exact ⟨rfl, AList.lookup_erase_ne (Ne.symm hne)⟩
  | collect keys =>
    cases h
    refine remove_advances hi ?_ (fun _ => id) ?_
    · intro b hb
      rw [lookup_foldl_erase] at hb
      split at hb
      · cases hb
      · exact hb
    · intro hkp
      rw [lookup_foldl_erase, if_neg hkp]
      exact ⟨rfl, rfl⟩

/-! ## Whole runs -/

/-- Nothing is in flight or resident under the hash. -/
structure Fresh (inst : InstanceContext) (hash : BlockHash) (s : EngineState β) : Prop where
  inflight : s.inflight.lookup (inst.key hash) = none
  cache : s.cache.lookup (inst.key hash) = none

theorem Fresh.inv (h : Fresh inst hash s) (hidle : s.Idle) : Inv inst t hash s := by
  refine ⟨by simp [hidle.started], by simp [hidle.queue], ?_, ?_⟩
  · simp [h.inflight]
  · simp [h.cache]

theorem EngineState.Idle.delivery (hidle : s.Idle) : Delivery inst t hash s :=
  ⟨by simp [hidle.started], by simp [hidle.saved]⟩

variable {s₀ : EngineState β} {events : List (EngineEvent β)}

section

variable (hwf : inst.WF ssd) (ht : inst.topology = some t) (hidle : s₀.Idle)
  (hfr : Fresh inst hash s₀)
include hwf ht hidle hfr

/-- Along every run, what is stored under a fresh hash was supplied by saves. -/
theorem exec_inv (hrun : Run.exec (EngineState.step inst blockwise) s₀ events = some s) :
    Inv inst t hash s :=
  exec_invariant (fun _ _ _ hi hst => (step_advances hwf ht hi hst).inv)
    (hfr.inv hidle) hrun

/-- Along every run that keeps the key, no slot of a save is lost. -/
theorem exec_delivery (hkp : ∀ e ∈ events, e.Keeps (inst.key hash))
    (hrun : Run.exec (EngineState.step inst blockwise) s₀ events = some s) :
    Delivery inst t hash s := by
  have hboth : Inv inst t hash s ∧ Delivery inst t hash s := by
    refine exec_invariant_of_meets (I := fun s => Inv inst t hash s ∧ Delivery inst t hash s)
      ?_ ⟨hfr.inv hidle, hidle.delivery⟩ (meets_of_forall hkp) hrun
    rintro s e s' ⟨hi, hdel⟩ hkeep hst
    have hadv := step_advances hwf ht hi hst
    exact ⟨hadv.inv, hadv.delivery hkeep hdel⟩
  exact hboth.2

end

/-- Once the worker is done, a hash all of whose slots were saved is resident. -/
theorem exists_resident (hpos : 0 < t.totalSlots) (hi : Inv inst t hash s)
    (hdel : Delivery inst t hash s) (hqu : s.queue = [])
    (hcov : ∀ slot, slot < t.totalSlots → ∃ saved ∈ s.saved, Covers t hash saved.1 slot) :
    ∃ block, s.cache.lookup (inst.key hash) = some block := by
  refine isSome_iff_exists.mp (hi.holds.resident hpos ?_)
  intro slot hs
  obtain ⟨saved, hsd, hcovered⟩ := hcov slot hs
  rcases hdel.saved saved hsd slot hcovered with hps | ⟨batch, hbt, -⟩
  · exact hps
  · rw [hqu] at hbt
    cases hbt

end

end PegaFlow.Engine
