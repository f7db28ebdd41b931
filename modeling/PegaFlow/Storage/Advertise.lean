import PegaFlow.Storage.MetaServer
import PegaFlow.Storage.WorkerContent

/-!
# What a node advertises

The insert worker registers the blocks of a batch with the MetaServer after it has put them into
the cache; an allocation that evicts blocks, or `cleanup_memory_cache`, unregisters them after it
has taken them out.  In both cases the cache and the queue of the client are changed one after
the other, and other threads run in between.  Prefetched blocks are never registered.

A node advertises soundly if, whenever nothing is on its way to the MetaServer, every key that is
listed for it is in its cache.  Two things break this.  A block that the admission policy refused
is registered like any other.  And a block can be evicted and unregistered after the worker put
it into the cache and before it registers it.
-/

namespace PegaFlow.Storage

open List Option Run

/-- The keys of a batch are in its namespace, and a published batch has no entries left. -/
structure CurrentBatch.Wf (c : CurrentBatch) : Prop where
  todo : ∀ e ∈ c.todo, e.1.nameSpace = c.batch.nameSpace
  sealedBlocks : ∀ b ∈ c.sealedBlocks, b.1.nameSpace = c.batch.nameSpace
  done : c.published → c.todo = []

theorem CurrentBatch.wf_step {s s' : WorkerState} {ev : WorkerEvent}
    (hwf : ∀ c, s.current = some c → c.Wf) (h : s.step ev = some s') (c : CurrentBatch)
    (hc : s'.current = some c) : c.Wf := by
  cases WorkerState.step_cases h with
  | recv _ _ =>
    cases hc
    exact ⟨fun e he => (named_of_mem_buildInsertEntries he).1, nofun, nofun⟩
  | @entry c key slots todo w _ hcur htd hw =>
    cases hc
    have ho := hwf c hcur
    have hes := ho.todo
    rw [htd, forall_mem_cons] at hes
    refine ⟨hes.2, ?_, ?_⟩
    · intro b hb
      rcases (insertEntryCounted_touches hw).sealedBlocks with heq | ⟨⟨block, heq⟩, -⟩
      · rw [heq] at hb
        exact ho.sealedBlocks b hb
      · rw [heq, mem_append, mem_singleton] at hb
        rcases hb with hb | rfl
        · exact ho.sealedBlocks b hb
        · exact hes.1
    · intro hpub
      rw [ho.done hpub] at htd
      cases htd
  | panic hcur _ _ | gc _ _ | lookup | evict | cleanup | prefetched => exact hwf c hc
  | publish _ hcur htd _ =>
    cases hc
    exact ⟨(hwf _ hcur).todo, (hwf _ hcur).sealedBlocks, fun _ => htd⟩
  | handOff _ _ _ => cases hc

/-! ## The node -/

/-- A node with the client of the MetaServer. -/
structure NodeState where
  worker : WorkerState
  /-- Keys that were evicted and are not unregistered yet, one list for each eviction. -/
  unregisters : List (List BlockKey)
  /-- The queue of the client. -/
  commands : List MetaServerCommand
  /-- `registration_loop` has returned. -/
  ended : Bool
  /-- What the loop has drained and not sent yet. -/
  rpcs : List Rpc
  /-- The keys the MetaServer lists for the node. -/
  listed : Finset BlockKey

inductive NodeEvent where
  | worker (ev : WorkerEvent)
  /-- A thread that evicted blocks unregisters them. -/
  | unregister (i : Nat)
  | shutdown
  /-- The loop takes that many commands. -/
  | drain (n : Nat)
  | rpc

namespace NodeState

def new (cache : TinyLfuCache BlockKey SealedBlock) : NodeState :=
  ⟨.new cache, [], [], false, [], ∅⟩

/-- A send to a loop that has returned is dropped. -/
def send (s : NodeState) (command : MetaServerCommand) : NodeState :=
  if s.ended then s else { s with commands := s.commands ++ [command] }

/-- `register_block_hashes` for the batch that is handed off. -/
def registerBlockHashes (s : NodeState) : WorkerEvent → NodeState
  | .handOff =>
    match s.worker.current with
    | none => s
    | some c =>
      if c.sealedBlocks.isEmpty then s
      else s.send (.insert [(c.batch.nameSpace, c.sealedBlocks.map fun b => b.1.hash)])
  | _ => s

def step (s : NodeState) : NodeEvent → Option NodeState
  | .worker ev =>
    (s.worker.step ev).map fun worker =>
      { s.registerBlockHashes ev with
        worker := worker
        unregisters :=
          if (s.worker.evictedBy ev).isEmpty then s.unregisters
          else s.unregisters ++ [s.worker.evictedBy ev] }
  | .unregister i =>
    s.unregisters[i]?.map fun keys =>
      { s.send (.remove (fromEntries keys)) with unregisters := s.unregisters.eraseIdx i }
  | .shutdown => some (s.send .shutdown)
  | .drain n =>
    if s.ended = false ∧ s.rpcs = [] ∧ 0 < n ∧ n ≤ s.commands.length then
      if .shutdown ∈ s.commands.take n then
        some { s with rpcs := rpcsOf (s.commands.take n), commands := [], ended := true }
      else some { s with rpcs := rpcsOf (s.commands.take n), commands := s.commands.drop n }
    else none
  | .rpc =>
    match s.rpcs with
    | [] => none
    | rpc :: rpcs => some { s with rpcs := rpcs, listed := rpc.serve s.listed }

/-- Nothing is on its way to the MetaServer. -/
structure Drained (s : NodeState) : Prop where
  current : ∀ c, s.worker.current = some c → c.published = false
  unregisters : s.unregisters = []
  commands : s.commands = []
  rpcs : s.rpcs = []

variable (s : NodeState)

instance : Decidable s.Drained :=
  decidable_of_iff
    ((∀ c ∈ s.worker.current, c.published = false) ∧ s.unregisters = [] ∧ s.commands = [] ∧
      s.rpcs = [])
    ⟨fun ⟨h₁, h₂, h₃, h₄⟩ => ⟨h₁, h₂, h₃, h₄⟩, fun ⟨h₁, h₂, h₃, h₄⟩ => ⟨h₁, h₂, h₃, h₄⟩⟩

/-- Every listed key is resident. -/
def Sound : Prop := ∀ k ∈ s.listed, s.worker.cache.containsKey k

instance : Decidable s.Sound := inferInstanceAs (Decidable (∀ k ∈ s.listed, _))

/-- No block is refused when it is published, and none is evicted between its publication and
its registration. -/
def Steady : NodeEvent → Prop
  | .worker .publish => ∀ c ∈ s.worker.current, s.worker.cache.Admits c.sealedBlocks
  | .worker ev =>
    ∀ c ∈ s.worker.current, c.published → ∀ b ∈ c.sealedBlocks, b.1 ∉ s.worker.evictedBy ev
  | _ => True

instance (ev : NodeEvent) : Decidable (s.Steady ev) := by
  cases ev with
  | worker ev => cases ev <;> exact inferInstanceAs (Decidable (∀ c ∈ s.worker.current, _))
  | _ => exact isTrue trivial

/-! ## What will be listed -/

/-- What is listed once everything that is drained or queued has been sent. -/
def outlook : Finset BlockKey := applyAll s.commands (serveAll s.rpcs s.listed)

variable {s s' : NodeState} {k : BlockKey}

variable (command : MetaServerCommand)

theorem outlook_send :
    (s.send command).outlook = if s.ended then s.outlook else command.apply s.outlook := by
  unfold send
  split
  · rfl
  · exact applyAll_append _ _ _

theorem ended_send : (s.send command).ended = s.ended := by
  unfold send
  split <;> rfl

theorem worker_send : (s.send command).worker = s.worker := by
  unfold send
  split <;> rfl

/-- Everything that will be listed is resident or about to be unregistered, and what is about to
be registered is resident. -/
structure Accounted (s : NodeState) : Prop where
  current : ∀ c, s.worker.current = some c → c.Wf
  pending : ∀ c, s.worker.current = some c → c.published → ∀ b ∈ c.sealedBlocks,
    s.worker.cache.containsKey b.1
  outlook : ∀ k ∈ s.outlook, s.worker.cache.containsKey k ∨ ∃ keys ∈ s.unregisters, k ∈ keys
  ended : s.ended → s.outlook = ∅

theorem accounted_new (cache : TinyLfuCache BlockKey SealedBlock) : (new cache).Accounted :=
  ⟨nofun, nofun, nofun, nofun⟩

/-! ### Steps of the worker -/

section

variable {ev : WorkerEvent} {worker : WorkerState}

theorem Accounted.pending_worker (hi : s.Accounted) (hsty : s.Steady (.worker ev))
    (h : s.worker.step ev = some worker) (c : CurrentBatch) (hc : worker.current = some c)
    (hpub : c.published) (b : BlockKey × SealedBlock) (hb : b ∈ c.sealedBlocks) :
    worker.cache.containsKey b.1 := by
  have hk : worker.current = s.worker.current → b.1 ∉ s.worker.evictedBy ev →
      worker.cache.containsKey b.1 := by
    intro hsm hnot
    rw [hsm] at hc
    exact (WorkerState.resident_step h (hi.pending c hc hpub b hb)).resolve_right hnot
  cases WorkerState.step_cases h with
  | recv _ _ =>
    cases hc
    cases hpub
  | @entry c _ _ _ _ _ hcur htd _ =>
    cases hc
    rw [(hi.current c hcur).done hpub] at htd
    cases htd
  | panic _ _ _ | gc _ _ | lookup | prefetched => exact hk rfl not_mem_nil
  | publish _ hcur _ _ =>
    cases hc
    exact TinyLfuCache.isSome_batchInsert (hsty _ hcur) hb
  | handOff _ _ _ => cases hc
  | evict | cleanup => exact hk rfl (hsty c hc hpub b hb)

/-- A hand-off registers resident blocks. -/
theorem Accounted.of_mem_registerBlockHashes (hi : s.Accounted)
    (h : s.worker.step ev = some worker) (hk : k ∈ (s.registerBlockHashes ev).outlook) :
    k ∈ s.outlook ∨ worker.cache.containsKey k := by
  cases WorkerState.step_cases h with
  | @handOff c _ hc hpub =>
    simp only [registerBlockHashes, hc] at hk
    split at hk
    · exact Or.inl hk
    rw [outlook_send] at hk
    split at hk
    · exact Or.inl hk
    rw [MetaServerCommand.apply, Finset.mem_union, List.mem_toFinset, mem_keysOf] at hk
    refine hk.imp_right ?_
    rintro ⟨hashes, hgrp, hh⟩
    obtain ⟨hns, rfl⟩ := Prod.mk.inj (mem_singleton.mp hgrp)
    obtain ⟨⟨⟨nameSpace, hash⟩, block⟩, hb, hbk⟩ := mem_map.mp hh
    have hbns : nameSpace = c.batch.nameSpace := (hi.current c hc).sealedBlocks _ hb
    obtain ⟨kns, khash⟩ := k
    subst hns hbk hbns
    exact hi.pending c hc hpub _ hb
  | _ => exact Or.inl hk

theorem ended_registerBlockHashes : (s.registerBlockHashes ev).ended = s.ended := by
  unfold registerBlockHashes
  split
  · split
    · rfl
    · split
      · rfl
      · exact ended_send _
  · rfl

theorem registerBlockHashes_of_ended (h : s.ended) : s.registerBlockHashes ev = s := by
  unfold registerBlockHashes send
  split
  · split
    · rfl
    · rw [if_pos h, ite_self]
  · rfl

theorem Accounted.step_worker (hi : s.Accounted) (hsty : s.Steady (.worker ev))
    (h : s.worker.step ev = some worker) :
    Accounted { s.registerBlockHashes ev with
      worker := worker
      unregisters :=
        if (s.worker.evictedBy ev).isEmpty then s.unregisters
        else s.unregisters ++ [s.worker.evictedBy ev] } where
  current := CurrentBatch.wf_step hi.current h
  pending := hi.pending_worker hsty h
  outlook := by
    intro k hk
    rcases hi.of_mem_registerBlockHashes h hk with hk | hres
    · rcases hi.outlook k hk with hres | ⟨keys, hks, hk⟩
      · refine (WorkerState.resident_step h hres).imp_right ?_
        intro hevicted
        rw [if_neg (by simpa using ne_nil_of_mem hevicted)]
        exact ⟨_, mem_append_right _ mem_cons_self, hevicted⟩
      · refine Or.inr ⟨keys, ?_, hk⟩
        split
        · exact hks
        · exact mem_append_left _ hks
    · exact Or.inl hres
  ended := by
    intro hend
    have hend : s.ended := ended_registerBlockHashes.symm.trans hend
    rw [registerBlockHashes_of_ended hend]
    exact hi.ended hend

end

/-! ### Steps of the client -/

section

variable (hi : s.Accounted)
include hi

theorem Accounted.step_unregister {i : Nat} {keys : List BlockKey}
    (hks : s.unregisters[i]? = some keys) :
    Accounted { s.send (.remove (fromEntries keys)) with
      unregisters := s.unregisters.eraseIdx i } := by
  refine ⟨?_, ?_, ?_, ?_⟩
  · intro c hc
    rw [worker_send] at hc
    exact hi.current c hc
  · rw [worker_send]
    exact hi.pending
  · intro k hk
    rw [worker_send]
    change k ∈ (s.send _).outlook at hk
    rw [outlook_send] at hk
    split at hk
    next hend =>
      rw [hi.ended hend] at hk
      cases hk
    · rw [MetaServerCommand.apply, Finset.mem_sdiff, List.mem_toFinset, mem_fromEntries] at hk
      refine (hi.outlook k hk.1).imp_right ?_
      rintro ⟨keys', hm, hk'⟩
      obtain ⟨j, hj⟩ := mem_iff_getElem?.mp hm
      refine ⟨keys', mem_eraseIdx_iff_getElem?.mpr ⟨j, ?_, hj⟩, hk'⟩
      rintro rfl
      rw [hks] at hj
      cases hj
      exact hk.2 hk'
  · intro hend
    have hend : s.ended := (ended_send _).symm.trans hend
    change (s.send _).outlook = ∅
    rw [outlook_send, if_pos hend]
    exact hi.ended hend

theorem Accounted.step_shutdown : (s.send .shutdown).Accounted := by
  have hol : (s.send .shutdown).outlook = ∅ := by
    rw [outlook_send]
    split
    · exact hi.ended ‹_›
    · rfl
  refine ⟨?_, ?_, ?_, fun _ => hol⟩
  · rw [worker_send]
    exact hi.current
  · rw [worker_send]
    exact hi.pending
  · rw [hol]
    exact nofun

/-- A round of the loop that ends it leaves nothing listed. -/
theorem Accounted.step_drain_shutdown {n : Nat} (h : .shutdown ∈ s.commands.take n) :
    Accounted { s with rpcs := rpcsOf (s.commands.take n), commands := [], ended := true } := by
  have hol : NodeState.outlook { s with
      rpcs := rpcsOf (s.commands.take n), commands := [], ended := true } = ∅ := by
    rw [rpcsOf, drain_eq_none.mpr h]
    rfl
  refine ⟨hi.current, hi.pending, ?_, fun _ => hol⟩
  rw [hol]
  intro k hk
  cases hk

theorem Accounted.step_drain {n : Nat} (hrpcs : s.rpcs = []) (hend : s.ended = false) :
    Accounted { s with
      rpcs := rpcsOf (s.commands.take n), commands := s.commands.drop n } where
  current := hi.current
  pending := hi.pending
  outlook := by
    intro k hk
    refine hi.outlook k ?_
    have hss : applyAll (s.commands.drop n) (serveAll (rpcsOf (s.commands.take n)) s.listed) ⊆
        applyAll (s.commands.drop n) (applyAll (s.commands.take n) s.listed) :=
      applyAll_mono (serveAll_rpcsOf_subset _ _)
    rw [← applyAll_append, take_append_drop] at hss
    rw [NodeState.outlook, hrpcs]
    exact hss hk
  ended := by
    intro h
    rw [hend] at h
    cases h

theorem Accounted.step {ev : NodeEvent} (hsty : s.Steady ev) (h : s.step ev = some s') :
    s'.Accounted := by
  cases ev with
  | worker ev =>
    obtain ⟨worker, hwk, rfl⟩ := map_eq_some_iff.mp h
    exact hi.step_worker hsty hwk
  | unregister i =>
    obtain ⟨keys, hk, rfl⟩ := map_eq_some_iff.mp h
    exact hi.step_unregister hk
  | shutdown =>
    cases h
    exact hi.step_shutdown
  | drain n =>
    simp only [NodeState.step] at h
    split at h
    next hguard =>
      split at h
      · cases h
        exact hi.step_drain_shutdown ‹_›
      · cases h
        exact hi.step_drain hguard.2.1 hguard.1
    · cases h
  | rpc =>
    simp only [NodeState.step] at h
    split at h
    · cases h
    next rpc rpcs hrpcs =>
      cases h
      have hol : NodeState.outlook { s with rpcs := rpcs, listed := rpc.serve s.listed } =
          s.outlook := by
        rw [NodeState.outlook, NodeState.outlook, hrpcs]
        rfl
      refine ⟨hi.current, hi.pending, ?_, ?_⟩
      · rw [hol]
        exact hi.outlook
      · rw [hol]
        exact hi.ended

end

/-- In every run whose steps are steady, every key that is listed while nothing is on its way to
the MetaServer is resident. -/
theorem advertised_resident_of_steady (cache : TinyLfuCache BlockKey SealedBlock)
    (events : List NodeEvent) (hsteady : Run.Meets NodeState.step Steady (new cache) events)
    (hrun : Run.exec NodeState.step (new cache) events = some s) (hdrained : s.Drained) :
    s.Sound := by
  have hi : s.Accounted := by
    refine exec_invariant_of_meets ?_ (accounted_new cache) hsteady hrun
    intro s ev s' hi hc h
    exact hi.step hc h
  intro k hk
  have hlisted : k ∈ s.outlook := by
    rw [outlook, hdrained.commands, hdrained.rpcs]
    exact hk
  rcases hi.outlook k hlisted with hresident | ⟨keys, hkeys, -⟩
  · exact hresident
  · rw [hdrained.unregisters] at hkeys
    cases hkeys

/-- The worker handles a save of one block of one slot. -/
def saveOne (hash : BlockHash) : List NodeEvent :=
  [.worker (.recv ⟨"model", 1, ⟨0⟩, [⟨0, [(hash, .singleSegment ⟨⟨0, 0⟩, 512⟩)]⟩]⟩),
    .worker .entry, .worker .publish]

/-- A block that was used often keeps a new one out of the cache, and the new one is registered
all the same.  Without an admission policy, a block is evicted and unregistered before the worker
registers it. -/
theorem listed_not_resident :
    (∃ s ∈ Run.exec NodeState.step (new (.empty (some (.new [fun key => key.hash.length] 4 1))))
        (saveOne [1] ++ [.worker .handOff, .worker (.lookup [⟨"model", [1]⟩])] ++
          saveOne [2, 2] ++ [.worker .handOff, .drain 2, .rpc]),
      s.Drained ∧ ¬ s.Sound) ∧
    (∃ s ∈ Run.exec NodeState.step (new (.empty none))
        (saveOne [1] ++ [.worker (.evict 64), .unregister 0, .worker .handOff, .drain 2, .rpc]),
      s.Drained ∧ ¬ s.Sound) := by
  decide

/-- A block is evicted after it was registered, and another is saved in the meantime. -/
theorem advertised_resident_of_steady_evicted :
    ∃ s ∈ Run.exec NodeState.step (new (.empty none))
        (saveOne [1] ++ [.worker .handOff, .drain 1, .rpc, .worker (.evict 64)] ++ saveOne [2] ++
          [.unregister 0, .worker .handOff, .drain 2, .rpc, .rpc]),
      ⟨"model", [2]⟩ ∈ s.listed ∧ s.Sound := by
  refine exists_mem_imp (Q := fun s => ⟨"model", [2]⟩ ∈ s.listed ∧ s.Drained) (by decide)
    fun s hs hrun => ?_
  obtain ⟨hlisted, hdrained⟩ := hrun
  exact ⟨hlisted, advertised_resident_of_steady _ _ (by decide) hs hdrained⟩

end NodeState

end PegaFlow.Storage
