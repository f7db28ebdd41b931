import Mathlib.Data.List.Dedup
import PegaFlow.Storage.PinnedPool
import PegaFlow.Storage.ReadCache

/-!
# Allocation with eviction

`StorageEngine::allocate` and `reclaim_until_allocator_can_allocate` of
`pegaflow-core/src/storage/mod.rs`.  A request that the pinned pools cannot serve evicts blocks of
the read cache in batches until the largest free region is large enough or the cache is empty, and
is then tried again.

A block owns the pinned regions of its segments, and a region goes back to its pool when nothing
refers to it any more.  `referenced` has the regions that something outside of the cache refers to:
the data of a save that is not sealed yet, or a block that a load, a lease or a transfer still
holds.  So an eviction may free nothing.

Both loops of the source are loops without a bound, and take fuel here.  `evicted` records the
evictions and is read by no step.  There is no activity beside the call.  The metrics are left out.
-/

namespace PegaFlow.Storage

open List Option

variable {σ ρ : Type}

/-- The pinned regions that the segments of a block are in. -/
def blockRegions (block : SealedBlock) : List Nat :=
  block.slots.flatMap fun slot => slot.segments.map fun segment => segment.ptr.alloc

structure StorageEngine (σ ρ : Type) where
  allocator : PinnedAllocator σ
  readCache : TinyLfuCache BlockKey SealedBlock
  /-- The regions that are in use. -/
  regions : Table Nat (PinnedAllocation ρ)
  nextRegion : Nat
  referenced : List Nat
  /-- The calls of `try_unregister`, if there is a MetaServer client. -/
  unregistered : Option (List (List BlockKey))
  evicted : List (BlockKey × SealedBlock)

/-- What `reclaim_until_allocator_can_allocate` returns, and the engine after it. -/
structure Reclaimed (σ ρ : Type) where
  freedBlocks : Nat
  freedBytes : Nat
  largestFree : Nat
  engine : StorageEngine σ ρ

def reclaimBatchSize : Nat := 512

/-- `u64::saturating_add`. -/
def saturatingAdd (a b : Nat) : Nat := min (a + b) (2 ^ 64 - 1)

namespace StorageEngine

variable (raw : RawAllocator σ ρ) (s : StorageEngine σ ρ)

/-- `PinnedAllocator::allocate`: the region is held by the caller. -/
def tryAllocate (size : Nat) (node : NumaNode) : Option Nat × StorageEngine σ ρ :=
  match s.allocator.allocate raw size node with
  | (some alloc, allocator) =>
    (some s.nextRegion,
      { s with
        allocator := allocator
        regions := s.regions.insert s.nextRegion alloc
        nextRegion := s.nextRegion + 1
        referenced := s.nextRegion :: s.referenced })
  | (none, allocator) => (none, { s with allocator := allocator })

/-- The last reference to a region is dropped. -/
def freeRegion (region : Nat) : StorageEngine σ ρ :=
  match s.regions.lookup region with
  | some alloc =>
    { s with allocator := s.allocator.free raw alloc, regions := s.regions.erase region }
  | none => s

/-- Evicted blocks are dropped.  A region stays if something else refers to it. -/
def dropBlocks (blocks : List (BlockKey × SealedBlock)) : StorageEngine σ ρ :=
  let kept := s.referenced ++ s.readCache.resident.flatMap fun e => blockRegions e.2
  let dropped := (blocks.flatMap fun e => blockRegions e.2).dedup
  (dropped.filter fun region => decide (region ∉ kept)).foldl (freeRegion raw) s

/-- A batch has left the cache, and the MetaServer is told. -/
def removeBatch (blocks : List (BlockKey × SealedBlock))
    (readCache : TinyLfuCache BlockKey SealedBlock) : StorageEngine σ ρ :=
  { s with
    readCache := readCache
    unregistered := s.unregistered.map fun calls => calls ++ [blocks.map Prod.fst]
    evicted := s.evicted ++ blocks }

/-- Evict a batch, if there is anything to evict. -/
def evictBatch : Option (List (BlockKey × SealedBlock) × StorageEngine σ ρ) :=
  let (blocks, readCache) := TinyLfuCache.removeLruBatch reclaimBatchSize s.readCache
  if blocks.isEmpty then none
  else some (blocks, (s.removeBatch blocks readCache).dropBlocks raw blocks)

/-- The largest region that a request for the node may get. -/
def largestFree (node : NumaNode) : Nat :=
  s.allocator.largestFreeAllocationForNode raw node

/-- The loop of `reclaim_until_allocator_can_allocate`. -/
def reclaimLoop (raw : RawAllocator σ ρ) (requiredBytes : Nat) (targetNode : NumaNode) :
    Nat → StorageEngine σ ρ → Nat → Nat → Option (Reclaimed σ ρ)
  | 0, _, _, _ => none
  | fuel + 1, s, freedBlocks, freedBytes =>
    if s.largestFree raw targetNode < requiredBytes then
      match s.evictBatch raw with
      | none => some ⟨freedBlocks, freedBytes, s.largestFree raw targetNode, s⟩
      | some (evicted, s') =>
        let batchBytes := evicted.foldl (fun n e => saturatingAdd n e.2.memoryFootprint) 0
        reclaimLoop raw requiredBytes targetNode fuel s' (freedBlocks + evicted.length)
          (saturatingAdd freedBytes batchBytes)
    else some ⟨freedBlocks, freedBytes, s.largestFree raw targetNode, s⟩

def reclaimUntilAllocatorCanAllocate (raw : RawAllocator σ ρ) (fuel : Nat)
    (s : StorageEngine σ ρ) (requiredBytes : Nat) (targetNode : NumaNode) :
    Option (Reclaimed σ ρ) :=
  if requiredBytes = 0 then some ⟨0, 0, s.largestFree raw targetNode, s⟩
  else reclaimLoop raw requiredBytes targetNode fuel s 0 0

/-- The loop of `allocate`. -/
def allocateLoop (raw : RawAllocator σ ρ) (size : Nat) (node : NumaNode) :
    Nat → StorageEngine σ ρ → Option (Option Nat × StorageEngine σ ρ)
  | 0, _ => none
  | fuel + 1, s =>
    match s.tryAllocate raw size node with
    | (some region, s) => some (some region, s)
    | (none, s) =>
      match s.reclaimUntilAllocatorCanAllocate raw fuel size node with
      | none => none
      | some reclaimed =>
        if reclaimed.freedBlocks = 0 ∧ reclaimed.largestFree < size then
          -- The final retry.
          some (reclaimed.engine.tryAllocate raw size node)
        else allocateLoop raw size node fuel reclaimed.engine

def allocate (raw : RawAllocator σ ρ) (fuel : Nat) (s : StorageEngine σ ρ) (size : Nat)
    (numaNode : Option NumaNode) : Option (Option Nat × StorageEngine σ ρ) :=
  allocateLoop raw size (numaNode.getD .unknown) fuel s

/-! ## What the steps do -/

variable {raw : RawAllocator σ ρ} {s s' s'' : StorageEngine σ ρ} {size : Nat} {node : NumaNode}
variable {blocks blocks' : List (BlockKey × SealedBlock)}

/-- From one state to another, these blocks are evicted, each once. -/
structure Evicts (s s' : StorageEngine σ ρ) (blocks : List (BlockKey × SealedBlock)) : Prop where
  evicted : s'.evicted = s.evicted ++ blocks
  resident : s.readCache.resident.Perm (blocks ++ s'.readCache.resident)
  same : blocks = [] → s'.readCache = s.readCache ∧ s'.unregistered = s.unregistered

theorem Evicts.refl (s : StorageEngine σ ρ) : Evicts s s [] :=
  ⟨(append_nil _).symm, List.Perm.refl _, fun _ => ⟨rfl, rfl⟩⟩

theorem Evicts.trans (h : Evicts s s' blocks) (h' : Evicts s' s'' blocks') :
    Evicts s s'' (blocks ++ blocks') := by
  refine ⟨?_, ?_, ?_⟩
  · rw [h'.evicted, h.evicted, append_assoc]
  · rw [append_assoc]
    exact h.resident.trans (h'.resident.append_left blocks)
  · intro hnil
    obtain ⟨hfst, hsecond⟩ := append_eq_nil_iff.mp hnil
    exact ⟨(h'.same hsecond).1.trans (h.same hfst).1, (h'.same hsecond).2.trans (h.same hfst).2⟩

theorem tryAllocate_evicts (raw : RawAllocator σ ρ) (s : StorageEngine σ ρ) (size : Nat)
    (node : NumaNode) : Evicts s (s.tryAllocate raw size node).2 [] := by
  unfold tryAllocate
  split <;> exact ⟨(append_nil _).symm, List.Perm.refl _, fun _ => ⟨rfl, rfl⟩⟩

theorem tryAllocate_isSome :
    (s.tryAllocate raw size node).1.isSome = (s.allocator.allocate raw size node).1.isSome := by
  unfold tryAllocate
  split
  next h =>
    rw [h]
    rfl
  next h =>
    rw [h]
    rfl

theorem tryAllocate_allocator :
    (s.tryAllocate raw size node).2.allocator = (s.allocator.allocate raw size node).2 := by
  unfold tryAllocate
  split
  next h => rw [h]
  next h => rw [h]

/-- A request that fails leaves the shards it could have been served from as they are. -/
theorem eligible_refused (h : (s.tryAllocate raw size node).1 = none) :
    (s.tryAllocate raw size node).2.allocator.eligible node = s.allocator.eligible node := by
  have hn : (s.allocator.allocate raw size node).1 = none := by
    rw [← not_isSome_iff_eq_none, ← tryAllocate_isSome, h]
    exact Bool.false_ne_true
  rw [tryAllocate_allocator, PinnedAllocator.eligible_of_none hn]

theorem largestFree_refused (h : (s.tryAllocate raw size node).1 = none) :
    (s.tryAllocate raw size node).2.largestFree raw node = s.largestFree raw node := by
  simp only [largestFree, PinnedAllocator.largest_eq, eligible_refused h]

/-- The parts of the engine that dropping blocks leaves as they are. -/
structure SameCache (s s' : StorageEngine σ ρ) : Prop where
  readCache : s'.readCache = s.readCache
  unregistered : s'.unregistered = s.unregistered
  evicted : s'.evicted = s.evicted

theorem freeRegion_same (raw : RawAllocator σ ρ) (s : StorageEngine σ ρ) (region : Nat) :
    SameCache s (s.freeRegion raw region) := by
  unfold freeRegion
  split <;> exact ⟨rfl, rfl, rfl⟩

/-- What freeing one region keeps, dropping blocks keeps. -/
theorem dropBlocks_induct {I : StorageEngine σ ρ → Prop}
    (hf : ∀ s region, I s → I (s.freeRegion raw region)) (hs : I s)
    (blocks : List (BlockKey × SealedBlock)) : I (s.dropBlocks raw blocks) :=
  foldlRecOn _ _ hs fun s hs region _ => hf s region hs

theorem dropBlocks_same (raw : RawAllocator σ ρ) (s : StorageEngine σ ρ)
    (blocks : List (BlockKey × SealedBlock)) : SameCache s (s.dropBlocks raw blocks) := by
  refine dropBlocks_induct (I := SameCache s) ?_ ⟨rfl, rfl, rfl⟩ blocks
  intro t region ht
  have hsm := freeRegion_same raw t region
  exact ⟨hsm.readCache.trans ht.readCache, hsm.unregistered.trans ht.unregistered,
    hsm.evicted.trans ht.evicted⟩

theorem evictBatch_evicts (h : s.evictBatch raw = some (blocks, s')) :
    Evicts s s' blocks ∧ blocks ≠ [] := by
  have hp := TinyLfuCache.removeLruBatch_perm reclaimBatchSize s.readCache
  unfold evictBatch at h
  generalize TinyLfuCache.removeLruBatch reclaimBatchSize s.readCache = batch at h hp
  obtain ⟨evicted, readCache⟩ := batch
  dsimp only at h hp
  split at h
  · cases h
  next hne =>
    cases h
    have hsm := dropBlocks_same raw (s.removeBatch blocks readCache) blocks
    have hbs := mt List.isEmpty_iff.mpr hne
    exact ⟨⟨hsm.evicted, hsm.readCache ▸ hp, fun hnil => absurd hnil hbs⟩, hbs⟩

theorem evictBatch_eq_none (h : s.evictBatch raw = none) : s.readCache.resident = [] := by
  unfold evictBatch at h
  dsimp only at h
  split at h
  next hnil => exact TinyLfuCache.removeLruBatch_eq_nil (List.isEmpty_iff.mp hnil)
  next => cases h

/-! ## The loops -/

/-- A property of the engine that evictions and failed requests keep, and in which a request that
fits is served. -/
structure Progress (raw : RawAllocator σ ρ) (size : Nat) (node : NumaNode)
    (I : StorageEngine σ ρ → Prop) : Prop where
  evict : ∀ s blocks s', I s → s.evictBatch raw = some (blocks, s') → I s'
  refused : ∀ s, I s → (s.tryAllocate raw size node).1 = none → I (s.tryAllocate raw size node).2
  served : ∀ s, I s → size ≤ s.largestFree raw node → (s.tryAllocate raw size node).1.isSome

/-- How reclaiming ends: a large region is free, or nothing is left to evict. -/
structure Reclaims (raw : RawAllocator σ ρ) (size : Nat) (node : NumaNode)
    (I : StorageEngine σ ρ → Prop) (s : StorageEngine σ ρ)
    (blocks : List (BlockKey × SealedBlock)) (r : Reclaimed σ ρ) : Prop where
  evicts : Evicts s r.engine blocks
  kept : I r.engine
  largestFree : r.largestFree = r.engine.largestFree raw node
  ends : size ≤ r.largestFree ∨ r.engine.readCache.resident = []

variable {I : StorageEngine σ ρ → Prop}

/-- Every round evicts a block, so as many rounds as there are blocks are enough. -/
theorem reclaimLoop_ends (hI : Progress raw size node I) (hs : I s) {fuel : Nat}
    (hfuel : s.readCache.resident.length < fuel) (freedBlocks freedBytes : Nat) :
    ∃ r blocks, reclaimLoop raw size node fuel s freedBlocks freedBytes = some r ∧
      r.freedBlocks = freedBlocks + blocks.length ∧ Reclaims raw size node I s blocks r := by
  induction fuel generalizing s freedBlocks freedBytes with
  | zero => cases hfuel
  | succ fuel ih =>
    unfold reclaimLoop
    split
    next hsm =>
      split
      next hn =>
        exact ⟨_, [], rfl, rfl, .refl s, hs, rfl, Or.inr (evictBatch_eq_none hn)⟩
      next evicted t hevict =>
        obtain ⟨hevc, hne⟩ := evictBatch_evicts hevict
        have hlen := hevc.resident.length_eq
        rw [length_append] at hlen
        have hpos := length_pos_of_ne_nil hne
        obtain ⟨r, blocks, hr, hfreed, hes⟩ := ih (hI.evict s evicted t hs hevict) (by omega)
          (freedBlocks + evicted.length) _
        refine ⟨r, evicted ++ blocks, hr, ?_, hevc.trans hes.evicts, hes.kept,
          hes.largestFree, hes.ends⟩
        rw [hfreed, length_append, Nat.add_assoc]
    next hlarge => exact ⟨_, [], rfl, rfl, .refl s, hs, rfl, Or.inl (Nat.not_lt.mp hlarge)⟩

/-- How a request ends. -/
structure Allocates (raw : RawAllocator σ ρ) (size : Nat) (node : NumaNode)
    (I : StorageEngine σ ρ → Prop) (s : StorageEngine σ ρ) (result : Option Nat)
    (s' : StorageEngine σ ρ) : Prop where
  evicts : ∃ blocks, Evicts s s' blocks
  served : ∀ region, result = some region → ∃ t, I t ∧ (t.tryAllocate raw size node).1 = some region
  exhausted : result = none → s'.readCache.resident = [] ∧ s'.largestFree raw node < size

theorem Evicts.resident_eq (h : Evicts s s' []) : s'.readCache.resident = s.readCache.resident :=
  congrArg TinyLfuCache.resident (h.same rfl).1

theorem reclaimLoop_of_empty (hemp : s.readCache.resident = []) (fuel freedBlocks freedBytes : Nat) :
    reclaimLoop raw size node (fuel + 1) s freedBlocks freedBytes =
      some ⟨freedBlocks, freedBytes, s.largestFree raw node, s⟩ := by
  unfold reclaimLoop
  split
  · split
    · rfl
    next evicted t hevict =>
      obtain ⟨hevc, hne⟩ := evictBatch_evicts hevict
      have hnil := hevc.resident
      rw [hemp, nil_perm, append_eq_nil_iff] at hnil
      exact absurd hnil.1 hne
  · rfl

theorem allocates_of_some {region : Nat} {t : StorageEngine σ ρ} (hs : I s)
    (h : s.tryAllocate raw size node = (some region, t)) :
    Allocates raw size node I s (some region) t := by
  refine ⟨⟨[], ?_⟩, ?_, nofun⟩
  · have hevc := tryAllocate_evicts raw s size node
    rwa [h] at hevc
  · rintro _ ⟨⟩
    exact ⟨s, hs, congrArg Prod.fst h⟩

/-- The final retry. -/
theorem allocates_last (hs : I s) (hemp : s.readCache.resident = [])
    (hsm : s.largestFree raw node < size) :
    Allocates raw size node I s (s.tryAllocate raw size node).1
      (s.tryAllocate raw size node).2 := by
  have hevc := tryAllocate_evicts raw s size node
  refine ⟨⟨[], hevc⟩, fun region h => ⟨s, hs, h⟩, ?_⟩
  intro hn
  rw [hevc.resident_eq, largestFree_refused hn]
  exact ⟨hemp, hsm⟩

theorem Allocates.of_evicts {result : Option Nat} (hevc : Evicts s s' blocks)
    (h : Allocates raw size node I s' result s'') : Allocates raw size node I s result s'' := by
  obtain ⟨blocks', hr⟩ := h.evicts
  exact ⟨⟨blocks ++ blocks', hevc.trans hr⟩, h.served, h.exhausted⟩

/-- Once reclaiming has ended, one more round and the final retry are enough. -/
theorem allocateLoop_after_reclaim (hI : Progress raw size node I) (hpos : 0 < size) (hs : I s)
    (hes : size ≤ s.largestFree raw node ∨ s.readCache.resident = []) {fuel : Nat}
    (hfuel : 2 ≤ fuel) :
    ∃ result s', allocateLoop raw size node fuel s = some (result, s') ∧
      Allocates raw size node I s result s' := by
  obtain ⟨fuel, rfl⟩ := Nat.exists_eq_add_of_le' hfuel
  unfold allocateLoop
  split
  next region t htry => exact ⟨_, _, rfl, allocates_of_some hs htry⟩
  next t htry =>
    have hn : (s.tryAllocate raw size node).1 = none := congrArg Prod.fst htry
    have hsm : s.largestFree raw node < size := by
      refine Nat.not_le.mp fun hle => ?_
      have hsome := hI.served s hs hle
      rw [hn] at hsome
      cases hsome
    have hemp := hes.resolve_left (Nat.not_le.mpr hsm)
    have hevc := tryAllocate_evicts raw s size node
    have hk := hI.refused s hs hn
    have hlargest := largestFree_refused hn
    rw [htry] at hevc hk hlargest
    rw [← hlargest] at hsm
    rw [← hevc.resident_eq] at hemp
    rw [reclaimUntilAllocatorCanAllocate, if_neg hpos.ne', reclaimLoop_of_empty hemp]
    dsimp only
    rw [if_pos ⟨rfl, hsm⟩]
    exact ⟨_, _, rfl, (allocates_last hk hemp hsm).of_evicts hevc⟩

theorem allocateLoop_ends (hI : Progress raw size node I) (hpos : 0 < size) (hs : I s) {fuel : Nat}
    (hfuel : s.readCache.resident.length + 3 ≤ fuel) :
    ∃ result s', allocateLoop raw size node fuel s = some (result, s') ∧
      Allocates raw size node I s result s' := by
  obtain ⟨fuel, rfl⟩ := Nat.exists_eq_add_of_le' (Nat.le_trans (Nat.le_add_left 1 _) hfuel)
  unfold allocateLoop
  split
  next region t htry => exact ⟨_, _, rfl, allocates_of_some hs htry⟩
  next t htry =>
    have hevc := tryAllocate_evicts raw s size node
    have hk := hI.refused s hs (congrArg Prod.fst htry)
    rw [htry] at hevc hk
    have hlen : t.readCache.resident.length < fuel := by
      rw [hevc.resident_eq]
      omega
    obtain ⟨r, blocks, hr, hfreed, hrcl⟩ := reclaimLoop_ends hI hk hlen 0 0
    have hengine := hevc.trans hrcl.evicts
    rw [reclaimUntilAllocatorCanAllocate, if_neg hpos.ne', hr]
    dsimp only
    split
    next hsp =>
      have hemp := hrcl.ends.resolve_left (Nat.not_le.mpr hsp.2)
      have hsm : r.engine.largestFree raw node < size := hrcl.largestFree ▸ hsp.2
      exact ⟨_, _, rfl, (allocates_last hrcl.kept hemp hsm).of_evicts hengine⟩
    next =>
      obtain ⟨result, s', hrun, hallo⟩ := allocateLoop_after_reclaim hI hpos hrcl.kept
        (hrcl.largestFree ▸ hrcl.ends) (by omega : 2 ≤ fuel)
      exact ⟨result, s', hrun, hallo.of_evicts hengine⟩

/-! ## Every request ends -/

theorem Evicts.nodup (h : Evicts s s' blocks) : (blocks.map Prod.fst).Nodup := by
  have hk : (s.readCache.resident.map Prod.fst).Nodup := by
    rw [TinyLfuCache.resident, List.map_map]
    exact s.readCache.lru.nodupKeys
  have hp := (h.resident.map Prod.fst).nodup_iff.mp hk
  rw [map_append] at hp
  exact hp.of_append_left

theorem Evicts.subset (h : Evicts s s' blocks) : blocks ⊆ s.readCache.resident :=
  fun _ hm => h.resident.mem_iff.mpr (mem_append_left _ hm)

theorem progress_of_serves (hsvr : raw.Serves) (hpos : 0 < size) :
    Progress raw size node fun _ => True where
  evict _ _ _ _ _ := trivial
  refused _ _ _ := trivial
  served s _ hle := by
    rw [tryAllocate_isSome]
    exact PinnedAllocator.allocate_isSome hsvr hpos hle

/-- A request ends, evicts no block twice, and fails only when nothing is left to evict and no
shard it may be served from has a region that is large enough. -/
theorem allocate_ends (raw : RawAllocator σ ρ) (hserves : raw.Serves) (s : StorageEngine σ ρ)
    (size : Nat) (hpos : 0 < size) (numaNode : Option NumaNode) (fuel : Nat)
    (hfuel : s.readCache.resident.length + 3 ≤ fuel) :
    ∃ result s' blocks, s.allocate raw fuel size numaNode = some (result, s') ∧
      s'.evicted = s.evicted ++ blocks ∧ (blocks.map Prod.fst).Nodup ∧
      blocks ⊆ s.readCache.resident ∧
      (result = none → s'.readCache.resident = [] ∧
        ∀ shard ∈ s'.allocator.eligible (numaNode.getD .unknown),
          shard.largestFreeAllocation raw < size) := by
  obtain ⟨result, s', hrun, hallocates⟩ := allocateLoop_ends
    (progress_of_serves hserves hpos) hpos trivial hfuel
  obtain ⟨blocks, hevicts⟩ := hallocates.evicts
  refine ⟨result, s', blocks, hrun, hevicts.evicted, hevicts.nodup, hevicts.subset, ?_⟩
  intro hnone
  obtain ⟨hempty, hsmall⟩ := hallocates.exhausted hnone
  refine ⟨hempty, fun shard hshard => ?_⟩
  refine Nat.lt_of_not_le fun hle => ?_
  exact Nat.not_le.mpr hsmall ((PinnedAllocator.le_largest_iff hpos).mpr ⟨shard, hshard, hle⟩)

/-! ## Requests that cannot be served -/

/-- The request is larger than every shard it may be served from. -/
def Hopeless (raw : RawAllocator σ ρ) (size : Nat) (node : NumaNode) (s : StorageEngine σ ρ) :
    Prop :=
  ∀ shard ∈ s.allocator.eligible node, shard.totalBytes raw < size

theorem Hopeless.freeRegion (hbdd : raw.Bounded) (h : Hopeless raw size node s)
    (region : Nat) : Hopeless raw size node (s.freeRegion raw region) := by
  unfold StorageEngine.freeRegion
  split
  next alloc hlk =>
    intro shard hsh
    have hby := mem_map_of_mem (f := fun shard => shard.totalBytes raw) hsh
    rw [PinnedAllocator.totalBytes_free hbdd] at hby
    obtain ⟨shard', hsh', heq⟩ := mem_map.mp hby
    exact heq ▸ h shard' hsh'
  next => exact h

theorem progress_of_hopeless (hbdd : raw.Bounded) (hpos : 0 < size) :
    Progress raw size node (Hopeless raw size node) where
  evict s blocks s' hs hevict := by
    unfold evictBatch at hevict
    dsimp only at hevict
    split at hevict
    · cases hevict
    cases hevict
    refine dropBlocks_induct (fun _ region ht => ht.freeRegion hbdd region) ?_ _
    exact hs
  refused s hs hn := by
    intro shard hsh
    rw [eligible_refused hn] at hsh
    exact hs shard hsh
  served s hs hle := by
    obtain ⟨shard, hsh, hlarge⟩ := (PinnedAllocator.le_largest_iff hpos).mp hle
    have hby := PinnedMemoryPool.largest_le_totalBytes hbdd shard
    exact absurd (hs shard hsh) (Nat.not_lt.mpr (Nat.le_trans hlarge hby))

/-- A request that no shard could ever serve fails, and leaves the cache and what is advertised as
they are exactly if there is nothing in the cache. -/
theorem hopeless_request (raw : RawAllocator σ ρ) (hbounded : raw.Bounded)
    (s : StorageEngine σ ρ) (size : Nat) (hpos : 0 < size) (numaNode : Option NumaNode)
    (hhopeless : ∀ shard ∈ s.allocator.eligible (numaNode.getD .unknown),
      shard.totalBytes raw < size)
    (fuel : Nat) (hfuel : s.readCache.resident.length + 3 ≤ fuel) :
    ∃ s', s.allocate raw fuel size numaNode = some (none, s') ∧
      ((s'.readCache = s.readCache ∧ s'.unregistered = s.unregistered) ↔
        s.readCache.resident = []) := by
  obtain ⟨result, s', hrun, hallocates⟩ := allocateLoop_ends
    (progress_of_hopeless hbounded hpos) hpos hhopeless hfuel
  have hnone : result = none := by
    cases result with
    | none => rfl
    | some region =>
      -- Some state in which the request is hopeless has served it.
      obtain ⟨t, ht, hserved⟩ := hallocates.served region rfl
      have hrefused := PinnedAllocator.allocate_eq_none hbounded ht
      rw [← not_isSome_iff_eq_none, ← tryAllocate_isSome, hserved] at hrefused
      exact absurd rfl hrefused
  subst hnone
  refine ⟨s', hrun, ?_⟩
  obtain ⟨hempty, -⟩ := hallocates.exhausted rfl
  obtain ⟨blocks, hevicts⟩ := hallocates.evicts
  constructor
  · rintro ⟨hcache, -⟩
    rw [← hcache, hempty]
  · intro hnil
    have hperm := hevicts.resident
    rw [hnil, nil_perm, append_eq_nil_iff] at hperm
    exact hevicts.same hperm.1

end StorageEngine

/-! ## Two small engines -/

/-- The units of a raw allocator that only counts. -/
structure CountingState where
  size : UInt32
  used : Nat
deriving DecidableEq

def CountingState.unused (state : CountingState) : Nat := state.size.toNat - state.used

/-- A raw allocator whose regions are numbers of units. -/
def countingAllocator : RawAllocator CountingState UInt32 where
  allocate state units :=
    if units.toNat ≤ state.unused then
      some (units, { state with used := state.used + units.toNat })
    else none
  free state units := { state with used := state.used - units.toNat }
  size := CountingState.size
  largestFreeRegion state := UInt32.ofNat state.unused
  offset _ := 0
  allocationSize _ units := units

theorem CountingState.toNat_unused (state : CountingState) :
    (UInt32.ofNat state.unused).toNat = state.unused :=
  UInt32.toNat_ofNat_of_lt' (Nat.lt_of_le_of_lt (Nat.sub_le _ _) state.size.toNat_lt)

theorem countingAllocator_serves : countingAllocator.Serves := by
  intro state units _ hle
  have hunits : units.toNat ≤ state.unused :=
    state.toNat_unused ▸ UInt32.le_iff_toNat_le.mp hle
  simp [countingAllocator, hunits]

theorem countingAllocator_bounded : countingAllocator.Bounded where
  allocate_le state units hs := by
    refine UInt32.le_iff_toNat_le.mpr (Nat.le_trans ?_ (Nat.sub_le _ state.used))
    by_contra hlarge
    have hn : countingAllocator.allocate state units = none := if_neg hlarge
    rw [hn] at hs
    cases hs
  largest_le state := by
    refine UInt32.le_iff_toNat_le.mpr ?_
    have hunused : (countingAllocator.largestFreeRegion state).toNat = state.unused :=
      state.toNat_unused
    rw [hunused]
    exact Nat.sub_le _ _
  size_free _ _ := rfl

namespace StorageEngine

/-- A shard of four units of 512 bytes, two of them used. -/
def halfUsed : ShardedPinnedPool CountingState := ⟨[⟨⟨512, ⟨4, 2⟩, Nat.succ_pos 511⟩⟩], 0⟩

/-- An engine with two resident blocks of one unit.  The first one is also held elsewhere. -/
def twoBlocks (allocator : PinnedAllocator CountingState) :
    StorageEngine CountingState UInt32 where
  allocator := allocator
  readCache := TinyLfuCache.batchInsert
    [(⟨"ns", [1]⟩, .fromSlots [(.singleSegment ⟨⟨0, 0⟩, 512⟩, .unknown)]),
      (⟨"ns", [2]⟩, .fromSlots [(.singleSegment ⟨⟨1, 0⟩, 512⟩, .unknown)])]
    (.empty none)
  regions := ((∅ : Table Nat _).insert 0 ⟨none, 0, ⟨0, 512, 1⟩⟩).insert 1 ⟨none, 0, ⟨512, 512, 1⟩⟩
  nextRegion := 2
  referenced := [0]
  unregistered := some []
  evicted := []

theorem allocate_ends_three_units :
    ∃ result s' blocks,
      (twoBlocks (.global halfUsed)).allocate countingAllocator 5 1536 none =
        some (result, s') ∧
      s'.evicted = [] ++ blocks ∧ (blocks.map Prod.fst).Nodup ∧
      blocks ⊆ (twoBlocks (.global halfUsed)).readCache.resident ∧
      (result = none → s'.readCache.resident = [] ∧
        ∀ shard ∈ s'.allocator.eligible .unknown,
          shard.largestFreeAllocation countingAllocator < 1536) :=
  allocate_ends countingAllocator countingAllocator_serves _ 1536 (by decide) none 5 (by decide)

/-- Both blocks are evicted, and one unit becomes free. -/
example :
    ((twoBlocks (.global halfUsed)).allocate countingAllocator 5 1536 none).map
        (fun r => (r.1, r.2.evicted.map Prod.fst)) =
      some (some 2, [⟨"ns", [1]⟩, ⟨"ns", [2]⟩]) := by
  decide +kernel

theorem hopeless_request_above_capacity :
    ∃ s', (twoBlocks (.global halfUsed)).allocate countingAllocator 5 4096 none =
        some (none, s') ∧
      ((s'.readCache = (twoBlocks (.global halfUsed)).readCache ∧ s'.unregistered = some []) ↔
        (twoBlocks (.global halfUsed)).readCache.resident = []) :=
  hopeless_request countingAllocator countingAllocator_bounded _ 4096 (by decide) none (by decide)
    5 (by decide)

/-- What a request leaves in the cache and has told the MetaServer. -/
def leftAfter (s : StorageEngine CountingState UInt32) (size : Nat) (node : Option NumaNode) :
    Option (Option Nat × List BlockKey × Option (List (List BlockKey))) :=
  (s.allocate countingAllocator 5 size node).map fun r =>
    (r.1, r.2.readCache.resident.map Prod.fst, r.2.unregistered)

/-- A request above the capacity of the only shard, and one for a node without a pool: both empty
the cache. -/
theorem hopeless_requests_evict :
    leftAfter (twoBlocks (.global halfUsed)) 4096 none =
        some (none, [], some [[⟨"ns", [1]⟩, ⟨"ns", [2]⟩]]) ∧
      leftAfter (twoBlocks (.numa ((∅ : Table Nat _).insert 0 halfUsed))) 512 (some ⟨1⟩) =
        some (none, [], some [[⟨"ns", [1]⟩, ⟨"ns", [2]⟩]]) := by
  decide +kernel

end StorageEngine

end PegaFlow.Storage
