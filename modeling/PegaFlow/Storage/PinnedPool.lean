import Mathlib.Order.MinMax
import PegaFlow.Block

/-!
# Pinned memory pools

`ScaledOffsetAllocator` of `pegaflow-core/src/allocator.rs` and the pools of
`pegaflow-core/src/pinned_pool.rs`.  A pool is one region of pinned memory with an allocator that
works in units.  Pools come in shards, tried round-robin, and with NUMA awareness there is one
group of shards for each node.

The allocator underneath is the crate `offset_allocator`, a parameter here (`RawAllocator`).  What
is assumed of it is said where it is used: `Serves`, that a request of no more units than the
largest free region it reports succeeds, and `Bounded`, that it never gives out nor reports more
than it was made with.  The two assertions of `PinnedMemoryPool::allocate`, that the region lies in
the backing memory and is not empty, are left out, and so are the metrics.

`total_units` of the source is the size the raw allocator was made with.
-/

namespace PegaFlow.Storage

open List Option AList

variable {σ ρ : Type}

/-! ## The raw allocator -/

/-- `offset_allocator::Allocator`, with states `σ` and allocations `ρ`. -/
structure RawAllocator (σ ρ : Type) where
  allocate : σ → UInt32 → Option (ρ × σ)
  free : σ → ρ → σ
  size : σ → UInt32
  largestFreeRegion : σ → UInt32
  offset : ρ → UInt32
  allocationSize : σ → ρ → UInt32

namespace RawAllocator

/-- A request that fits into the largest free region succeeds. -/
def Serves (raw : RawAllocator σ ρ) : Prop :=
  ∀ inner units, 0 < units → units ≤ raw.largestFreeRegion inner →
    (raw.allocate inner units).isSome

/-- Nothing is larger than the allocator. -/
structure Bounded (raw : RawAllocator σ ρ) : Prop where
  allocate_le : ∀ inner units, (raw.allocate inner units).isSome → units ≤ raw.size inner
  largest_le : ∀ inner, raw.largestFreeRegion inner ≤ raw.size inner
  size_free : ∀ inner r, raw.size (raw.free inner r) = raw.size inner

end RawAllocator

/-! ## Units and bytes -/

inductive AllocatorError where
  | requestTooLarge (requestedBytes unitSize : Nat)
deriving DecidableEq, Repr

/-- A region, in bytes. -/
structure Allocation (ρ : Type) where
  offsetBytes : Nat
  sizeBytes : Nat
  raw : ρ

structure ScaledOffsetAllocator (σ : Type) where
  unitSize : Nat
  inner : σ
  unitSize_pos : 0 < unitSize

/-- `u64::div_ceil`. -/
def divCeil (a b : Nat) : Nat := (a + b - 1) / b

namespace ScaledOffsetAllocator

def allocate (raw : RawAllocator σ ρ) (a : ScaledOffsetAllocator σ) (sizeBytes : Nat) :
    Except AllocatorError (Option (Allocation ρ × ScaledOffsetAllocator σ)) :=
  if sizeBytes = 0 then .ok none
  else
    let units := divCeil sizeBytes a.unitSize
    if units < 2 ^ 32 then
      match raw.allocate a.inner (UInt32.ofNat units) with
      | none => .ok none
      | some (r, inner) =>
        .ok (some
          (⟨(raw.offset r).toNat * a.unitSize, (raw.allocationSize inner r).toNat * a.unitSize, r⟩,
            { a with inner := inner }))
    else .error (.requestTooLarge sizeBytes a.unitSize)

def free (raw : RawAllocator σ ρ) (a : ScaledOffsetAllocator σ) (allocation : Allocation ρ) :
    ScaledOffsetAllocator σ :=
  { a with inner := raw.free a.inner allocation.raw }

variable (raw : RawAllocator σ ρ) (a : ScaledOffsetAllocator σ)

def totalBytes : Nat :=
  a.unitSize * (raw.size a.inner).toNat

/-- `storage_report().largest_free_allocation_bytes`. -/
def largestFreeAllocationBytes : Nat :=
  (raw.largestFreeRegion a.inner).toNat * a.unitSize

end ScaledOffsetAllocator

/-! ## Pools and shards -/

structure PinnedMemoryPool (σ : Type) where
  allocator : ScaledOffsetAllocator σ

namespace PinnedMemoryPool

def allocate (raw : RawAllocator σ ρ) (pool : PinnedMemoryPool σ) (size : Nat) :
    Option (Allocation ρ × PinnedMemoryPool σ) :=
  match pool.allocator.allocate raw size with
  | .ok (some (allocation, allocator)) => some (allocation, ⟨allocator⟩)
  | .ok none => none
  | .error _ => none

/-- `free_internal`, which dropping an allocation calls. -/
def free (raw : RawAllocator σ ρ) (pool : PinnedMemoryPool σ) (allocation : Allocation ρ) :
    PinnedMemoryPool σ :=
  ⟨pool.allocator.free raw allocation⟩

def totalBytes (raw : RawAllocator σ ρ) (pool : PinnedMemoryPool σ) : Nat :=
  pool.allocator.totalBytes raw

def largestFreeAllocation (raw : RawAllocator σ ρ) (pool : PinnedMemoryPool σ) : Nat :=
  pool.allocator.largestFreeAllocationBytes raw

end PinnedMemoryPool

structure ShardedPinnedPool (σ : Type) where
  shards : List (PinnedMemoryPool σ)
  cursor : Nat

/-- A shard that has given out a region, with the shards after it. -/
structure ShardAllocation (σ ρ : Type) where
  shard : Nat
  allocation : Allocation ρ
  shards : List (PinnedMemoryPool σ)

/-- Try the shards with these indices, one after another. -/
def tryShards (raw : RawAllocator σ ρ) (size : Nat) (shards : List (PinnedMemoryPool σ)) :
    List Nat → Option (ShardAllocation σ ρ)
  | [] => none
  | idx :: rest =>
    match shards[idx]?.bind (·.allocate raw size) with
    | some (allocation, pool) => some ⟨idx, allocation, shards.set idx pool⟩
    | none => tryShards raw size shards rest

namespace ShardedPinnedPool

/-- Round-robin, with the other shards as a fallback. -/
def allocate (raw : RawAllocator σ ρ) (pool : ShardedPinnedPool σ) (size : Nat) :
    Option (Nat × Allocation ρ) × ShardedPinnedPool σ :=
  let n := pool.shards.length
  let start := pool.cursor % n
  let cursor := (pool.cursor + 1) % 2 ^ 64
  match tryShards raw size pool.shards ((List.range n).map fun i => (start + i) % n) with
  | some found => (some (found.shard, found.allocation), ⟨found.shards, cursor⟩)
  | none => (none, ⟨pool.shards, cursor⟩)

def largestFreeAllocation (raw : RawAllocator σ ρ) (pool : ShardedPinnedPool σ) : Nat :=
  (pool.shards.map (·.largestFreeAllocation raw)).foldr max 0

def free (raw : RawAllocator σ ρ) (pool : ShardedPinnedPool σ) (shard : Nat)
    (allocation : Allocation ρ) : ShardedPinnedPool σ :=
  { pool with shards := pool.shards.modify shard (·.free raw allocation) }

end ShardedPinnedPool

/-! ## The allocator of the storage engine -/

inductive PinnedAllocator (σ : Type) where
  | global (pool : ShardedPinnedPool σ)
  | numa (pools : Table Nat (ShardedPinnedPool σ))

/-- A region and the shard it is from; `node` is the key of its NUMA pool. -/
structure PinnedAllocation (ρ : Type) where
  node : Option Nat
  shard : Nat
  allocation : Allocation ρ

namespace PinnedAllocator

def allocate (raw : RawAllocator σ ρ) (a : PinnedAllocator σ) (size : Nat) (numaNode : NumaNode) :
    Option (PinnedAllocation ρ) × PinnedAllocator σ :=
  match a with
  | .global pool =>
    let (found, pool) := pool.allocate raw size
    (found.map fun p => ⟨none, p.1, p.2⟩, .global pool)
  | .numa pools =>
    if numaNode = .unknown then (none, .numa pools)
    else
      match pools.lookup numaNode.id with
      | none => (none, .numa pools)
      | some pool =>
        let (found, pool) := pool.allocate raw size
        (found.map fun p => ⟨some numaNode.id, p.1, p.2⟩,
          .numa (pools.insert numaNode.id pool))

def largestFreeAllocationForNode (raw : RawAllocator σ ρ) (a : PinnedAllocator σ)
    (numaNode : NumaNode) : Nat :=
  match a with
  | .global pool => pool.largestFreeAllocation raw
  | .numa pools =>
    if numaNode = .unknown then 0
    else ((pools.lookup numaNode.id).map (·.largestFreeAllocation raw)).getD 0

/-- Dropping the last reference to a region. -/
def free (raw : RawAllocator σ ρ) (a : PinnedAllocator σ) (alloc : PinnedAllocation ρ) :
    PinnedAllocator σ :=
  match a, alloc.node with
  | .global pool, none => .global (pool.free raw alloc.shard alloc.allocation)
  | .numa pools, some node =>
    match pools.lookup node with
    | some pool => .numa (pools.insert node (pool.free raw alloc.shard alloc.allocation))
    | none => .numa pools
  | a, _ => a

/-- The shards that a request for a node may be served from. -/
def eligible (a : PinnedAllocator σ) (numaNode : NumaNode) : List (PinnedMemoryPool σ) :=
  match a with
  | .global pool => pool.shards
  | .numa pools =>
    if numaNode = .unknown then []
    else ((pools.lookup numaNode.id).map ShardedPinnedPool.shards).getD []

end PinnedAllocator

/-! ## Requests that fit -/

section

variable {raw : RawAllocator σ ρ} {size : Nat}

theorem divCeil_le_iff {a b n : Nat} (hb : 0 < b) : divCeil a b ≤ n ↔ a ≤ n * b := by
  unfold divCeil
  rw [Nat.div_le_iff_le_mul_add_pred hb, Nat.mul_comm]
  omega

theorem divCeil_pos {a b : Nat} (ha : 0 < a) (hb : 0 < b) : 0 < divCeil a b := by
  rw [Nat.pos_iff_ne_zero]
  intro h
  have hle := (divCeil_le_iff hb).mp (Nat.le_of_eq h)
  omega

theorem le_foldr_max_iff {α : Type} {f : α → Nat} {l : List α} (hpos : 0 < size) :
    size ≤ (l.map f).foldr max 0 ↔ ∃ a ∈ l, size ≤ f a := by
  induction l with
  | nil => simpa using hpos.ne'
  | cons a l ih => simp [ih]

namespace PinnedMemoryPool

variable {pool : PinnedMemoryPool σ}

/-- The units of a request are rounded up, and the bytes of a region are whole units. -/
theorem allocate_isSome (hsvr : raw.Serves) (hpos : 0 < size)
    (hle : size ≤ pool.largestFreeAllocation raw) : (pool.allocate raw size).isSome := by
  have hunit := pool.allocator.unitSize_pos
  have hunits : divCeil size pool.allocator.unitSize ≤
      (raw.largestFreeRegion pool.allocator.inner).toNat := (divCeil_le_iff hunit).mpr hle
  have hlt := Nat.lt_of_le_of_lt hunits (UInt32.toNat_lt _)
  have hnat := UInt32.toNat_ofNat_of_lt' hlt
  have hs := hsvr pool.allocator.inner (UInt32.ofNat (divCeil size pool.allocator.unitSize))
    (UInt32.lt_iff_toNat_lt.mpr (hnat.symm ▸ divCeil_pos hpos hunit))
    (UInt32.le_iff_toNat_le.mpr (hnat.symm ▸ hunits))
  obtain ⟨⟨r, inner⟩, hr⟩ := isSome_iff_exists.mp hs
  simp only [allocate, ScaledOffsetAllocator.allocate, if_neg hpos.ne', if_pos hlt, hr]
  rfl

theorem totalBytes_free (hbdd : raw.Bounded) (allocation : Allocation ρ) :
    (pool.free raw allocation).totalBytes raw = pool.totalBytes raw := by
  simp only [totalBytes, free, ScaledOffsetAllocator.totalBytes, ScaledOffsetAllocator.free,
    hbdd.size_free]

theorem largest_le_totalBytes (hbdd : raw.Bounded) (pool : PinnedMemoryPool σ) :
    pool.largestFreeAllocation raw ≤ pool.totalBytes raw := by
  unfold largestFreeAllocation totalBytes ScaledOffsetAllocator.largestFreeAllocationBytes
    ScaledOffsetAllocator.totalBytes
  rw [Nat.mul_comm]
  exact Nat.mul_le_mul_left _ (UInt32.le_iff_toNat_le.mp (hbdd.largest_le _))

theorem allocate_eq_none (hbdd : raw.Bounded) (hlarge : pool.totalBytes raw < size) :
    pool.allocate raw size = none := by
  have hunit := pool.allocator.unitSize_pos
  have hunits : ¬ divCeil size pool.allocator.unitSize ≤ (raw.size pool.allocator.inner).toNat := by
    rw [divCeil_le_iff hunit, Nat.mul_comm]
    exact Nat.not_le_of_lt hlarge
  have hr (hlt : divCeil size pool.allocator.unitSize < 2 ^ 32) :
      raw.allocate pool.allocator.inner (UInt32.ofNat (divCeil size pool.allocator.unitSize)) =
        none := by
    rw [← not_isSome_iff_eq_none]
    intro hs
    have hle := UInt32.le_iff_toNat_le.mp (hbdd.allocate_le _ _ hs)
    exact hunits (UInt32.toNat_ofNat_of_lt' hlt ▸ hle)
  unfold allocate ScaledOffsetAllocator.allocate
  split
  next allocation allocator h =>
    split at h
    · cases h
    dsimp only at h
    split at h
    next hlt =>
      rw [hr hlt] at h
      cases h
    · cases h
  · rfl
  · rfl

end PinnedMemoryPool

variable {shards : List (PinnedMemoryPool σ)}

theorem tryShards_isSome {idxs : List Nat} {idx : Nat}
    {pool : PinnedMemoryPool σ} (hidx : idx ∈ idxs) (hp : shards[idx]? = some pool)
    (hs : (pool.allocate raw size).isSome) : (tryShards raw size shards idxs).isSome := by
  induction idxs with
  | nil => cases hidx
  | cons i idxs ih =>
    unfold tryShards
    split
    · rfl
    next hn =>
      rcases mem_cons.mp hidx with rfl | hidx
      · rw [hp, bind_some] at hn
        rw [hn] at hs
        cases hs
      · exact ih hidx

theorem tryShards_eq_none (hn : ∀ pool ∈ shards, pool.allocate raw size = none) (idxs : List Nat) :
    tryShards raw size shards idxs = none := by
  induction idxs with
  | nil => rfl
  | cons i idxs ih =>
    unfold tryShards
    split
    next allocation pool h =>
      obtain ⟨found, hfd, hs⟩ := bind_eq_some_iff.mp h
      rw [hn found (mem_of_getElem? hfd)] at hs
      cases hs
    · exact ih

/-- Counting from any start, all shards are tried. -/
theorem mem_roundRobin (start : Nat) {n idx : Nat} (h : idx < n) :
    idx ∈ (List.range n).map fun i => (start % n + i) % n := by
  have hsta := Nat.mod_lt start (Nat.zero_lt_of_lt h)
  rw [List.mem_map]
  rcases Nat.le_total (start % n) idx with hle | hle
  · refine ⟨idx - start % n, mem_range.mpr (by omega), ?_⟩
    rw [Nat.add_sub_cancel' hle, Nat.mod_eq_of_lt h]
  · refine ⟨(idx + n - start % n) % n, mem_range.mpr (Nat.mod_lt _ (Nat.zero_lt_of_lt h)), ?_⟩
    rw [Nat.add_mod_mod, Nat.add_sub_cancel' (by omega), Nat.add_mod_right, Nat.mod_eq_of_lt h]

namespace ShardedPinnedPool

variable {pool : ShardedPinnedPool σ}

theorem allocate_isSome {shard : PinnedMemoryPool σ} (hm : shard ∈ pool.shards)
    (hs : (shard.allocate raw size).isSome) : (pool.allocate raw size).1.isSome := by
  obtain ⟨idx, hidx⟩ := mem_iff_getElem?.mp hm
  have hlt := (List.getElem?_eq_some_iff.mp hidx).1
  obtain ⟨found, hfd⟩ := isSome_iff_exists.mp
    (tryShards_isSome (mem_roundRobin pool.cursor hlt) hidx hs)
  unfold allocate
  simp only [hfd, isSome_some]

theorem allocate_of_none (h : (pool.allocate raw size).1 = none) :
    (pool.allocate raw size).2.shards = pool.shards := by
  unfold allocate at h ⊢
  dsimp only at h ⊢
  split at h
  · cases h
  · rfl

theorem allocate_eq_none (hn : ∀ shard ∈ pool.shards, shard.allocate raw size = none) :
    (pool.allocate raw size).1 = none := by
  unfold allocate
  simp only [tryShards_eq_none hn]

theorem totalBytes_free (hbdd : raw.Bounded) (shard : Nat) (allocation : Allocation ρ) :
    (pool.free raw shard allocation).shards.map (·.totalBytes raw) =
      pool.shards.map (·.totalBytes raw) := by
  refine ext_getElem? fun i => ?_
  rw [getElem?_map, getElem?_map, free, getElem?_modify]
  cases pool.shards[i]? with
  | none => rfl
  | some found =>
    split
    · exact congrArg some (PinnedMemoryPool.totalBytes_free hbdd allocation)
    · rfl

end ShardedPinnedPool

namespace PinnedAllocator

variable {a : PinnedAllocator σ} {node : NumaNode}

/-- A request goes to the pool of its node, if there is one. -/
structure ServedBy (raw : RawAllocator σ ρ) (a : PinnedAllocator σ) (size : Nat) (node : NumaNode)
    (pool : ShardedPinnedPool σ) : Prop where
  eligible : a.eligible node = pool.shards
  largest : a.largestFreeAllocationForNode raw node = pool.largestFreeAllocation raw
  isSome : (a.allocate raw size node).1.isSome = (pool.allocate raw size).1.isSome
  eligible_after : (a.allocate raw size node).2.eligible node = (pool.allocate raw size).2.shards

theorem servedBy_or_none (raw : RawAllocator σ ρ) (a : PinnedAllocator σ) (size : Nat)
    (node : NumaNode) :
    (∃ pool, ServedBy raw a size node pool) ∨
      a.eligible node = [] ∧ a.largestFreeAllocationForNode raw node = 0 ∧
        a.allocate raw size node = (none, a) := by
  cases a with
  | global pool => exact Or.inl ⟨pool, rfl, rfl, isSome_map, rfl⟩
  | numa pools =>
    by_cases hn : node = .unknown
    · refine Or.inr ⟨?_, ?_, ?_⟩
      · simp [PinnedAllocator.eligible, hn]
      · simp [largestFreeAllocationForNode, hn]
      · simp [PinnedAllocator.allocate, hn]
    · cases hp : pools.lookup node.id with
      | none =>
        refine Or.inr ⟨?_, ?_, ?_⟩
        · simp [PinnedAllocator.eligible, hn, hp]
        · simp [largestFreeAllocationForNode, hn, hp]
        · simp [PinnedAllocator.allocate, hn, hp]
      | some pool =>
        refine Or.inl ⟨pool, ?_, ?_, ?_, ?_⟩
        · simp [PinnedAllocator.eligible, hn, hp]
        · simp [largestFreeAllocationForNode, hn, hp]
        · simp [PinnedAllocator.allocate, hn, hp]
        · simp [PinnedAllocator.allocate, PinnedAllocator.eligible, hn, hp]

theorem largest_eq :
    a.largestFreeAllocationForNode raw node =
      ((a.eligible node).map (·.largestFreeAllocation raw)).foldr max 0 := by
  rcases servedBy_or_none raw a 0 node with ⟨pool, h⟩ | ⟨hn, hz, -⟩
  · rw [h.largest, h.eligible]
    rfl
  · rw [hz, hn]
    rfl

theorem le_largest_iff (hpos : 0 < size) :
    size ≤ a.largestFreeAllocationForNode raw node ↔
      ∃ shard ∈ a.eligible node, size ≤ shard.largestFreeAllocation raw := by
  rw [largest_eq]
  exact le_foldr_max_iff hpos

theorem allocate_isSome (hsvr : raw.Serves) (hpos : 0 < size)
    (hle : size ≤ a.largestFreeAllocationForNode raw node) :
    (a.allocate raw size node).1.isSome := by
  obtain ⟨shard, hm, hsh⟩ := (le_largest_iff hpos).mp hle
  rcases servedBy_or_none raw a size node with ⟨pool, h⟩ | ⟨hn, -⟩
  · rw [h.isSome]
    rw [h.eligible] at hm
    exact ShardedPinnedPool.allocate_isSome hm (PinnedMemoryPool.allocate_isSome hsvr hpos hsh)
  · rw [hn] at hm
    cases hm

/-- A request that fails turns the cursor and leaves the shards as they are. -/
theorem eligible_of_none (h : (a.allocate raw size node).1 = none) :
    (a.allocate raw size node).2.eligible node = a.eligible node := by
  rcases servedBy_or_none raw a size node with ⟨pool, hp⟩ | ⟨-, -, hsm⟩
  · have hn : (pool.allocate raw size).1 = none := by
      rw [← not_isSome_iff_eq_none, ← hp.isSome, h]
      exact Bool.false_ne_true
    rw [hp.eligible_after, ShardedPinnedPool.allocate_of_none hn, hp.eligible]
  · rw [hsm]

/-- A request above the capacity of every shard fails. -/
theorem allocate_eq_none (hbdd : raw.Bounded)
    (hlarge : ∀ shard ∈ a.eligible node, shard.totalBytes raw < size) :
    (a.allocate raw size node).1 = none := by
  rcases servedBy_or_none raw a size node with ⟨pool, h⟩ | ⟨-, -, hsm⟩
  · rw [h.eligible] at hlarge
    rw [← not_isSome_iff_eq_none, h.isSome, ShardedPinnedPool.allocate_eq_none]
    · exact Bool.false_ne_true
    · intro shard hsh
      exact PinnedMemoryPool.allocate_eq_none hbdd (hlarge shard hsh)
  · rw [hsm]

/-- Freeing a region does not change how large the shards are. -/
theorem totalBytes_free (hbdd : raw.Bounded) (alloc : PinnedAllocation ρ) :
    ((a.free raw alloc).eligible node).map (·.totalBytes raw) =
      (a.eligible node).map (·.totalBytes raw) := by
  unfold free
  split
  · exact ShardedPinnedPool.totalBytes_free hbdd alloc.shard alloc.allocation
  next pools key hk =>
    split
    next pool hp =>
      unfold eligible
      by_cases hn : node = .unknown
      · simp only [if_pos hn]
      · by_cases hid : node.id = key
        · subst hid
          simp only [if_neg hn, lookup_insert, hp]
          exact ShardedPinnedPool.totalBytes_free hbdd alloc.shard alloc.allocation
        · simp only [if_neg hn, lookup_insert_ne hid]
    next => rfl
  · rfl

end PinnedAllocator

end

end PegaFlow.Storage
