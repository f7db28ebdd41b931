import PegaFlow.Block

/-!
# Query leases

`QueryLeaseManager` of `pegaflow-core/src/lease.rs`.  A lease owns the blocks that
answer a query and is bound to the instance that asked; each of the instance's
workers consumes it once.

Every block is kept with the key it was found under (`FoundBlock`); no function
reads that key.  Lease ids are fresh UUIDs in the source.  Here the id of a lease is
its place in the list `granted` of all leases ever created.  Expiry is by time in the
source; which leases a sweep finds expired is an argument here.
-/

namespace PegaFlow.Storage

abbrev InstanceId := String

abbrev LeaseId := Nat

/-- A block with the key it was found under. -/
abbrev FoundBlock := BlockKey × SealedBlock

structure QueryLease where
  instanceId : InstanceId
  blocks : List FoundBlock
  remainingConsumers : Nat

structure LeaseManager where
  leases : Table LeaseId QueryLease
  granted : List QueryLease

namespace LeaseManager

def empty : LeaseManager := ⟨∅, []⟩

variable (m : LeaseManager) (instanceId : InstanceId) (blocks : List FoundBlock)

def create (consumers : Nat) : LeaseId × LeaseManager :=
  let lease : QueryLease := ⟨instanceId, blocks, max consumers 1⟩
  (m.granted.length, ⟨m.leases.insert m.granted.length lease, m.granted ++ [lease]⟩)

def consume (token : LeaseId) : Except String (List FoundBlock × LeaseManager) :=
  match m.leases.lookup token with
  | none => .error "query lease is unknown or expired"
  | some lease =>
    if lease.instanceId ≠ instanceId then
      .error s!"query lease belongs to instance {lease.instanceId}, got {instanceId}"
    else if 1 < lease.remainingConsumers then
      .ok (lease.blocks,
        { m with
          leases := m.leases.insert token
            { lease with remainingConsumers := lease.remainingConsumers - 1 } })
    else .ok (lease.blocks, { m with leases := m.leases.erase token })

def release (token : LeaseId) : LeaseManager :=
  { m with leases := m.leases.erase token }

def sweepExpired (expired : List LeaseId) : LeaseManager :=
  { m with leases := expired.foldl (fun t id => t.erase id) m.leases }

@[simp] theorem create_granted (consumers : Nat) : (m.create instanceId blocks consumers).2.granted
      = m.granted ++ [⟨instanceId, blocks, max consumers 1⟩] := rfl

/-- A lease that is consumed gives its blocks, and leaves the blocks of all leases as they
are. -/
theorem consume_ok {m m' : LeaseManager} {instanceId : InstanceId} {token : LeaseId}
    {blocks : List FoundBlock} (h : m.consume instanceId token = .ok (blocks, m')) :
    (∃ lease, m.leases.lookup token = some lease ∧ lease.blocks = blocks) ∧
      ∀ k lease', m'.leases.lookup k = some lease' →
        ∃ lease, m.leases.lookup k = some lease ∧ lease.blocks = lease'.blocks := by
  unfold consume at h
  split at h
  · cases h
  next lease hls =>
    split at h
    · cases h
    split at h
    · cases h
      refine ⟨⟨lease, hls, rfl⟩, ?_⟩
      refine Table.forall_lookup_insert ?_ fun k lease' ho => ⟨lease', ho, rfl⟩
      exact ⟨lease, hls, rfl⟩
    · cases h
      refine ⟨⟨lease, hls, rfl⟩, ?_⟩
      intro k lease' hk
      exact ⟨lease', (Table.lookup_of_erase hk).2, rfl⟩

/-- A new lease can be consumed by its instance. -/
theorem exists_consume_create (consumers : Nat) :
    ∃ m', (m.create instanceId blocks consumers).2.consume instanceId
      (m.create instanceId blocks consumers).1 = .ok (blocks, m') := by
  unfold consume create
  rw [AList.lookup_insert]
  dsimp only
  rw [if_neg (not_not.mpr rfl)]
  split
  · exact ⟨_, rfl⟩
  · exact ⟨_, rfl⟩

end LeaseManager

end PegaFlow.Storage
