import Mathlib.Data.Fin.Basic
import Mathlib.Data.List.Sort
import Mathlib.Data.List.TakeWhile
import Mathlib.Logic.Function.Basic
import PegaFlow.Block
import PegaFlow.Lib.Loop
import PegaFlow.Lib.Table

/-!
# The RC backend

`RcBackendState` and `PerNicState` of `pegaflow-transfer/src/rc_backend/state.rs`, and the methods
of `RcBackend` in `rc_backend/mod.rs`, each as what it does under one lock.  There are `n` NICs,
with a state each, and NIC `i` of one node talks to NIC `i` of the other.

A session is a queue pair, known by its local endpoint: the numbers of local queue pairs are not
used twice, since the worker thread of a session keeps it alive.  The numbers of remote queue pairs
are chosen by the peers.  The connected sessions of a peer and the memory it announced stand in the
tables of a NIC under the number of the peer's first queue pair there.

Numbers of memory are `u64` in the source, so a sum that does not fit is refused.
-/

namespace PegaFlow.Rdma

inductive TransferError where
  | invalidArgument (message : String)
  | memoryNotRegistered (ptr : Nat)
  | backend (message : String)
deriving DecidableEq

structure RcEndpoint where
  gid : Nat
  lid : Nat
  qpNum : Nat
  psn : Nat
deriving DecidableEq

structure RegisteredMemoryRegion where
  basePtr : Nat
  len : Nat
  rkey : Nat
deriving DecidableEq

structure NicHandshake where
  endpoints : List RcEndpoint
  memoryRegions : List RegisteredMemoryRegion
deriving DecidableEq

/-- The number of the first queue pair, by which a peer is known on a NIC. -/
def NicHandshake.firstQpn (nic : NicHandshake) : Nat :=
  (nic.endpoints.head?.map RcEndpoint.qpNum).getD 0

/-! ## Remote memory -/

structure RemoteMemoryEntry where
  basePtr : Nat
  endPtr : Nat
  rkey : Nat
deriving DecidableEq

/-- The entry of one region, which must not be empty or leave the address space. -/
def remoteEntry (region : RegisteredMemoryRegion) : Except TransferError RemoteMemoryEntry :=
  if region.len = 0 then
    .error (.backend "handshake response contains zero-length memory region")
  else if 2 ^ 64 ≤ region.basePtr + region.len then
    .error (.backend "handshake response contains memory region overflow")
  else .ok ⟨region.basePtr, region.basePtr + region.len, region.rkey⟩

/-- Some region begins before the one before it ends. -/
def overlapping : List RemoteMemoryEntry → Bool
  | first :: second :: rest => second.basePtr < first.endPtr || overlapping (second :: rest)
  | _ => false

/-- What `cache_remote_memory` makes of the regions of a handshake. -/
def remoteSnapshot (regions : List RegisteredMemoryRegion) :
    Except TransferError (List RemoteMemoryEntry) :=
  match regions.mapM' remoteEntry with
  | .error e => .error e
  | .ok entries =>
    let cached := entries.insertionSort fun a b => a.basePtr ≤ b.basePtr
    if overlapping cached then
      .error (.backend "handshake response contains overlapping memory regions")
    else .ok cached

/-- The key of the region that covers the bytes.  The entries are sorted by distinct addresses, so
the binary search of the source ends at the last one that begins no later. -/
def rkeyFor (entries : List RemoteMemoryEntry) (remotePtr len : Nat) : Option Nat :=
  if 2 ^ 64 ≤ remotePtr + len then none
  else
    match (entries.takeWhile fun e => e.basePtr ≤ remotePtr).getLast? with
    | none => none
    | some entry => if remotePtr + len ≤ entry.endPtr then some entry.rkey else none

variable {entry : RemoteMemoryEntry}

theorem remoteEntry_ok {region : RegisteredMemoryRegion} (h : remoteEntry region = .ok entry) :
    entry = ⟨region.basePtr, region.basePtr + region.len, region.rkey⟩ := by
  unfold remoteEntry at h
  split at h
  · cases h
  split at h
  · cases h
  · cases h
    rfl

variable {regions : List RegisteredMemoryRegion} {entries : List RemoteMemoryEntry}

theorem mem_remoteSnapshot (h : remoteSnapshot regions = .ok entries) (hmem : entry ∈ entries) :
    ∃ region ∈ regions, entry = ⟨region.basePtr, region.basePtr + region.len, region.rkey⟩ := by
  unfold remoteSnapshot at h
  split at h
  · cases h
  next made hm =>
    dsimp only at h
    split at h
    · cases h
    cases h
    rw [List.mem_insertionSort] at hmem
    obtain ⟨region, hrgn, hent⟩ := Loop.exists_item (Loop.mapM_eq_ok.mp hm) hmem
    exact ⟨region, hrgn, remoteEntry_ok hent⟩

/-- The key that a lookup gives is that of a region of the handshake, and the region covers the
bytes. -/
theorem rkeyFor_remoteSnapshot (hes : remoteSnapshot regions = .ok entries)
    {remotePtr len rkey : Nat} (h : rkeyFor entries remotePtr len = some rkey) :
    ∃ region ∈ regions, region.rkey = rkey ∧ region.basePtr ≤ remotePtr ∧
      remotePtr + len ≤ region.basePtr + region.len := by
  unfold rkeyFor at h
  split at h
  · cases h
  split at h
  · cases h
  next entry hl =>
    split at h
    next hend =>
      cases h
      have htaken := List.mem_of_getLast? hl
      have hbase := List.mem_takeWhile_imp htaken
      obtain ⟨region, hrgn, rfl⟩ :=
        mem_remoteSnapshot hes ((List.takeWhile_sublist _).subset htaken)
      exact ⟨region, hrgn, rfl, of_decide_eq_true hbase, hend⟩
    · cases h

/-! ## State -/

/-- A queue pair that is connected to a remote one. -/
structure ConnectedSession where
  localEndpoint : RcEndpoint
  remoteEndpoint : RcEndpoint
deriving DecidableEq

/-- A session that waits to be connected; `remoteAddr` is the address it was made for. -/
structure PendingSession where
  localEndpoint : RcEndpoint
  remoteAddr : String
deriving DecidableEq

structure PerNicState where
  pending : List PendingSession
  sessions : Table Nat (List ConnectedSession)
  remoteMemory : Table Nat (List RemoteMemoryEntry)

namespace PerNicState

def new : PerNicState := ⟨[], ∅, ∅⟩

variable (nic : PerNicState) (remoteFirstQpn : Nat)

def findRemoteRkey (remoteFirstQpn remotePtr len : Nat) : Option Nat :=
  (nic.remoteMemory.lookup remoteFirstQpn).bind fun entries => rkeyFor entries remotePtr len

/-- The state without the pending session, if there is one of that number. -/
def removePendingByQpn (qpn : Nat) : Option PerNicState :=
  if nic.pending.any fun p => p.localEndpoint.qpNum = qpn then
    some { nic with pending := nic.pending.eraseP fun p => p.localEndpoint.qpNum = qpn }
  else none

def cleanupConnection : PerNicState :=
  { nic with
    sessions := nic.sessions.erase remoteFirstQpn
    remoteMemory := nic.remoteMemory.erase remoteFirstQpn }

def cacheRemoteMemory (regions : List RegisteredMemoryRegion) : Except TransferError PerNicState :=
  (remoteSnapshot regions).map fun cached =>
    { nic with remoteMemory := nic.remoteMemory.insert remoteFirstQpn cached }

end PerNicState

/-- An established connection; `remoteNics` is the handshake it was made from. -/
structure AddrConnection (n : Nat) where
  remoteFirstQpns : Fin n → Nat
  localNics : Fin n → NicHandshake
  rrCounters : Fin n → Nat
  remoteNics : Fin n → NicHandshake

/-- Registered local memory with its keys on every NIC. -/
structure RegisteredMemoryEntry (n : Nat) where
  basePtr : Nat
  len : Nat
  mrs : Fin n → Nat

/-- NICs that are taken in turn. -/
structure NicGroup (n : Nat) where
  nicIndices : List (Fin n)
  nonempty : 0 < nicIndices.length
  rrCounter : Nat

def NicGroup.next {n : Nat} (g : NicGroup n) : Fin n × NicGroup n :=
  (g.nicIndices.get ⟨g.rrCounter % g.nicIndices.length, Nat.mod_lt _ g.nonempty⟩,
    { g with rrCounter := (g.rrCounter + 1) % 2 ^ 64 })

structure NumaRoundRobin (n : Nat) where
  groups : Table NumaNode (NicGroup n)
  fallback : NicGroup n
  singleNuma : Bool

/-- The NIC for memory on a node. -/
def NumaRoundRobin.pick {n : Nat} (rr : NumaRoundRobin n) (numa : NumaNode) :
    Fin n × NumaRoundRobin n :=
  match (if numa = .unknown then none else rr.groups.lookup numa) with
  | some g => (g.next.1, { rr with groups := rr.groups.insert numa g.next.2 })
  | none => (rr.fallback.next.1, { rr with fallback := rr.fallback.next.2 })

structure RcBackend (n : Nat) where
  registered : Table Nat (RegisteredMemoryEntry n)
  nics : Fin n → PerNicState
  addrConnections : Table String (AddrConnection n)
  connecting : List String
  numaRr : NumaRoundRobin n

namespace RcBackend

variable {n : Nat}

def new (numaRr : NumaRoundRobin n) : RcBackend n := ⟨∅, fun _ => .new, ∅, [], numaRr⟩

/-! ## Handshakes -/

variable (b : RcBackend n) (remoteAddr : String)

/-- The local memory as a handshake announces it for a NIC. -/
def snapshotRegisteredMemory (i : Fin n) : List RegisteredMemoryRegion :=
  (b.registered.entries.map fun e => ⟨e.2.basePtr, e.2.len, e.2.mrs i⟩).insertionSort
    fun a b => a.basePtr ≤ b.basePtr

/-- The end of `prepare_handshake`: new sessions are put in the pending queues. -/
def addPending (endpoints : Fin n → List RcEndpoint) : RcBackend n :=
  { b with
    nics := fun i =>
      { b.nics i with
        pending := (b.nics i).pending ++ (endpoints i).map fun ep => ⟨ep, remoteAddr⟩ } }

def stopConnecting : RcBackend n :=
  { b with connecting := b.connecting.filter (· ≠ remoteAddr) }

/-- The sessions of a handshake, NIC by NIC. -/
def sessionList (localNics : Fin n → NicHandshake) : List (Fin n × Nat) :=
  (List.finRange n).flatMap fun i => (localNics i).endpoints.map fun ep => (i, ep.qpNum)

/-- Remove the sessions from the pending queues, up to the first one that is not there. -/
def popPending : (Fin n → PerNicState) → List (Fin n × Nat) → (Fin n → PerNicState) × Bool
  | nics, [] => (nics, true)
  | nics, (i, qpn) :: rest =>
    match (nics i).removePendingByQpn qpn with
    | none => (nics, false)
    | some nic => popPending (Function.update nics i nic) rest

/-- Remove those of the sessions that are in the pending queues. -/
def dropPending (nics : Fin n → PerNicState) (sessions : List (Fin n × Nat)) :
    Fin n → PerNicState :=
  sessions.foldl (fun nics s =>
    Function.update nics s.1 (((nics s.1).removePendingByQpn s.2).getD (nics s.1))) nics

/-- The check of a handshake response: one entry for every NIC, with as many queue pairs as ours. -/
def checkRemoteNics (qpsPerPeer : Nat) (remoteNics : List NicHandshake) :
    Except TransferError (Fin n → NicHandshake) :=
  if h : remoteNics.length = n then
    match remoteNics.zipIdx.find? fun e => e.1.endpoints.length ≠ qpsPerPeer with
    | some (nic, i) =>
      .error (.backend s!"remote qps_per_peer mismatch on nic={i}: local={qpsPerPeer}, remote={nic.endpoints.length}")
    | none => .ok fun i => remoteNics.get (i.cast h.symm)
  else .error (.invalidArgument "remote NIC count mismatch in handshake")

/-- Local queue pair `k` talks to remote queue pair `k`. -/
def pairSessions (localNic remoteNic : NicHandshake) : List ConnectedSession :=
  (localNic.endpoints.zip remoteNic.endpoints).map fun e => ⟨e.1, e.2⟩

/-- Store the sessions and the remote memory, NIC by NIC; a NIC whose memory is refused ends it,
with those before it stored. -/
def storeNics (localNics remoteNics : Fin n → NicHandshake) :
    (Fin n → PerNicState) → List (Fin n) → (Fin n → PerNicState) × Option TransferError
  | nics, [] => (nics, none)
  | nics, i :: rest =>
    match (nics i).cacheRemoteMemory (remoteNics i).firstQpn (remoteNics i).memoryRegions with
    | .error e => (nics, some e)
    | .ok nic =>
      storeNics localNics remoteNics
        (Function.update nics i
          { nic with
            sessions := nic.sessions.insert (remoteNics i).firstQpn
              (pairSessions (localNics i) (remoteNics i)) }) rest

def connection (localNics remoteNics : Fin n → NicHandshake) : AddrConnection n :=
  ⟨fun i => (remoteNics i).firstQpn, localNics, fun _ => 0, remoteNics⟩

def localMetaForAddr : Option (Fin n → NicHandshake) :=
  (b.addrConnections.lookup remoteAddr).map AddrConnection.localNics

def invalidateConnection : RcBackend n :=
  match b.addrConnections.lookup remoteAddr with
  | none => b
  | some conn =>
    { b with
      addrConnections := b.addrConnections.erase remoteAddr
      nics := fun i => (b.nics i).cleanupConnection (conn.remoteFirstQpns i) }

/-! ## Transfers -/

end RcBackend

structure TransferDesc where
  localPtr : Nat
  remotePtr : Nat
  len : Nat

structure RdmaOp where
  localMr : Nat
  localPtr : Nat
  remotePtr : Nat
  len : Nat
  remoteRkey : Nat

/-- The result of a call that may panic. -/
inductive Outcome (α : Type) where
  | ok (a : α)
  | error (e : TransferError)
  | panicked

/-- The call does not panic, and what it returns meets `P`. -/
def Outcome.Ensures {α : Type} (P : α → Prop) : Outcome α → Prop
  | .ok a => P a
  | .error _ => True
  | .panicked => False

namespace RcBackend

variable {n : Nat}

variable (b : RcBackend n) (remoteAddr : String)

def findLocalMr (i : Fin n) (ptr len : Nat) : Option Nat :=
  if 2 ^ 64 ≤ ptr + len then none
  else
    b.registered.entries.findSome? fun e =>
      if 2 ^ 64 ≤ e.2.basePtr + e.2.len then none
      else if e.2.basePtr ≤ ptr ∧ ptr + len ≤ e.2.basePtr + e.2.len then some (e.2.mrs i)
      else none

/-- Give every descriptor its NIC; without several nodes the nodes are not asked for. -/
def assignNics : NumaRoundRobin n → List (TransferDesc × NumaNode) →
    List (Fin n × TransferDesc) × NumaRoundRobin n
  | rr, [] => ([], rr)
  | rr, (desc, numa) :: rest =>
    let (i, rr') := rr.pick (if rr.singleNuma then .unknown else numa)
    let (assigned, rr'') := assignNics rr' rest
    ((i, desc) :: assigned, rr'')

/-- One operation of a transfer. -/
def prepareOp (i : Fin n) (remoteFirstQpn : Nat) (desc : TransferDesc) :
    Except TransferError RdmaOp :=
  if desc.len = 0 then .error (.invalidArgument "len must be non-zero")
  else
    match b.findLocalMr i desc.localPtr desc.len with
    | none => .error (.memoryNotRegistered desc.localPtr)
    | some localMr =>
      match (b.nics i).findRemoteRkey remoteFirstQpn desc.remotePtr desc.len with
      | none => .error (.invalidArgument "remote memory not found in handshake snapshot")
      | some remoteRkey => .ok ⟨localMr, desc.localPtr, desc.remotePtr, desc.len, remoteRkey⟩

/-- Deal the operations out to the sessions of the NIC, one after another from session `rot` on. -/
def dealOut (sessions : List ConnectedSession) (rot : Nat) (ops : List RdmaOp) :
    List (ConnectedSession × List RdmaOp) :=
  (sessions.zipIdx.map fun (session, q) =>
    (session, (ops.zipIdx.filter fun e => (rot + e.2) % 2 ^ 64 % sessions.length = q).map
      Prod.fst)).filter fun e => !e.2.isEmpty

/-- The work for one NIC.  The sessions of a connection are expected to be there, and there is at
least one. -/
def prepareNic (conn : AddrConnection n) (i : Fin n)
    (descs : List TransferDesc) : Outcome (List (ConnectedSession × List RdmaOp)) :=
  if descs.isEmpty then .ok []
  else
    match (b.nics i).sessions.lookup (conn.remoteFirstQpns i) with
    | none => .panicked
    | some [] => .panicked
    | some (session :: sessions) =>
      match descs.mapM' (b.prepareOp i (conn.remoteFirstQpns i)) with
      | .error e => .error e
      | .ok ops => .ok (dealOut (session :: sessions) (conn.rrCounters i) ops)

def prepareNics (b : RcBackend n) (conn : AddrConnection n)
    (assigned : List (Fin n × TransferDesc)) :
    List (Fin n) → Outcome (List (ConnectedSession × List RdmaOp))
  | [] => .ok []
  | i :: rest =>
    match b.prepareNic conn i ((assigned.filter (·.1 = i)).map Prod.snd) with
    | .panicked => .panicked
    | .error e => .error e
    | .ok work =>
      match b.prepareNics conn assigned rest with
      | .panicked => .panicked
      | .error e => .error e
      | .ok more => .ok (work ++ more)

/-- `batch_transfer_async`: what is handed to which session. -/
def batchTransfer
    (descs : List (TransferDesc × NumaNode)) : Outcome (List (ConnectedSession × List RdmaOp)) :=
  if descs.isEmpty then .ok []
  else
    match b.addrConnections.lookup remoteAddr with
    | none => .error (.backend s!"no connection for remote addr {remoteAddr}")
    | some conn => b.prepareNics conn (assignNics b.numaRr descs).1 (List.finRange n)

/-- The NICs whose counter a transfer moves on: those with work, up to the one that fails. -/
def turnedNics (b : RcBackend n) (conn : AddrConnection n)
    (assigned : List (Fin n × TransferDesc)) :
    List (Fin n) → List (Fin n)
  | [] => []
  | i :: rest =>
    let descs := (assigned.filter (·.1 = i)).map Prod.snd
    match b.prepareNic conn i descs with
    | .panicked => []
    | .error _ => [i]
    | .ok _ =>
      if descs.isEmpty then b.turnedNics conn assigned rest
      else i :: b.turnedNics conn assigned rest

/-- The counters after a transfer. -/
def afterTransfer (descs : List (TransferDesc × NumaNode)) : RcBackend n :=
  let (assigned, numaRr) := assignNics b.numaRr descs
  match b.addrConnections.lookup remoteAddr with
  | none => { b with numaRr }
  | some conn =>
    let turned := b.turnedNics conn assigned (List.finRange n)
    { b with
      numaRr
      addrConnections := b.addrConnections.insert remoteAddr
        { conn with
          rrCounters := fun i =>
            if i ∈ turned then (conn.rrCounters i + 1) % 2 ^ 64 else conn.rrCounters i } }

variable {b : RcBackend n} {remoteAddr : String} {descs : List (TransferDesc × NumaNode)}

theorem invalidateConnection_connecting :
    (b.invalidateConnection remoteAddr).connecting = b.connecting := by
  unfold invalidateConnection
  split <;> rfl

theorem afterTransfer_connecting :
    (b.afterTransfer remoteAddr descs).connecting = b.connecting := by
  unfold afterTransfer
  dsimp only
  split <;> rfl

theorem afterTransfer_nics : (b.afterTransfer remoteAddr descs).nics = b.nics := by
  unfold afterTransfer
  dsimp only
  split <;> rfl

end RcBackend

end PegaFlow.Rdma
