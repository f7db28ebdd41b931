import PegaFlow.Lib.Run
import PegaFlow.Rdma.Backend

/-!
# Handshakes of a node

A node connects to its peers in two ways, which share one `RcBackend`.  `ensure_connected` of
`pegaflow-core/src/backing/rdma_fetch.rs` is the client: it prepares queue pairs, sends their
endpoints to the peer and completes the handshake with the peer's answer; whatever fails after the
preparation, it aborts.  Calls for one address are merged (`connect_group`), so that at most one is
under way.  `rdma_accept_handshake` of `pegaflow-core/src/lib.rs` is the server: it has the
endpoints of the peer from the start, tears down an older connection, prepares and completes.

The lock on the state is released between the parts of a call, so each part is a step here and the
calls of any peers interleave.  Completing takes two parts: the pending sessions are taken out of
the queues, then, after they have been connected, they are stored.

`panicked` says that a call has panicked: the `unreachable!` of the server, or an assertion that the
address is in the connecting set (of the builds that check it).  The answer to a server call with no
endpoints, which only reads, is left out, as are requests whose bytes cannot be parsed.
-/

namespace PegaFlow.Rdma

open List Option Table Run

/-- How far a call is.  From `preparing` on the address is in the connecting set on its behalf. -/
inductive CallStage (n : Nat) where
  | started
  | invalidated
  | preparing
  | exchanging (localNics : Fin n → NicHandshake)
  | popped (localNics remoteNics : Fin n → NicHandshake)
  | aborting (localNics : Fin n → NicHandshake)

/-- A call for an address.  A server call has the metadata of the client. -/
structure HandshakeCall (n : Nat) where
  remoteAddr : String
  clientMeta : Option (List NicHandshake)
  stage : CallStage n

/-- `usedQpns` has the numbers of all queue pairs that were made on each NIC. -/
structure RdmaNode (n : Nat) where
  backend : RcBackend n
  usedQpns : Fin n → List Nat
  calls : Table Nat (HandshakeCall n)
  panicked : Bool

inductive RdmaEvent (n : Nat) where
  | ensureConnected (call : Nat) (remoteAddr : String)
  | acceptHandshake (call : Nat) (remoteAddr : String) (clientMeta : List NicHandshake)
  | invalidate (call : Nat)
  | getOrPrepare (call : Nat)
  | createQps (call : Nat) (endpoints : Option (Fin n → List RcEndpoint))
  | exchange (call : Nat) (response : Option (List NicHandshake))
  | complete (call : Nat)
  | connectFails (call : Nat)
  | store (call : Nat)
  | abort (call : Nat)
  | invalidateConnection (remoteAddr : String)
  | transfer (remoteAddr : String) (descs : List (TransferDesc × NumaNode))
  | registerMemory (ptr len : Nat) (mrs : Fin n → Nat)
  | unregisterMemory (ptr : Nat)

namespace RdmaNode

variable {n : Nat}

def new (numaRr : NumaRoundRobin n) : RdmaNode n := ⟨.new numaRr, fun _ => [], ∅, false⟩

variable (s : RdmaNode n) (call : Nat) (c : HandshakeCall n)

def setStage (stage : CallStage n) : RdmaNode n :=
  { s with calls := s.calls.insert call { c with stage } }

def endCall : RdmaNode n := { s with calls := s.calls.erase call }

/-- Take the address out of the connecting set, where it is asserted to be. -/
def stopConnecting (s : RdmaNode n) (remoteAddr : String) : RdmaNode n :=
  { s with
    backend := s.backend.stopConnecting remoteAddr
    panicked := s.panicked || remoteAddr ∉ s.backend.connecting }

/-- A call that prepared queue pairs fails: a client call goes on to abort, a server call
returns. -/
def fail (localNics : Fin n → NicHandshake) : RdmaNode n :=
  match c.clientMeta with
  | none => s.setStage call c (.aborting localNics)
  | some _ => s.endCall call

def setNics (nics : Fin n → PerNicState) : RdmaNode n :=
  { s with backend := { s.backend with nics } }

/-- The numbers are new on every NIC, and there are as many queue pairs as there should be. -/
def FreshQps (qpsPerPeer : Nat) (endpoints : Fin n → List RcEndpoint) : Prop :=
  ∀ i, (endpoints i).length = qpsPerPeer ∧ ((endpoints i).map RcEndpoint.qpNum).Nodup ∧
    ∀ ep ∈ endpoints i, ep.qpNum ∉ s.usedQpns i

instance (qpsPerPeer : Nat) (endpoints : Fin n → List RcEndpoint) :
    Decidable (s.FreshQps qpsPerPeer endpoints) :=
  inferInstanceAs (Decidable (∀ _, _))

/-- `complete_handshake_for` up to the end of its first lock. -/
def complete (qpsPerPeer : Nat) (s : RdmaNode n) (call : Nat) (c : HandshakeCall n)
    (localNics : Fin n → NicHandshake) (remoteNics : List NicHandshake) : RdmaNode n :=
  match RcBackend.checkRemoteNics qpsPerPeer remoteNics with
  | .error _ => s.fail call c localNics
  | .ok remoteNics =>
    if (s.backend.addrConnections.lookup c.remoteAddr).isSome then
      { s with
        backend :=
          { s.backend with
            nics := RcBackend.dropPending s.backend.nics (RcBackend.sessionList localNics)
            connecting := s.backend.connecting.filter (· ≠ c.remoteAddr) }
        calls := s.calls.erase call }
    else
      match RcBackend.popPending s.backend.nics (RcBackend.sessionList localNics) with
      | (nics, false) => (s.setNics nics).fail call c localNics
      | (nics, true) => (s.setNics nics).setStage call c (.popped localNics remoteNics)

/-- The connection is established. -/
def stored
    (localNics remoteNics : Fin n → NicHandshake) (nics : Fin n → PerNicState) : RdmaNode n :=
  { s with
    backend :=
      { s.backend.stopConnecting c.remoteAddr with
        nics
        addrConnections := s.backend.addrConnections.insert c.remoteAddr
          (RcBackend.connection localNics remoteNics) }
    calls := s.calls.erase call
    panicked := s.panicked || c.remoteAddr ∉ s.backend.connecting }

/-- `complete_handshake_for` from its second lock on. -/
def store (localNics remoteNics : Fin n → NicHandshake) : RdmaNode n :=
  match RcBackend.storeNics localNics remoteNics s.backend.nics (List.finRange n) with
  | (nics, some _) => (s.setNics nics).fail call c localNics
  | (nics, none) => s.stored call c localNics remoteNics nics

/-- `get_or_prepare` up to the preparation of queue pairs. -/
def getOrPrepare : RdmaNode n :=
  if (s.backend.addrConnections.lookup c.remoteAddr).isSome then
    { s.endCall call with panicked := s.panicked || c.clientMeta.isSome }
  else if c.remoteAddr ∈ s.backend.connecting then s.endCall call
  else
    setStage
      { s with
        backend := { s.backend with connecting := c.remoteAddr :: s.backend.connecting } }
      call c .preparing

def step (qpsPerPeer : Nat) (s : RdmaNode n) : RdmaEvent n → Option (RdmaNode n)
  | .ensureConnected call remoteAddr =>
    if s.calls.lookup call = none ∧
        ∀ e ∈ s.calls.entries, e.2.clientMeta.isNone → e.2.remoteAddr ≠ remoteAddr then
      some { s with calls := s.calls.insert call ⟨remoteAddr, none, .started⟩ }
    else none
  | .acceptHandshake call remoteAddr clientMeta =>
    if s.calls.lookup call = none then
      some { s with calls := s.calls.insert call ⟨remoteAddr, some clientMeta, .started⟩ }
    else none
  | .invalidate call =>
    match s.calls.lookup call with
    | some ⟨remoteAddr, some clientMeta, .started⟩ =>
      some
        (setStage { s with backend := s.backend.invalidateConnection remoteAddr } call
          ⟨remoteAddr, some clientMeta, .started⟩ .invalidated)
    | _ => none
  | .getOrPrepare call =>
    match s.calls.lookup call with
    | some ⟨remoteAddr, none, .started⟩ =>
      some (s.getOrPrepare call ⟨remoteAddr, none, .started⟩)
    | some ⟨remoteAddr, some clientMeta, .invalidated⟩ =>
      some (s.getOrPrepare call ⟨remoteAddr, some clientMeta, .invalidated⟩)
    | _ => none
  | .createQps call endpoints =>
    match s.calls.lookup call with
    | some ⟨remoteAddr, clientMeta, .preparing⟩ =>
      match endpoints with
      | none => some ((s.stopConnecting remoteAddr).endCall call)
      | some endpoints =>
        if s.FreshQps qpsPerPeer endpoints then
          some
            (setStage
              { s with
                backend := s.backend.addPending remoteAddr endpoints
                usedQpns := fun i => (endpoints i).map RcEndpoint.qpNum ++ s.usedQpns i }
              call ⟨remoteAddr, clientMeta, .preparing⟩
              (.exchanging fun i => ⟨endpoints i, s.backend.snapshotRegisteredMemory i⟩))
        else none
    | _ => none
  | .exchange call response =>
    match s.calls.lookup call with
    | some ⟨remoteAddr, none, .exchanging localNics⟩ =>
      match response with
      | none => some (s.fail call ⟨remoteAddr, none, .exchanging localNics⟩ localNics)
      | some remoteNics =>
        some (s.complete qpsPerPeer call ⟨remoteAddr, none, .exchanging localNics⟩ localNics
          remoteNics)
    | _ => none
  | .complete call =>
    match s.calls.lookup call with
    | some ⟨remoteAddr, some clientMeta, .exchanging localNics⟩ =>
      some (s.complete qpsPerPeer call ⟨remoteAddr, some clientMeta, .exchanging localNics⟩
        localNics clientMeta)
    | _ => none
  | .connectFails call =>
    match s.calls.lookup call with
    | some ⟨remoteAddr, clientMeta, .popped localNics remoteNics⟩ =>
      some (s.fail call ⟨remoteAddr, clientMeta, .popped localNics remoteNics⟩ localNics)
    | _ => none
  | .store call =>
    match s.calls.lookup call with
    | some ⟨remoteAddr, clientMeta, .popped localNics remoteNics⟩ =>
      some (s.store call ⟨remoteAddr, clientMeta, .popped localNics remoteNics⟩ localNics
        remoteNics)
    | _ => none
  | .abort call =>
    match s.calls.lookup call with
    | some ⟨remoteAddr, _, .aborting localNics⟩ =>
      some
        (((s.stopConnecting remoteAddr).setNics
          (RcBackend.dropPending s.backend.nics (RcBackend.sessionList localNics))).endCall
            call)
    | _ => none
  | .invalidateConnection remoteAddr =>
    some { s with backend := s.backend.invalidateConnection remoteAddr }
  | .transfer remoteAddr descs =>
    some { s with backend := s.backend.afterTransfer remoteAddr descs }
  | .registerMemory ptr len mrs =>
    if len ≠ 0 then
      some
        { s with
          backend :=
            { s.backend with registered := s.backend.registered.insert ptr ⟨ptr, len, mrs⟩ } }
    else none
  | .unregisterMemory ptr =>
    some
      { s with
        backend := { s.backend with registered := s.backend.registered.erase ptr } }

/-! ## What a step does -/

/-- The event completes the call with the peer's metadata: those a client call got as the answer, or
those a server call has. -/
def Completes (ev : RdmaEvent n) (call : Nat) (c : HandshakeCall n)
    (remoteNics : List NicHandshake) : Prop :=
  c.clientMeta = none ∧ ev = .exchange call (some remoteNics) ∨
    c.clientMeta = some remoteNics ∧ ev = .complete call

/-- The cases of a step. -/
inductive Step (qpsPerPeer : Nat) (s : RdmaNode n) : RdmaEvent n → RdmaNode n → Prop where
  | ensureConnected {call : Nat} {remoteAddr : String} (hfresh : s.calls.lookup call = none) :
      Step qpsPerPeer s (.ensureConnected call remoteAddr)
        { s with calls := s.calls.insert call ⟨remoteAddr, none, .started⟩ }
  | acceptHandshake {call : Nat} {remoteAddr : String} (clientMeta : List NicHandshake)
      (hfresh : s.calls.lookup call = none) :
      Step qpsPerPeer s (.acceptHandshake call remoteAddr clientMeta)
        { s with calls := s.calls.insert call ⟨remoteAddr, some clientMeta, .started⟩ }
  | invalidate {call : Nat} {c : HandshakeCall n} (hcall : s.calls.lookup call = some c)
      (hstage : c.stage = .started) :
      Step qpsPerPeer s (.invalidate call)
        (setStage { s with backend := s.backend.invalidateConnection c.remoteAddr } call c
          .invalidated)
  | existing {call : Nat} {c : HandshakeCall n} (hcall : s.calls.lookup call = some c)
      (hstage : c.stage = .started ∨ c.stage = .invalidated)
      (hexisting : (s.backend.addrConnections.lookup c.remoteAddr).isSome) :
      Step qpsPerPeer s (.getOrPrepare call)
        { s.endCall call with panicked := s.panicked || c.clientMeta.isSome }
  | alreadyConnecting {call : Nat} {c : HandshakeCall n} (hcall : s.calls.lookup call = some c)
      (hstage : c.stage = .started ∨ c.stage = .invalidated) :
      Step qpsPerPeer s (.getOrPrepare call) (s.endCall call)
  | prepare {call : Nat} {c : HandshakeCall n} (hcall : s.calls.lookup call = some c)
      (hstage : c.stage = .started ∨ c.stage = .invalidated)
      (habsent : s.backend.addrConnections.lookup c.remoteAddr = none)
      (hidle : c.remoteAddr ∉ s.backend.connecting) :
      Step qpsPerPeer s (.getOrPrepare call)
        (setStage
          { s with
            backend := { s.backend with connecting := c.remoteAddr :: s.backend.connecting } }
          call c .preparing)
  | createFails {call : Nat} {c : HandshakeCall n} (hcall : s.calls.lookup call = some c)
      (hstage : c.stage = .preparing) :
      Step qpsPerPeer s (.createQps call none) ((s.stopConnecting c.remoteAddr).endCall call)
  | createQps {call : Nat} {c : HandshakeCall n} {endpoints : Fin n → List RcEndpoint}
      (hcall : s.calls.lookup call = some c) (hstage : c.stage = .preparing)
      (hfresh : s.FreshQps qpsPerPeer endpoints) :
      Step qpsPerPeer s (.createQps call (some endpoints))
        (setStage
          { s with
            backend := s.backend.addPending c.remoteAddr endpoints
            usedQpns := fun i => (endpoints i).map RcEndpoint.qpNum ++ s.usedQpns i }
          call c (.exchanging fun i => ⟨endpoints i, s.backend.snapshotRegisteredMemory i⟩))
  | exchangeFails {call : Nat} {c : HandshakeCall n} {localNics : Fin n → NicHandshake}
      (hcall : s.calls.lookup call = some c) (hstage : c.stage = .exchanging localNics)
      (hclient : c.clientMeta = none) :
      Step qpsPerPeer s (.exchange call none) (s.fail call c localNics)
  | checkFails {ev : RdmaEvent n} {call : Nat} {c : HandshakeCall n}
      {localNics : Fin n → NicHandshake} {remoteNics : List NicHandshake} {e : TransferError}
      (hcall : s.calls.lookup call = some c) (hstage : c.stage = .exchanging localNics)
      (hev : Completes ev call c remoteNics)
      (hcheck : (RcBackend.checkRemoteNics qpsPerPeer remoteNics :
        Except TransferError (Fin n → NicHandshake)) = .error e) :
      Step qpsPerPeer s ev (s.fail call c localNics)
  | won {ev : RdmaEvent n} {call : Nat} {c : HandshakeCall n} {localNics : Fin n → NicHandshake}
      (hcall : s.calls.lookup call = some c) (hstage : c.stage = .exchanging localNics)
      (hexisting : (s.backend.addrConnections.lookup c.remoteAddr).isSome) :
      Step qpsPerPeer s ev
        { s with
          backend :=
            { s.backend with
              nics := RcBackend.dropPending s.backend.nics (RcBackend.sessionList localNics)
              connecting := s.backend.connecting.filter (· ≠ c.remoteAddr) }
          calls := s.calls.erase call }
  | popFails {ev : RdmaEvent n} {call : Nat} {c : HandshakeCall n}
      {localNics : Fin n → NicHandshake} {nics : Fin n → PerNicState}
      (hcall : s.calls.lookup call = some c) (hstage : c.stage = .exchanging localNics)
      (hpop : RcBackend.popPending s.backend.nics (RcBackend.sessionList localNics) =
        (nics, false)) :
      Step qpsPerPeer s ev ((s.setNics nics).fail call c localNics)
  | popped {ev : RdmaEvent n} {call : Nat} {c : HandshakeCall n}
      {localNics remoteNics : Fin n → NicHandshake} {metadata : List NicHandshake}
      {nics : Fin n → PerNicState} (hcall : s.calls.lookup call = some c)
      (hstage : c.stage = .exchanging localNics)
      (hcheck : RcBackend.checkRemoteNics qpsPerPeer metadata = .ok remoteNics)
      (hpop : RcBackend.popPending s.backend.nics (RcBackend.sessionList localNics) =
        (nics, true)) :
      Step qpsPerPeer s ev ((s.setNics nics).setStage call c (.popped localNics remoteNics))
  | connectFails {call : Nat} {c : HandshakeCall n} {localNics remoteNics : Fin n → NicHandshake}
      (hcall : s.calls.lookup call = some c) (hstage : c.stage = .popped localNics remoteNics) :
      Step qpsPerPeer s (.connectFails call) (s.fail call c localNics)
  | storeFails {call : Nat} {c : HandshakeCall n} {localNics remoteNics : Fin n → NicHandshake}
      {nics : Fin n → PerNicState} {e : TransferError} (hcall : s.calls.lookup call = some c)
      (hstage : c.stage = .popped localNics remoteNics)
      (hstore : RcBackend.storeNics localNics remoteNics s.backend.nics (List.finRange n) =
        (nics, some e)) :
      Step qpsPerPeer s (.store call) ((s.setNics nics).fail call c localNics)
  | store {call : Nat} {c : HandshakeCall n} {localNics remoteNics : Fin n → NicHandshake}
      {nics : Fin n → PerNicState} (hcall : s.calls.lookup call = some c)
      (hstage : c.stage = .popped localNics remoteNics)
      (hstore : RcBackend.storeNics localNics remoteNics s.backend.nics (List.finRange n) =
        (nics, none)) :
      Step qpsPerPeer s (.store call) (s.stored call c localNics remoteNics nics)
  | abort {call : Nat} {c : HandshakeCall n} {localNics : Fin n → NicHandshake}
      (hcall : s.calls.lookup call = some c) (hstage : c.stage = .aborting localNics) :
      Step qpsPerPeer s (.abort call)
        (((s.stopConnecting c.remoteAddr).setNics
          (RcBackend.dropPending s.backend.nics (RcBackend.sessionList localNics))).endCall call)
  | invalidateConnection (remoteAddr : String) :
      Step qpsPerPeer s (.invalidateConnection remoteAddr)
        { s with backend := s.backend.invalidateConnection remoteAddr }
  | transfer (remoteAddr : String) (descs : List (TransferDesc × NumaNode)) :
      Step qpsPerPeer s (.transfer remoteAddr descs)
        { s with backend := s.backend.afterTransfer remoteAddr descs }
  | memory (ev : RdmaEvent n) (registered : Table Nat (RegisteredMemoryEntry n)) :
      Step qpsPerPeer s ev { s with backend := { s.backend with registered } }

variable {qpsPerPeer : Nat} {s s' : RdmaNode n} {ev : RdmaEvent n}

variable {call : Nat} {c : HandshakeCall n}

section

variable (hcall : s.calls.lookup call = some c)
include hcall

theorem getOrPrepare_step (hst : c.stage = .started ∨ c.stage = .invalidated) :
    Step qpsPerPeer s (.getOrPrepare call) (s.getOrPrepare call c) := by
  unfold getOrPrepare
  split
  next hexg => exact .existing hcall hst hexg
  next habs =>
    rw [not_isSome_iff_eq_none] at habs
    split
    · exact .alreadyConnecting hcall hst
    next hid => exact .prepare hcall hst habs hid

variable {localNics : Fin n → NicHandshake}

theorem complete_step {remoteNics : List NicHandshake} (hst : c.stage = .exchanging localNics)
    (hev : Completes ev call c remoteNics) :
    Step qpsPerPeer s ev (s.complete qpsPerPeer call c localNics remoteNics) := by
  unfold complete
  split
  next hchk => exact .checkFails hcall hst hev hchk
  next hchk =>
    split
    next hexg => exact .won hcall hst hexg
    · split
      next hpop => exact .popFails hcall hst hpop
      next hpop => exact .popped hcall hst hchk hpop

theorem store_step {remoteNics : Fin n → NicHandshake}
    (hst : c.stage = .popped localNics remoteNics) :
    Step qpsPerPeer s (.store call) (s.store call c localNics remoteNics) := by
  unfold store
  split
  next hsto => exact .storeFails hcall hst hsto
  next hsto => exact .store hcall hst hsto

end

theorem step_cases (h : s.step qpsPerPeer ev = some s') : Step qpsPerPeer s ev s' := by
  cases ev with dsimp only [step] at h
  | ensureConnected call remoteAddr =>
    obtain ⟨hguard, rfl⟩ := guarded_eq_some.mp h
    exact .ensureConnected hguard.1
  | acceptHandshake call remoteAddr clientMeta =>
    obtain ⟨hfr, rfl⟩ := guarded_eq_some.mp h
    exact .acceptHandshake clientMeta hfr
  | invalidate call =>
    split at h
    next hcall =>
      cases h
      exact .invalidate hcall rfl
    · cases h
  | getOrPrepare call =>
    split at h
    next hcall =>
      cases h
      exact getOrPrepare_step hcall (Or.inl rfl)
    next hcall =>
      cases h
      exact getOrPrepare_step hcall (Or.inr rfl)
    · cases h
  | createQps call endpoints =>
    split at h
    next hcall =>
      split at h
      · cases h
        exact .createFails hcall rfl
      · obtain ⟨hfr, rfl⟩ := guarded_eq_some.mp h
        exact .createQps hcall rfl hfr
    · cases h
  | exchange call response =>
    split at h
    next hcall =>
      split at h
      · cases h
        exact .exchangeFails hcall rfl rfl
      · cases h
        exact complete_step hcall rfl (Or.inl ⟨rfl, rfl⟩)
    · cases h
  | complete call =>
    split at h
    next hcall =>
      cases h
      exact complete_step hcall rfl (Or.inr ⟨rfl, rfl⟩)
    · cases h
  | connectFails call =>
    split at h
    next hcall =>
      cases h
      exact .connectFails hcall rfl
    · cases h
  | store call =>
    split at h
    next hcall =>
      cases h
      exact store_step hcall rfl
    · cases h
  | abort call =>
    split at h
    next hcall =>
      cases h
      exact .abort hcall rfl
    · cases h
  | invalidateConnection remoteAddr =>
    cases h
    exact .invalidateConnection remoteAddr
  | transfer remoteAddr descs =>
    cases h
    exact .transfer remoteAddr descs
  | registerMemory ptr len mrs =>
    obtain ⟨-, rfl⟩ := guarded_eq_some.mp h
    exact .memory _ _
  | unregisterMemory ptr =>
    cases h
    exact .memory _ _

/-! ## One handshake at a time for an address -/

end RdmaNode

/-- The address is in the connecting set on behalf of the call. -/
def CallStage.Connecting {n : Nat} : CallStage n → Prop
  | .started | .invalidated => False
  | .preparing | .exchanging _ | .popped _ _ | .aborting _ => True

namespace RdmaNode

variable {n qpsPerPeer : Nat} {s s' : RdmaNode n} {ev : RdmaEvent n}

/-- At most one call connects an address, and the address is not connected meanwhile. -/
structure Exclusive (s : RdmaNode n) : Prop where
  connecting : ∀ call c, s.calls.lookup call = some c → c.stage.Connecting →
    c.remoteAddr ∈ s.backend.connecting
  unique : ∀ call call' c c', s.calls.lookup call = some c → s.calls.lookup call' = some c' →
    c.stage.Connecting → c'.stage.Connecting → c.remoteAddr = c'.remoteAddr → call = call'
  absent : ∀ call c, s.calls.lookup call = some c → c.stage.Connecting →
    s.backend.addrConnections.lookup c.remoteAddr = none

section fail

variable {call k : Nat} {c c' : HandshakeCall n} {localNics : Fin n → NicHandshake}

@[simp] theorem fail_backend : (s.fail call c localNics).backend = s.backend := by
  unfold fail
  split <;> rfl

theorem lookup_of_fail (h : (s.fail call c localNics).calls.lookup k = some c') :
    k = call ∧ c' = { c with stage := .aborting localNics } ∧ c.clientMeta = none ∨
      k ≠ call ∧ s.calls.lookup k = some c' := by
  unfold fail at h
  split at h
  next hcli =>
    rcases lookup_of_insert h with ⟨rfl, rfl⟩ | ⟨hne, h⟩
    · exact Or.inl ⟨rfl, rfl, hcli⟩
    · exact Or.inr ⟨hne, h⟩
  · exact Or.inr (lookup_of_erase h)

end fail

/-- A call that connects an address did so before the step, or the step has it prepare. -/
theorem connecting_of_step {k : Nat} {c' : HandshakeCall n} (h : Step qpsPerPeer s ev s')
    (hk : s'.calls.lookup k = some c') (hst' : c'.stage.Connecting) :
    (∃ c, s.calls.lookup k = some c ∧ c.stage.Connecting ∧ c.remoteAddr = c'.remoteAddr) ∨
      ev = .getOrPrepare k ∧ c'.remoteAddr ∉ s.backend.connecting ∧
        s.backend.addrConnections.lookup c'.remoteAddr = none ∧
        s'.backend.connecting = c'.remoteAddr :: s.backend.connecting ∧
        s'.backend.addrConnections = s.backend.addrConnections := by
  cases h with
  | ensureConnected | acceptHandshake | invalidate =>
    rcases lookup_of_insert hk with ⟨-, rfl⟩ | ⟨-, hk⟩
    · cases hst'
    · exact Or.inl ⟨c', hk, hst', rfl⟩
  | prepare hcall hst habs hid =>
    rcases lookup_of_insert hk with ⟨rfl, rfl⟩ | ⟨-, hk⟩
    · exact Or.inr ⟨rfl, hid, habs, rfl, rfl⟩
    · exact Or.inl ⟨c', hk, hst', rfl⟩
  | createQps hcall hst | popped hcall hst =>
    rcases lookup_of_insert hk with ⟨rfl, rfl⟩ | ⟨-, hk⟩
    · exact Or.inl ⟨_, hcall, hst ▸ trivial, rfl⟩
    · exact Or.inl ⟨c', hk, hst', rfl⟩
  | exchangeFails hcall hst | checkFails hcall hst | popFails hcall hst
  | connectFails hcall hst | storeFails hcall hst =>
    rcases lookup_of_fail hk with ⟨rfl, rfl, -⟩ | ⟨-, hk⟩
    · exact Or.inl ⟨_, hcall, hst ▸ trivial, rfl⟩
    · exact Or.inl ⟨c', hk, hst', rfl⟩
  | existing | alreadyConnecting | createFails | won | store | abort =>
    exact Or.inl ⟨c', (lookup_of_erase hk).2, hst', rfl⟩
  | _ => exact Or.inl ⟨c', hk, hst', rfl⟩

/-- Only the call that connects the address takes it out of the connecting set. -/
theorem Exclusive.connecting_kept {k : Nat} {c c' : HandshakeCall n} (hx : s.Exclusive)
    (h : Step qpsPerPeer s ev s') (hk : s.calls.lookup k = some c) (hst : c.stage.Connecting)
    (hk' : s'.calls.lookup k = some c') : c.remoteAddr ∈ s'.backend.connecting := by
  have hm := hx.connecting k c hk hst
  have hoth : ∀ {call : Nat} {c₀ : HandshakeCall n}, s.calls.lookup call = some c₀ →
      c₀.stage.Connecting → (s.calls.erase call).lookup k = some c' →
        c.remoteAddr ∈ s.backend.connecting.filter (· ≠ c₀.remoteAddr) := by
    intro call c₀ hcall hst₀ herase
    refine mem_filter.mpr ⟨hm, decide_eq_true fun heq => ?_⟩
    exact (lookup_of_erase herase).1 (hx.unique k call c c₀ hk hcall hst hst₀ heq)
  cases h with
  | prepare => exact mem_cons_of_mem _ hm
  | createFails hcall hst₀ | won hcall hst₀ | store hcall hst₀ | abort hcall hst₀ =>
    exact hoth hcall (hst₀ ▸ trivial) hk'
  | exchangeFails | checkFails | popFails | connectFails | storeFails =>
    rw [fail_backend]
    exact hm
  | invalidate | invalidateConnection =>
    exact (congrArg (c.remoteAddr ∈ ·) RcBackend.invalidateConnection_connecting).mpr hm
  | transfer => rwa [RcBackend.afterTransfer_connecting]
  | _ => exact hm

variable {b : RcBackend n} {remoteAddr a : String} {conn : AddrConnection n}

theorem lookup_invalidateConnection
    (h : (b.invalidateConnection remoteAddr).addrConnections.lookup a = some conn) :
    a ≠ remoteAddr ∧ b.addrConnections.lookup a = some conn := by
  unfold RcBackend.invalidateConnection at h
  split at h
  next hn =>
    refine ⟨?_, h⟩
    rintro rfl
    rw [hn] at h
    cases h
  · exact lookup_of_erase h

/-- A transfer changes counters only. -/
theorem lookup_afterTransfer {descs : List (TransferDesc × NumaNode)}
    (h : (b.afterTransfer remoteAddr descs).addrConnections.lookup a = some conn) :
    ∃ conn₀, b.addrConnections.lookup a = some conn₀ ∧
      conn.remoteFirstQpns = conn₀.remoteFirstQpns ∧ conn.remoteNics = conn₀.remoteNics := by
  unfold RcBackend.afterTransfer at h
  dsimp only at h
  split at h
  · exact ⟨conn, h, rfl, rfl⟩
  next conn₀ hcn₀ =>
    rcases lookup_of_insert h with ⟨rfl, rfl⟩ | ⟨-, h⟩
    · exact ⟨conn₀, hcn₀, rfl, rfl⟩
    · exact ⟨conn, h, rfl, rfl⟩

/-- What a connection goes by is that of an older one of the same address, or the step stores it. -/
theorem connected_of_step (h : Step qpsPerPeer s ev s')
    (hcn : s'.backend.addrConnections.lookup a = some conn) :
    (∃ conn₀, s.backend.addrConnections.lookup a = some conn₀ ∧
      conn.remoteFirstQpns = conn₀.remoteFirstQpns) ∨
      ∃ call c localNics remoteNics, ev = .store call ∧ s.calls.lookup call = some c ∧
        c.stage = .popped localNics remoteNics ∧ c.remoteAddr = a ∧
        s'.calls = s.calls.erase call ∧
        conn.remoteFirstQpns = fun i => (remoteNics i).firstQpn := by
  cases h with
  | invalidate | invalidateConnection =>
    exact Or.inl ⟨conn, (lookup_invalidateConnection hcn).2, rfl⟩
  | transfer =>
    obtain ⟨conn₀, hcn₀, hq, -⟩ := lookup_afterTransfer hcn
    exact Or.inl ⟨conn₀, hcn₀, hq⟩
  | store hcall hst =>
    rcases lookup_of_insert hcn with ⟨rfl, rfl⟩ | ⟨-, hcn⟩
    · exact Or.inr ⟨_, _, _, _, rfl, hcall, hst, rfl, rfl, rfl⟩
    · exact Or.inl ⟨conn, hcn, rfl⟩
  | exchangeFails | checkFails | popFails | connectFails | storeFails =>
    rw [fail_backend] at hcn
    exact Or.inl ⟨conn, hcn, rfl⟩
  | _ => exact Or.inl ⟨conn, hcn, rfl⟩

theorem Exclusive.absent_kept {k : Nat} {c c' : HandshakeCall n} (hx : s.Exclusive)
    (h : Step qpsPerPeer s ev s') (hk : s.calls.lookup k = some c) (hst : c.stage.Connecting)
    (hk' : s'.calls.lookup k = some c') :
    s'.backend.addrConnections.lookup c.remoteAddr = none := by
  rw [eq_none_iff_forall_ne_some]
  intro conn hcn
  rcases connected_of_step h hcn with
    ⟨conn₀, hcn₀, -⟩ | ⟨call, c₀, _, _, -, hcall, hst₀, ha, hcs, -⟩
  · rw [hx.absent k c hk hst] at hcn₀
    cases hcn₀
  · rw [hcs] at hk'
    exact (lookup_of_erase hk').1 (hx.unique k call c c₀ hk hcall hst (hst₀ ▸ trivial) ha.symm)

theorem Exclusive.step (hx : s.Exclusive) (h : Step qpsPerPeer s ev s') : s'.Exclusive := by
  refine ⟨?_, ?_, ?_⟩
  · intro k c' hk' hst'
    rcases connecting_of_step h hk' hst' with ⟨c, hk, hst, ha⟩ | ⟨-, -, -, hcg, -⟩
    · rw [← ha]
      exact hx.connecting_kept h hk hst hk'
    · rw [hcg]
      exact mem_cons_self
  · intro k k' c c' hk hk' hst hst' ha
    rcases connecting_of_step h hk hst with ⟨c₀, hk₀, hst₀, ha₀⟩ | ⟨hev, hid, -⟩
    · rcases connecting_of_step h hk' hst' with ⟨c₁, hk₁, hst₁, ha₁⟩ | ⟨-, hid, -⟩
      · exact hx.unique k k' c₀ c₁ hk₀ hk₁ hst₀ hst₁ (ha₀.trans (ha.trans ha₁.symm))
      · refine absurd ?_ hid
        rw [← ha, ← ha₀]
        exact hx.connecting k c₀ hk₀ hst₀
    · rcases connecting_of_step h hk' hst' with ⟨c₁, hk₁, hst₁, ha₁⟩ | ⟨hev', -⟩
      · refine absurd ?_ hid
        rw [ha, ← ha₁]
        exact hx.connecting k' c₁ hk₁ hst₁
      · cases hev.symm.trans hev'
        rfl
  · intro k c' hk' hst'
    rcases connecting_of_step h hk' hst' with ⟨c, hk, hst, ha⟩ | ⟨-, -, habs, -, hsm⟩
    · rw [← ha]
      exact hx.absent_kept h hk hst hk'
    · rw [hsm]
      exact habs

theorem new_exclusive (numaRr : NumaRoundRobin n) : (new numaRr).Exclusive := ⟨nofun, nofun, nofun⟩

/-- One NIC. -/
def oneNic : NumaRoundRobin 1 := ⟨∅, ⟨[0], by decide, 0⟩, true⟩

/-- At any time at most one call connects an address, and then the address has no connection. -/
theorem handshakes_exclusive {numaRr : NumaRoundRobin n} {events : List (RdmaEvent n)}
    (hrun : Run.exec (step qpsPerPeer) (new numaRr) events = some s) : s.Exclusive :=
  exec_invariant (I := Exclusive) (fun _ _ _ hx h => hx.step (step_cases h)) (new_exclusive numaRr)
    hrun

theorem handshakes_exclusive_two_calls :
    ∃ s ∈ Run.exec (step 1) (new oneNic)
      [.ensureConnected 0 "a", .acceptHandshake 1 "a" [], .invalidate 1, .getOrPrepare 0,
        .getOrPrepare 1],
      s.backend.connecting = ["a"] ∧ s.Exclusive := by
  refine exists_mem_of_eq rfl fun hrun => ?_
  exact ⟨rfl, handshakes_exclusive hrun⟩

end RdmaNode

end PegaFlow.Rdma
