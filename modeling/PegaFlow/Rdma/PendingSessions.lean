import PegaFlow.Rdma.Handshakes

/-!
# Calls that return leave nothing behind

While a call connects an address, the address is in the connecting set and the sessions made for it
wait in the pending queues.  A client call that fails aborts the handshake, which takes both back.
A server call does not: when the handshake that it was given is refused, or a queue pair cannot be
connected, or a region of memory is refused, it returns with the address still in the connecting
set, and later handshakes with the peer are turned away.  A server call also panics if a client call
for the same peer is stored after it has invalidated the older connection and before it prepares.

Apart from this (`Orderly`) no call panics and whatever stands in the connecting set or in a pending
queue belongs to a call that has not returned (`Settling`).  The assertions that an address is in
the connecting set hold because calls exclude each other (`Exclusive`), and the sessions that a call
takes from the queues are there because their numbers are not used twice.
-/

namespace PegaFlow.Rdma

open List Option AList Table Run

/-! ## The pending queues -/

def PendingSession.qpn (p : PendingSession) : Nat := p.localEndpoint.qpNum

theorem eraseP_eq_filter {α β : Type} [DecidableEq β] {f : α → β} {l : List α}
    (hnd : (l.map f).Nodup) (b : β) :
    l.eraseP (fun x => f x = b) = l.filter fun x => f x ≠ b := by
  induction l with
  | nil => rfl
  | cons x rest ih =>
    rw [map_cons, nodup_cons] at hnd
    by_cases hx : f x = b
    · rw [eraseP_cons_of_pos (by simpa using hx), filter_cons_of_neg (by simpa using hx)]
      refine (filter_eq_self.mpr fun y hy => decide_eq_true ?_).symm
      rintro rfl
      exact hnd.1 (hx ▸ mem_map_of_mem hy)
    · rw [eraseP_cons_of_neg (by simpa using hx), filter_cons_of_pos (by simpa using hx), ih hnd.2]

namespace RcBackend

variable {n : Nat} {nics : Fin n → PerNicState}

/-- The numbers in the pending queue of every NIC are distinct. -/
def DistinctPending (nics : Fin n → PerNicState) : Prop :=
  ∀ i, ((nics i).pending.map PendingSession.qpn).Nodup

/-- The NICs without the pending session of one number. -/
def dropOne (nics : Fin n → PerNicState) (s : Fin n × Nat) : Fin n → PerNicState :=
  Function.update nics s.1 (((nics s.1).removePendingByQpn s.2).getD (nics s.1))

variable {qpn : Nat}

theorem removePendingByQpn_pending {nic : PerNicState}
    (hnd : (nic.pending.map PendingSession.qpn).Nodup) :
    ((nic.removePendingByQpn qpn).getD nic).pending = nic.pending.filter (·.qpn ≠ qpn) := by
  unfold PerNicState.removePendingByQpn
  split
  · exact eraseP_eq_filter hnd qpn
  next habs =>
    refine (filter_eq_self.mpr fun p hp => decide_eq_true ?_).symm
    intro heq
    exact habs (any_eq_true.mpr ⟨p, hp, decide_eq_true heq⟩)

section

variable (hnd : DistinctPending nics)
include hnd

theorem dropOne_pending (s : Fin n × Nat) (i : Fin n) :
    (dropOne nics s i).pending = (nics i).pending.filter fun p => (i, p.qpn) ≠ s := by
  unfold dropOne
  by_cases hi : i = s.1
  · subst hi
    rw [Function.update_self, removePendingByQpn_pending (hnd _)]
    refine filter_congr fun p _ => decide_eq_decide.mpr (not_congr ?_)
    rw [Prod.ext_iff]
    exact (and_iff_right rfl).symm
  · rw [Function.update_of_ne hi]
    refine (filter_eq_self.mpr fun p _ => decide_eq_true ?_).symm
    rintro rfl
    exact hi rfl

variable {nics' : Fin n → PerNicState}

theorem DistinctPending.of_filter {keep : Fin n → PendingSession → Bool}
    (h : ∀ i, (nics' i).pending = (nics i).pending.filter (keep i)) : DistinctPending nics' := by
  intro i
  rw [h i]
  exact (hnd i).sublist (filter_sublist.map _)

/-- Dropping sessions leaves the other ones. -/
theorem dropPending_pending (sessions : List (Fin n × Nat)) (i : Fin n) :
    (dropPending nics sessions i).pending =
      (nics i).pending.filter fun p => (i, p.qpn) ∉ sessions := by
  induction sessions generalizing nics with
  | nil => exact (filter_eq_self.mpr fun p _ => decide_eq_true not_mem_nil).symm
  | cons s rest ih =>
    have hone := dropOne_pending hnd s
    refine (ih (hnd.of_filter hone)).trans ?_
    rw [hone, List.filter_filter]
    refine filter_congr fun p _ => ?_
    simp only [mem_cons, not_or, ne_eq, Bool.decide_and, Bool.and_comm]

/-- Sessions that are all in the queues are all taken. -/
theorem popPending_all {sessions : List (Fin n × Nat)} (hsess : sessions.Nodup)
    (hall : ∀ s ∈ sessions, ∃ p ∈ (nics s.1).pending, p.qpn = s.2) :
    popPending nics sessions = (dropPending nics sessions, true) := by
  induction sessions generalizing nics with
  | nil => rfl
  | cons s rest ih =>
    obtain ⟨hs, hr⟩ := nodup_cons.mp hsess
    obtain ⟨p, hp, hqpn⟩ := hall s mem_cons_self
    have hfd : (nics s.1).removePendingByQpn s.2 =
        some (((nics s.1).removePendingByQpn s.2).getD (nics s.1)) := by
      unfold PerNicState.removePendingByQpn
      rw [if_pos (any_eq_true.mpr ⟨p, hp, decide_eq_true hqpn⟩)]
      rfl
    have hone := dropOne_pending hnd s
    have hl : ∀ t ∈ rest, ∃ q ∈ (dropOne nics s t.1).pending, q.qpn = t.2 := by
      intro t ht
      obtain ⟨q, hq, hqpn'⟩ := hall t (mem_cons_of_mem _ ht)
      refine ⟨q, ?_, hqpn'⟩
      rw [hone]
      refine mem_filter.mpr ⟨hq, decide_eq_true ?_⟩
      rintro rfl
      rw [hqpn'] at hs
      exact hs ht
    unfold popPending
    rw [hfd]
    exact ih (hnd.of_filter hone) hr hl

end

variable {localNics : Fin n → NicHandshake}

theorem mem_sessionList {i : Fin n} :
    (i, qpn) ∈ sessionList localNics ↔ ∃ ep ∈ (localNics i).endpoints, ep.qpNum = qpn := by
  unfold sessionList
  rw [mem_flatMap]
  constructor
  · rintro ⟨j, -, hj⟩
    obtain ⟨ep, hep, heq⟩ := mem_map.mp hj
    cases heq
    exact ⟨ep, hep, rfl⟩
  · rintro ⟨ep, hep, rfl⟩
    exact ⟨i, mem_finRange i, mem_map_of_mem hep⟩

theorem nodup_sessionList (h : ∀ i, ((localNics i).endpoints.map RcEndpoint.qpNum).Nodup) :
    (sessionList localNics).Nodup := by
  refine nodup_flatMap.mpr ⟨?_, ?_⟩
  · intro i _
    have hpairs := (h i).map (f := fun qpn => (i, qpn)) fun _ _ heq => (Prod.mk.inj heq).2
    rwa [List.map_map] at hpairs
  · refine (nodup_finRange n).imp ?_
    intro i j hne s hs hs'
    obtain ⟨ep, -, rfl⟩ := mem_map.mp hs
    obtain ⟨ep', -, heq⟩ := mem_map.mp hs'
    exact hne (congrArg Prod.fst heq).symm

theorem storeNics_pending {remoteNics : Fin n → NicHandshake} {is : List (Fin n)}
    {result : Option TransferError} (h : storeNics localNics remoteNics nics is = (nics', result))
    (i : Fin n) : (nics' i).pending = (nics i).pending := by
  induction is generalizing nics with
  | nil =>
    cases h
    rfl
  | cons j rest ih =>
    unfold storeNics at h
    split at h
    · cases h
      rfl
    next nic hcached =>
      rw [ih h]
      obtain ⟨entries, -, rfl⟩ := Loop.map_eq_ok.mp hcached
      by_cases hij : i = j
      · subst hij
        rw [Function.update_self]
      · rw [Function.update_of_ne hij]

theorem invalidateConnection_pending (b : RcBackend n) (remoteAddr : String) (i : Fin n) :
    ((b.invalidateConnection remoteAddr).nics i).pending = (b.nics i).pending := by
  unfold invalidateConnection
  split <;> rfl

end RcBackend

/-! ## Calls and what they hold -/

namespace CallStage

variable {n : Nat}

/-- The queue pairs that the call has made. -/
def localNics? : CallStage n → Option (Fin n → NicHandshake)
  | .exchanging localNics | .popped localNics _ | .aborting localNics => some localNics
  | .started | .invalidated | .preparing => none

/-- The sessions of the call may be in the pending queues. -/
def Waits : CallStage n → Prop
  | .exchanging _ | .aborting _ => True
  | .started | .invalidated | .preparing | .popped _ _ => False

variable {stage : CallStage n}

theorem Waits.connecting (h : stage.Waits) : stage.Connecting := by
  cases stage with
  | exchanging | aborting => trivial
  | _ => cases h

theorem connecting_of_localNics {localNics : Fin n → NicHandshake}
    (h : stage.localNics? = some localNics) : stage.Connecting := by
  cases stage with
  | exchanging | aborting | popped => trivial
  | _ => cases h

end CallStage

namespace RdmaNode

open RcBackend

variable {n qpsPerPeer : Nat} {s s' : RdmaNode n} {ev : RdmaEvent n}

/-- Storing the handshake of a call is not refused. -/
def StoreSucceeds (s : RdmaNode n) : CallStage n → Prop
  | .popped localNics remoteNics =>
    (RcBackend.storeNics localNics remoteNics s.backend.nics (List.finRange n)).2.isNone
  | _ => True

instance : ∀ stage, Decidable (s.StoreSucceeds stage)
  | .popped _ _ => inferInstanceAs (Decidable (_ = true))
  | .started | .invalidated | .preparing | .exchanging _ | .aborting _ => isTrue trivial

/-- A server call that has prepared does not fail, and its peer is not connected when it comes to
prepare. -/
def Orderly (qpsPerPeer : Nat) (s : RdmaNode n) : RdmaEvent n → Prop
  | .getOrPrepare call =>
    ∀ c ∈ s.calls.lookup call, c.clientMeta.isSome →
      (s.backend.addrConnections.lookup c.remoteAddr).isNone
  | .complete call =>
    ∀ c ∈ s.calls.lookup call, ∀ clientMeta ∈ c.clientMeta,
      (RcBackend.checkRemoteNics qpsPerPeer clientMeta :
        Except TransferError (Fin n → NicHandshake)).isOk
  | .connectFails call => ∀ c ∈ s.calls.lookup call, c.clientMeta.isNone
  | .store call =>
    ∀ c ∈ s.calls.lookup call, c.clientMeta.isSome → s.StoreSucceeds c.stage
  | _ => True

instance : ∀ ev, Decidable (s.Orderly qpsPerPeer ev)
  | .getOrPrepare _ | .complete _ | .connectFails _ | .store _ =>
    inferInstanceAs (Decidable (∀ _ ∈ _, _))
  | .ensureConnected _ _ | .acceptHandshake _ _ _ | .invalidate _ | .createQps _ _ | .exchange _ _
  | .abort _ | .invalidateConnection _ | .transfer _ _ | .registerMemory _ _ _ | .unregisterMemory _ =>
    isTrue trivial

/-- Whatever is in the connecting set or in a pending queue belongs to a call. -/
structure Settling (s : RdmaNode n) : Prop where
  exclusive : s.Exclusive
  calm : s.panicked = false
  owner : ∀ a ∈ s.backend.connecting, ∃ call c, s.calls.lookup call = some c ∧
    c.stage.Connecting ∧ c.remoteAddr = a
  waits : ∀ i, ∀ p ∈ (s.backend.nics i).pending, ∃ call c localNics,
    s.calls.lookup call = some c ∧ c.stage.Waits ∧ c.stage.localNics? = some localNics ∧
      c.remoteAddr = p.remoteAddr ∧ p.localEndpoint ∈ (localNics i).endpoints
  present : ∀ call c localNics, s.calls.lookup call = some c → c.stage = .exchanging localNics →
    ∀ i, ∀ ep ∈ (localNics i).endpoints, ⟨ep, c.remoteAddr⟩ ∈ (s.backend.nics i).pending
  distinct : RcBackend.DistinctPending s.backend.nics
  made : ∀ call c localNics, s.calls.lookup call = some c → c.stage.localNics? = some localNics →
    ∀ i, ((localNics i).endpoints.map RcEndpoint.qpNum).Nodup ∧
      ∀ ep ∈ (localNics i).endpoints, ep.qpNum ∈ s.usedQpns i
  apart : ∀ call call' c c' localNics localNics', s.calls.lookup call = some c →
    s.calls.lookup call' = some c' → c.stage.localNics? = some localNics →
    c'.stage.localNics? = some localNics' → call ≠ call' → ∀ i, ∀ ep ∈ (localNics i).endpoints,
      ∀ ep' ∈ (localNics' i).endpoints, ep.qpNum ≠ ep'.qpNum

variable {call : Nat} {c : HandshakeCall n} {localNics : Fin n → NicHandshake}

variable {i : Fin n} {p : PendingSession}

section

variable (hs : s.Settling) (hcall : s.calls.lookup call = some c)
include hs hcall

/-- A pending session for the address of a call that connects it is one of the call's. -/
theorem Settling.waits_own (hst : c.stage.Connecting) (hp : p ∈ (s.backend.nics i).pending)
    (ha : p.remoteAddr = c.remoteAddr) :
    c.stage.Waits ∧ ∃ localNics, c.stage.localNics? = some localNics ∧
      p.localEndpoint ∈ (localNics i).endpoints := by
  obtain ⟨k, c', localNics, hk, hws, hloc, ha', hm⟩ := hs.waits i p hp
  obtain rfl := hs.exclusive.unique k call c' c hk hcall hws.connecting hst (ha'.trans ha)
  cases hk.symm.trans hcall
  exact ⟨hws, localNics, hloc, hm⟩

/-- The sessions of a call are dropped: those of its address. -/
theorem Settling.dropPending_pending (hloc : c.stage.localNics? = some localNics) (i : Fin n) :
    (dropPending s.backend.nics (sessionList localNics) i).pending =
      (s.backend.nics i).pending.filter (·.remoteAddr ≠ c.remoteAddr) := by
  rw [RcBackend.dropPending_pending hs.distinct]
  refine filter_congr fun p hp => decide_eq_decide.mpr (not_congr ?_)
  rw [mem_sessionList]
  constructor
  · rintro ⟨ep, hep, hqpn⟩
    obtain ⟨k, c', localNics', hk, -, hloc', ha, hm⟩ := hs.waits i p hp
    by_cases hne : k = call
    · subst hne
      cases hk.symm.trans hcall
      exact ha.symm
    · exact absurd hqpn.symm (hs.apart k call c' c localNics' localNics hk hcall hloc' hloc hne
        i p.localEndpoint hm ep hep)
  · intro ha
    obtain ⟨-, localNics', hloc', hm⟩ :=
      hs.waits_own hcall (CallStage.connecting_of_localNics hloc) hp ha
    cases hloc.symm.trans hloc'
    exact ⟨p.localEndpoint, hm, rfl⟩

/-- A call that has no sessions in the queues. -/
theorem Settling.pending_of_not_waits (hst : c.stage.Connecting) (hws : ¬ c.stage.Waits)
    (i : Fin n) :
    (s.backend.nics i).pending =
      (s.backend.nics i).pending.filter (·.remoteAddr ≠ c.remoteAddr) := by
  refine (filter_eq_self.mpr fun p hp => decide_eq_true ?_).symm
  intro ha
  exact hws (hs.waits_own hcall hst hp ha).1

theorem Settling.popPending (hst : c.stage = .exchanging localNics) :
    RcBackend.popPending s.backend.nics (sessionList localNics) =
      (dropPending s.backend.nics (sessionList localNics), true) := by
  have hloc : c.stage.localNics? = some localNics := hst ▸ rfl
  refine popPending_all hs.distinct
    (nodup_sessionList fun i => (hs.made call c localNics hcall hloc i).1) ?_
  rintro ⟨i, qpn⟩ hm
  obtain ⟨ep, hep, hqpn⟩ := mem_sessionList.mp hm
  exact ⟨⟨ep, c.remoteAddr⟩, hs.present call c localNics hcall hst i ep hep, hqpn⟩

end

/-! ## What an orderly step does -/

/-- The connecting set, the queues and the numbers in use stay as they are, and nothing panics. -/
structure Quiet (s s' : RdmaNode n) : Prop where
  connecting : s'.backend.connecting = s.backend.connecting
  pending : ∀ i, (s'.backend.nics i).pending = (s.backend.nics i).pending
  usedQpns : s'.usedQpns = s.usedQpns
  panicked : s'.panicked = s.panicked

/-- The sessions of the address leave the queues. -/
structure Leaves (s s' : RdmaNode n) (remoteAddr : String) : Prop where
  pending : ∀ i, (s'.backend.nics i).pending =
    (s.backend.nics i).pending.filter (·.remoteAddr ≠ remoteAddr)
  usedQpns : s'.usedQpns = s.usedQpns
  panicked : s'.panicked = s.panicked

/-- The cases of a step, as far as they concern what calls hold. -/
inductive Effect (qpsPerPeer : Nat) (s s' : RdmaNode n) : Prop where
  | quiet (hquiet : Quiet s s') (hcalls : s'.calls = s.calls)
  | early (call : Nat) (hquiet : Quiet s s')
      (hbefore : ∀ c, s.calls.lookup call = some c → ¬ c.stage.Connecting)
      (hafter : ∀ c, s'.calls.lookup call = some c → ¬ c.stage.Connecting)
      (hothers : ∀ k, k ≠ call → s'.calls.lookup k = s.calls.lookup k)
  | prepares (call : Nat) (c : HandshakeCall n) (hcall : s.calls.lookup call = some c)
      (hbefore : ¬ c.stage.Connecting)
      (hs' : s' = setStage
        { s with
          backend := { s.backend with connecting := c.remoteAddr :: s.backend.connecting } }
        call c .preparing)
  | creates (call : Nat) (c : HandshakeCall n) (endpoints : Fin n → List RcEndpoint)
      (localNics : Fin n → NicHandshake) (hcall : s.calls.lookup call = some c)
      (hstage : c.stage = .preparing) (hfresh : s.FreshQps qpsPerPeer endpoints)
      (hendpoints : ∀ i, (localNics i).endpoints = endpoints i)
      (hs' : s' = setStage
        { s with
          backend := s.backend.addPending c.remoteAddr endpoints
          usedQpns := fun i => (endpoints i).map RcEndpoint.qpNum ++ s.usedQpns i }
        call c (.exchanging localNics))
  | aborts (call : Nat) (c : HandshakeCall n) (localNics : Fin n → NicHandshake)
      (hcall : s.calls.lookup call = some c) (hlocal : c.stage.localNics? = some localNics)
      (hquiet : Quiet s s')
      (hcalls : s'.calls = s.calls.insert call { c with stage := .aborting localNics })
  | pops (call : Nat) (c : HandshakeCall n) (localNics remoteNics : Fin n → NicHandshake)
      (hcall : s.calls.lookup call = some c) (hlocal : c.stage.localNics? = some localNics)
      (hleaves : Leaves s s' c.remoteAddr)
      (hconnecting : s'.backend.connecting = s.backend.connecting)
      (hcalls : s'.calls = s.calls.insert call { c with stage := .popped localNics remoteNics })
  | ends (call : Nat) (c : HandshakeCall n) (hcall : s.calls.lookup call = some c)
      (hstage : c.stage.Connecting) (hleaves : Leaves s s' c.remoteAddr)
      (hconnecting : s'.backend.connecting = s.backend.connecting.filter (· ≠ c.remoteAddr))
      (hcalls : s'.calls = s.calls.erase call)

theorem fail_client (hcli : c.clientMeta = none) :
    s.fail call c localNics = s.setStage call c (.aborting localNics) := by
  unfold fail
  rw [hcli]

/-- The assertion on the connecting set holds for a call that connects. -/
theorem Settling.asserted (hs : s.Settling) (hcall : s.calls.lookup call = some c)
    (hst : c.stage.Connecting) :
    (s.panicked || decide (c.remoteAddr ∉ s.backend.connecting)) = s.panicked := by
  have hm := hs.exclusive.connecting call c hcall hst
  rw [decide_eq_false (not_not_intro hm), Bool.or_false]

theorem not_connecting_of_early {stage : CallStage n}
    (h : stage = .started ∨ stage = .invalidated) : ¬ stage.Connecting := by
  rcases h with rfl | rfl
  · exact id
  · exact id

section

variable (hs : s.Settling)
include hs

theorem Settling.effect (hord : s.Orderly qpsPerPeer ev) (h : Step qpsPerPeer s ev s') :
    Effect qpsPerPeer s s' := by
  have hearly : ∀ {call : Nat} {c : HandshakeCall n}, s.calls.lookup call = some c →
      ¬ c.stage.Connecting → ∀ c', s.calls.lookup call = some c' → ¬ c'.stage.Connecting := by
    intro call c hcall hst c' hc'
    cases hcall.symm.trans hc'
    exact hst
  cases h with
  | ensureConnected hfr | acceptHandshake clientMeta hfr =>
    refine .early _ ⟨rfl, fun _ => rfl, rfl, rfl⟩ ?_ ?_ fun k hne => lookup_insert_ne hne
    · intro c hcall
      cases hfr.symm.trans hcall
    · intro c hcall
      cases (lookup_insert _).symm.trans hcall
      exact id
  | invalidate hcall hst =>
    refine .early _ ⟨invalidateConnection_connecting, invalidateConnection_pending _ _, rfl, rfl⟩
      (hearly hcall (not_connecting_of_early (Or.inl hst))) ?_
      fun k hne => lookup_insert_ne hne
    intro c hcall
    cases (lookup_insert _).symm.trans hcall
    exact id
  | existing hcall hst hexg =>
    next call c =>
    have hcli : c.clientMeta.isSome = false := by
      by_contra hserver
      rw [Bool.not_eq_false] at hserver
      have habs := hord c hcall hserver
      rw [isNone_iff_eq_none] at habs
      rw [habs] at hexg
      cases hexg
    refine .early _ ⟨rfl, fun _ => rfl, rfl, ?_⟩
      (hearly hcall (not_connecting_of_early hst)) ?_ fun k hne => lookup_erase_ne hne
    · exact (congrArg (s.panicked || ·) hcli).trans (Bool.or_false _)
    · intro c hcall
      cases (lookup_erase _ _).symm.trans hcall
  | alreadyConnecting hcall hst =>
    refine .early _ ⟨rfl, fun _ => rfl, rfl, rfl⟩
      (hearly hcall (not_connecting_of_early hst)) ?_ fun k hne => lookup_erase_ne hne
    intro c hcall
    cases (lookup_erase _ _).symm.trans hcall
  | prepare hcall hst => exact .prepares _ _ hcall (not_connecting_of_early hst) rfl
  | createFails hcall hst =>
    next call c =>
    have hcg : c.stage.Connecting := hst ▸ trivial
    exact .ends _ _ hcall hcg ⟨hs.pending_of_not_waits hcall hcg (hst ▸ id), rfl,
        hs.asserted hcall hcg⟩ rfl rfl
  | createQps hcall hst hfr =>
    exact .creates _ _ _ _ hcall hst hfr (fun _ => rfl) rfl
  | exchangeFails hcall hst hcli =>
    rw [fail_client hcli]
    exact .aborts _ _ _ hcall (hst ▸ rfl) ⟨rfl, fun _ => rfl, rfl, rfl⟩ rfl
  | checkFails hcall hst hev hchk =>
    next call c localNics remoteNics e =>
    rcases hev with ⟨hcli, -⟩ | ⟨hserver, rfl⟩
    · rw [fail_client hcli]
      exact .aborts _ _ _ hcall (hst ▸ rfl) ⟨rfl, fun _ => rfl, rfl, rfl⟩ rfl
    · have hok := hord c hcall remoteNics hserver
      rw [hchk] at hok
      cases hok
  | won hcall hst hexg =>
    -- the address of a call that connects is not connected
    rw [hs.exclusive.absent _ _ hcall (hst ▸ trivial)] at hexg
    cases hexg
  | popFails hcall hst hpop => cases (hs.popPending hcall hst).symm.trans hpop
  | popped hcall hst hchk hpop =>
    next call c localNics remoteNics metadata nics =>
    cases (hs.popPending hcall hst).symm.trans hpop
    have hloc : c.stage.localNics? = some localNics := hst ▸ rfl
    exact .pops _ _ _ _ hcall hloc ⟨hs.dropPending_pending hcall hloc, rfl, rfl⟩ rfl rfl
  | connectFails hcall hst =>
    rw [fail_client (isNone_iff_eq_none.mp (hord _ hcall))]
    exact .aborts _ _ _ hcall (hst ▸ rfl) ⟨rfl, fun _ => rfl, rfl, rfl⟩ rfl
  | storeFails hcall hst hsto =>
    next call c localNics remoteNics nics e =>
    cases hserver : c.clientMeta with
    | none =>
      rw [fail_client hserver]
      exact .aborts _ _ _ hcall (hst ▸ rfl) ⟨rfl, storeNics_pending hsto, rfl, rfl⟩ rfl
    | some clientMeta =>
      have hok := hord c hcall (hserver ▸ rfl)
      rw [hst, StoreSucceeds, hsto] at hok
      cases hok
  | store hcall hst hsto =>
    next call c localNics remoteNics nics =>
    have hcg : c.stage.Connecting := hst ▸ trivial
    refine .ends _ _ hcall hcg ⟨fun i => ?_, rfl, hs.asserted hcall hcg⟩ rfl rfl
    exact (storeNics_pending hsto i).trans (hs.pending_of_not_waits hcall hcg (hst ▸ id) i)
  | abort hcall hst =>
    next call c localNics =>
    have hcg : c.stage.Connecting := hst ▸ trivial
    exact .ends _ _ hcall hcg
      ⟨hs.dropPending_pending hcall (hst ▸ rfl), rfl, hs.asserted hcall hcg⟩ rfl rfl
  | invalidateConnection remoteAddr =>
    exact .quiet ⟨invalidateConnection_connecting, invalidateConnection_pending _ _, rfl, rfl⟩ rfl
  | transfer remoteAddr descs =>
    refine .quiet ⟨afterTransfer_connecting, fun i => ?_, rfl, rfl⟩ rfl
    rw [afterTransfer_nics]
  | memory => exact .quiet ⟨rfl, fun _ => rfl, rfl, rfl⟩ rfl

/-! ## The invariant -/

variable {k : Nat} {c₀ : HandshakeCall n}

/-- A call that goes on to another stage still connects its address, as do the other ones. -/
theorem Settling.owner_insert (hcall : s.calls.lookup call = some c) {a : String}
    (ha : a ∈ s.backend.connecting) {stage : CallStage n} (hst : stage.Connecting) :
    ∃ k c', (s.calls.insert call { c with stage }).lookup k = some c' ∧ c'.stage.Connecting ∧
      c'.remoteAddr = a := by
  obtain ⟨k, c₀, hk, hst₀, had⟩ := hs.owner a ha
  by_cases hne : k = call
  · subst hne
    cases hk.symm.trans hcall
    exact ⟨k, _, lookup_insert _, hst, had⟩
  · exact ⟨k, c₀, (lookup_insert_ne hne).trans hk, hst₀, had⟩

theorem Settling.owner_step (he : Effect qpsPerPeer s s') :
    ∀ a ∈ s'.backend.connecting, ∃ call c, s'.calls.lookup call = some c ∧ c.stage.Connecting ∧
      c.remoteAddr = a := by
  intro a ha
  cases he with
  | quiet hqt hcs =>
    rw [hqt.connecting] at ha
    rw [hcs]
    exact hs.owner a ha
  | early call hqt hbef haft hoths =>
    rw [hqt.connecting] at ha
    obtain ⟨k, c, hk, hst, had⟩ := hs.owner a ha
    have hne : k ≠ call := by
      rintro rfl
      exact hbef c hk hst
    exact ⟨k, c, (hoths k hne).trans hk, hst, had⟩
  | prepares call c hcall hbef hs' =>
    subst hs'
    rcases mem_cons.mp ha with rfl | ha
    · exact ⟨call, _, lookup_insert _, trivial, rfl⟩
    · exact hs.owner_insert hcall ha trivial
  | creates call c endpoints localNics hcall hst hfr heps hs' =>
    subst hs'
    exact hs.owner_insert hcall ha trivial
  | aborts call c localNics hcall hloc hqt hcs =>
    rw [hqt.connecting] at ha
    rw [hcs]
    exact hs.owner_insert hcall ha trivial
  | pops call c localNics remoteNics hcall hloc hlv hcg hcs =>
    rw [hcg] at ha
    rw [hcs]
    exact hs.owner_insert hcall ha trivial
  | ends call c hcall hst hlv hcg hcs =>
    rw [hcg] at ha
    obtain ⟨ha, hne⟩ := mem_filter.mp ha
    obtain ⟨k, c₀, hk, hst₀, rfl⟩ := hs.owner a ha
    have hk' : k ≠ call := by
      rintro rfl
      cases hk.symm.trans hcall
      exact of_decide_eq_true hne rfl
    rw [hcs]
    exact ⟨k, c₀, (lookup_erase_ne hk').trans hk, hst₀, rfl⟩

/-- A session that is none of the call's stays with the call that it belongs to. -/
theorem Settling.waits_other (hp : p ∈ (s.backend.nics i).pending)
    (hcall : s.calls.lookup call = some c) (hnot : c.stage.Waits → p.remoteAddr ≠ c.remoteAddr)
    {calls : Table Nat (HandshakeCall n)}
    (hoths : ∀ k, k ≠ call → calls.lookup k = s.calls.lookup k) :
    ∃ k c' localNics, calls.lookup k = some c' ∧ c'.stage.Waits ∧
      c'.stage.localNics? = some localNics ∧ c'.remoteAddr = p.remoteAddr ∧
      p.localEndpoint ∈ (localNics i).endpoints := by
  obtain ⟨k, c', l, hk, hws, hl, ha, hm⟩ := hs.waits i p hp
  have hne : k ≠ call := by
    rintro rfl
    cases hk.symm.trans hcall
    exact hnot hws ha.symm
  exact ⟨k, c', l, (hoths k hne).trans hk, hws, hl, ha, hm⟩

theorem Settling.waits_step (he : Effect qpsPerPeer s s') :
    ∀ i, ∀ p ∈ (s'.backend.nics i).pending, ∃ call c localNics,
      s'.calls.lookup call = some c ∧ c.stage.Waits ∧ c.stage.localNics? = some localNics ∧
        c.remoteAddr = p.remoteAddr ∧ p.localEndpoint ∈ (localNics i).endpoints := by
  intro i p hp
  cases he with
  | quiet hqt hcs =>
    rw [hqt.pending] at hp
    rw [hcs]
    exact hs.waits i p hp
  | early call hqt hbef haft hoths =>
    rw [hqt.pending] at hp
    obtain ⟨k, c, l, hk, hws, hr⟩ := hs.waits i p hp
    have hne : k ≠ call := by
      rintro rfl
      exact hbef c hk hws.connecting
    exact ⟨k, c, l, (hoths k hne).trans hk, hws, hr⟩
  | prepares call c hcall hbef hs' =>
    subst hs'
    refine hs.waits_other hp hcall ?_ fun k hne => lookup_insert_ne hne
    exact fun hws => absurd hws.connecting hbef
  | creates call c endpoints localNics hcall hst hfr heps hs' =>
    subst hs'
    rcases mem_append.mp hp with hp | hp
    · refine hs.waits_other hp hcall ?_ fun k hne => lookup_insert_ne hne
      rw [hst]
      exact False.elim
    · obtain ⟨ep, hep, rfl⟩ := mem_map.mp hp
      exact ⟨call, _, localNics, lookup_insert _, trivial, rfl, rfl, (heps i).symm ▸ hep⟩
  | aborts call c localNics hcall hloc hqt hcs =>
    rw [hqt.pending] at hp
    obtain ⟨k, c₀, l, hk, hws, hl, ha, hm⟩ := hs.waits i p hp
    rw [hcs]
    by_cases hne : k = call
    · subst hne
      cases hk.symm.trans hcall
      cases hl.symm.trans hloc
      exact ⟨k, _, _, lookup_insert _, trivial, rfl, ha, hm⟩
    · exact ⟨k, c₀, l, (lookup_insert_ne hne).trans hk, hws, hl, ha, hm⟩
  | pops call c localNics remoteNics hcall hloc hlv hcg hcs =>
    rw [hlv.pending] at hp
    obtain ⟨hp, hoth⟩ := mem_filter.mp hp
    rw [hcs]
    refine hs.waits_other hp hcall ?_ fun k hne => lookup_insert_ne hne
    exact fun _ => of_decide_eq_true hoth
  | ends call c hcall hst hlv hcg hcs =>
    rw [hlv.pending] at hp
    obtain ⟨hp, hoth⟩ := mem_filter.mp hp
    rw [hcs]
    refine hs.waits_other hp hcall ?_ fun k hne => lookup_erase_ne hne
    exact fun _ => of_decide_eq_true hoth

/-- The sessions of a call stay in the queues when those of another call leave them. -/
theorem Settling.present_of_leaves (hcall : s.calls.lookup call = some c)
    (hst : c.stage.Connecting) (hlv : Leaves s s' c.remoteAddr) (hne : k ≠ call)
    (hk : s.calls.lookup k = some c₀) (hst₀ : c₀.stage = .exchanging localNics) (i : Fin n) :
    ∀ ep ∈ (localNics i).endpoints, ⟨ep, c₀.remoteAddr⟩ ∈ (s'.backend.nics i).pending := by
  intro ep hep
  rw [hlv.pending]
  refine mem_filter.mpr ⟨hs.present k c₀ localNics hk hst₀ i ep hep, decide_eq_true ?_⟩
  intro ha
  exact hne (hs.exclusive.unique k call c₀ c hk hcall (hst₀ ▸ trivial) hst ha)

theorem Settling.present_step (he : Effect qpsPerPeer s s') :
    ∀ call c localNics, s'.calls.lookup call = some c → c.stage = .exchanging localNics →
      ∀ i, ∀ ep ∈ (localNics i).endpoints, ⟨ep, c.remoteAddr⟩ ∈ (s'.backend.nics i).pending := by
  intro k c₀ l hk hst₀ i ep hep
  cases he with
  | quiet hqt hcs =>
    rw [hqt.pending]
    rw [hcs] at hk
    exact hs.present k c₀ l hk hst₀ i ep hep
  | early call hqt hbef haft hoths =>
    have hne : k ≠ call := by
      rintro rfl
      exact haft c₀ hk (hst₀ ▸ trivial)
    rw [hqt.pending]
    exact hs.present k c₀ l ((hoths k hne).symm.trans hk) hst₀ i ep hep
  | prepares call c hcall hbef hs' =>
    subst hs'
    rcases lookup_of_insert hk with ⟨-, rfl⟩ | ⟨-, hk⟩
    · cases hst₀
    · exact hs.present k c₀ l hk hst₀ i ep hep
  | creates call c endpoints localNics hcall hst hfr heps hs' =>
    subst hs'
    rcases lookup_of_insert hk with ⟨-, rfl⟩ | ⟨-, hk⟩
    · cases hst₀
      rw [heps] at hep
      exact mem_append_right _ (mem_map_of_mem hep)
    · exact mem_append_left _ (hs.present k c₀ l hk hst₀ i ep hep)
  | aborts call c localNics hcall hloc hqt hcs =>
    rw [hcs] at hk
    rw [hqt.pending]
    rcases lookup_of_insert hk with ⟨-, rfl⟩ | ⟨-, hk⟩
    · cases hst₀
    · exact hs.present k c₀ l hk hst₀ i ep hep
  | pops call c localNics remoteNics hcall hloc hlv hcg hcs =>
    rw [hcs] at hk
    rcases lookup_of_insert hk with ⟨-, rfl⟩ | ⟨hne, hk⟩
    · cases hst₀
    · exact hs.present_of_leaves hcall (CallStage.connecting_of_localNics hloc) hlv hne hk
        hst₀ i ep hep
  | ends call c hcall hst hlv hcg hcs =>
    rw [hcs] at hk
    obtain ⟨hne, hk⟩ := lookup_of_erase hk
    exact hs.present_of_leaves hcall hst hlv hne hk hst₀ i ep hep

/-- The numbers of pending sessions are in use. -/
theorem Settling.qpn_used (hp : p ∈ (s.backend.nics i).pending) : p.qpn ∈ s.usedQpns i := by
  obtain ⟨k, c, l, hk, -, hl, -, hm⟩ := hs.waits i p hp
  exact (hs.made k c l hk hl i).2 p.localEndpoint hm

theorem Settling.distinct_step (he : Effect qpsPerPeer s s') :
    RcBackend.DistinctPending s'.backend.nics := by
  intro i
  cases he with
  | quiet hqt | early call hqt | aborts call c localNics hcall hloc hqt =>
    rw [hqt.pending]
    exact hs.distinct i
  | prepares call c hcall hbef hs' =>
    subst hs'
    exact hs.distinct i
  | creates call c endpoints localNics hcall hst hfr heps hs' =>
    subst hs'
    obtain ⟨-, hnd, hnew⟩ := hfr i
    have hq : ((endpoints i).map fun ep => (⟨ep, c.remoteAddr⟩ : PendingSession)).map
        PendingSession.qpn = (endpoints i).map RcEndpoint.qpNum := by
      rw [List.map_map]
      rfl
    change (map PendingSession.qpn (_ ++ _)).Nodup
    rw [map_append, hq]
    refine (hs.distinct i).append hnd ?_
    intro qpn ho hnew'
    obtain ⟨p, hp, rfl⟩ := mem_map.mp ho
    obtain ⟨ep, hep, heq⟩ := mem_map.mp hnew'
    exact hnew ep hep (heq ▸ hs.qpn_used hp)
  | pops call c localNics remoteNics hcall hloc hlv | ends call c hcall hst hlv =>
    exact hs.distinct.of_filter hlv.pending i

end

/-- A call that has queue pairs had them before the step, or the step makes them. -/
theorem made_of_effect (he : Effect qpsPerPeer s s') {c' : HandshakeCall n}
    (hk : s'.calls.lookup k = some c') (hl : c'.stage.localNics? = some localNics) :
    (∃ c, s.calls.lookup k = some c ∧ c.stage.localNics? = some localNics) ∨
      s.FreshQps qpsPerPeer (fun i => (localNics i).endpoints) ∧
        (∀ i, ∀ ep ∈ (localNics i).endpoints, ep.qpNum ∈ s'.usedQpns i) ∧
        ∀ k', k' ≠ k → s'.calls.lookup k' = s.calls.lookup k' := by
  cases he with
  | quiet hqt hcs =>
    rw [hcs] at hk
    exact Or.inl ⟨c', hk, hl⟩
  | early call hqt hbef haft hoths =>
    have hne : k ≠ call := by
      rintro rfl
      exact haft c' hk (CallStage.connecting_of_localNics hl)
    exact Or.inl ⟨c', (hoths k hne).symm.trans hk, hl⟩
  | prepares call c hcall hbef hs' =>
    subst hs'
    rcases lookup_of_insert hk with ⟨-, rfl⟩ | ⟨-, hk⟩
    · cases hl
    · exact Or.inl ⟨c', hk, hl⟩
  | creates call c endpoints localNics' hcall hst hfr heps hs' =>
    subst hs'
    rcases lookup_of_insert hk with ⟨rfl, rfl⟩ | ⟨-, hk⟩
    · cases hl
      obtain rfl : (fun i => (localNics i).endpoints) = endpoints := funext heps
      refine Or.inr ⟨hfr, ?_, fun k' hne => lookup_insert_ne hne⟩
      intro i ep hep
      exact mem_append_left _ (mem_map_of_mem hep)
    · exact Or.inl ⟨c', hk, hl⟩
  | aborts call c localNics' hcall hloc hqt hcs
  | pops call c localNics' remoteNics hcall hloc hlv hcg hcs =>
    rw [hcs] at hk
    rcases lookup_of_insert hk with ⟨rfl, rfl⟩ | ⟨-, hk⟩
    · exact Or.inl ⟨c, hcall, hloc.trans hl⟩
    · exact Or.inl ⟨c', hk, hl⟩
  | ends call c hcall hst hlv hcg hcs =>
    rw [hcs] at hk
    exact Or.inl ⟨c', (lookup_of_erase hk).2, hl⟩

theorem usedQpns_of_effect (he : Effect qpsPerPeer s s') {qpn : Nat} (h : qpn ∈ s.usedQpns i) :
    qpn ∈ s'.usedQpns i := by
  cases he with
  | quiet hqt | early call hqt | aborts call c localNics hcall hloc hqt =>
    rw [hqt.usedQpns]
    exact h
  | prepares call c hcall hbef hs' =>
    subst hs'
    exact h
  | creates call c endpoints localNics hcall hst hfr heps hs' =>
    subst hs'
    exact mem_append_right _ h
  | pops call c localNics remoteNics hcall hloc hlv | ends call c hcall hst hlv =>
    rw [hlv.usedQpns]
    exact h

section

variable (hs : s.Settling) (he : Effect qpsPerPeer s s')
include hs he

theorem Settling.made_step :
    ∀ call c localNics, s'.calls.lookup call = some c → c.stage.localNics? = some localNics →
      ∀ i, ((localNics i).endpoints.map RcEndpoint.qpNum).Nodup ∧
        ∀ ep ∈ (localNics i).endpoints, ep.qpNum ∈ s'.usedQpns i := by
  intro k c' l hk hl i
  rcases made_of_effect he hk hl with ⟨c, hk, hl⟩ | ⟨hfr, hused, -⟩
  · obtain ⟨hnd, hused⟩ := hs.made k c l hk hl i
    exact ⟨hnd, fun ep hep => usedQpns_of_effect he (hused ep hep)⟩
  · exact ⟨(hfr i).2.1, hused i⟩

theorem Settling.apart_step :
    ∀ call call' c c' localNics localNics', s'.calls.lookup call = some c →
      s'.calls.lookup call' = some c' → c.stage.localNics? = some localNics →
      c'.stage.localNics? = some localNics' → call ≠ call' → ∀ i, ∀ ep ∈ (localNics i).endpoints,
        ∀ ep' ∈ (localNics' i).endpoints, ep.qpNum ≠ ep'.qpNum := by
  intro k k' c c' l l' hk hk' hl hl' hne i ep hep ep' hep' heq
  rcases made_of_effect he hk hl with ⟨c₀, hk₀, hl₀⟩ | ⟨hfr, -, hoths⟩
  · rcases made_of_effect he hk' hl' with ⟨c₁, hk₁, hl₁⟩ | ⟨hfr, -, -⟩
    · exact hs.apart k k' c₀ c₁ l l' hk₀ hk₁ hl₀ hl₁ hne i ep hep ep' hep' heq
    · exact (hfr i).2.2 ep' hep' (heq ▸ (hs.made k c₀ l hk₀ hl₀ i).2 ep hep)
  · rw [hoths k' (Ne.symm hne)] at hk'
    exact (hfr i).2.2 ep hep (heq ▸ (hs.made k' c' l' hk' hl' i).2 ep' hep')

theorem Settling.calm_step : s'.panicked = false := by
  cases he with
  | quiet hqt | early call hqt | aborts call c localNics hcall hloc hqt =>
    exact hqt.panicked.trans hs.calm
  | prepares call c hcall hbef hs'
  | creates call c endpoints localNics hcall hst hfr heps hs' =>
    subst hs'
    exact hs.calm
  | pops call c localNics remoteNics hcall hloc hlv => exact hlv.panicked.trans hs.calm
  | ends call c hcall hst hlv => exact hlv.panicked.trans hs.calm

end

theorem Settling.step (hs : s.Settling) (hord : s.Orderly qpsPerPeer ev)
    (h : Step qpsPerPeer s ev s') : s'.Settling :=
  have he := hs.effect hord h
  { exclusive := hs.exclusive.step h
    calm := hs.calm_step he
    owner := hs.owner_step he
    waits := hs.waits_step he
    present := hs.present_step he
    distinct := hs.distinct_step he
    made := hs.made_step he
    apart := hs.apart_step he }

theorem new_settling (numaRr : NumaRoundRobin n) : (new numaRr).Settling where
  exclusive := new_exclusive numaRr
  calm := rfl
  owner := nofun
  waits := nofun
  present := nofun
  distinct := fun _ => nodup_nil
  made := nofun
  apart := nofun

/-! ## Calls that have returned -/

/-- Nothing is left of the handshakes with the address. -/
def Settled (s : RdmaNode n) (remoteAddr : String) : Prop :=
  remoteAddr ∉ s.backend.connecting ∧
    ∀ i, ∀ p ∈ (s.backend.nics i).pending, p.remoteAddr ≠ remoteAddr

/-- All calls for the address have returned. -/
def Returned (s : RdmaNode n) (remoteAddr : String) : Prop :=
  ∀ call c, s.calls.lookup call = some c → c.remoteAddr ≠ remoteAddr

/-- In orderly runs no call panics, and addresses whose calls have returned are settled. -/
theorem handshakes_settle {numaRr : NumaRoundRobin n} {events : List (RdmaEvent n)}
    (hcond : Run.Meets (step qpsPerPeer) (Orderly qpsPerPeer) (new numaRr) events)
    (hrun : Run.exec (step qpsPerPeer) (new numaRr) events = some s) :
    s.panicked = false ∧ ∀ remoteAddr, s.Returned remoteAddr → s.Settled remoteAddr := by
  have hs : s.Settling :=
    exec_invariant_of_meets (I := Settling)
      (fun _ _ _ hs hev h => hs.step hev (step_cases h)) (new_settling numaRr) hcond hrun
  refine ⟨hs.calm, ?_⟩
  intro remoteAddr hreturned
  constructor
  · intro hmem
    obtain ⟨call, c, hcall, -, haddr⟩ := hs.owner remoteAddr hmem
    exact hreturned call c hcall haddr
  · intro i p hp haddr
    obtain ⟨call, c, -, hcall, -, -, haddr', -⟩ := hs.waits i p hp
    exact hreturned call c hcall (haddr'.trans haddr)

/-- What a peer with one queue pair sends. -/
def onePeer : List NicHandshake := [⟨[⟨1, 0, 7, 0⟩], [⟨4096, 4096, 11⟩]⟩]

/-- A server call that completes, and meanwhile a client call whose peer answers for no NIC. -/
theorem handshakes_settle_two_calls :
    ∃ s ∈ Run.exec (step 1) (new oneNic)
      [.acceptHandshake 0 "a" onePeer, .invalidate 0, .getOrPrepare 0,
        .createQps 0 (some fun _ => [⟨0, 0, 1, 0⟩]), .ensureConnected 1 "b", .getOrPrepare 1,
        .createQps 1 (some fun _ => [⟨0, 0, 2, 0⟩]), .complete 0, .exchange 1 (some []), .store 0,
        .abort 1],
      s.calls.entries = [] ∧ s.panicked = false ∧
        ∀ remoteAddr, s.Returned remoteAddr → s.Settled remoteAddr := by
  refine exists_mem_of_eq rfl fun hrun => ?_
  exact ⟨rfl, handshakes_settle (by decide +kernel) hrun⟩

/-- A server call whose peer sends no NICs returns, with the address in the connecting set and a
session in the queue.  A server call panics if a client call for the same address is stored between
its invalidation and its preparation. -/
theorem server_handshake_leaks_or_panics :
    (∃ s ∈ Run.exec (step 1) (new oneNic)
      [.acceptHandshake 0 "a" [], .invalidate 0, .getOrPrepare 0,
        .createQps 0 (some fun _ => [⟨0, 0, 1, 0⟩]), .complete 0],
      s.Returned "a" ∧ "a" ∈ s.backend.connecting ∧
        ⟨⟨0, 0, 1, 0⟩, "a"⟩ ∈ (s.backend.nics 0).pending) ∧
    ∃ s ∈ Run.exec (step 1) (new oneNic)
      [.ensureConnected 0 "a", .getOrPrepare 0, .createQps 0 (some fun _ => [⟨0, 0, 1, 0⟩]),
        .exchange 0 (some onePeer), .acceptHandshake 1 "a" onePeer, .invalidate 1, .store 0,
        .getOrPrepare 1],
      s.panicked = true := by
  refine ⟨⟨_, rfl, ?_, by decide +kernel, by decide +kernel⟩, _, rfl, rfl⟩
  intro call c h
  cases h

end RdmaNode

end PegaFlow.Rdma
