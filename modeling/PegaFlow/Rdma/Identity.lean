import PegaFlow.Rdma.Handshakes

/-!
# Connections and their tables

The tables of a NIC are shared by all peers, and a connection finds its sessions and its remote
memory in them under the number of the peer's first queue pair.  Peers choose these numbers
independently.  When two of them use the same number on a NIC, the later handshake replaces the
sessions and the memory of the earlier connection, and the invalidation of either connection removes
what the other one goes by.

If the numbers differ whenever a handshake is stored (`DistinctPeers`), every connection keeps its
own entries (`Serves`): a transfer finds sessions that are connected to the endpoints of its address
and keys from the handshake of its address, and connections are invalidated one by one.
-/

namespace PegaFlow.Rdma

open List AList Table Run Loop RcBackend

/-! ## Tables of the NICs -/

namespace RcBackend

variable {n : Nat} {nics nics' : Fin n → PerNicState}

/-- The tables of connected peers are the same; pending sessions may differ. -/
def SameTables (nics nics' : Fin n → PerNicState) : Prop :=
  ∀ i, (nics' i).sessions = (nics i).sessions ∧ (nics' i).remoteMemory = (nics i).remoteMemory

theorem SameTables.trans {nics'' : Fin n → PerNicState} (h : SameTables nics nics')
    (h' : SameTables nics' nics'') : SameTables nics nics'' :=
  fun i => ⟨(h' i).1.trans (h i).1, (h' i).2.trans (h i).2⟩

variable {i : Fin n} {nic : PerNicState}

theorem sameTables_update
    (h : nic.sessions = (nics i).sessions ∧ nic.remoteMemory = (nics i).remoteMemory) :
    SameTables nics (Function.update nics i nic) := by
  intro j
  by_cases hj : j = i
  · subst hj
    rw [Function.update_self]
    exact h
  · rw [Function.update_of_ne hj]
    exact ⟨rfl, rfl⟩

variable {nic' : PerNicState} {qpn : Nat}

theorem removePendingByQpn_tables (h : nic.removePendingByQpn qpn = some nic') :
    nic'.sessions = nic.sessions ∧ nic'.remoteMemory = nic.remoteMemory := by
  unfold PerNicState.removePendingByQpn at h
  split at h
  · cases h
    exact ⟨rfl, rfl⟩
  · cases h

theorem popPending_tables {sessions : List (Fin n × Nat)} {found : Bool}
    (h : popPending nics sessions = (nics', found)) : SameTables nics nics' := by
  induction sessions generalizing nics with
  | nil =>
    cases h
    exact fun _ => ⟨rfl, rfl⟩
  | cons s rest ih =>
    unfold popPending at h
    split at h
    · cases h
      exact fun _ => ⟨rfl, rfl⟩
    next nic hnic => exact (sameTables_update (removePendingByQpn_tables hnic)).trans (ih h)

theorem dropPending_tables (nics : Fin n → PerNicState) (sessions : List (Fin n × Nat)) :
    SameTables nics (dropPending nics sessions) := by
  refine foldlRecOn (motive := SameTables nics) sessions _ (fun _ => ⟨rfl, rfl⟩) fun nics hsm s _ => ?_
  refine hsm.trans ?_
  cases hnic : (nics s.1).removePendingByQpn s.2 with
  | none => exact sameTables_update ⟨rfl, rfl⟩
  | some nic => exact sameTables_update (removePendingByQpn_tables hnic)

/-! ## Storing a handshake -/

variable {localNics remoteNics : Fin n → NicHandshake} {result : Option TransferError}

theorem cacheRemoteMemory_ok {regions : List RegisteredMemoryRegion}
    (h : nic.cacheRemoteMemory qpn regions = .ok nic') :
    ∃ entries, remoteSnapshot regions = .ok entries ∧
      nic' = { nic with remoteMemory := nic.remoteMemory.insert qpn entries } := by
  obtain ⟨entries, hes, rfl⟩ := map_eq_ok.mp h
  exact ⟨entries, hes, rfl⟩

variable {is : List (Fin n)}

/-- NICs that are not stored stay as they are. -/
theorem storeNics_of_not_mem (hi : i ∉ is)
    (h : storeNics localNics remoteNics nics is = (nics', result)) : nics' i = nics i := by
  induction is generalizing nics with
  | nil =>
    cases h
    rfl
  | cons j rest ih =>
    rw [mem_cons, not_or] at hi
    unfold storeNics at h
    split at h
    · cases h
      rfl
    · exact (ih hi.2 h).trans (Function.update_of_ne hi.1 _ _)

/-- Storing touches the entries of the peer's own numbers only. -/
theorem storeNics_other (hne : qpn ≠ (remoteNics i).firstQpn)
    (h : storeNics localNics remoteNics nics is = (nics', result)) :
    (nics' i).sessions.lookup qpn = (nics i).sessions.lookup qpn ∧
      (nics' i).remoteMemory.lookup qpn = (nics i).remoteMemory.lookup qpn := by
  induction is generalizing nics with
  | nil =>
    cases h
    exact ⟨rfl, rfl⟩
  | cons j rest ih =>
    unfold storeNics at h
    split at h
    · cases h
      exact ⟨rfl, rfl⟩
    next nic hcached =>
      obtain ⟨hsess, hmy⟩ := ih h
      rw [hsess, hmy]
      by_cases hij : i = j
      · subst hij
        obtain ⟨entries, -, rfl⟩ := cacheRemoteMemory_ok hcached
        rw [Function.update_self]
        exact ⟨lookup_insert_ne hne, lookup_insert_ne hne⟩
      · rw [Function.update_of_ne hij]
        exact ⟨rfl, rfl⟩

/-- A handshake that is stored has its sessions and its memory on every NIC. -/
theorem storeNics_ok (hnd : is.Nodup)
    (h : storeNics localNics remoteNics nics is = (nics', none)) (hi : i ∈ is) :
    (nics' i).sessions.lookup (remoteNics i).firstQpn =
        some (pairSessions (localNics i) (remoteNics i)) ∧
      ∃ entries, remoteSnapshot (remoteNics i).memoryRegions = .ok entries ∧
        (nics' i).remoteMemory.lookup (remoteNics i).firstQpn = some entries := by
  induction is generalizing nics with
  | nil => cases hi
  | cons j rest ih =>
    obtain ⟨hj, hr⟩ := nodup_cons.mp hnd
    unfold storeNics at h
    split at h
    · cases h
    next nic hcached =>
      rcases mem_cons.mp hi with rfl | hi
      · obtain ⟨entries, hes, rfl⟩ := cacheRemoteMemory_ok hcached
        have hk := storeNics_of_not_mem hj h
        rw [Function.update_self] at hk
        rw [hk]
        exact ⟨lookup_insert _, entries, hes, lookup_insert _⟩
      · exact ih hr h hi

variable {qpsPerPeer : Nat}

theorem checkRemoteNics_ok {metadata : List NicHandshake}
    (h : checkRemoteNics qpsPerPeer metadata = .ok remoteNics) (i : Fin n) :
    (remoteNics i).endpoints.length = qpsPerPeer := by
  unfold checkRemoteNics at h
  split at h
  next hlen =>
    split at h
    · cases h
    next hn =>
      cases h
      rw [find?_eq_none] at hn
      have hm : (metadata.get (i.cast hlen.symm), i.val) ∈ metadata.zipIdx := by
        rw [mk_mem_zipIdx_iff_getElem?]
        exact getElem?_eq_getElem _
      simpa using hn _ hm
  · cases h

variable {localNic remoteNic : NicHandshake}

theorem pairSessions_ne_nil (hq : 0 < qpsPerPeer) (hloc : localNic.endpoints.length = qpsPerPeer)
    (hrem : remoteNic.endpoints.length = qpsPerPeer) : pairSessions localNic remoteNic ≠ [] := by
  rw [← length_pos_iff, pairSessions, length_map, length_zip, hloc, hrem, Nat.min_self]
  exact hq

theorem mem_pairSessions {session : ConnectedSession}
    (h : session ∈ pairSessions localNic remoteNic) :
    session.remoteEndpoint ∈ remoteNic.endpoints := by
  obtain ⟨pair, hp, rfl⟩ := mem_map.mp h
  exact (of_mem_zip hp).2

/-! ## Connections with entries of their own -/

/-- The NIC has sessions to the endpoints of the connection's peer, and the memory of its
handshake. -/
structure Serves (nic : PerNicState) (conn : AddrConnection n) (i : Fin n) : Prop where
  key : conn.remoteFirstQpns i = (conn.remoteNics i).firstQpn
  sessions : ∃ sessions, nic.sessions.lookup (conn.remoteFirstQpns i) = some sessions ∧
    sessions ≠ [] ∧ ∀ session ∈ sessions, session.remoteEndpoint ∈ (conn.remoteNics i).endpoints
  memory : ∃ entries, remoteSnapshot (conn.remoteNics i).memoryRegions = .ok entries ∧
    nic.remoteMemory.lookup (conn.remoteFirstQpns i) = some entries

theorem Serves.of_lookup {conn : AddrConnection n} (h : Serves nic conn i)
    (hsm : nic'.sessions.lookup (conn.remoteFirstQpns i) =
        nic.sessions.lookup (conn.remoteFirstQpns i) ∧
      nic'.remoteMemory.lookup (conn.remoteFirstQpns i) =
        nic.remoteMemory.lookup (conn.remoteFirstQpns i)) : Serves nic' conn i :=
  ⟨h.key, hsm.1 ▸ h.sessions, hsm.2 ▸ h.memory⟩

end RcBackend

namespace RdmaNode

variable {n qpsPerPeer : Nat} {s s' : RdmaNode n} {ev : RdmaEvent n}

/-- The peer's first number differs, on every NIC, from those of the established connections of
other addresses. -/
def DistinctFrom (s : RdmaNode n) (remoteAddr : String) : CallStage n → Prop
  | .popped _ remoteNics =>
    ∀ e ∈ s.backend.addrConnections.entries, e.1 ≠ remoteAddr →
      ∀ i, e.2.remoteFirstQpns i ≠ (remoteNics i).firstQpn
  | _ => True

instance (remoteAddr : String) : ∀ stage, Decidable (s.DistinctFrom remoteAddr stage)
  | .popped _ _ => inferInstanceAs (Decidable (∀ _ ∈ _, _))
  | .started | .invalidated | .preparing | .exchanging _ | .aborting _ => isTrue trivial

/-- A handshake is stored only if the numbers of the peer are distinct. -/
def DistinctPeers (s : RdmaNode n) : RdmaEvent n → Prop
  | .store call => ∀ c ∈ s.calls.lookup call, s.DistinctFrom c.remoteAddr c.stage
  | _ => True

instance : ∀ ev, Decidable (s.DistinctPeers ev)
  | .store _ => inferInstanceAs (Decidable (∀ _ ∈ _, _))
  | .ensureConnected _ _ | .acceptHandshake _ _ _ | .invalidate _ | .getOrPrepare _ | .createQps _ _
  | .exchange _ _ | .complete _ | .connectFails _ | .abort _ | .invalidateConnection _
  | .transfer _ _ | .registerMemory _ _ _ | .unregisterMemory _ => isTrue trivial

structure Identified (qpsPerPeer : Nat) (s : RdmaNode n) : Prop where
  exclusive : s.Exclusive
  serves : ∀ a conn, s.backend.addrConnections.lookup a = some conn →
    ∀ i, RcBackend.Serves (s.backend.nics i) conn i
  distinct : ∀ a a' conn conn', s.backend.addrConnections.lookup a = some conn →
    s.backend.addrConnections.lookup a' = some conn' → a ≠ a' →
      ∀ i, conn.remoteFirstQpns i ≠ conn'.remoteFirstQpns i
  made : ∀ call c localNics, s.calls.lookup call = some c → c.stage = .exchanging localNics →
    ∀ i, (localNics i).endpoints.length = qpsPerPeer
  popped : ∀ call c localNics remoteNics, s.calls.lookup call = some c →
    c.stage = .popped localNics remoteNics → ∀ i,
      (localNics i).endpoints.length = qpsPerPeer ∧ (remoteNics i).endpoints.length = qpsPerPeer

variable {a : String} {conn : AddrConnection n}

theorem DistinctPeers.ne {call : Nat} {c : HandshakeCall n}
    {localNics remoteNics : Fin n → NicHandshake} (hc : s.DistinctPeers (.store call))
    (hcall : s.calls.lookup call = some c) (hst : c.stage = .popped localNics remoteNics)
    (hcn : s.backend.addrConnections.lookup a = some conn) (hne : a ≠ c.remoteAddr) (i : Fin n) :
    conn.remoteFirstQpns i ≠ (remoteNics i).firstQpn := by
  have hd := hc c hcall
  rw [hst] at hd
  exact hd ⟨a, conn⟩ (mem_lookup_iff.mp hcn) hne i

variable {a' : String}

/-- Every connection of another address keeps its entries when one is invalidated. -/
theorem Identified.invalidate_kept (hi : s.Identified qpsPerPeer)
    (hcn : s.backend.addrConnections.lookup a = some conn) (hne : a ≠ a') (i : Fin n) :
    ((s.backend.invalidateConnection a').nics i).sessions.lookup (conn.remoteFirstQpns i) =
        (s.backend.nics i).sessions.lookup (conn.remoteFirstQpns i) ∧
      ((s.backend.invalidateConnection a').nics i).remoteMemory.lookup (conn.remoteFirstQpns i) =
        (s.backend.nics i).remoteMemory.lookup (conn.remoteFirstQpns i) := by
  unfold invalidateConnection
  split
  · exact ⟨rfl, rfl⟩
  next conn' hcn' =>
    have hq := hi.distinct a a' conn conn' hcn hcn' hne i
    exact ⟨lookup_erase_ne hq, lookup_erase_ne hq⟩

theorem Identified.serves_invalidate (hi : s.Identified qpsPerPeer)
    (hcn : (s.backend.invalidateConnection a').addrConnections.lookup a = some conn) (i : Fin n) :
    RcBackend.Serves ((s.backend.invalidateConnection a').nics i) conn i := by
  obtain ⟨hne, hcn⟩ := lookup_invalidateConnection hcn
  exact (hi.serves a conn hcn i).of_lookup (hi.invalidate_kept hcn hne i)

theorem serves_of_sameTables {nics nics' : Fin n → PerNicState} {i : Fin n}
    (hsm : RcBackend.SameTables nics nics') (h : RcBackend.Serves (nics i) conn i) :
    RcBackend.Serves (nics' i) conn i :=
  h.of_lookup ⟨by rw [(hsm i).1], by rw [(hsm i).2]⟩

theorem Identified.serves_step (hq : 0 < qpsPerPeer) (hi : s.Identified qpsPerPeer)
    (hcd : s.DistinctPeers ev) (h : Step qpsPerPeer s ev s') :
    ∀ a conn, s'.backend.addrConnections.lookup a = some conn →
      ∀ i, RcBackend.Serves (s'.backend.nics i) conn i := by
  intro a conn hcn i
  cases h with
  | invalidate | invalidateConnection => exact hi.serves_invalidate hcn i
  | createQps =>
    exact (hi.serves a conn hcn i).of_lookup ⟨rfl, rfl⟩
  | won | abort =>
    exact serves_of_sameTables (dropPending_tables _ _) (hi.serves a conn hcn i)
  | popFails hc hst hpop =>
    rw [fail_backend] at hcn ⊢
    exact serves_of_sameTables (popPending_tables hpop) (hi.serves a conn hcn i)
  | popped hc hst hchk hpop =>
    exact serves_of_sameTables (popPending_tables hpop) (hi.serves a conn hcn i)
  | exchangeFails | checkFails | connectFails =>
    rw [fail_backend] at hcn ⊢
    exact hi.serves a conn hcn i
  | storeFails hc hst hsto =>
    rw [fail_backend] at hcn ⊢
    -- the address of the call is not connected, so the connection is of another one
    next c localNics remoteNics nics e =>
    have hne : a ≠ c.remoteAddr := by
      rintro rfl
      cases (hi.exclusive.absent _ _ hc (hst ▸ trivial)).symm.trans hcn
    have hqpns := hcd.ne hc hst hcn hne i
    exact (hi.serves a conn hcn i).of_lookup (storeNics_other hqpns hsto)
  | store hc hst hsto =>
    rcases lookup_of_insert hcn with ⟨rfl, rfl⟩ | ⟨hne, hcn⟩
    · obtain ⟨hsess, entries, hes, hmy⟩ :=
        storeNics_ok (nodup_finRange n) hsto (mem_finRange i)
      obtain ⟨hloc, hrem⟩ := hi.popped _ _ _ _ hc hst i
      exact ⟨rfl, ⟨_, hsess, pairSessions_ne_nil hq hloc hrem, fun session => mem_pairSessions⟩,
        ⟨entries, hes, hmy⟩⟩
    · have hqpns := hcd.ne hc hst hcn hne i
      exact (hi.serves a conn hcn i).of_lookup (storeNics_other hqpns hsto)
  | transfer =>
    obtain ⟨conn₀, hcn₀, hqpns, hnics⟩ := lookup_afterTransfer hcn
    obtain ⟨hk, hsess, hmy⟩ := hi.serves a conn₀ hcn₀ i
    rw [← hqpns, ← hnics] at hk hsess hmy
    rw [afterTransfer_nics]
    exact ⟨hk, hsess, hmy⟩
  | _ => exact hi.serves a conn hcn i

theorem Identified.distinct_step (hi : s.Identified qpsPerPeer) (hcd : s.DistinctPeers ev)
    (h : Step qpsPerPeer s ev s') :
    ∀ a a' conn conn', s'.backend.addrConnections.lookup a = some conn →
      s'.backend.addrConnections.lookup a' = some conn' → a ≠ a' →
        ∀ i, conn.remoteFirstQpns i ≠ conn'.remoteFirstQpns i := by
  intro a a' conn conn' hcn hcn' hne i
  rcases connected_of_step h hcn with
    ⟨conn₀, hcn₀, hq⟩ | ⟨call, c, localNics, remoteNics, rfl, hc, hst, rfl, -, hq⟩
  · rcases connected_of_step h hcn' with
      ⟨conn₁, hcn₁, hq'⟩ | ⟨call, c, localNics, remoteNics, rfl, hc, hst, rfl, -, hq'⟩
    · rw [hq, hq']
      exact hi.distinct a a' conn₀ conn₁ hcn₀ hcn₁ hne i
    · rw [hq, hq']
      exact hcd.ne hc hst hcn₀ hne i
  · rcases connected_of_step h hcn' with
      ⟨conn₁, hcn₁, hq'⟩ | ⟨call', c', _, _, hev, hc', -, rfl, -⟩
    · rw [hq, hq']
      exact (hcd.ne hc hst hcn₁ (Ne.symm hne) i).symm
    · cases hev
      cases hc.symm.trans hc'
      exact absurd rfl hne

/-- A call is as before the step, or in a new stage with all its queue pairs. -/
theorem Identified.call_step (hi : s.Identified qpsPerPeer) (h : Step qpsPerPeer s ev s') {k : Nat}
    {c : HandshakeCall n} (hk : s'.calls.lookup k = some c) : s.calls.lookup k = some c ∨
      (∀ localNics, c.stage = .exchanging localNics →
        ∀ i, (localNics i).endpoints.length = qpsPerPeer) ∧
      ∀ localNics remoteNics, c.stage = .popped localNics remoteNics → ∀ i,
        (localNics i).endpoints.length = qpsPerPeer ∧
          (remoteNics i).endpoints.length = qpsPerPeer := by
  cases h with
  | ensureConnected | acceptHandshake | invalidate | prepare =>
    rcases lookup_of_insert hk with ⟨-, rfl⟩ | ⟨-, hk⟩
    · exact Or.inr ⟨nofun, nofun⟩
    · exact Or.inl hk
  | createQps hc hst hfr =>
    rcases lookup_of_insert hk with ⟨-, rfl⟩ | ⟨-, hk⟩
    · refine Or.inr ⟨?_, nofun⟩
      rintro _ ⟨⟩ i
      exact (hfr i).1
    · exact Or.inl hk
  | popped hc hst hchk hpop =>
    rcases lookup_of_insert hk with ⟨-, rfl⟩ | ⟨-, hk⟩
    · refine Or.inr ⟨nofun, ?_⟩
      rintro _ _ ⟨⟩ i
      exact ⟨hi.made _ _ _ hc hst i, checkRemoteNics_ok hchk i⟩
    · exact Or.inl hk
  | exchangeFails | checkFails | popFails | connectFails | storeFails =>
    rcases lookup_of_fail hk with ⟨-, rfl, -⟩ | ⟨-, hk⟩
    · exact Or.inr ⟨nofun, nofun⟩
    · exact Or.inl hk
  | existing | alreadyConnecting | createFails | won | store | abort =>
    exact Or.inl (lookup_of_erase hk).2
  | _ => exact Or.inl hk

theorem Identified.step (hq : 0 < qpsPerPeer) (hi : s.Identified qpsPerPeer)
    (hc : s.DistinctPeers ev) (h : Step qpsPerPeer s ev s') : s'.Identified qpsPerPeer where
  exclusive := hi.exclusive.step h
  serves := hi.serves_step hq hc h
  distinct := hi.distinct_step hc h
  made := fun k c l hk hst =>
    (hi.call_step h hk).elim (hi.made k c l · hst) fun hnew => hnew.1 l hst
  popped := fun k c l r hk hst =>
    (hi.call_step h hk).elim (hi.popped k c l r · hst) fun hnew => hnew.2 l r hst

theorem new_identified (numaRr : NumaRoundRobin n) : (new numaRr).Identified qpsPerPeer := by
  refine ⟨new_exclusive numaRr, ?_, ?_, ?_, ?_⟩
  · exact nofun
  · exact nofun
  · exact nofun
  · exact nofun

end RdmaNode

/-! ## Transfers -/

namespace RcBackend

variable {n : Nat} {b : RcBackend n} {conn : AddrConnection n}

/-- The operations go to an endpoint of the peer on the NIC, with keys of the peer's memory there
that covers the bytes. -/
def UsesOnly (conn : AddrConnection n) (i : Fin n) (work : ConnectedSession × List RdmaOp) : Prop :=
  work.1.remoteEndpoint ∈ (conn.remoteNics i).endpoints ∧
    ∀ op ∈ work.2, ∃ region ∈ (conn.remoteNics i).memoryRegions, region.rkey = op.remoteRkey ∧
      region.basePtr ≤ op.remotePtr ∧ op.remotePtr + op.len ≤ region.basePtr + region.len

theorem mem_dealOut {sessions : List ConnectedSession} {rot : Nat} {ops : List RdmaOp}
    {work : ConnectedSession × List RdmaOp} (h : work ∈ dealOut sessions rot ops) :
    work.1 ∈ sessions ∧ ∀ op ∈ work.2, op ∈ ops := by
  obtain ⟨⟨session, q⟩, hses, rfl⟩ := mem_map.mp (mem_filter.mp h).1
  refine ⟨fst_mem_of_mem_zipIdx hses, ?_⟩
  intro op hop
  obtain ⟨e, he, rfl⟩ := mem_map.mp hop
  exact fst_mem_of_mem_zipIdx (mem_filter.mp he).1

variable {i : Fin n}

theorem prepareOp_ok {qpn : Nat} {desc : TransferDesc} {op : RdmaOp}
    (h : b.prepareOp i qpn desc = .ok op) :
    (b.nics i).findRemoteRkey qpn op.remotePtr op.len = some op.remoteRkey := by
  unfold prepareOp at h
  split at h
  · cases h
  split at h
  · cases h
  split at h
  · cases h
  next hrkey =>
    cases h
    exact hrkey

theorem prepareNic_served (hsvr : Serves (b.nics i) conn i) (descs : List TransferDesc) :
    (b.prepareNic conn i descs).Ensures fun work => ∀ w ∈ work, UsesOnly conn i w := by
  obtain ⟨sessions, hsess, hne, hrem⟩ := hsvr.sessions
  obtain ⟨entries, hes, hmy⟩ := hsvr.memory
  unfold prepareNic
  split
  · exact nofun
  cases sessions with
  | nil => exact absurd rfl hne
  | cons session rest =>
    simp only [hsess]
    cases hops : descs.mapM' (b.prepareOp i (conn.remoteFirstQpns i)) with
    | error e => trivial
    | ok ops =>
      intro w hw
      obtain ⟨hses, hss⟩ := mem_dealOut hw
      refine ⟨hrem w.1 hses, ?_⟩
      intro op hop
      obtain ⟨desc, -, hdesc⟩ :=
        exists_item (mapM_eq_ok.mp hops) (hss op hop)
      have hrkey := prepareOp_ok hdesc
      rw [PerNicState.findRemoteRkey, hmy] at hrkey
      exact rkeyFor_remoteSnapshot hes hrkey

theorem prepareNics_served (hsvr : ∀ i, Serves (b.nics i) conn i)
    (assigned : List (Fin n × TransferDesc)) (is : List (Fin n)) :
    (b.prepareNics conn assigned is).Ensures fun work => ∀ w ∈ work, ∃ i, UsesOnly conn i w := by
  induction is with
  | nil =>
    intro w hw
    cases hw
  | cons i rest ih =>
    have hfst := prepareNic_served (hsvr i) ((assigned.filter (·.1 = i)).map Prod.snd)
    unfold prepareNics
    cases hnic : b.prepareNic conn i ((assigned.filter (·.1 = i)).map Prod.snd) with
    | panicked =>
      rw [hnic] at hfst
      exact hfst
    | error e => trivial
    | ok work =>
      rw [hnic] at hfst
      cases hr : b.prepareNics conn assigned rest with
      | panicked =>
        rw [hr] at ih
        exact ih
      | error e => trivial
      | ok more =>
        rw [hr] at ih
        intro w hw
        rcases mem_append.mp hw with hw | hw
        · exact ⟨i, hfst w hw⟩
        · exact ih w hw

end RcBackend

namespace RdmaNode

variable {n : Nat}

variable (s : RdmaNode n) (remoteAddr : String)

/-- A transfer to the address does not panic, and uses only what the address's own handshake gave:
the endpoints it is connected to, and keys of its memory. -/
def TransfersOwn : Prop :=
  ∀ descs, (s.backend.batchTransfer remoteAddr descs).Ensures fun work =>
    ∀ w ∈ work, ∃ conn i, s.backend.addrConnections.lookup remoteAddr = some conn ∧
      RcBackend.UsesOnly conn i w

/-- Invalidating the connection to an address leaves what the connections of other addresses go by
as it is. -/
def InvalidatesOwn : Prop :=
  ∀ a conn, a ≠ remoteAddr → s.backend.addrConnections.lookup a = some conn →
    (s.backend.invalidateConnection remoteAddr).addrConnections.lookup a = some conn ∧
    ∀ i,
      ((s.backend.invalidateConnection remoteAddr).nics i).sessions.lookup
          (conn.remoteFirstQpns i) = (s.backend.nics i).sessions.lookup (conn.remoteFirstQpns i) ∧
        ((s.backend.invalidateConnection remoteAddr).nics i).remoteMemory.lookup
          (conn.remoteFirstQpns i) =
            (s.backend.nics i).remoteMemory.lookup (conn.remoteFirstQpns i)

variable {qpsPerPeer : Nat} {s : RdmaNode n}

theorem Identified.transfersOwn (hi : s.Identified qpsPerPeer) (remoteAddr : String) :
    s.TransfersOwn remoteAddr := by
  intro descs
  unfold batchTransfer
  split
  · exact nofun
  cases hcn : s.backend.addrConnections.lookup remoteAddr with
  | none => trivial
  | some conn =>
    have hsrv := prepareNics_served (hi.serves remoteAddr conn hcn)
      (assignNics s.backend.numaRr descs).1 (finRange n)
    simp only
    cases hwork : s.backend.prepareNics conn (assignNics s.backend.numaRr descs).1
        (finRange n) with
    | panicked =>
      rw [hwork] at hsrv
      exact hsrv
    | error e => trivial
    | ok work =>
      rw [hwork] at hsrv
      intro w hw
      obtain ⟨i, huses⟩ := hsrv w hw
      exact ⟨conn, i, rfl, huses⟩

theorem Identified.invalidatesOwn (hi : s.Identified qpsPerPeer) (remoteAddr : String) :
    s.InvalidatesOwn remoteAddr := by
  intro a conn hne hcn
  refine ⟨?_, hi.invalidate_kept hcn hne⟩
  unfold invalidateConnection
  split
  · exact hcn
  · exact (lookup_erase_ne hne).trans hcn

/-- Connections are identified by their addresses in runs in which the peers' numbers differ. -/
theorem connections_identified {qpsPerPeer : Nat} (hq : 0 < qpsPerPeer)
    {numaRr : NumaRoundRobin n} {events : List (RdmaEvent n)} {s : RdmaNode n}
    (hcond : Run.Meets (step qpsPerPeer) DistinctPeers (new numaRr) events)
    (hrun : Run.exec (step qpsPerPeer) (new numaRr) events = some s) :
    ∀ remoteAddr, s.TransfersOwn remoteAddr ∧ s.InvalidatesOwn remoteAddr := by
  have hi : s.Identified qpsPerPeer :=
    exec_invariant_of_meets (I := Identified qpsPerPeer)
      (fun _ _ _ hi hev h => hi.step hq hev (step_cases h)) (new_identified numaRr) hcond hrun
  intro remoteAddr
  exact ⟨hi.transfersOwn remoteAddr, hi.invalidatesOwn remoteAddr⟩

/-- A client handshake with the peer at an address: the peer's device has the id `gid`, its queue
pair the number `qpn`, and its memory the key `rkey`. -/
def handshakeWith (call : Nat) (remoteAddr : String) (localQpn gid qpn rkey : Nat) :
    List (RdmaEvent 1) :=
  [.ensureConnected call remoteAddr, .getOrPrepare call,
    .createQps call (some fun _ => [⟨0, 0, localQpn, 0⟩]),
    .exchange call (some [⟨[⟨gid, 0, qpn, 0⟩], [⟨4096, 4096, rkey⟩]⟩]), .store call]

/-- A transfer of the first bytes of the memory. -/
def oneDesc : List (TransferDesc × NumaNode) := [(⟨0, 4096, 16⟩, ⟨0⟩)]

/-- Two peers whose numbers differ. -/
theorem connections_identified_two_peers :
    ∃ s ∈ Run.exec (step 1) (new oneNic)
      (.registerMemory 0 8192 (fun _ => 5) ::
        (handshakeWith 0 "a" 1 1 7 11 ++ handshakeWith 1 "b" 2 2 8 22)),
      (∃ work, s.backend.batchTransfer "a" oneDesc = .ok work ∧ work.length = 1) ∧
        ∀ remoteAddr, s.TransfersOwn remoteAddr ∧ s.InvalidatesOwn remoteAddr := by
  refine exists_mem_of_eq rfl fun hrun => ?_
  exact ⟨⟨_, rfl, rfl⟩, connections_identified (by decide) (by decide +kernel) hrun⟩

/-- Two peers whose devices number their queue pairs alike: a transfer to the first goes to the
second with a key of the second, and once the second is invalidated a transfer to the first
panics. -/
theorem equal_numbers_mix_peers :
    ∃ s ∈ Run.exec (step 1) (new oneNic)
      (.registerMemory 0 8192 (fun _ => 5) ::
        (handshakeWith 0 "a" 1 1 7 11 ++ handshakeWith 1 "b" 2 2 7 22)),
      s.backend.batchTransfer "a" oneDesc =
          .ok [(⟨⟨0, 0, 2, 0⟩, ⟨2, 0, 7, 0⟩⟩, [⟨5, 0, 4096, 16, 22⟩])] ∧
        ¬ s.TransfersOwn "a" ∧ ¬ s.InvalidatesOwn "b" ∧
        (s.backend.invalidateConnection "b").batchTransfer "a" oneDesc = .panicked := by
  refine ⟨_, rfl, rfl, ?_, ?_, rfl⟩
  · intro h
    obtain ⟨conn, i, hconn, huses, -⟩ := h oneDesc _ (mem_singleton_self _)
    cases hconn
    revert huses
    decide +revert
  · intro h
    obtain ⟨-, hkept⟩ := h "a" _ (by decide) rfl
    cases (hkept 0).1

end RdmaNode

end PegaFlow.Rdma
