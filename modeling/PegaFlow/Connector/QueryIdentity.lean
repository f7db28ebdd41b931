import PegaFlow.Lib.Run
import PegaFlow.Connector.QueryProbe

/-!
# Which query an accepted answer is for

The connector accepts an answer when it has no probe for the request, or when its
loading probe is of the current query.  The server answers with the result of
whatever task is active under the request id.  An accepted answer is the right one
if the finished task was started for the current query (`SameQuery`).

The connector can lose its probe while the task runs on: when the whole prompt is
found to be computed locally, when the server was unavailable once, when the probe is
dropped.  The server can lose its task while the probe waits: by its garbage
collection.  In runs without these (`Orderly`) the two stay in step (`InStep`), and
every accepted answer is the right one.
-/

namespace PegaFlow.Connector

open Storage (FoundBlock LeaseId PrefetchEntry QueryLease QueryReady QueryServer TaskOutcome
  queryKeys collectPrefix_keys)
open List Option AList Run

/-- The lease of the answer owns, in order, the blocks of the hashes the answer
counts. -/
def AcceptedQuery.Served (ctx : QueryContext) (granted : List QueryLease) (a : AcceptedQuery) :
    Prop :=
  ∀ i < a.hitBlocks, ∃ token lease hash block, a.lease = some token ∧
    granted[token]? = some lease ∧ a.queryHashes[i]? = some hash ∧
    lease.blocks[i]? = some (⟨ctx.target.nameSpace, hash⟩, block)

namespace QueryClient

variable {ctx : QueryContext} {s s' : QueryClient} {ev : ProbeEvent}

/-- Every accepted answer is for the query it was accepted for. -/
def Identified (ctx : QueryContext) (s : QueryClient) : Prop :=
  ∀ a ∈ s.accepted, a.Served ctx s.server.leases.granted

/-! ## What answers hold -/

theorem getElem?_of_prefix {α : Type} {l l' : List α} {i : Nat} {a : α} (hsub : l <+: l')
    (h : l[i]? = some a) : l'[i]? = some a := by
  obtain ⟨hlt, rfl⟩ := List.getElem?_eq_some_iff.mp h
  exact prefix_iff_getElem?.mp hsub i hlt

variable {granted : List QueryLease}

theorem served_mono {granted' : List QueryLease} {a : AcceptedQuery} (h : a.Served ctx granted)
    (hg : granted <+: granted') : a.Served ctx granted' := by
  intro i hi
  obtain ⟨token, lease, hash, block, htoken, hls, hh, hb⟩ := h i hi
  exact ⟨token, lease, hash, block, htoken, getElem?_of_prefix hg hls, hh, hb⟩

variable {ready : QueryReady} {blocks : List FoundBlock} {queryHashes : List BlockHash}

section

variable (hbk : QueryServer.Backed granted ready blocks)
  (hkeys : blocks.map Prod.fst <+: queryKeys ctx.target.nameSpace queryHashes)
include hbk hkeys

/-- An answer with blocks for a prefix of the query's keys serves the query. -/
theorem served_of_backed :
    AcceptedQuery.Served ctx granted ⟨queryHashes, ready.numHitBlocks, ready.lease⟩ := by
  intro i hi
  have hlt : i < blocks.length := lt_of_lt_of_eq hi hbk.hits
  obtain ⟨token, lease, htoken, hls, hbs⟩ :=
    hbk.owned (ne_nil_of_length_pos (Nat.zero_lt_of_lt hlt))
  have hb : blocks[i]? = some blocks[i] := getElem?_eq_getElem hlt
  have hk : (queryKeys ctx.target.nameSpace queryHashes)[i]? = some blocks[i].1 := by
    refine getElem?_of_prefix hkeys ?_
    rw [getElem?_map, hb, map_some]
  rw [queryKeys, getElem?_map] at hk
  obtain ⟨hash, hh, hfst⟩ := map_eq_some_iff.mp hk
  refine ⟨token, lease, hash, blocks[i].2, htoken, hls, hh, ?_⟩
  rw [hbs, hb, hfst]

theorem hits_le_of_backed : ready.numHitBlocks ≤ queryHashes.length := by
  have hle := hkeys.length_le
  rw [queryKeys, length_map, length_map] at hle
  exact hbk.hits.trans_le hle

end

/-! ## Releases -/

/-- The tasks, the granted leases and the accepted answers are the same. -/
structure Frame (s s' : QueryClient) : Prop where
  active : s'.server.active = s.server.active
  granted : s'.server.leases.granted = s.server.leases.granted
  accepted : s'.accepted = s.accepted

theorem frame_releaseLease (s : QueryClient) (lease : Option LeaseId)
    (releaseError : Option String) : Frame s (s.releaseLease lease releaseError) := by
  unfold releaseLease
  split <;> exact ⟨rfl, rfl, rfl⟩

theorem frame_release (s : QueryClient) (releaseError : Option String) :
    Frame s (s.releasePendingQueryProbe releaseError) := by
  unfold releasePendingQueryProbe
  cases s.probe with
  | none => exact ⟨rfl, rfl, rfl⟩
  | some p =>
    obtain ⟨hact, hgr, hacc⟩ := s.frame_releaseLease p.lease releaseError
    exact ⟨hact, hgr, hacc⟩

theorem release_probe (s : QueryClient) (releaseError : Option String) :
    (s.releasePendingQueryProbe releaseError).probe = none := by
  unfold releasePendingQueryProbe
  split
  · assumption
  · rfl

/-! ## The answers held -/

/-- Accepted answers, and the answer of a ready probe, which later calls accept
again, serve their queries. -/
structure Held (ctx : QueryContext) (s : QueryClient) : Prop where
  accepted : s.Identified ctx
  probe : ∀ p hitBlocks, s.probe = some p → p.hitBlocks = some hitBlocks →
    AcceptedQuery.Served ctx s.server.leases.granted ⟨p.queryHashes, hitBlocks, p.lease⟩

theorem held_init (ctx : QueryContext) : init.Held ctx := ⟨nofun, nofun⟩

section

variable (h : s.Held ctx)
include h

/-- A step that accepts nothing and keeps the probe, or has none or a loading one,
keeps the answers. -/
theorem Held.mono (hacc : s'.accepted = s.accepted)
    (hgr : s.server.leases.granted <+: s'.server.leases.granted)
    (hprb : s'.probe = s.probe ∨ ∀ p, s'.probe = some p → p.hitBlocks = none) : s'.Held ctx := by
  constructor
  · intro a ha
    rw [hacc] at ha
    exact served_mono (h.accepted a ha) hgr
  · intro p hitBlocks hp hhit
    rcases hprb with hsm | hldg
    · rw [hsm] at hp
      exact served_mono (h.probe p hitBlocks hp hhit) hgr
    · rw [hldg p hp] at hhit
      cases hhit

theorem Held.frame (hfrm : Frame s s') (hprb : s'.probe = none) : s'.Held ctx := by
  refine h.mono hfrm.accepted ?_ (Or.inr ?_)
  · rw [hfrm.granted]
  · intro p hp
    rw [hprb] at hp
    cases hp

theorem Held.release (releaseError : Option String) :
    (s.releasePendingQueryProbe releaseError).Held ctx :=
  h.frame (s.frame_release releaseError) (s.release_probe releaseError)

variable {p : QueryProbe} {releaseError : Option String}

theorem Held.finishCacheLookup {hitBlocks : Nat}
    (hsrv : AcceptedQuery.Served ctx s.server.leases.granted ⟨p.queryHashes, hitBlocks, p.lease⟩) :
    (s.finishCacheLookup ctx p hitBlocks releaseError).2.Held ctx := by
  have hd : Held ctx
      { s with
        externalMatched := some (p.computedBlocks + hitBlocks)
        accepted := s.accepted ++ [⟨p.queryHashes, hitBlocks, p.lease⟩] } := by
    refine ⟨?_, h.probe⟩
    refine forall_mem_concat.mpr ⟨h.accepted, ?_⟩
    exact hsrv
  unfold QueryClient.finishCacheLookup
  dsimp only
  split
  · exact hd.release releaseError
  · exact hd

theorem Held.markReady (hldg : p.hitBlocks = none)
    (hsrv : AcceptedQuery.Served ctx s.server.leases.granted ⟨p.queryHashes, ready.numHitBlocks, ready.lease⟩) :
    (s.markReady ctx p ready releaseError).2.Held ctx := by
  unfold QueryClient.markReady
  split
  · refine h.mono rfl prefix_rfl (Or.inr ?_)
    rintro _ ⟨⟩
    exact hldg
  · have hrdy : Held ctx
        { s with
          probe := some { p with hitBlocks := some ready.numHitBlocks, lease := ready.lease } } := by
      refine ⟨h.accepted, ?_⟩
      rintro _ _ ⟨⟩ ⟨⟩
      exact hsrv
    exact hrdy.finishCacheLookup hsrv

variable {computedBlocks : Nat}

theorem Held.receiveReady (hldg : ∀ p ∈ s.probe, p.hitBlocks = none)
    (hsrv : (∀ p ∈ s.probe, p.Matches computedBlocks queryHashes) → AcceptedQuery.Served ctx s.server.leases.granted ⟨queryHashes, ready.numHitBlocks, ready.lease⟩) :
    (s.receiveReady ctx computedBlocks queryHashes ready releaseError).2.Held ctx := by
  unfold QueryClient.receiveReady
  cases hprb : s.probe with
  | none => exact h.markReady rfl (hsrv (by simp [hprb]))
  | some p =>
    dsimp only
    split
    next hmat =>
      refine h.markReady (hldg p hprb) ?_
      rw [hmat.2]
      exact hsrv (by simpa [hprb] using hmat)
    · split
      · exact h
      · obtain ⟨hact, hgr, hacc⟩ := s.frame_releaseLease ready.lease _
        exact h.frame ⟨hact, hgr, hacc⟩ rfl

/-! ## Answers to the query that is asked -/

/-- The answer of the server would be accepted: there is no probe that is loading
for another query, or ready for this one. -/
def Accepts (s : QueryClient) (computedBlocks : Nat) (queryHashes : List BlockHash) : Prop :=
  ∀ p ∈ s.probe, p.hitBlocks = none ↔ p.Matches computedBlocks queryHashes

/-- A call whose answer would be accepted finds no task that finished for another
query. -/
def SameQuery (ctx : QueryContext) (s : QueryClient) : ProbeEvent → Prop
  | .call numComputedTokens blockHashes _ _ =>
    s.Accepts (numComputedTokens / ctx.virtualBlockSize)
        (blockHashes.drop (numComputedTokens / ctx.virtualBlockSize)) →
      ∀ e ∈ s.server.active.lookup ctx.reqId, e.result.isSome →
        e.input.keys = queryKeys ctx.target.nameSpace
          (blockHashes.drop (numComputedTokens / ctx.virtualBlockSize))
  | _ => True

/-- A loading answer leaves the probe, or starts one. -/
theorem Held.pending {q : QueryServer} (hgr : s.server.leases.granted <+: q.leases.granted) :
    Held ctx
      { s with
        server := q
        probe := s.probe.or (some ⟨computedBlocks, queryHashes, none, none⟩) } := by
  refine h.mono rfl hgr ?_
  cases hprb : s.probe with
  | none =>
    right
    rintro _ ⟨⟩
    rfl
  | some p => exact Or.inl rfl

variable {delivery : Delivery}

theorem Held.ask (hldg : ∀ p ∈ s.probe, p.hitBlocks = none)
    (hsm : (∀ p ∈ s.probe, p.Matches computedBlocks queryHashes) → ∀ e ∈ s.server.active.lookup ctx.reqId, e.result.isSome → e.input.keys = queryKeys ctx.target.nameSpace queryHashes) :
    (s.ask ctx computedBlocks queryHashes delivery releaseError).2.Held ctx := by
  cases delivery with
  | unavailable =>
    have hs : Held ctx { s with abandoned := s.abandoned ++ [queryHashes] } :=
      h.mono rfl prefix_rfl (Or.inl rfl)
    exact hs.receiveReady hldg fun _ _ hi => absurd hi (Nat.not_lt_zero _)
  | failed message => exact h.mono rfl prefix_rfl (Or.inl rfl)
  | answered =>
    unfold QueryClient.ask
    rcases hq : s.server.queryPrefetch ctx.stores ctx.instanceId ctx.target ctx.reqId
      queryHashes with ⟨ready, q⟩
    cases QueryServer.queryPrefetch_cases hq with
    | waits | starts => exact h.pending prefix_rfl
    | takes hact hfin hbk hgr hq =>
      have hs : Held ctx { s with server := q } := h.mono rfl hgr (Or.inl rfl)
      refine hs.receiveReady hldg fun hmat => served_of_backed hbk ?_
      rw [← hsm hmat _ hact (by rw [hfin]; rfl)]
      exact PrefetchEntry.answer_keys hfin
    | scans hact hbk hgr hq =>
      have hs : Held ctx { s with server := q } := h.mono rfl hgr (Or.inl rfl)
      exact hs.receiveReady hldg fun _ => served_of_backed hbk (collectPrefix_keys _ _)

variable {numComputedTokens : Nat} {blockHashes : List BlockHash}

theorem Held.call
    (hsm : s.SameQuery ctx (.call numComputedTokens blockHashes delivery releaseError)) :
    (s.getNumNewMatchedTokens ctx numComputedTokens blockHashes delivery releaseError).2.Held
      ctx := by
  unfold getNumNewMatchedTokens
  dsimp only
  split
  · exact h
  split
  · obtain ⟨hacc, hprb⟩ := h.release releaseError
    exact ⟨hacc, hprb⟩
  · split
    next c hashes hitBlocks lease hprb =>
      split
      · exact h.finishCacheLookup (h.probe _ _ hprb rfl)
      next hstale =>
        refine (h.release releaseError).ask (by simp [release_probe]) fun _ => ?_
        rw [(s.frame_release releaseError).active]
        refine hsm ?_
        intro p hp
        cases hprb.symm.trans hp
        simp [hstale]
    next hnot =>
      have hldg : ∀ p ∈ s.probe, p.hitBlocks = none := by
        rintro ⟨c, hashes, _ | hitBlocks, lease⟩ hp
        · rfl
        · exact absurd hp (hnot c hashes hitBlocks lease)
      refine h.ask hldg fun hmat => hsm ?_
      intro p hp
      simp [hldg p hp, hmat p hp]

end

/-- An allocation accepts nothing; it keeps the probe or removes it. -/
theorem frame_alloc (s : QueryClient) (ctx : QueryContext) (blockHashes : List BlockHash)
    (blockIds : List BlockId) (numComputedBlocks numExternalTokens : Nat)
    (releaseError : Option String) :
    Frame s (s.updateStateAfterAlloc ctx blockHashes blockIds numComputedBlocks
        numExternalTokens releaseError).2 ∧
      ((s.updateStateAfterAlloc ctx blockHashes blockIds numComputedBlocks numExternalTokens
          releaseError).2.probe = s.probe ∨
        (s.updateStateAfterAlloc ctx blockHashes blockIds numComputedBlocks numExternalTokens
          releaseError).2.probe = none) := by
  unfold updateStateAfterAlloc
  dsimp only
  have hk : Frame s s ∧ (s.probe = s.probe ∨ s.probe = none) := ⟨⟨rfl, rfl, rfl⟩, Or.inl rfl⟩
  have hrld := And.intro (s.frame_release releaseError)
    (Or.inr (a := (s.releasePendingQueryProbe releaseError).probe = s.probe)
      (s.release_probe releaseError))
  split
  · exact hk
  split
  · exact hrld
  split
  · exact hk
  · exact hk
  · split
    · exact hrld
    · split
      · exact hk
      · exact ⟨⟨rfl, rfl, rfl⟩, Or.inr rfl⟩

theorem Held.step (h : s.Held ctx) (hsm : s.SameQuery ctx ev) (hst : s.step ctx ev = some s') :
    s'.Held ctx := by
  cases ev with
  | call numComputedTokens blockHashes delivery releaseError =>
    cases hst
    exact h.call hsm
  | alloc blockHashes blockIds numComputedBlocks numExternalTokens releaseError =>
    cases hst
    obtain ⟨hfrm, hk | hn⟩ := s.frame_alloc ctx blockHashes blockIds numComputedBlocks
      numExternalTokens releaseError
    · exact h.mono hfrm.accepted (by rw [hfrm.granted]) (Or.inl hk)
    · exact h.frame hfrm hn
  | drop releaseError =>
    cases hst
    exact h.release releaseError
  | stray queryHashes | other instanceId target reqId queryHashes =>
    obtain ⟨-, rfl⟩ := guarded_eq_some.mp hst
    exact h.mono rfl (QueryServer.queryPrefetch_cases rfl).granted (Or.inl rfl)
  | finishTask reqId outcome =>
    obtain ⟨q, hq, rfl⟩ := map_eq_some_iff.mp hst
    obtain ⟨e, -, rfl⟩ := QueryServer.finishTask_eq_some hq
    exact h.mono rfl prefix_rfl (Or.inl rfl)
  | gc stale staleFailed | cache cache | sweepExpired expired =>
    cases hst
    exact h.mono rfl prefix_rfl (Or.inl rfl)

/-! ## Probe and task in step -/

/-- While a task of the request is active the connector does not find the whole
prompt computed or the server unavailable, releases do not fail, and the probe is not
dropped; abandoned queries do not reach the server, and the task is not collected as
stale. -/
def Orderly (ctx : QueryContext) (s : QueryClient) : ProbeEvent → Prop
  | .call numComputedTokens blockHashes delivery releaseError =>
    s.server.active.lookup ctx.reqId = none ∨
      blockHashes.drop (numComputedTokens / ctx.virtualBlockSize) ≠ [] ∧
        delivery ≠ .unavailable ∧ releaseError = none
  | .alloc _ _ _ _ _ => s.server.active.lookup ctx.reqId = none
  | .drop _ => s.server.active.lookup ctx.reqId = none
  | .stray _ => False
  | .gc stale _ => s.server.active.lookup ctx.reqId = none ∨ ctx.reqId ∉ stale
  | _ => True

/-- The probe is absent or ready. -/
def Quiet (s : QueryClient) : Prop := ∀ p ∈ s.probe, p.hitBlocks ≠ none

/-- A task is active exactly while the probe is loading, and is for the probe's
query. -/
structure InStep (ctx : QueryContext) (s : QueryClient) : Prop where
  running : ∀ e, s.server.active.lookup ctx.reqId = some e →
    ∃ p, s.probe = some p ∧ p.hitBlocks = none ∧
      e.input.keys = queryKeys ctx.target.nameSpace p.queryHashes
  idle : s.server.active.lookup ctx.reqId = none → s.Quiet

theorem inStep_init (ctx : QueryContext) : init.InStep ctx := ⟨nofun, fun _ => nofun⟩

theorem inStep_of_idle (hact : s.server.active.lookup ctx.reqId = none) (hqt : s.Quiet) :
    s.InStep ctx := by
  refine ⟨?_, fun _ => hqt⟩
  intro e he
  rw [hact] at he
  cases he

theorem quiet_of_probe_none (h : s.probe = none) : s.Quiet := by
  intro p hp
  rw [h] at hp
  cases hp

theorem InStep.probe_none (h : s.InStep ctx) (hldg : ∀ p ∈ s.probe, p.hitBlocks = none)
    (hact : s.server.active.lookup ctx.reqId = none) : s.probe = none := by
  cases hprb : s.probe with
  | none => rfl
  | some p => exact absurd (hldg p hprb) (h.idle hact p hprb)

section

variable (hact : s.server.active.lookup ctx.reqId = none)
include hact

theorem finishCacheLookup_inStep (hqt : s.Quiet) (p : QueryProbe) (hitBlocks : Nat)
    (releaseError : Option String) :
    (s.finishCacheLookup ctx p hitBlocks releaseError).2.InStep ctx := by
  unfold finishCacheLookup
  dsimp only
  split
  · refine inStep_of_idle ?_ (quiet_of_probe_none (release_probe _ _))
    rw [(frame_release _ _).active]
    exact hact
  · exact inStep_of_idle hact hqt

theorem markReady_inStep (hle : ready.numHitBlocks ≤ p.queryHashes.length)
    (releaseError : Option String) : (s.markReady ctx p ready releaseError).2.InStep ctx := by
  unfold markReady
  rw [if_neg (Nat.not_lt.mpr hle)]
  refine finishCacheLookup_inStep ?_ ?_ _ _ _
  · exact hact
  · rintro _ ⟨⟩
    exact nofun

/-- An answer ends the loading of the probe, if it does not count more blocks than
were asked for and a stale lease can be released. -/
theorem receiveReady_inStep
    (hle : (∀ p ∈ s.probe, p.Matches computedBlocks queryHashes) → ready.numHitBlocks ≤ queryHashes.length)
    (hrl : s.probe = none ∨ releaseError = none) :
    (s.receiveReady ctx computedBlocks queryHashes ready releaseError).2.InStep ctx := by
  unfold receiveReady
  cases hprb : s.probe with
  | none => exact markReady_inStep hact (hle (by simp [hprb])) _
  | some p =>
    obtain rfl : releaseError = none := by simpa [hprb] using hrl
    dsimp only
    split
    next hmat =>
      refine markReady_inStep hact ?_ _
      rw [hmat.2]
      exact hle (by simpa [hprb] using hmat)
    · split
      next heq => cases heq
      · refine inStep_of_idle ?_ (quiet_of_probe_none rfl)
        rw [← (s.frame_releaseLease ready.lease none).active] at hact
        exact hact

end

theorem InStep.ask (h : s.InStep ctx) (hldg : ∀ p ∈ s.probe, p.hitBlocks = none)
    (hord : s.server.active.lookup ctx.reqId = none ∨
      delivery ≠ .unavailable ∧ releaseError = none) :
    (s.ask ctx computedBlocks queryHashes delivery releaseError).2.InStep ctx := by
  cases delivery with
  | failed message => exact ⟨h.running, h.idle⟩
  | unavailable =>
    have hact : s.server.active.lookup ctx.reqId = none :=
      hord.resolve_right fun hne => hne.1 rfl
    refine receiveReady_inStep ?_ ?_ (Or.inl ?_)
    · exact hact
    · exact fun _ => Nat.zero_le _
    · exact h.probe_none hldg hact
  | answered =>
    unfold QueryClient.ask
    rcases hq : s.server.queryPrefetch ctx.stores ctx.instanceId ctx.target ctx.reqId
      queryHashes with ⟨ready, q⟩
    cases QueryServer.queryPrefetch_cases hq with
    | waits hact _ =>
      obtain ⟨p, hp, -⟩ := h.running _ hact
      refine ⟨?_, ?_⟩
      · rw [hp, some_or, ← hp]
        exact h.running
      · rw [hp, some_or, ← hp]
        exact h.idle
    | starts hact hkeys =>
      rw [h.probe_none hldg hact]
      refine ⟨?_, ?_⟩
      · intro e he
        rw [lookup_insert] at he
        cases he
        exact ⟨_, rfl, rfl, hkeys⟩
      · intro hid
        rw [lookup_insert] at hid
        cases hid
    | takes hact hfin hbk hgr hqa =>
      obtain ⟨p, hp, -, hkeys⟩ := h.running _ hact
      have hrld : releaseError = none := by
        rw [hact] at hord
        exact (hord.resolve_left nofun).2
      refine receiveReady_inStep ?_ ?_ (Or.inr hrld)
      · rw [hqa, lookup_erase]
      · intro hmat
        have hanswer := PrefetchEntry.answer_keys hfin
        rw [hkeys, (hmat p hp).2] at hanswer
        exact hits_le_of_backed hbk hanswer
    | scans hact hbk hgr hqa =>
      refine receiveReady_inStep ?_ ?_ (Or.inl (h.probe_none hldg hact))
      · rw [hqa]
        exact hact
      · exact fun _ => hits_le_of_backed hbk (collectPrefix_keys _ _)

theorem inStep_release (hact : s.server.active.lookup ctx.reqId = none)
    (releaseError : Option String) : (s.releasePendingQueryProbe releaseError).InStep ctx := by
  refine inStep_of_idle ?_ (quiet_of_probe_none (s.release_probe releaseError))
  rw [(s.frame_release releaseError).active]
  exact hact

theorem InStep.call (h : s.InStep ctx)
    (hord : s.Orderly ctx (.call numComputedTokens blockHashes delivery releaseError)) :
    (s.getNumNewMatchedTokens ctx numComputedTokens blockHashes delivery releaseError).2.InStep
      ctx := by
  unfold getNumNewMatchedTokens
  dsimp only
  split
  · exact h
  split
  next hemp =>
    have hact := hord.resolve_right fun hne => hne.1 hemp
    obtain ⟨hrng, hid⟩ := inStep_release hact releaseError
    exact ⟨hrng, hid⟩
  · split
    next c hashes hitBlocks lease hprb =>
      have hact : s.server.active.lookup ctx.reqId = none := by
        rw [eq_none_iff_forall_ne_some]
        intro e he
        obtain ⟨p, hp, hldg, -⟩ := h.running e he
        cases hprb.symm.trans hp
        cases hldg
      split
      · exact finishCacheLookup_inStep hact (h.idle hact) _ _ _
      refine (inStep_release hact releaseError).ask (by simp [release_probe]) (Or.inl ?_)
      rw [(s.frame_release releaseError).active]
      exact hact
    next hnot =>
      refine h.ask ?_ (hord.imp_right And.right)
      rintro ⟨c, hashes, _ | hitBlocks, lease⟩ hp
      · rfl
      · exact absurd hp (hnot c hashes hitBlocks lease)

/-- A step that keeps the probe and the request's task, up to the task's result, keeps
the two in step. -/
theorem InStep.mono (h : s.InStep ctx) (hprb : s'.probe = s.probe)
    (hinput : (s'.server.active.lookup ctx.reqId).map PrefetchEntry.input
      = (s.server.active.lookup ctx.reqId).map PrefetchEntry.input) : s'.InStep ctx := by
  constructor
  · intro e' he'
    rw [he', eq_comm] at hinput
    obtain ⟨e, he, heq⟩ := map_eq_some_iff.mp hinput
    rw [hprb, ← heq]
    exact h.running e he
  · intro hid
    rw [hid, map_none, eq_comm, map_eq_none_iff] at hinput
    intro p hp
    rw [hprb] at hp
    exact h.idle hinput p hp

theorem InStep.step (h : s.InStep ctx) (hord : s.Orderly ctx ev) (hst : s.step ctx ev = some s') :
    s'.InStep ctx := by
  cases ev with
  | call numComputedTokens blockHashes delivery releaseError =>
    cases hst
    exact h.call hord
  | alloc blockHashes blockIds numComputedBlocks numExternalTokens releaseError =>
    cases hst
    obtain ⟨hfrm, hprb⟩ := s.frame_alloc ctx blockHashes blockIds numComputedBlocks
      numExternalTokens releaseError
    have hact : s.server.active.lookup ctx.reqId = none := hord
    refine inStep_of_idle (by rw [hfrm.active]; exact hact) ?_
    rcases hprb with hk | hn
    · intro p hp
      rw [hk] at hp
      exact h.idle hact p hp
    · exact quiet_of_probe_none hn
  | drop releaseError =>
    cases hst
    exact inStep_release hord releaseError
  | stray queryHashes => exact hord.elim
  | other instanceId target reqId queryHashes =>
    obtain ⟨hne, rfl⟩ := guarded_eq_some.mp hst
    refine h.mono rfl (congrArg (Option.map PrefetchEntry.input) ?_)
    exact (QueryServer.queryPrefetch_cases rfl).lookup_ne hne.symm
  | finishTask reqId outcome =>
    obtain ⟨q, hq, rfl⟩ := map_eq_some_iff.mp hst
    obtain ⟨e, he, rfl⟩ := QueryServer.finishTask_eq_some hq
    refine h.mono rfl ?_
    by_cases hreq : ctx.reqId = reqId
    · rw [hreq, lookup_insert, he]
      rfl
    · rw [lookup_insert_ne hreq]
  | gc stale staleFailed =>
    cases hst
    refine h.mono rfl (congrArg (Option.map PrefetchEntry.input) ?_)
    rw [QueryServer.gcStaleEntries, Table.lookup_foldl_erase]
    rcases hord with hact | hk
    · rw [hact, ite_self]
    · rw [if_neg hk]
  | cache cache | sweepExpired expired =>
    cases hst
    exact h.mono rfl rfl

theorem InStep.sameQuery (h : s.InStep ctx) : s.SameQuery ctx ev := by
  cases ev with
  | call numComputedTokens blockHashes delivery releaseError =>
    intro haccepts e he _
    obtain ⟨p, hp, hldg, hkeys⟩ := h.running e he
    rw [hkeys, ((haccepts p hp).mp hldg).2]
  | _ => trivial

instance (ctx : QueryContext) (s : QueryClient) (ev : ProbeEvent) :
    Decidable (s.Orderly ctx ev) :=
  match ev with
  | .call _ _ _ _ => inferInstanceAs (Decidable (_ ∨ _ ∧ _ ∧ _))
  | .alloc _ _ _ _ _ | .drop _ => inferInstanceAs (Decidable (_ = none))
  | .stray _ => isFalse id
  | .gc _ _ => inferInstanceAs (Decidable (_ ∨ _))
  | .other _ _ _ _ | .finishTask _ _ | .cache _ | .sweepExpired _ => isTrue trivial

/-! ## Every run -/

/-- In every run in which no call that would accept the answer finds a task finished
for another query, every accepted answer has a lease on the blocks of the query it was
accepted for.  Orderly runs are such runs. -/
theorem accepted_identified_of_sameQuery (ctx : QueryContext) :
    (∀ events s, Run.Meets (step ctx) (SameQuery ctx) init events →
      Run.exec (step ctx) init events = some s → s.Identified ctx) ∧
    ∀ events, Run.Meets (step ctx) (Orderly ctx) init events →
      Run.Meets (step ctx) (SameQuery ctx) init events := by
  constructor
  · intro events s hmeets hrun
    have hheld : s.Held ctx :=
      exec_invariant_of_meets (fun _ _ _ h hsame hstep => h.step hsame hstep) (held_init ctx)
        hmeets hrun
    exact hheld.accepted
  · intro events hmeets
    exact meets_of_invariant (I := InStep ctx) (fun _ _ _ h hord hstep => h.step hord hstep)
      (fun _ _ h _ => h.sameQuery) (inStep_init ctx) hmeets

/-- An instance of the namespace `ns` with blocks of 16 tokens and an SSD, and the
request `r`. -/
def ssdContext : QueryContext := ⟨⟨true, 16⟩, "i", ⟨"ns", 1⟩, "r", ⟨false, true⟩⟩

/-- The query starts a task, one more block is computed, the drifted answer is
discarded, and the query of the rest is asked and answered. -/
theorem accepted_identified_of_sameQuery_drifted :
    ∃ s ∈ Run.exec (step ssdContext) init
        [.call 0 [[0], [1], [2]] .answered none, .call 16 [[0], [1], [2]] .answered none,
          .finishTask "r" ⟨none, some (1, [(⟨"ns", [0]⟩, .plain 8)])⟩,
          .call 16 [[0], [1], [2]] .answered none, .call 16 [[0], [1], [2]] .answered none,
          .finishTask "r" ⟨none, some (2, [(⟨"ns", [1]⟩, .plain 8), (⟨"ns", [2]⟩, .plain 8)])⟩,
          .call 16 [[0], [1], [2]] .answered none],
      s.accepted = [⟨[[1], [2]], 2, some 1⟩] ∧ s.Identified ssdContext := by
  refine exists_mem_imp (Q := fun s => s.accepted = [⟨[[1], [2]], 2, some 1⟩]) (by decide)
    fun s hs haccepted => ?_
  obtain ⟨hidentified, horderly⟩ := accepted_identified_of_sameQuery ssdContext
  exact ⟨haccepted, hidentified _ s (horderly _ (by decide)) hs⟩

/-- The probe of the first query is dropped when the whole prompt is computed
locally, and its task finishes with the first block.  After a preemption two blocks
are left of the prompt's four; the query of the last two gets the first one. -/
theorem dropped_probe_accepts_old_result :
    ∃ s ∈ Run.exec (step ssdContext) init
        [.call 0 [[0], [1], [2], [3]] .answered none,
          .call 64 [[0], [1], [2], [3]] .answered none,
          .finishTask "r" ⟨none, some (1, [(⟨"ns", [0]⟩, .plain 8)])⟩,
          .call 32 [[0], [1], [2], [3]] .answered none],
      ¬ s.Identified ssdContext := by
  refine exists_mem_imp (Q := fun s => s.accepted = [⟨[[2], [3]], 1, some 0⟩] ∧
      s.server.leases.granted.map (fun lease => lease.blocks.map Prod.fst) = [[⟨"ns", [0]⟩]]) (by decide)
    fun s hs hrun => ?_
  obtain ⟨haccepted, hgranted⟩ := hrun
  refine fun hidentified => ?_
  obtain ⟨token, lease, hash, block, htoken, hlease, hhash, hblock⟩ :=
    hidentified ⟨[[2], [3]], 1, some 0⟩ (by simp [haccepted]) 0 Nat.one_pos
  cases htoken
  cases hhash
  have hkeys : (lease.blocks.map Prod.fst)[0]? = some ⟨"ns", [2]⟩ := by
    rw [getElem?_map, hblock]
    rfl
  have hfirst : lease.blocks.map Prod.fst = [⟨"ns", [0]⟩] := by
    have hmapped := congrArg (fun l => l[0]?) hgranted
    rw [getElem?_map, hlease] at hmapped
    exact some.inj hmapped
  rw [hfirst] at hkeys
  exact absurd hkeys (by decide)

end QueryClient

end PegaFlow.Connector
