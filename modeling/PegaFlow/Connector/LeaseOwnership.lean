import PegaFlow.Connector.SchedulerConnector

/-!
# Where the leases of the scheduler connector go

Every lease the connector receives for a request is held in the request's probe, until it is moved
into a load intent or released.  One thing breaks this: `mark_ready` raises on an answer with more
hits than hashes, and the lease of that answer is neither kept nor released.  Without such answers
(`Bounded`) the books balance after every sequence of calls.

`_cleanup_request` empties the probe of the request, but not its pending load intent.  A request
that is cleaned up between its allocation and the next metadata leaves its intent, and the lease in
it, behind; otherwise (`Settled`) nothing of it is left.
-/

namespace PegaFlow.Connector

open Storage (LeaseId QueryReady)
open List AList Run

namespace SchedulerConnector

variable {ctx : ConnectorContext} {s s' : SchedulerConnector} {r q : ReqId} {ev : ConnectorCall}
variable {events : List ConnectorCall}

variable (ctx) (s)

/-- The request has moved on since its probe was stored. -/
def Drifted (r : ReqId) (computedBlocks : Nat) (queryHashes : List BlockHash) : Prop :=
  ∃ p ∈ s.pendingQueryProbes.lookup r, p.hitBlocks = none ∧ ¬ p.Matches computedBlocks queryHashes

instance (r : ReqId) (computedBlocks : Nat) (queryHashes : List BlockHash) :
    Decidable (s.Drifted r computedBlocks queryHashes) :=
  inferInstanceAs (Decidable (∃ _ ∈ _, _ ∧ _))

/-- An answer with a lease counts at most the hashes it was asked for, unless it is for a query the
request has moved on from. -/
def Bounded : ConnectorCall → Prop
  | .getNumNewMatchedTokens r numComputedTokens blockHashes (.ready ready) _ =>
    let computedBlocks := numComputedTokens / ctx.virtualBlockSize
    let queryHashes := blockHashes.drop computedBlocks
    s.Drifted r computedBlocks queryHashes ∨ ready.lease = none ∨
      ready.numHitBlocks ≤ queryHashes.length
  | _ => True

instance decidableBounded : ∀ ev, Decidable (s.Bounded ctx ev)
  | .getNumNewMatchedTokens _ _ _ (.ready _) _ => inferInstanceAs (Decidable (_ ∨ _ ∨ _))
  | .getNumNewMatchedTokens _ _ _ .loading _ | .getNumNewMatchedTokens _ _ _ (.raised _) _
  | .updateStateAfterAlloc .. | .buildConnectorMeta _ _ | .requestFinished _
  | .updateConnectorOutput _ | .shutdown => isTrue trivial

/-- A request is finished only when its load intent was handed over. -/
def Settled : ConnectorCall → Prop
  | .requestFinished r => r ∉ s.pendingLoadIntents
  | .updateConnectorOutput finishedSending =>
    ∀ r ∈ finishedSending, r ∈ s.heldRequests → r ∉ s.pendingLoadIntents
  | _ => True

instance decidableSettled : ∀ ev, Decidable (s.Settled ev)
  | .requestFinished _ => inferInstanceAs (Decidable (_ ∉ _))
  | .updateConnectorOutput _ => inferInstanceAs (Decidable (∀ _ ∈ _, _ → _))
  | .getNumNewMatchedTokens .. | .updateStateAfterAlloc .. | .buildConnectorMeta _ _ | .shutdown =>
    isTrue trivial

variable {ctx} {s}

/-! ## The books -/

/-- Each lease that was received for a request is placed in a load intent, released or held, as
often as it was received.  A probe that is loading has no lease. -/
structure Balanced (s : SchedulerConnector) : Prop where
  loading : ∀ r, ∀ p ∈ s.pendingQueryProbes.lookup r, p.hitBlocks = none → p.lease = none
  count : ∀ r lease, s.received.count (r, lease) =
    s.placed.count (r, lease) + s.released.count (r, lease) + (s.heldLease r).toList.count lease

theorem balanced_init : init.Balanced where
  loading := fun r p h => by cases h
  count := fun r lease => rfl

theorem count_map_tag (l : List LeaseId) (lease : LeaseId) :
    (l.map (r, ·)).count (q, lease) = if q = r then l.count lease else 0 := by
  split
  next heq =>
    rw [heq]
    exact count_map_of_injective l _ (Prod.mk_right_injective r) lease
  next hne =>
    rw [count_eq_zero]
    intro hm
    obtain ⟨_, -, heq⟩ := mem_map.mp hm
    exact hne (congrArg Prod.fst heq).symm

/-- A callback for a request moves its leases: what it got and what it held before is what it
placed, what it released and what it holds. -/
theorem Balanced.of_moves (hs : s.Balanced) (got gone freed : List LeaseId)
    (hfrm : ∀ q, q ≠ r → s'.pendingQueryProbes.lookup q = s.pendingQueryProbes.lookup q)
    (hldg : ∀ p ∈ s'.pendingQueryProbes.lookup r, p.hitBlocks = none → p.lease = none)
    (hreceived : s'.received = s.received ++ got.map (r, ·))
    (hplc : s'.placed = s.placed ++ gone.map (r, ·))
    (hrld : s'.released = s.released ++ freed.map (r, ·))
    (hmoves : (got ++ (s.heldLease r).toList).Perm
      (gone ++ freed ++ (s'.heldLease r).toList)) : s'.Balanced := by
  constructor
  · intro q p hp hn
    by_cases hq : q = r
    · subst hq
      exact hldg p hp hn
    · rw [hfrm q hq] at hp
      exact hs.loading q p hp hn
  · intro q lease
    have hct := hs.count q lease
    rw [hreceived, hplc, hrld]
    simp only [count_append, count_map_tag]
    by_cases hq : q = r
    · subst hq
      have hperm := hmoves.count_eq lease
      simp only [count_append] at hperm
      simp only [if_true]
      omega
    · rw [if_neg hq, if_neg hq, if_neg hq, heldLease, hfrm q hq]
      rw [heldLease] at hct
      omega

/-! ## The save half -/

/-- The part of the state that the save half leaves alone. -/
structure SameLeases (s s' : SchedulerConnector) : Prop where
  probes : s'.pendingQueryProbes = s.pendingQueryProbes
  intents : s'.pendingLoadIntents = s.pendingLoadIntents
  received : s'.received = s.received
  made : s'.made = s.made
  released : s'.released = s.released
  cleaned : s'.cleaned = s.cleaned

namespace SameLeases

theorem refl (s : SchedulerConnector) : SameLeases s s := ⟨rfl, rfl, rfl, rfl, rfl, rfl⟩

theorem trans {s'' : SchedulerConnector} (h : SameLeases s s') (h' : SameLeases s' s'') :
    SameLeases s s'' where
  probes := h'.probes.trans h.probes
  intents := h'.intents.trans h.intents
  received := h'.received.trans h.received
  made := h'.made.trans h.made
  released := h'.released.trans h.released
  cleaned := h'.cleaned.trans h.cleaned

theorem balanced (h : SameLeases s s') (hs : s.Balanced) : s'.Balanced := by
  constructor
  · rw [h.probes]
    exact hs.loading
  · intro r lease
    rw [placed, heldLease, h.received, h.made, h.released, h.probes]
    exact hs.count r lease

end SameLeases

theorem sameLeases_schedule (saves : Table ReqId SaveIntent) (r : ReqId) (t : Tracked) (c n : Nat) :
    SameLeases s (s.schedule ctx saves r t c n).2 :=
  ⟨rfl, rfl, rfl, rfl, rfl, rfl⟩

theorem sameLeases_processNew (saves : Table ReqId SaveIntent) (reqs : List NewRequest) :
    SameLeases s (s.processNew ctx saves reqs).2 := by
  induction reqs generalizing s saves with
  | nil => exact .refl s
  | cons req reqs ih =>
    rw [processNew]
    split
    next => exact .refl s
    next t _ => exact (sameLeases_schedule saves req.reqId _ _ _).trans (ih _)

theorem sameLeases_processCached (ctx : ConnectorContext) (reqs : List CachedRequest)
    (p : Table ReqId SaveIntent × SchedulerConnector) :
    SameLeases p.2 (reqs.foldl (processCached ctx) p).2 := by
  refine foldlRecOn (motive := fun q => SameLeases p.2 (Prod.snd q)) reqs _ (.refl p.2)
    fun q hsm req _ => ?_
  refine hsm.trans ?_
  rw [processCached]
  split
  next => exact .refl q.2
  next => exact sameLeases_schedule _ _ _ _ _

theorem sameLeases_buildConnectorMeta (newReqs : List NewRequest)
    (cachedReqs : List CachedRequest) :
    SameLeases { s with pendingLoadIntents := ∅ }
      (s.buildConnectorMeta ctx newReqs cachedReqs).2 := by
  have hnew : SameLeases { s with pendingLoadIntents := ∅ }
      ({ s with pendingLoadIntents := ∅ }.processNew ctx ∅ newReqs).2 :=
    sameLeases_processNew ∅ newReqs
  rw [buildConnectorMeta]
  split
  next message s₁ heq =>
    rw [heq] at hnew
    exact hnew
  next saves s₁ heq =>
    rw [heq] at hnew
    refine hnew.trans ((sameLeases_processCached ctx cachedReqs (saves, s₁)).trans ?_)
    exact ⟨rfl, rfl, rfl, rfl, rfl, rfl⟩

theorem sameLeases_finalSave (ctx : ConnectorContext) (r : ReqId) :
    SameLeases s (s.finalSave ctx r) := by
  rw [finalSave]
  split
  next => exact .refl s
  next =>
    split
    next =>
      split
      next => exact ⟨rfl, rfl, rfl, rfl, rfl, rfl⟩
      next => exact .refl s
    next => exact .refl s

/-! ## The callbacks of one request -/

/-- A callback for `r` keeps the books balanced and leaves the other requests alone. -/
structure Handles (r : ReqId) (s s' : SchedulerConnector) : Prop where
  balanced : s'.Balanced
  probes : ∀ q, q ≠ r → s'.pendingQueryProbes.lookup q = s.pendingQueryProbes.lookup q
  intents : ∀ q, q ≠ r → s'.pendingLoadIntents.lookup q = s.pendingLoadIntents.lookup q
  cleaned : s'.cleaned = s.cleaned

namespace Handles

theorem refl (hs : s.Balanced) : Handles r s s := ⟨hs, fun _ _ => rfl, fun _ _ => rfl, rfl⟩

theorem trans {s'' : SchedulerConnector} (h : Handles r s s') (h' : Handles r s' s'') :
    Handles r s s'' where
  balanced := h'.balanced
  probes := fun q hq => (h'.probes q hq).trans (h.probes q hq)
  intents := fun q hq => (h'.intents q hq).trans (h.intents q hq)
  cleaned := h'.cleaned.trans h.cleaned

theorem of_sameLeases (hs : s.Balanced) (h : SameLeases s s') : Handles r s s' where
  balanced := h.balanced hs
  probes := fun q _ => by rw [h.probes]
  intents := fun q _ => by rw [h.intents]
  cleaned := h.cleaned

end Handles

theorem heldLease_of_loading (hs : s.Balanced)
    (h : ∀ p ∈ s.pendingQueryProbes.lookup r, p.hitBlocks = none) : s.heldLease r = none := by
  rw [heldLease]
  cases hp : s.pendingQueryProbes.lookup r with
  | none => rfl
  | some p => exact hs.loading r p hp (h p hp)

theorem lookup_releasePendingQueryProbe :
    (s.releasePendingQueryProbe r).pendingQueryProbes.lookup r = none := by
  rw [releasePendingQueryProbe]
  split
  next hn => exact hn
  next => exact lookup_erase r _

section

variable (hs : s.Balanced)
include hs

theorem handles_releasePendingQueryProbe : Handles r s (s.releasePendingQueryProbe r) := by
  rw [releasePendingQueryProbe]
  split
  next => exact .refl hs
  next p hp =>
    have hfrm : ∀ q, q ≠ r →
        (s.pendingQueryProbes.erase r).lookup q = s.pendingQueryProbes.lookup q :=
      fun q hq => lookup_erase_ne hq
    refine ⟨?_, hfrm, fun _ _ => rfl, rfl⟩
    refine hs.of_moves [] [] p.lease.toList hfrm ?_ ?_ ?_ rfl ?_
    · intro p' hp'
      rw [lookup_erase] at hp'
      cases hp'
    · exact (append_nil _).symm
    · exact (append_nil _).symm
    · simp [heldLease, hp]

theorem handles_finishCacheLookup (p : QueryProbe) (hitBlocks : Nat) :
    Handles r s (s.finishCacheLookup ctx r p hitBlocks).2 := by
  have hsm : ∀ matched, SameLeases s { s with externalMatchedBlocks := matched } :=
    fun matched => ⟨rfl, rfl, rfl, rfl, rfl, rfl⟩
  rw [finishCacheLookup]
  split
  next =>
    exact (Handles.of_sameLeases hs (hsm _)).trans
      (handles_releasePendingQueryProbe ((hsm _).balanced hs))
  next => exact .of_sameLeases hs (hsm _)

variable {ready : QueryReady}

/-- An answer within its bound is stored in the probe. -/
theorem handles_markReady (hh : s.heldLease r = none) {p : QueryProbe} (hn : p.lease = none)
    (hbd : ready.lease = none ∨ ready.numHitBlocks ≤ p.queryHashes.length) :
    Handles r s ({ s with received := s.received ++ ready.lease.toList.map (r, ·) }.markReady ctx r p
      ready).2 := by
  -- what is stored holds the lease of the answer, or there is none
  have hstd : ∀ p' : QueryProbe, p'.lease = ready.lease → (p'.hitBlocks = none → p'.lease = none) →
      Handles r s
        { s with
          received := s.received ++ ready.lease.toList.map (r, ·)
          pendingQueryProbes := s.pendingQueryProbes.insert r p' } := by
    intro p' hls hldg
    have hfrm : ∀ q, q ≠ r →
        (s.pendingQueryProbes.insert r p').lookup q = s.pendingQueryProbes.lookup q :=
      fun q hq => lookup_insert_ne hq
    refine ⟨?_, hfrm, fun _ _ => rfl, rfl⟩
    refine hs.of_moves ready.lease.toList [] [] hfrm ?_ rfl (append_nil _).symm
      (append_nil _).symm ?_
    · intro p'' hp''
      rw [lookup_insert] at hp''
      cases hp''
      exact hldg
    · rw [hh]
      simp [heldLease, hls]
  rw [markReady]
  split
  next hlt =>
    rcases hbd with hls | hle
    · exact hstd p (hn.trans hls.symm) fun _ => hn
    · omega
  next =>
    have hrdy := hstd { p with hitBlocks := some ready.numHitBlocks, lease := ready.lease } rfl
      (fun h => by cases h)
    exact hrdy.trans (handles_finishCacheLookup hrdy.balanced _ _)

variable {computedBlocks : Nat} {queryHashes : List BlockHash} {releaseError : Option String}

theorem handles_receiveReady (hldg : ∀ p ∈ s.pendingQueryProbes.lookup r, p.hitBlocks = none)
    (hbd : (∃ p ∈ s.pendingQueryProbes.lookup r, ¬ p.Matches computedBlocks queryHashes) ∨ ready.lease = none ∨ ready.numHitBlocks ≤ queryHashes.length) :
    Handles r s (s.receiveReady ctx r computedBlocks queryHashes ready releaseError).2 := by
  have hh := heldLease_of_loading hs hldg
  rw [receiveReady]
  split
  next hl =>
    rcases hbd with ⟨p, hp, -⟩ | hbd
    · cases hl.symm.trans hp
    · exact handles_markReady hs hh rfl hbd
  next p hl =>
    have hls := hs.loading r p hl (hldg p hl)
    split
    next hmatch =>
      rcases hbd with ⟨p', hp', hnot⟩ | hbd
      · cases hl.symm.trans hp'
        exact absurd hmatch hnot
      · refine handles_markReady hs hh hls ?_
        rw [hmatch.2]
        exact hbd
    next =>
      split
      next =>
        refine ⟨?_, fun _ _ => rfl, fun _ _ => rfl, rfl⟩
        refine hs.of_moves ready.lease.toList [] ready.lease.toList (fun _ _ => rfl) (hs.loading r)
          rfl (append_nil _).symm rfl ?_
        rfl
      next =>
        have hfrm : ∀ q, q ≠ r →
            (s.pendingQueryProbes.erase r).lookup q = s.pendingQueryProbes.lookup q :=
          fun q hq => lookup_erase_ne hq
        refine ⟨?_, hfrm, fun _ _ => rfl, rfl⟩
        refine hs.of_moves ready.lease.toList [] ready.lease.toList hfrm ?_ rfl
          (append_nil _).symm rfl ?_
        · intro p' hp'
          rw [lookup_erase] at hp'
          cases hp'
        · rw [hh]
          simp [heldLease]

variable {answer : QueryAnswer}

theorem handles_ask (hldg : ∀ p ∈ s.pendingQueryProbes.lookup r, p.hitBlocks = none)
    (hbd : ∀ ready, answer = .ready ready → (∃ p ∈ s.pendingQueryProbes.lookup r, ¬ p.Matches computedBlocks queryHashes) ∨ ready.lease = none ∨ ready.numHitBlocks ≤ queryHashes.length) :
    Handles r s (s.ask ctx r computedBlocks queryHashes answer releaseError).2 := by
  cases answer with
  | raised message => exact .refl hs
  | ready ready => exact handles_receiveReady hs hldg (hbd ready rfl)
  | loading =>
    rw [ask]
    split
    next hn =>
      have hfrm : ∀ q, q ≠ r → (s.pendingQueryProbes.insert r
          ⟨computedBlocks, queryHashes, none, none⟩).lookup q = s.pendingQueryProbes.lookup q :=
        fun q hq => lookup_insert_ne hq
      refine ⟨?_, hfrm, fun _ _ => rfl, rfl⟩
      refine hs.of_moves [] [] [] hfrm ?_ (append_nil _).symm (append_nil _).symm
        (append_nil _).symm ?_
      · intro p hp
        rw [lookup_insert] at hp
        cases hp
        exact fun _ => rfl
      · simp [heldLease, hn]
    next => exact .refl hs

variable {blockHashes : List BlockHash}

theorem handles_getNumNewMatchedTokens {numComputedTokens : Nat}
    (hbd : s.Bounded ctx (.getNumNewMatchedTokens r numComputedTokens blockHashes answer releaseError)) :
    Handles r s (s.getNumNewMatchedTokens ctx r numComputedTokens blockHashes answer
      releaseError).2 := by
  rw [getNumNewMatchedTokens]
  split_ifs
  · exact .refl hs
  · have hrl := handles_releasePendingQueryProbe (r := r) hs
    exact hrl.trans (.of_sameLeases hrl.balanced ⟨rfl, rfl, rfl, rfl, rfl, rfl⟩)
  split
  next c h hitBlocks lease hl =>
    split_ifs
    · exact handles_finishCacheLookup hs _ _
    · have hrl := handles_releasePendingQueryProbe (r := r) hs
      refine hrl.trans (handles_ask hrl.balanced ?_ ?_)
      · intro p hp
        rw [lookup_releasePendingQueryProbe] at hp
        cases hp
      · -- the probe was ready, so the answer is for the current query
        rintro ready rfl
        rcases hbd with ⟨p, hp, hn, -⟩ | hbd
        · cases hl.symm.trans hp
          cases hn
        · exact Or.inr hbd
  next hl =>
    refine handles_ask hs ?_ ?_
    · rintro ⟨c, h, hitBlocks, lease⟩ hp
      cases hitBlocks with
      | none => rfl
      | some hitBlocks => exact absurd hp (hl c h hitBlocks lease)
    · rintro ready rfl
      exact hbd.imp_left fun ⟨p, hp, _, hnot⟩ => ⟨p, hp, hnot⟩

variable {blockIds : List BlockId} {numComputedBlocks numExternalTokens : Nat}

theorem handles_makeLoadIntent :
    Handles r s (s.makeLoadIntent ctx r blockHashes blockIds numComputedBlocks
      numExternalTokens).2 := by
  rw [makeLoadIntent]
  split_ifs
  · exact handles_releasePendingQueryProbe hs
  split
  next => exact .refl hs
  next => exact .refl hs
  next computedBlocks queryHashes hitBlocks lease hl =>
    split_ifs
    · exact handles_releasePendingQueryProbe hs
    split
    next => exact .refl hs
    next token =>
      have hfrm : ∀ q, q ≠ r →
          (s.pendingQueryProbes.erase r).lookup q = s.pendingQueryProbes.lookup q :=
        fun q hq => lookup_erase_ne hq
      refine ⟨?_, hfrm, fun q hq => lookup_insert_ne hq, rfl⟩
      refine hs.of_moves [] [token] [] hfrm ?_ (append_nil _).symm ?_ (append_nil _).symm ?_
      · intro p hp
        rw [lookup_erase] at hp
        cases hp
      · simp [placed]
      · simp [heldLease, hl]

theorem handles_updateStateAfterAlloc :
    Handles r s (s.updateStateAfterAlloc ctx r blockHashes blockIds numComputedBlocks
      numExternalTokens).2 := by
  have htrack : Handles r s (s.trackRequest r blockHashes) :=
    .of_sameLeases hs ⟨rfl, rfl, rfl, rfl, rfl, rfl⟩
  rw [updateStateAfterAlloc]
  split
  next => exact htrack
  next => exact htrack.trans (handles_makeLoadIntent htrack.balanced)

end

/-! ## Whole runs -/

/-- The books are balanced, and a request that was cleaned up has no probe. -/
structure Inv (s : SchedulerConnector) : Prop where
  balanced : s.Balanced
  clean : ∀ r ∈ s.cleaned, s.pendingQueryProbes.lookup r = none

theorem inv_init : init.Inv where
  balanced := balanced_init
  clean := fun r h => absurd h (Finset.notMem_empty r)

theorem Inv.of_handles (hs : s.Inv) (h : Handles r (s.reopen r) s') : s'.Inv where
  balanced := h.balanced
  clean := by
    intro q hq
    rw [h.cleaned] at hq
    obtain ⟨hne, hq⟩ := Finset.mem_erase.mp hq
    rw [h.probes q hne]
    exact hs.clean q hq

theorem Inv.of_sameLeases (hs : s.Inv) (h : SameLeases s s') : s'.Inv where
  balanced := h.balanced hs.balanced
  clean := by
    rw [h.cleaned, h.probes]
    exact hs.clean

theorem Inv.releasePendingQueryProbe (hs : s.Inv) : (s.releasePendingQueryProbe r).Inv where
  balanced := (handles_releasePendingQueryProbe hs.balanced).balanced
  clean := by
    have h := handles_releasePendingQueryProbe (r := r) hs.balanced
    intro q hq
    by_cases heq : q = r
    · rw [heq]
      exact lookup_releasePendingQueryProbe
    · rw [h.probes q heq]
      rw [h.cleaned] at hq
      exact hs.clean q hq

theorem Inv.cleanupRequest (hs : s.Inv) : (s.cleanupRequest r).Inv := by
  have hrl := hs.releasePendingQueryProbe (r := r)
  refine ⟨⟨hrl.balanced.loading, hrl.balanced.count⟩, ?_⟩
  intro q hq
  rcases Finset.mem_insert.mp hq with rfl | hq
  · exact lookup_releasePendingQueryProbe
  · exact hrl.clean q hq

theorem Inv.saveFinished (hs : s.Inv) : (s.saveFinished r).Inv := by
  have hsm : s.Inv → { s with pendingSaves := s.pendingSaves.erase r }.Inv :=
    fun hs => hs.of_sameLeases ⟨rfl, rfl, rfl, rfl, rfl, rfl⟩
  rw [SchedulerConnector.saveFinished]
  split
  next => exact (hsm hs).cleanupRequest.of_sameLeases ⟨rfl, rfl, rfl, rfl, rfl, rfl⟩
  next => exact hsm hs

theorem Inv.requestFinished (hs : s.Inv) : (s.requestFinished ctx r).2.Inv := by
  have hfnl := hs.of_sameLeases (sameLeases_finalSave ctx r)
  rw [SchedulerConnector.requestFinished]
  split
  next => exact hfnl.of_sameLeases ⟨rfl, rfl, rfl, rfl, rfl, rfl⟩
  next => exact hfnl.cleanupRequest

theorem inv_step (hs : s.Inv) (hbd : s.Bounded ctx ev) (h : s.step ctx ev = some s') :
    s'.Inv := by
  cases ev with
  | getNumNewMatchedTokens r numComputedTokens blockHashes answer releaseError =>
    cases h
    refine hs.of_handles (handles_getNumNewMatchedTokens ?_ hbd)
    exact ⟨hs.balanced.loading, hs.balanced.count⟩
  | updateStateAfterAlloc r blockHashes blockIds numComputedBlocks numExternalTokens =>
    cases h
    refine hs.of_handles (handles_updateStateAfterAlloc ?_)
    exact ⟨hs.balanced.loading, hs.balanced.count⟩
  | buildConnectorMeta newReqs cachedReqs =>
    cases h
    refine Inv.of_sameLeases ?_ (sameLeases_buildConnectorMeta newReqs cachedReqs)
    exact ⟨⟨hs.balanced.loading, hs.balanced.count⟩, hs.clean⟩
  | requestFinished r =>
    cases h
    exact hs.requestFinished
  | updateConnectorOutput finishedSending =>
    cases h
    exact foldlRecOn (motive := Inv) finishedSending _ hs fun s hs r _ => hs.saveFinished
  | shutdown =>
    cases h
    exact foldlRecOn (motive := Inv) _ _ hs fun s hs r _ => hs.releasePendingQueryProbe

/-- A request that was cleaned up has no load intent. -/
def Emptied (s : SchedulerConnector) : Prop :=
  ∀ r ∈ s.cleaned, s.pendingLoadIntents.lookup r = none

@[simp] theorem pendingLoadIntents_releasePendingQueryProbe :
    (s.releasePendingQueryProbe r).pendingLoadIntents = s.pendingLoadIntents := by
  rw [releasePendingQueryProbe]
  split <;> rfl

@[simp] theorem cleaned_releasePendingQueryProbe :
    (s.releasePendingQueryProbe r).cleaned = s.cleaned := by
  rw [releasePendingQueryProbe]
  split <;> rfl

@[simp] theorem heldRequests_releasePendingQueryProbe :
    (s.releasePendingQueryProbe r).heldRequests = s.heldRequests := by
  rw [releasePendingQueryProbe]
  split <;> rfl

theorem Emptied.of_handles (hs : s.Emptied) (h : Handles r (s.reopen r) s') : s'.Emptied := by
  intro q hq
  rw [h.cleaned] at hq
  obtain ⟨hne, hq⟩ := Finset.mem_erase.mp hq
  rw [h.intents q hne]
  exact hs q hq

theorem Emptied.of_sameLeases (hs : s.Emptied) (h : SameLeases s s') : s'.Emptied := by
  intro q hq
  rw [h.intents]
  rw [h.cleaned] at hq
  exact hs q hq

theorem Emptied.cleanupRequest (hs : s.Emptied) (hr : s.pendingLoadIntents.lookup r = none) :
    (s.cleanupRequest r).Emptied := by
  intro q hq
  simp only [SchedulerConnector.cleanupRequest, pendingLoadIntents_releasePendingQueryProbe,
    cleaned_releasePendingQueryProbe, Finset.mem_insert] at hq ⊢
  rcases hq with rfl | hq
  · exact hr
  · exact hs q hq

theorem Emptied.saveFinished (hs : s.Emptied)
    (hr : r ∈ s.heldRequests → s.pendingLoadIntents.lookup r = none) :
    (s.saveFinished r).Emptied := by
  rw [SchedulerConnector.saveFinished]
  split
  next hh =>
    have hclean : ({ s with pendingSaves := s.pendingSaves.erase r }.cleanupRequest r).Emptied :=
      Emptied.cleanupRequest hs (hr hh)
    exact hclean
  next => exact hs

theorem pendingLoadIntents_saveFinished :
    (s.saveFinished r).pendingLoadIntents = s.pendingLoadIntents := by
  rw [saveFinished]
  split
  next => exact pendingLoadIntents_releasePendingQueryProbe
  next => rfl

theorem heldRequests_saveFinished : (s.saveFinished r).heldRequests ⊆ s.heldRequests := by
  rw [saveFinished]
  split
  next =>
    simp only [cleanupRequest, heldRequests_releasePendingQueryProbe]
    exact Finset.erase_subset _ _
  next => exact Finset.Subset.refl _

theorem Emptied.updateConnectorOutput {l : List ReqId} (hs : s.Emptied)
    (hl : ∀ r ∈ l, r ∈ s.heldRequests → s.pendingLoadIntents.lookup r = none) :
    (s.updateConnectorOutput l).Emptied := by
  induction l generalizing s with
  | nil => exact hs
  | cons r l ih =>
    refine ih (hs.saveFinished (hl r mem_cons_self)) fun q hq hh => ?_
    rw [pendingLoadIntents_saveFinished]
    exact hl q (mem_cons_of_mem r hq) (heldRequests_saveFinished hh)

theorem Emptied.shutdown (hs : s.Emptied) : s.shutdown.Emptied := by
  refine foldlRecOn (motive := Emptied) _ _ hs fun s hs r _ q hq => ?_
  rw [pendingLoadIntents_releasePendingQueryProbe]
  rw [cleaned_releasePendingQueryProbe] at hq
  exact hs q hq

theorem emptied_step (hi : s.Inv) (hs : s.Emptied) (hbd : s.Bounded ctx ev)
    (hse : s.Settled ev) (h : s.step ctx ev = some s') : s'.Emptied := by
  have ho : ∀ r, (s.reopen r).Balanced :=
    fun r => ⟨hi.balanced.loading, hi.balanced.count⟩
  cases ev with
  | getNumNewMatchedTokens r numComputedTokens blockHashes answer releaseError =>
    cases h
    exact hs.of_handles (handles_getNumNewMatchedTokens (ho r) hbd)
  | updateStateAfterAlloc r blockHashes blockIds numComputedBlocks numExternalTokens =>
    cases h
    exact hs.of_handles (handles_updateStateAfterAlloc (ho r))
  | buildConnectorMeta newReqs cachedReqs =>
    cases h
    intro r _
    rw [(sameLeases_buildConnectorMeta newReqs cachedReqs).intents]
    exact lookup_empty r
  | requestFinished r =>
    cases h
    have hfnl := sameLeases_finalSave (s := s) ctx r
    rw [SchedulerConnector.requestFinished]
    split
    next =>
      exact (hs.of_sameLeases hfnl).of_sameLeases ⟨rfl, rfl, rfl, rfl, rfl, rfl⟩
    next =>
      refine (hs.of_sameLeases hfnl).cleanupRequest ?_
      rw [hfnl.intents]
      exact lookup_eq_none.mpr hse
  | updateConnectorOutput finishedSending =>
    cases h
    exact hs.updateConnectorOutput fun r hr hh =>
      lookup_eq_none.mpr (hse r hr hh)
  | shutdown =>
    cases h
    exact hs.shutdown

/-- After every sequence of calls in which the answers of the server are `Bounded`: each lease that
was received for a request is in one load intent, was released once or is held, and never two of
these; and a request that was cleaned up holds no lease in its probe, and none in a pending load
intent if its intents were handed over before it was finished. -/
theorem leases_owned (hbounded : Run.Meets (step ctx) (Bounded ctx) init events)
    (hrun : Run.exec (step ctx) init events = some s) :
    (∀ r lease, s.received.count (r, lease) =
      s.placed.count (r, lease) + s.released.count (r, lease) +
        (s.heldLease r).toList.count lease) ∧
    ∀ r ∈ s.cleaned, s.heldLease r = none ∧
      (Run.Meets (step ctx) Settled init events → r ∉ s.pendingLoadIntents) := by
  have hinv : s.Inv := exec_invariant_of_meets (fun s ev s' => inv_step) inv_init hbounded hrun
  refine ⟨hinv.balanced.count, fun r hr => ⟨?_, fun hsettled => ?_⟩⟩
  · rw [heldLease, hinv.clean r hr]
    rfl
  · have hemptied : s.Inv ∧ s.Emptied := by
      refine exec_invariant_of_meets (I := fun s => s.Inv ∧ s.Emptied) ?_
        ⟨inv_init, fun r h => absurd h (Finset.notMem_empty r)⟩ (hbounded.and hsettled) hrun
      intro s ev s' ⟨hinv, hs⟩ ⟨hb, hset⟩ h
      exact ⟨inv_step hinv hb h, emptied_step hinv hs hb hset h⟩
    exact lookup_eq_none.mp (hemptied.2 r hr)

/-- Read-only, blocks of two tokens. -/
def readOnly : ConnectorContext := ⟨⟨true, 2⟩, false⟩

/-- One request loads what it found, another is aborted before its allocation. -/
theorem leases_owned_load_and_abort :
    ∃ s ∈ Run.exec (step readOnly) init
      [.getNumNewMatchedTokens "loads" 0 [[1]] .loading none,
        .getNumNewMatchedTokens "loads" 0 [[1]] (.ready ⟨1, some 7⟩) none,
        .getNumNewMatchedTokens "aborts" 0 [[2]] (.ready ⟨1, some 8⟩) none,
        .updateStateAfterAlloc "loads" [[1]] [3] 0 2,
        .buildConnectorMeta [⟨"loads", some [3], 0, 2⟩] [],
        .requestFinished "aborts", .requestFinished "loads"],
      s.received = [("loads", 7), ("aborts", 8)] ∧ s.placed = [("loads", 7)] ∧
      s.released = [("aborts", 8)] ∧ s.cleaned = {"loads", "aborts"} ∧
      s.received.count ("loads", 7) = s.placed.count ("loads", 7) + s.released.count ("loads", 7) +
        (s.heldLease "loads").toList.count 7 ∧
      "loads" ∉ s.pendingLoadIntents := by
  refine exists_mem_of_eq rfl fun hrun => ?_
  have howned := leases_owned (by decide) hrun
  exact ⟨rfl, rfl, rfl, by decide, howned.1 "loads" 7, (howned.2 "loads" (by decide)).2 (by decide)⟩

/-- The server answers one hash with two hits: the lookup raises, and the lease is lost. -/
theorem excess_hits_lose_lease :
    ∃ s ∈ Run.exec (step readOnly) init
      [.getNumNewMatchedTokens "request" 0 [[1]] (.ready ⟨2, some 7⟩) none,
        .requestFinished "request"],
      s.received = [("request", 7)] ∧ s.placed = [] ∧ s.released = [] ∧
        s.heldLease "request" = none :=
  ⟨_, rfl, rfl, rfl, rfl, rfl⟩

-- A request that is finished before its intent is handed over leaves the intent behind.
example :
    ∃ s ∈ Run.exec (step readOnly) init
      [.getNumNewMatchedTokens "request" 0 [[1]] (.ready ⟨1, some 7⟩) none,
        .updateStateAfterAlloc "request" [[1]] [3] 0 2, .requestFinished "request"],
      "request" ∈ s.cleaned ∧ "request" ∈ s.pendingLoadIntents :=
  ⟨_, rfl, by decide, by decide⟩

end SchedulerConnector

end PegaFlow.Connector
