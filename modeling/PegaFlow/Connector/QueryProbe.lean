import PegaFlow.Connector.Scheduler
import PegaFlow.Storage.Prefetch

/-!
# Prefix queries of one request

`get_num_new_matched_tokens` and the load half of `update_state_after_alloc`
(`python/pegaflow/connector/scheduler.py`) for one request, against the server of
`PegaFlow.Storage.Prefetch`.

The connector keeps one `_QueryProbe` for the request: the query it asked, and the
answer once it is there.  The server keeps at most one prefetch task for the request
id.  The connector recognises an answer to an older query by its probe, so that works
as long as it has the probe of the query that started the server's task.

The calls of a request follow one another and each waits for its answer, so a call
and what the server does for it are one step.  Where the client reports an error or
an unavailable server, the query may still reach the server, at any later time
(`abandoned`, event `stray`).  Other requests of any instance run beside it (`other`).
-/

namespace PegaFlow.Connector

open Storage (BackingStores FoundBlock InstanceId LeaseId QueryLease QueryReady QueryServer
  Registered TaskOutcome queryKeys)

structure QueryContext extends SchedulerContext where
  instanceId : InstanceId
  target : Registered
  reqId : Storage.ReqId
  stores : BackingStores

/-- `_QueryProbe`.  It is loading while `hitBlocks` is absent. -/
structure QueryProbe where
  computedBlocks : Nat
  queryHashes : List BlockHash
  hitBlocks : Option Nat
  lease : Option LeaseId

variable (p : QueryProbe) (computedBlocks : Nat) (queryHashes : List BlockHash)

/-- `matches`. -/
def QueryProbe.Matches : Prop :=
  p.computedBlocks = computedBlocks ∧ p.queryHashes = queryHashes

instance : Decidable (p.Matches computedBlocks queryHashes) :=
  inferInstanceAs (Decidable (_ ∧ _))

structure LoadIntent where
  blockIds : List BlockId
  lease : LeaseId
  numTokens : Nat

/-- A `Ready` answer accepted for a query. -/
structure AcceptedQuery where
  queryHashes : List BlockHash
  hitBlocks : Nat
  lease : Option LeaseId
deriving DecidableEq

/-- What becomes of a query RPC.  The client turns an unavailable server into the
answer without hits. -/
inductive Delivery where
  | answered
  | unavailable
  | failed (message : String)
deriving DecidableEq

/-- What `get_num_new_matched_tokens` returns: `(None, False)`, a number of tokens, or
an exception. -/
inductive Lookup where
  | pending
  | matched (tokens : Nat)
  | raised (message : String)

/-- The connector's state for the request, and the server.  `accepted` records every
answer the connector accepted. -/
structure QueryClient where
  server : QueryServer
  probe : Option QueryProbe
  externalMatched : Option Nat
  loadIntent : Option LoadIntent
  abandoned : List (List BlockHash)
  accepted : List AcceptedQuery

inductive ProbeEvent where
  | call (numComputedTokens : Nat) (blockHashes : List BlockHash) (delivery : Delivery)
      (releaseError : Option String)
  | alloc (blockHashes : List BlockHash) (blockIds : List BlockId) (numComputedBlocks : Nat)
      (numExternalTokens : Nat) (releaseError : Option String)
  | drop (releaseError : Option String)
  | stray (queryHashes : List BlockHash)
  | other (instanceId : InstanceId) (target : Registered) (reqId : Storage.ReqId)
      (queryHashes : List BlockHash)
  | finishTask (reqId : Storage.ReqId) (outcome : TaskOutcome)
  | gc (stale staleFailed : List Storage.ReqId)
  | cache (cache : Table BlockKey SealedBlock)
  | sweepExpired (expired : List LeaseId)

namespace QueryClient

def init : QueryClient := ⟨.empty, none, none, none, [], []⟩

variable (ctx : QueryContext) (s : QueryClient)

/-- Release a lease, unless it is empty.  An RPC that fails leaves it to expire. -/
def releaseLease (lease : Option LeaseId) (releaseError : Option String) : QueryClient :=
  match lease, releaseError with
  | some token, none =>
    { s with server := { s.server with leases := s.server.leases.release token } }
  | _, _ => s

/-- `_release_pending_query_probe`. -/
def releasePendingQueryProbe (releaseError : Option String) : QueryClient :=
  match s.probe with
  | none => s
  | some p => { s.releaseLease p.lease releaseError with probe := none }

/-- `_finish_cache_lookup`. -/
def finishCacheLookup (p : QueryProbe) (hitBlocks : Nat)
    (releaseError : Option String) : Lookup × QueryClient :=
  let hitTokens := hitBlocks * ctx.virtualBlockSize
  let done : QueryClient :=
    { s with
      externalMatched := some (p.computedBlocks + hitBlocks)
      accepted := s.accepted ++ [⟨p.queryHashes, hitBlocks, p.lease⟩] }
  if hitTokens = 0 then (.matched 0, done.releasePendingQueryProbe releaseError)
  else (.matched hitTokens, done)

/-- `mark_ready` on the stored probe, and what follows it. -/
def markReady (p : QueryProbe) (ready : QueryReady)
    (releaseError : Option String) : Lookup × QueryClient :=
  if p.queryHashes.length < ready.numHitBlocks then
    (.raised s!"invariant violated: server returned {ready.numHitBlocks} hits for {p.queryHashes.length} hashes",
      { s with probe := some p })
  else
    let p' : QueryProbe := { p with hitBlocks := some ready.numHitBlocks, lease := ready.lease }
    finishCacheLookup ctx { s with probe := some p' } p' ready.numHitBlocks releaseError

/-- The end of `get_num_new_matched_tokens`: an answer is there. -/
def receiveReady (computedBlocks : Nat)
    (queryHashes : List BlockHash) (ready : QueryReady) (releaseError : Option String) : Lookup × QueryClient :=
  match s.probe with
  | none => s.markReady ctx ⟨computedBlocks, queryHashes, none, none⟩ ready releaseError
  | some p =>
    if p.Matches computedBlocks queryHashes then s.markReady ctx p ready releaseError
    else
      match ready.lease, releaseError with
      | some _, some message => (.raised message, s)
      | _, _ => (.pending, { s.releaseLease ready.lease releaseError with probe := none })

/-- Ask the server, and take its answer. -/
def ask (computedBlocks : Nat)
    (queryHashes : List BlockHash) (delivery : Delivery) (releaseError : Option String) : Lookup × QueryClient :=
  match delivery with
  | .answered =>
    match s.server.queryPrefetch ctx.stores ctx.instanceId ctx.target ctx.reqId queryHashes with
    | (some ready, q) =>
      { s with server := q }.receiveReady ctx computedBlocks queryHashes ready releaseError
    | (none, q) =>
      (.pending,
        { s with
          server := q
          probe := s.probe.or (some ⟨computedBlocks, queryHashes, none, none⟩) })
  | .unavailable =>
    { s with abandoned := s.abandoned ++ [queryHashes] }.receiveReady ctx computedBlocks
      queryHashes ⟨0, none⟩ releaseError
  | .failed message => (.raised message, { s with abandoned := s.abandoned ++ [queryHashes] })

def getNumNewMatchedTokens (numComputedTokens : Nat)
    (blockHashes : List BlockHash) (delivery : Delivery) (releaseError : Option String) :
    Lookup × QueryClient :=
  let computedBlocks := numComputedTokens / ctx.virtualBlockSize
  let queryHashes := blockHashes.drop computedBlocks
  if ctx.readEnabled = false then (.matched 0, s)
  else if queryHashes = [] then
    (.matched 0,
      { s.releasePendingQueryProbe releaseError with externalMatched := some computedBlocks })
  else
    match s.probe with
    | some ⟨c, h, some hitBlocks, lease⟩ =>
      if QueryProbe.Matches ⟨c, h, some hitBlocks, lease⟩ computedBlocks queryHashes then
        s.finishCacheLookup ctx ⟨c, h, some hitBlocks, lease⟩ hitBlocks releaseError
      else
        (s.releasePendingQueryProbe releaseError).ask ctx computedBlocks queryHashes delivery
          releaseError
    | _ => s.ask ctx computedBlocks queryHashes delivery releaseError

/-- The load half of `update_state_after_alloc`, with the exception it raises. -/
def updateStateAfterAlloc (blockHashes : List BlockHash)
    (blockIds : List BlockId) (numComputedBlocks numExternalTokens : Nat)
    (releaseError : Option String) : Option String × QueryClient :=
  let numLoadBlocks := numExternalTokens / ctx.virtualBlockSize
  let expectedLoadBlocks := blockIds.length - numComputedBlocks
  if numExternalTokens = 0 then (none, s)
  else if numExternalTokens % ctx.virtualBlockSize ≠ 0 ∨ numLoadBlocks ≠ expectedLoadBlocks then
    (some s!"req {ctx.reqId} load block mismatch: external={numLoadBlocks} expected={expectedLoadBlocks}",
      s.releasePendingQueryProbe releaseError)
  else
    match s.probe with
    | none => (some s!"req {ctx.reqId} missing query lease for external load", s)
    | some ⟨_, _, none, _⟩ => (some "query probe is still loading", s)
    | some ⟨_, queryHashes, some hitBlocks, lease⟩ =>
      if (blockHashes.drop numComputedBlocks).take numLoadBlocks ≠ queryHashes.take hitBlocks then
        (some s!"req {ctx.reqId} load hashes do not match pending query probe",
          s.releasePendingQueryProbe releaseError)
      else
        match lease with
        | none => (some s!"req {ctx.reqId} missing query lease for external load", s)
        | some token =>
          (none,
            { s with
              loadIntent := some ⟨blockIds.drop numComputedBlocks, token, numExternalTokens⟩
              probe := none })

/-- One step.  `drop` is what `_cleanup_request` and `shutdown` do to the probe. -/
def step : ProbeEvent → Option QueryClient
  | .call numComputedTokens blockHashes delivery releaseError =>
    some (s.getNumNewMatchedTokens ctx numComputedTokens blockHashes delivery releaseError).2
  | .alloc blockHashes blockIds numComputedBlocks numExternalTokens releaseError =>
    some (s.updateStateAfterAlloc ctx blockHashes blockIds numComputedBlocks numExternalTokens
      releaseError).2
  | .drop releaseError => some (s.releasePendingQueryProbe releaseError)
  | .stray queryHashes =>
    if queryHashes ∈ s.abandoned then
      some
        { s with
          abandoned := s.abandoned.erase queryHashes
          server := (s.server.queryPrefetch ctx.stores ctx.instanceId ctx.target ctx.reqId
            queryHashes).2 }
    else none
  | .other instanceId target reqId queryHashes =>
    if reqId ≠ ctx.reqId then
      some
        { s with
          server := (s.server.queryPrefetch ctx.stores instanceId target reqId queryHashes).2 }
    else none
  | .finishTask reqId outcome =>
    (s.server.finishTask reqId outcome).map fun q => { s with server := q }
  | .gc stale staleFailed => some { s with server := s.server.gcStaleEntries stale staleFailed }
  | .cache cache => some { s with server := { s.server with cache := cache } }
  | .sweepExpired expired =>
    some { s with server := { s.server with leases := s.server.leases.sweepExpired expired } }

end QueryClient

end PegaFlow.Connector
