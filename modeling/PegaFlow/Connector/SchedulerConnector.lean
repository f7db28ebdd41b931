import Mathlib.Data.Finset.Basic
import PegaFlow.Connector.QueryProbe

/-!
# The scheduler connector

`SchedulerConnector` (`python/pegaflow/connector/scheduler.py`) with all of its requests, the lookup
and load half together with the save half.  The tables are keyed by request.  The five tables that
are set and removed together are one table of `Tracked`.

The answers of the server are data of the calls: any answer may come.  A callback that raises leaves
the changes it has made up to there.

Four fields record the past and are read by no callback: the leases the connector received, the load
intents it made, the leases it called `release` for (whether or not that raised) and the requests it
cleaned up and has not looked at since.  Statistics and log lines are left out.
-/

namespace PegaFlow.Connector

open Storage (LeaseId QueryReady)

structure ConnectorContext extends SchedulerContext where
  writeEnabled : Bool

structure SchedulerConnector where
  pendingQueryProbes : Table ReqId QueryProbe
  externalMatchedBlocks : Table ReqId Nat
  pendingLoadIntents : Table ReqId LoadIntent
  tracked : Table ReqId Tracked
  pendingSaves : Finset ReqId
  heldRequests : Finset ReqId
  finalSaveIntents : Table ReqId SaveIntent
  received : List (ReqId × LeaseId)
  made : List (ReqId × LoadIntent)
  released : List (ReqId × LeaseId)
  cleaned : Finset ReqId

/-- What `query_prefetch` returns or raises. -/
inductive QueryAnswer where
  | loading
  | ready (ready : QueryReady)
  | raised (message : String)

/-- A request in `scheduled_new_reqs`. -/
structure NewRequest where
  reqId : ReqId
  blockIds : Option (List BlockId)
  numComputedTokens : Nat
  numScheduledTokens : Nat

/-- A request in `scheduled_cached_reqs`, with the hashes of its live `Request`. -/
structure CachedRequest where
  reqId : ReqId
  blockHashes : List BlockHash
  newBlockIds : Option (List BlockId)
  resumed : Bool
  numComputedTokens : Nat
  numScheduledTokens : Nat

/-- `PegaConnectorMetadata`, without the preempted requests that are passed through. -/
structure ConnectorMetadata where
  loadIntents : Table ReqId LoadIntent
  saveIntents : Table ReqId SaveIntent

inductive ConnectorCall where
  | getNumNewMatchedTokens (reqId : ReqId) (numComputedTokens : Nat)
      (blockHashes : List BlockHash) (answer : QueryAnswer) (releaseError : Option String)
  | updateStateAfterAlloc (reqId : ReqId) (blockHashes : List BlockHash) (blockIds : List BlockId)
      (numComputedBlocks numExternalTokens : Nat)
  | buildConnectorMeta (newReqs : List NewRequest) (cachedReqs : List CachedRequest)
  | requestFinished (reqId : ReqId)
  | updateConnectorOutput (finishedSending : List ReqId)
  | shutdown

namespace SchedulerConnector

def init : SchedulerConnector := ⟨∅, ∅, ∅, ∅, ∅, ∅, ∅, [], [], [], ∅⟩

variable (ctx : ConnectorContext) (s : SchedulerConnector) (r : ReqId)

/-- `_release_pending_query_probe`.  An exception of `release` is swallowed. -/
def releasePendingQueryProbe : SchedulerConnector :=
  match s.pendingQueryProbes.lookup r with
  | none => s
  | some p =>
    { s with
      pendingQueryProbes := s.pendingQueryProbes.erase r
      released := s.released ++ p.lease.toList.map (r, ·) }

/-! ## Cache lookups -/

/-- `_finish_cache_lookup`. -/
def finishCacheLookup (p : QueryProbe) (hitBlocks : Nat) : Lookup × SchedulerConnector :=
  let hitTokens := hitBlocks * ctx.virtualBlockSize
  let s := { s with
    externalMatchedBlocks := s.externalMatchedBlocks.insert r (p.computedBlocks + hitBlocks) }
  if hitTokens = 0 then (.matched 0, s.releasePendingQueryProbe r) else (.matched hitTokens, s)

/-- `mark_ready` on the stored probe, and what follows it. -/
def markReady (p : QueryProbe) (ready : QueryReady) : Lookup × SchedulerConnector :=
  if p.queryHashes.length < ready.numHitBlocks then
    (.raised s!"invariant violated: server returned {ready.numHitBlocks} hits for {p.queryHashes.length} hashes",
      { s with pendingQueryProbes := s.pendingQueryProbes.insert r p })
  else
    let p' : QueryProbe := { p with hitBlocks := some ready.numHitBlocks, lease := ready.lease }
    finishCacheLookup ctx { s with pendingQueryProbes := s.pendingQueryProbes.insert r p' } r p'
      ready.numHitBlocks

/-- The server answered. -/
def receiveReady (computedBlocks : Nat)
    (queryHashes : List BlockHash) (ready : QueryReady) (releaseError : Option String) :
    Lookup × SchedulerConnector :=
  let s := { s with received := s.received ++ ready.lease.toList.map (r, ·) }
  match s.pendingQueryProbes.lookup r with
  | none => s.markReady ctx r ⟨computedBlocks, queryHashes, none, none⟩ ready
  | some p =>
    if p.Matches computedBlocks queryHashes then s.markReady ctx r p ready
    else
      let s := { s with released := s.released ++ ready.lease.toList.map (r, ·) }
      match ready.lease, releaseError with
      | some _, some message => (.raised message, s)
      | _, _ => (.pending, { s with pendingQueryProbes := s.pendingQueryProbes.erase r })

/-- Ask the server, and take its answer. -/
def ask (computedBlocks : Nat)
    (queryHashes : List BlockHash) (answer : QueryAnswer) (releaseError : Option String) :
    Lookup × SchedulerConnector :=
  match answer with
  | .loading =>
    match s.pendingQueryProbes.lookup r with
    | none =>
      (.pending,
        { s with pendingQueryProbes :=
            s.pendingQueryProbes.insert r ⟨computedBlocks, queryHashes, none, none⟩ })
    | some _ => (.pending, s)
  | .ready ready => s.receiveReady ctx r computedBlocks queryHashes ready releaseError
  | .raised message => (.raised message, s)

def getNumNewMatchedTokens
    (numComputedTokens : Nat) (blockHashes : List BlockHash) (answer : QueryAnswer)
    (releaseError : Option String) : Lookup × SchedulerConnector :=
  let computedBlocks := numComputedTokens / ctx.virtualBlockSize
  let queryHashes := blockHashes.drop computedBlocks
  if ctx.readEnabled = false then (.matched 0, s)
  else if queryHashes = [] then
    let s := s.releasePendingQueryProbe r
    (.matched 0,
      { s with externalMatchedBlocks := s.externalMatchedBlocks.insert r computedBlocks })
  else
    match s.pendingQueryProbes.lookup r with
    | some ⟨c, h, some hitBlocks, lease⟩ =>
      if QueryProbe.Matches ⟨c, h, some hitBlocks, lease⟩ computedBlocks queryHashes then
        s.finishCacheLookup ctx r ⟨c, h, some hitBlocks, lease⟩ hitBlocks
      else
        (s.releasePendingQueryProbe r).ask ctx r computedBlocks queryHashes answer releaseError
    | _ => s.ask ctx r computedBlocks queryHashes answer releaseError

/-! ## Allocations -/

/-- The save half of `update_state_after_alloc`. -/
def trackRequest (blockHashes : List BlockHash) : SchedulerConnector :=
  let t : Tracked :=
    match s.tracked.lookup r with
    | some t => { t with blockHashes := blockHashes }
    | none => .start blockHashes ((s.externalMatchedBlocks.lookup r).getD 0)
  { s with tracked := s.tracked.insert r t }

/-- The load half of `update_state_after_alloc`, with the exception it raises. -/
def makeLoadIntent (blockHashes : List BlockHash) (blockIds : List BlockId)
    (numComputedBlocks numExternalTokens : Nat) : Option String × SchedulerConnector :=
  let numLoadBlocks := numExternalTokens / ctx.virtualBlockSize
  let expectedLoadBlocks := blockIds.length - numComputedBlocks
  if numExternalTokens % ctx.virtualBlockSize ≠ 0 ∨ numLoadBlocks ≠ expectedLoadBlocks then
    (some s!"req {r} load block mismatch: external={numLoadBlocks} expected={expectedLoadBlocks}",
      s.releasePendingQueryProbe r)
  else
    match s.pendingQueryProbes.lookup r with
    | none => (some s!"req {r} missing query lease for external load", s)
    | some ⟨_, _, none, _⟩ => (some "query probe is still loading", s)
    | some ⟨_, queryHashes, some hitBlocks, lease⟩ =>
      if (blockHashes.drop numComputedBlocks).take numLoadBlocks ≠ queryHashes.take hitBlocks then
        (some s!"req {r} load hashes do not match pending query probe",
          s.releasePendingQueryProbe r)
      else
        match lease with
        | none => (some s!"req {r} missing query lease for external load", s)
        | some token =>
          let intent : LoadIntent :=
            ⟨blockIds.drop numComputedBlocks, token, numExternalTokens⟩
          (none,
            { s with
              pendingLoadIntents := s.pendingLoadIntents.insert r intent
              pendingQueryProbes := s.pendingQueryProbes.erase r
              made := s.made ++ [(r, intent)] })

def updateStateAfterAlloc (blockHashes : List BlockHash) (blockIds : List BlockId)
    (numComputedBlocks numExternalTokens : Nat) : Option String × SchedulerConnector :=
  let s := s.trackRequest r blockHashes
  if numExternalTokens = 0 then (none, s)
  else s.makeLoadIntent ctx r blockHashes blockIds numComputedBlocks numExternalTokens

/-! ## Metadata -/

/-- Count the tokens of a scheduled request and save what they cover, into the saves of the step. -/
def schedule (saves : Table ReqId SaveIntent)
    (r : ReqId) (t : Tracked) (numComputed numScheduled : Nat) :
    Table ReqId SaveIntent × SchedulerConnector :=
  let consumed := (t.countTokens ctx.toSchedulerContext numComputed numScheduled).consumeSaveIntent
    ctx.toSchedulerContext
  (consumed.2.elim saves (saves.insert r),
    { s with tracked := s.tracked.insert r consumed.1 })

/-- The new requests of a step.  A request without an allocation fails an assertion. -/
def processNew (ctx : ConnectorContext) (s : SchedulerConnector) (saves : Table ReqId SaveIntent) :
    List NewRequest → Except String (Table ReqId SaveIntent) × SchedulerConnector
  | [] => (.ok saves, s)
  | req :: reqs =>
    match s.tracked.lookup req.reqId with
    | none =>
      (.error s!"req {req.reqId} not initialized in update_state_after_alloc", s)
    | some t =>
      let scheduled := s.schedule ctx saves req.reqId
        (SchedulerRequest.newTracked t req.blockIds) req.numComputedTokens
        req.numScheduledTokens
      scheduled.2.processNew ctx scheduled.1 reqs

/-- One cached request of a step. -/
def processCached (p : Table ReqId SaveIntent × SchedulerConnector)
    (req : CachedRequest) : Table ReqId SaveIntent × SchedulerConnector :=
  match p.2.tracked.lookup req.reqId with
  | none => p
  | some t =>
    p.2.schedule ctx p.1 req.reqId
      (SchedulerRequest.cachedTracked t req.blockHashes req.newBlockIds req.resumed)
      req.numComputedTokens req.numScheduledTokens

/-- The end of `build_connector_meta`: the final save intents join those of the step. -/
def attachFinalSaves (p : Table ReqId SaveIntent × SchedulerConnector) :
    Table ReqId SaveIntent × SchedulerConnector :=
  let saves := p.2.finalSaveIntents.entries.foldl (fun t e => t.insert e.1 e.2) p.1
  (saves,
    { p.2 with
      finalSaveIntents := ∅
      pendingSaves := p.2.pendingSaves ∪ saves.keys.toFinset })

def buildConnectorMeta (newReqs : List NewRequest)
    (cachedReqs : List CachedRequest) : Except String ConnectorMetadata × SchedulerConnector :=
  let loadIntents := s.pendingLoadIntents
  match { s with pendingLoadIntents := ∅ }.processNew ctx ∅ newReqs with
  | (.error message, s) => (.error message, s)
  | (.ok saves, s) =>
    let saved := attachFinalSaves (cachedReqs.foldl (processCached ctx) (saves, s))
    (.ok ⟨loadIntents, saved.1⟩, saved.2)

/-! ## The end of a request -/

def cleanupRequest : SchedulerConnector :=
  let s := s.releasePendingQueryProbe r
  { s with
    tracked := s.tracked.erase r
    externalMatchedBlocks := s.externalMatchedBlocks.erase r
    pendingSaves := s.pendingSaves.erase r
    cleaned := insert r s.cleaned }

/-- The first part of `request_finished`: save the blocks that were never saved. -/
def finalSave : SchedulerConnector :=
  match s.tracked.lookup r with
  | none => s
  | some t =>
    if ctx.writeEnabled ∧ r ∉ s.pendingSaves then
      match t.consumeFinalSaveIntent with
      | (t', some intent) =>
        { s with
          tracked := s.tracked.insert r t'
          finalSaveIntents := s.finalSaveIntents.insert r intent
          pendingSaves := insert r s.pendingSaves }
      | (_, none) => s
    else s

/-- `request_finished`, and whether the blocks are held for a save. -/
def requestFinished : Bool × SchedulerConnector :=
  let s := s.finalSave ctx r
  if r ∈ s.pendingSaves then (true, { s with heldRequests := insert r s.heldRequests })
  else (false, s.cleanupRequest r)

/-- One request of `finished_sending`. -/
def saveFinished : SchedulerConnector :=
  let s := { s with pendingSaves := s.pendingSaves.erase r }
  if r ∈ s.heldRequests then
    let s := s.cleanupRequest r
    { s with heldRequests := s.heldRequests.erase r }
  else s

def updateConnectorOutput (finishedSending : List ReqId) : SchedulerConnector :=
  finishedSending.foldl saveFinished s

def shutdown : SchedulerConnector :=
  s.pendingQueryProbes.keys.foldl releasePendingQueryProbe s

/-! ## The system -/

/-- The request is looked at again. -/
def reopen : SchedulerConnector :=
  { s with cleaned := s.cleaned.erase r }

def step (ctx : ConnectorContext) (s : SchedulerConnector) :
    ConnectorCall → Option SchedulerConnector
  | .getNumNewMatchedTokens r numComputedTokens blockHashes answer releaseError =>
    some ((s.reopen r).getNumNewMatchedTokens ctx r numComputedTokens blockHashes answer
      releaseError).2
  | .updateStateAfterAlloc r blockHashes blockIds numComputedBlocks numExternalTokens =>
    some ((s.reopen r).updateStateAfterAlloc ctx r blockHashes blockIds numComputedBlocks
      numExternalTokens).2
  | .buildConnectorMeta newReqs cachedReqs => some (s.buildConnectorMeta ctx newReqs cachedReqs).2
  | .requestFinished r => some (s.requestFinished ctx r).2
  | .updateConnectorOutput finishedSending => some (s.updateConnectorOutput finishedSending)
  | .shutdown => some s.shutdown

/-- The lease the connector holds for a request in its probe. -/
def heldLease (s : SchedulerConnector) (r : ReqId) : Option LeaseId :=
  (s.pendingQueryProbes.lookup r).bind QueryProbe.lease

/-- The leases that were placed in load intents. -/
def placed (s : SchedulerConnector) : List (ReqId × LeaseId) :=
  s.made.map fun p => (p.1, p.2.lease)

end SchedulerConnector

end PegaFlow.Connector
