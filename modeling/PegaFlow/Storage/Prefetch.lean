import Mathlib.Data.Finset.Basic
import PegaFlow.Storage.Lease

/-!
# Prefix queries and background prefetch

`PrefetchScheduler` of `pegaflow-core/src/storage/prefetch.rs`, and the answer that the
`query_prefetch` handler of `pegaflow-server/src/service.rs` gives.

A query is a request id, a namespace and a list of hashes.  If a prefetch task is
active under the request id, the query polls it: it is still loading, or it is done
and the query is answered by its result.  Otherwise the read cache is scanned for a
prefix of the keys, and a task may be started for the rest.  The answer to a
`Ready` query with hits is a lease on the blocks.

What a remote node or the SSD returns is arbitrary (`TaskOutcome`), as is the read
cache: inserts and evictions by other parties are the event `cache` of the machines
that use this module.
-/

namespace PegaFlow.Storage

open List

abbrev ReqId := String

/-- What the registry has of an instance. -/
structure Registered where
  nameSpace : String
  worldSize : Nat

/-- The keys of a query. -/
def queryKeys (nameSpace : String) (hashes : List BlockHash) : List BlockKey :=
  hashes.map fun h => ⟨nameSpace, h⟩

/-- The blocks of the leading keys that a lookup finds: `get_prefix_blocks`, and
the `map_while` of `build_ready_result`. -/
def collectPrefix (lookup : BlockKey → Option SealedBlock) : List BlockKey → List FoundBlock
  | [] => []
  | key :: keys =>
    match lookup key with
    | some block => (key, block) :: collectPrefix lookup keys
    | none => []

theorem collectPrefix_keys (lookup : BlockKey → Option SealedBlock) (keys : List BlockKey) :
    (collectPrefix lookup keys).map Prod.fst <+: keys := by
  induction keys with
  | nil => exact prefix_rfl
  | cons key keys ih =>
    unfold collectPrefix
    split
    · exact cons_prefix_cons.mpr ⟨rfl, ih⟩
    · exact nil_prefix

/-! ## Tasks -/

inductive PrefetchSource where
  | ssd
  | rdma
deriving DecidableEq

/-- Which backing stores the scheduler, or a task, has. -/
structure BackingStores where
  rdmaFetch : Bool
  ssdStore : Bool

structure PrefetchTaskInput where
  nameSpace : String
  remainingKeys : List BlockKey
  prefixBlocks : List FoundBlock
  total : Nat

/-- The keys of the query that started a task: those the scan found, then the
rest. -/
def PrefetchTaskInput.keys (input : PrefetchTaskInput) : List BlockKey :=
  input.prefixBlocks.map Prod.fst ++ input.remainingKeys

structure PrefetchTaskResult where
  source : Option PrefetchSource
  found : Nat
  cacheInserts : List (BlockKey × SealedBlock)
  readyBlocks : List FoundBlock
  missing : Nat

/-- The last pair for a key, as a hash map collected from the list has it. -/
def lookupLast (inserts : List (BlockKey × SealedBlock)) (key : BlockKey) : Option SealedBlock :=
  (inserts.reverse.find? fun p => p.1 = key).map Prod.snd

def buildReadyResult (prefixBlocks : List FoundBlock) (total : Nat)
    (source : Option PrefetchSource) (found : Nat) (requestedKeys : List BlockKey)
    (cacheInserts : List (BlockKey × SealedBlock)) : PrefetchTaskResult :=
  let readyBlocks := prefixBlocks ++ collectPrefix (lookupLast cacheInserts) requestedKeys
  ⟨source, found, cacheInserts, readyBlocks, total - readyBlocks.length⟩

/-- What the backing stores answer a task.  `rdma` is the result of
`try_fetch_prefix`, absent when it returned nothing; `ssd` is that of
`prefetch_prefix`, absent when there is no hit or no budget. -/
structure TaskOutcome where
  rdma : Option (Nat × List (BlockKey × SealedBlock))
  ssd : Option (Nat × List (BlockKey × SealedBlock))

/-- `run_prefetch_task`; `none` when a slice is out of range and the task panics. -/
def runPrefetchTask (deps : BackingStores) (input : PrefetchTaskInput) (outcome : TaskOutcome) :
    Option PrefetchTaskResult :=
  match (if deps.rdmaFetch then outcome.rdma else none) with
  | some (found, blocks) =>
    if found ≤ input.remainingKeys.length then
      some (buildReadyResult input.prefixBlocks input.total (some .rdma) found
        (input.remainingKeys.take found) blocks)
    else none
  | none =>
    match (if deps.ssdStore then outcome.ssd else none) with
    | some (found, blocks) =>
      if found = 0 then
        some (buildReadyResult input.prefixBlocks input.total none 0 [] [])
      else if found ≤ input.remainingKeys.length then
        some (buildReadyResult input.prefixBlocks input.total (some .ssd) found
          (input.remainingKeys.take found) blocks)
      else none
    | none => some (buildReadyResult input.prefixBlocks input.total none 0 [] [])

theorem buildReadyResult_keys {input : PrefetchTaskInput} {source : Option PrefetchSource}
    {found : Nat} {requestedKeys : List BlockKey} {inserts : List (BlockKey × SealedBlock)}
    (h : requestedKeys <+: input.remainingKeys) :
    (buildReadyResult input.prefixBlocks input.total source found requestedKeys
      inserts).readyBlocks.map Prod.fst <+: input.keys := by
  simp only [buildReadyResult, map_append, PrefetchTaskInput.keys]
  rw [prefix_append_right_inj]
  exact (collectPrefix_keys _ _).trans h

/-- A task returns blocks for a prefix of the keys of the query that started it. -/
theorem runPrefetchTask_keys {deps : BackingStores} {input : PrefetchTaskInput}
    {outcome : TaskOutcome} {result : PrefetchTaskResult}
    (h : runPrefetchTask deps input outcome = some result) :
    result.readyBlocks.map Prod.fst <+: input.keys := by
  unfold runPrefetchTask at h
  split at h
  · obtain ⟨-, h⟩ := Option.ite_none_right_eq_some.mp h
    cases h
    exact buildReadyResult_keys ( take_prefix _ _)
  · split at h
    · split at h
      · cases h
        exact buildReadyResult_keys nil_prefix
      · obtain ⟨-, h⟩ := Option.ite_none_right_eq_some.mp h
        cases h
        exact buildReadyResult_keys ( take_prefix _ _)
    · cases h
      exact buildReadyResult_keys nil_prefix

/-! ## The scheduler's state -/

/-- An active task.  The result is absent while the task runs; a task that
panicked has the result `some none`. -/
structure PrefetchEntry where
  deps : BackingStores
  input : PrefetchTaskInput
  result : Option (Option PrefetchTaskResult)
  result_keys : ∀ r, result = some (some r) → r.readyBlocks.map Prod.fst <+: input.keys

def PrefetchEntry.spawn (deps : BackingStores) (input : PrefetchTaskInput) : PrefetchEntry :=
  ⟨deps, input, none, nofun⟩

/-- The task ends with what the backing stores answered it. -/
def PrefetchEntry.finish (e : PrefetchEntry) (outcome : TaskOutcome) : PrefetchEntry :=
  ⟨e.deps, e.input, some (runPrefetchTask e.deps e.input outcome),
    fun _ h => runPrefetchTask_keys (Option.some.inj h)⟩

/-- The prefetch state, the read cache and the leases. -/
structure QueryServer where
  active : Table ReqId PrefetchEntry
  failedRemote : Finset ReqId
  cache : Table BlockKey SealedBlock
  leases : LeaseManager

/-- `PrefetchStatus`. -/
inductive PrefetchStatus where
  | loading
  | ready (blocks : List FoundBlock) (missing : Nat)

/-- The answer to a query that is not loading.  The lease is empty when there is no
hit. -/
structure QueryReady where
  numHitBlocks : Nat
  lease : Option LeaseId

/-- What `poll_existing` finds.  A finished task hands over its result. -/
inductive PollResult where
  | noActivePrefetch
  | stillLoading
  | ready (result : PrefetchTaskResult)

/-- The result `poll_existing` gives for a task that panicked. -/
def PrefetchTaskResult.failed : PrefetchTaskResult := ⟨none, 0, [], [], 0⟩

/-- What a poll of the finished task answers. -/
theorem PrefetchEntry.answer_keys {e : PrefetchEntry} {result : Option PrefetchTaskResult}
    (h : e.result = some result) :
    (result.getD .failed).readyBlocks.map Prod.fst <+: e.input.keys := by
  cases result with
  | none => exact nil_prefix
  | some r => exact e.result_keys r h

namespace QueryServer

def empty : QueryServer := ⟨∅, ∅, ∅, .empty⟩

variable (stores : BackingStores) (q : QueryServer) (req : ReqId)

/-- The locked part of `poll_existing`: a finished entry is removed. -/
def pollExisting : PollResult × QueryServer :=
  match q.active.lookup req with
  | none => (.noActivePrefetch, q)
  | some entry =>
    match entry.result with
    | none => (.stillLoading, q)
    | some result =>
      (.ready (result.getD .failed), { q with active := q.active.erase req })

/-- `ReadCache::batch_insert`: a resident key keeps its block. -/
def batchInsert (cache : Table BlockKey SealedBlock) (blocks : List (BlockKey × SealedBlock)) :
    Table BlockKey SealedBlock :=
  blocks.foldl (fun c p => if (c.lookup p.1).isSome then c else c.insert p.1 p.2) cache

/-- The rest of `poll_existing`: remember that a remote node returned fewer blocks
than promised, and keep what was fetched. -/
def settle (result : PrefetchTaskResult) : QueryServer :=
  { q with
    failedRemote :=
      if result.source = some .rdma ∧ result.cacheInserts.length < result.found ∧ 0 < result.found
      then insert req q.failedRemote else q.failedRemote
    cache := batchInsert q.cache result.cacheInserts }

/-- The blocks the scan of `full_prefix_scan` finds in the read cache. -/
def scan (keys : List BlockKey) : List FoundBlock :=
  collectPrefix q.cache.lookup keys

/-- `start_prefetch_task`: whether a task is active under the request id after it. -/
def startPrefetchTask (nameSpace : String) (keys : List BlockKey) (prefixBlocks : List FoundBlock) :
    Bool × QueryServer :=
  let remaining := keys.drop prefixBlocks.length
  let deps : BackingStores :=
    { stores with rdmaFetch := stores.rdmaFetch && decide (req ∉ q.failedRemote) }
  if remaining = [] then (false, q)
  else if (q.active.lookup req).isSome then (true, q)
  else if !deps.rdmaFetch && !deps.ssdStore then (false, q)
  else
    (true, { q with
      active := q.active.insert req (.spawn deps ⟨nameSpace, remaining, prefixBlocks, keys.length⟩) })

/-- The end of `full_prefix_scan`, after the scan. -/
def finishScan (nameSpace : String)
    (keys : List BlockKey) (prefixBlocks : List FoundBlock) : PrefetchStatus × QueryServer :=
  match q.startPrefetchTask stores req nameSpace keys prefixBlocks with
  | (true, q') => (.loading, q')
  | (false, q') => (.ready prefixBlocks (keys.length - prefixBlocks.length), q')

/-- `check_and_prefetch`, when no other call for the request id runs. -/
def checkAndPrefetch
    (nameSpace : String) (hashes : List BlockHash) : PrefetchStatus × QueryServer :=
  match q.pollExisting req with
  | (.stillLoading, q') => (.loading, q')
  | (.ready result, q') => (.ready result.readyBlocks result.missing, q'.settle req result)
  | (.noActivePrefetch, q') =>
    q'.finishScan stores req nameSpace (queryKeys nameSpace hashes)
      (q'.scan (queryKeys nameSpace hashes))

/-- The lease that `query_prefetch` puts into its answer: none when nothing was hit. -/
def createQueryLease (instanceId : InstanceId) (consumers : Nat)
    (blocks : List FoundBlock) : Option LeaseId × QueryServer :=
  if blocks = [] then (none, q)
  else
    let created := q.leases.create instanceId blocks consumers
    (some created.1, { q with leases := created.2 })

variable {q : QueryServer} {instanceId : InstanceId}

theorem mem_granted_createQueryLease {consumers : Nat} {blocks : List FoundBlock}
    {lease : QueryLease}
    (h : lease ∈ (q.createQueryLease instanceId consumers blocks).2.leases.granted) :
    lease ∈ q.leases.granted ∨ lease = ⟨instanceId, blocks, max consumers 1⟩ := by
  unfold createQueryLease at h
  split at h
  · exact Or.inl h
  · simpa using h

@[simp] theorem createQueryLease_active (q : QueryServer) (instanceId : InstanceId)
    (consumers : Nat) (blocks : List FoundBlock) :
    (q.createQueryLease instanceId consumers blocks).2.active = q.active := by
  unfold createQueryLease
  split <;> rfl

/-- `query_prefetch`, when no other call for the request id runs; `none` is the answer
`Loading`. -/
def queryPrefetch (stores : BackingStores) (q : QueryServer) (instanceId : InstanceId)
    (target : Registered) (req : ReqId) (hashes : List BlockHash) :
    Option QueryReady × QueryServer :=
  match q.checkAndPrefetch stores req target.nameSpace hashes with
  | (.loading, q') => (none, q')
  | (.ready blocks _, q') =>
    let leased := q'.createQueryLease instanceId target.worldSize blocks
    (some ⟨blocks.length, leased.1⟩, leased.2)

/-- A task ends. -/
def finishTask (q : QueryServer) (req : ReqId) (outcome : TaskOutcome) : Option QueryServer :=
  match q.active.lookup req with
  | none => none
  | some entry =>
    if entry.result.isNone then
      some { q with active := q.active.insert req (entry.finish outcome) }
    else none

variable {req : ReqId}

theorem finishTask_eq_some {q' : QueryServer} {outcome : TaskOutcome}
    (h : q.finishTask req outcome = some q') :
    ∃ e, q.active.lookup req = some e ∧
      { q with active := q.active.insert req (e.finish outcome) } = q' := by
  unfold finishTask at h
  split at h
  · cases h
  next e he =>
    split at h
    · exact ⟨e, he, Option.some.inj h⟩
    · cases h

/-- `gc_stale_entries`, for the entries found too old. -/
def gcStaleEntries (q : QueryServer) (stale staleFailed : List ReqId) : QueryServer :=
  { q with
    active := stale.foldl (fun t r => t.erase r) q.active
    failedRemote := q.failedRemote.filter fun r => r ∉ staleFailed }

/-! ## What the calls can do -/

/-- What the end of a scan does: another call's task is active by now, a task is
started, or the scan is the answer. -/
inductive ScanEnd (q : QueryServer) (req : ReqId) (nameSpace : String) (keys : List BlockKey)
    (prefixBlocks : List FoundBlock) : PrefetchStatus → QueryServer → Prop where
  | joined {entry : PrefetchEntry} (hactive : q.active.lookup req = some entry) :
      ScanEnd q req nameSpace keys prefixBlocks .loading q
  | started {deps : BackingStores} {input : PrefetchTaskInput}
      (hactive : q.active.lookup req = none) (hns : input.nameSpace = nameSpace)
      (hkeys : input.keys = prefixBlocks.map Prod.fst ++ keys.drop prefixBlocks.length) :
      ScanEnd q req nameSpace keys prefixBlocks .loading
        { q with active := q.active.insert req (.spawn deps input) }
  | answered {missing : Nat} :
      ScanEnd q req nameSpace keys prefixBlocks (.ready prefixBlocks missing) q

/-- The end of a scan, with what it starts or answers. -/
theorem finishScan_eq (stores : BackingStores) (q : QueryServer) (req : ReqId)
    (nameSpace : String) (keys : List BlockKey) (prefixBlocks : List FoundBlock) :
    (∃ e, q.active.lookup req = some e ∧
      q.finishScan stores req nameSpace keys prefixBlocks = (.loading, q)) ∨
    (q.active.lookup req = none ∧ ∃ deps,
      q.finishScan stores req nameSpace keys prefixBlocks = (.loading,
        { q with active := q.active.insert req (.spawn deps
            ⟨nameSpace, keys.drop prefixBlocks.length, prefixBlocks, keys.length⟩) })) ∨
    q.finishScan stores req nameSpace keys prefixBlocks =
      (.ready prefixBlocks (keys.length - prefixBlocks.length), q) := by
  unfold finishScan startPrefetchTask
  by_cases hrmg : keys.drop prefixBlocks.length = []
  · rw [if_pos hrmg]
    exact .inr (.inr rfl)
  · rw [if_neg hrmg]
    cases ha : q.active.lookup req with
    | some e =>
      exact .inl ⟨e, rfl, rfl⟩
    | none =>
      rw [if_neg (by simp)]
      split
      next hsta =>
        split at hsta
        · cases hsta
        · cases hsta
          exact .inr (.inl ⟨rfl, _, rfl⟩)
      next hsta =>
        split at hsta
        · cases hsta
          exact .inr (.inr rfl)
        · cases hsta

variable {stores : BackingStores} {keys : List BlockKey}

theorem finishScan_cases {q' : QueryServer} {nameSpace : String} {prefixBlocks : List FoundBlock}
    {status : PrefetchStatus}
    (h : q.finishScan stores req nameSpace keys prefixBlocks = (status, q')) :
    ScanEnd q req nameSpace keys prefixBlocks status q' := by
  rcases finishScan_eq stores q req nameSpace keys prefixBlocks with
    ⟨e, ha, heq⟩ | ⟨ha, deps, heq⟩ | heq
  · cases h.symm.trans heq
    exact .joined ha
  · cases h.symm.trans heq
    exact .started ha rfl rfl
  · cases h.symm.trans heq
    exact .answered

/-- The lease of an answer owns the blocks it counts. -/
structure Backed (granted : List QueryLease) (ready : QueryReady) (blocks : List FoundBlock) :
    Prop where
  hits : ready.numHitBlocks = blocks.length
  owned : blocks ≠ [] →
    ∃ id lease, ready.lease = some id ∧ granted[id]? = some lease ∧ lease.blocks = blocks

theorem backed_createQueryLease (q : QueryServer) (instanceId : InstanceId) (consumers : Nat)
    (blocks : List FoundBlock) :
    Backed (q.createQueryLease instanceId consumers blocks).2.leases.granted
      ⟨blocks.length, (q.createQueryLease instanceId consumers blocks).1⟩ blocks := by
  refine ⟨rfl, ?_⟩
  intro hne
  simp only [createQueryLease, if_neg hne]
  exact ⟨_, _, rfl, getElem?_concat_length, rfl⟩

theorem granted_prefix_createQueryLease {granted : List QueryLease} (h : q.leases.granted = granted)
    (instanceId : InstanceId) (consumers : Nat) (blocks : List FoundBlock) :
    granted <+: (q.createQueryLease instanceId consumers blocks).2.leases.granted := by
  subst h
  unfold createQueryLease
  split
  · exact prefix_rfl
  · exact prefix_append _ _

/-- What a query does: it waits for the task of its request id, starts one for its own
keys, takes the result of the finished one, or is answered by the scan. -/
inductive Queried (q : QueryServer) (req : ReqId) (keys : List BlockKey) :
    Option QueryReady → QueryServer → Prop where
  | waits (hactive : q.active.lookup req = some e) (hrunning : e.result = none) :
      Queried q req keys none q
  | starts (hactive : q.active.lookup req = none) (hkeys : input.keys = keys) :
      Queried q req keys none { q with active := q.active.insert req (.spawn deps input) }
  | takes (hactive : q.active.lookup req = some e) (hfinished : e.result = some result)
      (hbacked : Backed q'.leases.granted ready (result.getD .failed).readyBlocks)
      (hgranted : q.leases.granted <+: q'.leases.granted)
      (hq : q'.active = q.active.erase req) : Queried q req keys (some ready) q'
  | scans (hactive : q.active.lookup req = none)
      (hbacked : Backed q'.leases.granted ready (q.scan keys))
      (hgranted : q.leases.granted <+: q'.leases.granted)
      (hq : q'.active = q.active) : Queried q req keys (some ready) q'

variable {answer : Option QueryReady}

variable {q' : QueryServer}

theorem queryPrefetch_cases {target : Registered} {hashes : List BlockHash}
    (h : q.queryPrefetch stores instanceId target req hashes = (answer, q')) :
    Queried q req (queryKeys target.nameSpace hashes) answer q' := by
  obtain rfl : (q.queryPrefetch stores instanceId target req hashes).1 = answer := by rw [h]
  obtain rfl : (q.queryPrefetch stores instanceId target req hashes).2 = q' := by rw [h]
  unfold queryPrefetch checkAndPrefetch pollExisting
  cases ha : q.active.lookup req with
  | some e =>
    cases hfin : e.result with
    | none =>
      simp only [hfin]
      exact .waits ha hfin
    | some result =>
      simp only [hfin]
      refine .takes ha hfin (backed_createQueryLease _ _ _ _) ?_ ?_
      · apply granted_prefix_createQueryLease
        rfl
      · rw [createQueryLease_active]
        rfl
  | none =>
    simp only
    cases hscan : q.finishScan stores req target.nameSpace (queryKeys target.nameSpace hashes)
        (q.scan (queryKeys target.nameSpace hashes)) with
    | mk status q' =>
      cases finishScan_cases hscan with
      | joined hjoined =>
        rw [ha] at hjoined
        cases hjoined
      | started _ _ hk =>
        refine .starts ha (hk.trans ?_)
        have hscanned := collectPrefix_keys q.cache.lookup (queryKeys target.nameSpace hashes)
        rw [prefix_iff_eq_append, length_map] at hscanned
        exact hscanned
      | answered =>
        exact .scans ha (backed_createQueryLease _ _ _ _)
          (granted_prefix_createQueryLease rfl _ _ _) (createQueryLease_active _ _ _ _)

theorem Queried.granted (h : Queried q req keys answer q') :
    q.leases.granted <+: q'.leases.granted := by
  cases h with
  | waits | starts => exact prefix_rfl
  | takes _ _ _ hgr _ | scans _ _ hgr _ => exact hgr

/-- A query leaves the tasks of other request ids alone. -/
theorem Queried.lookup_ne {req' : ReqId} (h : Queried q req keys answer q')
    (hne : req' ≠ req) : q'.active.lookup req' = q.active.lookup req' := by
  cases h with
  | waits => rfl
  | starts => exact AList.lookup_insert_ne hne
  | takes _ _ _ _ hq => rw [hq, AList.lookup_erase_ne hne]
  | scans _ _ _ hq => rw [hq]

end QueryServer

end PegaFlow.Storage
