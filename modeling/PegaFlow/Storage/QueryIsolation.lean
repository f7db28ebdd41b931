import PegaFlow.Lib.Run
import PegaFlow.Storage.Prefetch

/-!
# Namespace isolation of queries

Any number of instances call `query_prefetch` on one server.  A call runs in the
parts between which other calls, tasks and the garbage collection may run: it polls,
then scans and starts a task or settles the result it polled, then answers.

Active tasks are found by request id alone.  A call that polls a finished task takes
its blocks, whatever namespace the task was started under.  So leases stay within the
namespace of their instance in the runs where every finished task a call finds is of
the caller's namespace (`OwnTask`); runs that never use one request id in two
namespaces are among them (`OneNamespace`).
-/

namespace PegaFlow.Storage

open List Option Table Run

structure QueryCall where
  instanceId : InstanceId
  target : Registered
  req : ReqId
  hashes : List BlockHash

def QueryCall.keys (call : QueryCall) : List BlockKey :=
  queryKeys call.target.nameSpace call.hashes

/-- What a call does next. -/
inductive QueryStage where
  | scan
  | start (prefixBlocks : List FoundBlock)
  | settle (result : PrefetchTaskResult)
  | answer (blocks : List FoundBlock)

/-- The blocks a call holds. -/
def QueryStage.blocks : QueryStage → List FoundBlock
  | .scan => []
  | .start prefixBlocks => prefixBlocks
  | .settle result => result.readyBlocks
  | .answer blocks => blocks

structure QueryService where
  server : QueryServer
  calls : Table Nat (QueryCall × QueryStage)

inductive QueryEvent where
  | query (id : Nat) (instanceId : InstanceId) (req : ReqId) (hashes : List BlockHash)
  | advance (id : Nat)
  | finishTask (req : ReqId) (outcome : TaskOutcome)
  | gc (stale staleFailed : List ReqId)
  | cache (cache : Table BlockKey SealedBlock)
  | release (token : LeaseId)
  | sweepExpired (expired : List LeaseId)

namespace QueryService

def init : QueryService := ⟨.empty, ∅⟩

variable (stores : BackingStores) (s : QueryService) (id : Nat)

/-- The start of a call, up to the end of the locked part of `poll_existing`. -/
def poll (call : QueryCall) : QueryService :=
  match s.server.pollExisting call.req with
  | (.noActivePrefetch, q) => ⟨q, s.calls.insert id (call, .scan)⟩
  | (.stillLoading, q) => { s with server := q }
  | (.ready result, q) => ⟨q, s.calls.insert id (call, .settle result)⟩

/-- The next part of a call.  `none` is the part after `finishScan` says `Loading`, or
after the answer: the call is over. -/
def proceed (q : QueryServer) (call : QueryCall) : QueryStage → QueryServer × Option QueryStage
  | .scan => (q, some (.start (q.scan call.keys)))
  | .start prefixBlocks =>
    match q.finishScan stores call.req call.target.nameSpace call.keys prefixBlocks with
    | (.loading, q') => (q', none)
    | (.ready blocks _, q') => (q', some (.answer blocks))
  | .settle result => (q.settle call.req result, some (.answer result.readyBlocks))
  | .answer blocks =>
    ((q.createQueryLease call.instanceId call.target.worldSize blocks).2, none)

def advance (call : QueryCall) (stage : QueryStage) : QueryService :=
  match proceed stores s.server call stage with
  | (q, none) => ⟨q, s.calls.erase id⟩
  | (q, some stage') => ⟨q, s.calls.insert id (call, stage')⟩

/-- One step of the service.  A call of an unknown instance, or without a request id,
is refused before it reads anything. -/
def step (registry : InstanceId → Option Registered) (stores : BackingStores) (s : QueryService) :
    QueryEvent → Option QueryService
  | .query id instanceId req hashes =>
    match registry instanceId with
    | none => none
    | some target =>
      if req ≠ "" ∧ s.calls.lookup id = none then
        some (s.poll id ⟨instanceId, target, req, hashes⟩)
      else none
  | .advance id => (s.calls.lookup id).map fun c => s.advance stores id c.1 c.2
  | .finishTask req outcome => (s.server.finishTask req outcome).map fun q => { s with server := q }
  | .gc stale staleFailed => some { s with server := s.server.gcStaleEntries stale staleFailed }
  | .cache cache => some { s with server := { s.server with cache := cache } }
  | .release token =>
    some { s with server := { s.server with leases := s.server.leases.release token } }
  | .sweepExpired expired =>
    some { s with server := { s.server with leases := s.server.leases.sweepExpired expired } }

/-! ## What a step can do -/

/-- The steps, by what they do to tasks, calls and leases. -/
inductive Step (registry : InstanceId → Option Registered) (s : QueryService) :
    QueryEvent → QueryService → Prop where
  | wait : Step registry s (.query n instanceId req hashes) s
  | miss (hreg : registry instanceId = some target) :
      Step registry s (.query n instanceId req hashes)
        { s with calls := s.calls.insert n (⟨instanceId, target, req, hashes⟩, .scan) }
  | take (hreg : registry instanceId = some target) (hactive : s.server.active.lookup req = some e)
      (hfinished : e.result = some result) :
      Step registry s (.query n instanceId req hashes)
        ⟨{ s.server with active := s.server.active.erase req },
          s.calls.insert n (⟨instanceId, target, req, hashes⟩, .settle (result.getD .failed))⟩
  | scan (hcall : s.calls.lookup n = some (call, .scan)) :
      Step registry s (.advance n)
        { s with calls := s.calls.insert n (call, .start (s.server.scan call.keys)) }
  | join (hcall : s.calls.lookup n = some (call, .start blocks)) :
      Step registry s (.advance n) { s with calls := s.calls.erase n }
  | start (hcall : s.calls.lookup n = some (call, .start blocks))
      (hns : input.nameSpace = call.target.nameSpace)
      (hkeys : input.keys = blocks.map Prod.fst ++ call.keys.drop blocks.length) :
      Step registry s (.advance n)
        ⟨{ s.server with active := s.server.active.insert call.req (.spawn deps input) },
          s.calls.erase n⟩
  | hit (hcall : s.calls.lookup n = some (call, .start blocks)) :
      Step registry s (.advance n) { s with calls := s.calls.insert n (call, .answer blocks) }
  | settle (hcall : s.calls.lookup n = some (call, .settle result)) :
      Step registry s (.advance n)
        ⟨s.server.settle call.req result, s.calls.insert n (call, .answer result.readyBlocks)⟩
  | answer (hcall : s.calls.lookup n = some (call, .answer blocks)) :
      Step registry s (.advance n)
        ⟨(s.server.createQueryLease call.instanceId call.target.worldSize blocks).2,
          s.calls.erase n⟩
  | finish (hactive : s.server.active.lookup req = some e) :
      Step registry s (.finishTask req outcome)
        { s with server :=
            { s.server with active := s.server.active.insert req (e.finish outcome) } }
  | frame (hcalls : s'.calls = s.calls) (hgranted : s'.server.leases.granted = s.server.leases.granted)
      (hactive : ∀ req e, s'.server.active.lookup req = some e → s.server.active.lookup req = some e) :
      Step registry s ev s'

variable {registry : InstanceId → Option Registered} {stores : BackingStores}
variable {s s' : QueryService} {ev : QueryEvent}

variable {id : Nat}

theorem poll_cases {instanceId : InstanceId} {target : Registered} {req : ReqId}
    {hashes : List BlockHash} (hreg : registry instanceId = some target) :
    Step registry s (.query id instanceId req hashes)
      (s.poll id ⟨instanceId, target, req, hashes⟩) := by
  unfold poll QueryServer.pollExisting
  cases ha : s.server.active.lookup req with
  | none => exact .miss hreg
  | some e =>
    cases hfin : e.result with
    | none =>
      simp only [hfin]
      exact .wait
    | some result =>
      simp only [hfin]
      exact .take hreg ha hfin

theorem advance_cases {call : QueryCall} {stage : QueryStage}
    (hc : s.calls.lookup id = some (call, stage)) :
    Step registry s (.advance id) (s.advance stores id call stage) := by
  unfold advance
  cases stage with
  | scan => exact .scan hc
  | settle result => exact .settle hc
  | answer blocks => exact .answer hc
  | start blocks =>
    simp only [proceed]
    cases hscan : s.server.finishScan stores call.req call.target.nameSpace call.keys blocks with
    | mk status q =>
      cases QueryServer.finishScan_cases hscan with
      | joined => exact .join hc
      | started _ hns hk => exact .start hc hns hk
      | answered => exact .hit hc

theorem step_cases (h : s.step registry stores ev = some s') : Step registry s ev s' := by
  cases ev with
  | query id instanceId req hashes =>
    simp only [step] at h
    cases hreg : registry instanceId with
    | none => simp only [hreg] at h; cases h
    | some target =>
      simp only [hreg] at h
      obtain ⟨-, rfl⟩ := guarded_eq_some.mp h
      exact poll_cases hreg
  | advance id =>
    obtain ⟨⟨call, stage⟩, hc, rfl⟩ := map_eq_some_iff.mp h
    exact advance_cases hc
  | finishTask req outcome =>
    obtain ⟨q, hq, rfl⟩ := map_eq_some_iff.mp h
    obtain ⟨e, ha, rfl⟩ := QueryServer.finishTask_eq_some hq
    exact .finish ha
  | gc stale staleFailed =>
    cases h
    refine .frame rfl rfl ?_
    intro req e he
    rw [QueryServer.gcStaleEntries, lookup_foldl_erase, ite_none_left_eq_some] at he
    exact he.2
  | cache cache | release token | sweepExpired expired =>
    cases h
    exact .frame rfl rfl fun _ _ he => he

/-! ## Isolation -/

/-- The blocks were looked up in the namespace. -/
def FoundIn (nameSpace : String) (blocks : List FoundBlock) : Prop :=
  ∀ b ∈ blocks, b.1.nameSpace = nameSpace

variable (registry) (s)

/-- Every block ever leased to an instance was looked up in the instance's
namespace. -/
def Isolated : Prop :=
  ∀ lease ∈ s.server.leases.granted,
    ∃ target, registry lease.instanceId = some target ∧ FoundIn target.nameSpace lease.blocks

/-- A call that finds a finished task under its request id is of an instance of
the task's namespace. -/
def OwnTask : QueryEvent → Prop
  | .query _ instanceId req _ =>
    ∀ e ∈ s.server.active.lookup req, e.result.isSome →
      ∀ target ∈ registry instanceId, e.input.nameSpace = target.nameSpace
  | _ => True

variable {registry} {s}

structure Scoped (registry : InstanceId → Option Registered) (s : QueryService) : Prop where
  tasks : ∀ req e, s.server.active.lookup req = some e →
    ∀ k ∈ e.input.keys, k.nameSpace = e.input.nameSpace
  calls : ∀ id call stage, s.calls.lookup id = some (call, stage) →
    registry call.instanceId = some call.target ∧ FoundIn call.target.nameSpace stage.blocks
  leases : s.Isolated registry

variable {nameSpace : String}

theorem foundIn_of_keys {blocks : List FoundBlock} {keys : List BlockKey}
    (hsub : blocks.map Prod.fst <+: keys) (hk : ∀ k ∈ keys, k.nameSpace = nameSpace) :
    FoundIn nameSpace blocks :=
  fun _ hb => hk _ (hsub.subset (mem_map_of_mem hb))

theorem nameSpace_of_mem_queryKeys {hashes : List BlockHash} {k : BlockKey}
    (h : k ∈ queryKeys nameSpace hashes) : k.nameSpace = nameSpace := by
  obtain ⟨_, -, rfl⟩ := mem_map.mp h
  rfl

theorem scoped_init (registry : InstanceId → Option Registered) : init.Scoped registry :=
  ⟨nofun, nofun, nofun⟩

variable {id : Nat} {call : QueryCall} {stage : QueryStage}

section

variable {P : QueryCall → QueryStage → Prop}
variable (hcs : ∀ id call stage, s.calls.lookup id = some (call, stage) → P call stage)
include hcs

/-- A call that enters a stage keeps the table of calls in order. -/
theorem calls_setStage (hP : P call stage) : ∀ id' call' stage',
    (s.calls.insert id (call, stage)).lookup id' = some (call', stage') → P call' stage' := by
  intro id' call' stage' hlk
  rcases lookup_of_insert hlk with ⟨-, heq⟩ | ⟨-, ho⟩
  · cases heq
    exact hP
  · exact hcs id' call' stage' ho

theorem calls_endCall : ∀ id' call' stage',
    (s.calls.erase id).lookup id' = some (call', stage') → P call' stage' :=
  fun id' call' stage' hlk => hcs id' call' stage' (lookup_of_erase hlk).2

end

section

variable (h : s.Scoped registry)
include h

theorem Scoped.step (hown : s.OwnTask registry ev) (hst : s.step registry stores ev = some s') :
    s'.Scoped registry := by
  cases step_cases hst with
  | wait => exact h
  | miss hreg => exact ⟨h.tasks, calls_setStage h.calls ⟨hreg, nofun⟩, h.leases⟩
  | take hreg ha hfin =>
    refine ⟨?_, calls_setStage h.calls ⟨hreg, ?_⟩, h.leases⟩
    · exact fun req e he => h.tasks req e (lookup_of_erase he).2
    · refine foundIn_of_keys (PrefetchEntry.answer_keys hfin) ?_
      rw [← hown _ ha (by rw [hfin]; rfl) _ hreg]
      exact h.tasks _ _ ha
  | scan hc =>
    refine ⟨h.tasks, calls_setStage h.calls ⟨(h.calls _ _ _ hc).1, ?_⟩, h.leases⟩
    exact foundIn_of_keys (collectPrefix_keys _ _) fun _ => nameSpace_of_mem_queryKeys
  | join hc => exact ⟨h.tasks, calls_endCall h.calls, h.leases⟩
  | start hc hns hks =>
    refine ⟨forall_lookup_insert ?_ h.tasks, calls_endCall h.calls, h.leases⟩
    intro k hk
    rw [PrefetchEntry.spawn, hks, mem_append] at hk
    rcases hk with hk | hk
    · obtain ⟨b, hb, rfl⟩ := mem_map.mp hk
      exact ((h.calls _ _ _ hc).2 b hb).trans hns.symm
    · exact (nameSpace_of_mem_queryKeys (mem_of_mem_drop hk)).trans hns.symm
  | hit hc | settle hc =>
    obtain ⟨hreg, hfd⟩ := h.calls _ _ _ hc
    exact ⟨h.tasks, calls_setStage h.calls ⟨hreg, hfd⟩, h.leases⟩
  | answer hc =>
    refine ⟨?_, calls_endCall h.calls, ?_⟩
    · simpa only [QueryServer.createQueryLease_active] using h.tasks
    · intro lease hls
      rcases QueryServer.mem_granted_createQueryLease hls with ho | rfl
      · exact h.leases lease ho
      · exact ⟨_, h.calls _ _ _ hc⟩
  | finish ha =>
    have hks := h.tasks _ _ ha
    exact ⟨forall_lookup_insert hks h.tasks, h.calls, h.leases⟩
  | frame hcs hgr ha =>
    refine ⟨fun req e he => h.tasks req e (ha req e he), ?_, ?_⟩
    · rw [hcs]
      exact h.calls
    · unfold Isolated
      rw [hgr]
      exact h.leases

end

/-! ## Request ids of one namespace -/

/-- No two namespaces use one request id: `owner` gives its namespace. -/
def OneNamespace (registry : InstanceId → Option Registered) (owner : ReqId → String) :
    QueryService → QueryEvent → Prop
  | _, .query _ instanceId req _ => ∀ target ∈ registry instanceId, target.nameSpace = owner req
  | _, _ => True

structure Owned (owner : ReqId → String) (s : QueryService) : Prop where
  tasks : ∀ req e, s.server.active.lookup req = some e → e.input.nameSpace = owner req
  calls : ∀ id call stage, s.calls.lookup id = some (call, stage) →
    call.target.nameSpace = owner call.req

variable {owner : ReqId → String}

theorem owned_init (owner : ReqId → String) : init.Owned owner := ⟨nofun, nofun⟩

section

variable (h : s.Owned owner)
include h

theorem Owned.step (hone : s.OneNamespace registry owner ev)
    (hst : s.step registry stores ev = some s') : s'.Owned owner := by
  cases step_cases hst with
  | wait => exact h
  | miss hreg => exact ⟨h.tasks, calls_setStage h.calls (hone _ hreg)⟩
  | take hreg ha hfin =>
    refine ⟨?_, calls_setStage h.calls (hone _ hreg)⟩
    exact fun req e he => h.tasks req e (lookup_of_erase he).2
  | scan hc | hit hc | settle hc => exact ⟨h.tasks, calls_setStage h.calls (h.calls _ _ _ hc)⟩
  | join hc => exact ⟨h.tasks, calls_endCall h.calls⟩
  | start hc hns hk =>
    exact ⟨forall_lookup_insert (hns.trans (h.calls _ _ _ hc)) h.tasks, calls_endCall h.calls⟩
  | answer hc =>
    refine ⟨?_, calls_endCall h.calls⟩
    simpa only [QueryServer.createQueryLease_active] using h.tasks
  | finish ha =>
    have hns := h.tasks _ _ ha
    exact ⟨forall_lookup_insert hns h.tasks, h.calls⟩
  | frame hcs hgr ha =>
    refine ⟨fun req e he => h.tasks req e (ha req e he), ?_⟩
    rw [hcs]
    exact h.calls

theorem Owned.ownTask (hone : s.OneNamespace registry owner ev) : s.OwnTask registry ev := by
  cases ev with
  | query id instanceId req hashes =>
    intro e he _ target htgt
    rw [hone target htgt]
    exact h.tasks req e he
  | _ => trivial

end

instance (registry : InstanceId → Option Registered) (owner : ReqId → String) (s : QueryService)
    (ev : QueryEvent) : Decidable (s.OneNamespace registry owner ev) :=
  match ev with
  | .query _ _ _ _ => inferInstanceAs (Decidable (∀ _ ∈ _, _))
  | .advance _ | .finishTask _ _ | .gc _ _ | .cache _ | .release _ | .sweepExpired _ =>
    isTrue trivial

/-! ## Every run -/

/-- In every run in which calls find only finished tasks of their own namespace, every
leased block was looked up in the namespace of the instance it is leased to.  Runs
that keep request ids apart are such runs. -/
theorem leases_isolated_of_ownTask (registry : InstanceId → Option Registered)
    (stores : BackingStores) :
    (∀ events s, Run.Meets (step registry stores) (OwnTask registry) init events →
      Run.exec (step registry stores) init events = some s → s.Isolated registry) ∧
    ∀ owner events, Run.Meets (step registry stores) (OneNamespace registry owner) init events →
      Run.Meets (step registry stores) (OwnTask registry) init events := by
  constructor
  · intro events s hmeets hrun
    have hscoped : s.Scoped registry :=
      exec_invariant_of_meets (fun _ _ _ h hown hstep => h.step hown hstep)
        (scoped_init registry) hmeets hrun
    exact hscoped.leases
  · intro owner events hmeets
    exact meets_of_invariant (I := Owned owner) (fun _ _ _ h hone hstep => h.step hone hstep)
      (fun _ _ h hone => h.ownTask hone) (owned_init owner) hmeets

/-- Two instances, `a` with the namespace `x` and `b` with the namespace `y`. -/
def twoInstances : InstanceId → Option Registered
  | "a" => some ⟨"x", 1⟩
  | "b" => some ⟨"y", 1⟩
  | _ => none

/-- Each instance asks under a request id of its own and gets what the SSD had. -/
theorem leases_isolated_of_ownTask_two_requests :
    ∃ s ∈ Run.exec (step twoInstances ⟨false, true⟩) init
        [.query 0 "a" "ra" [[1]], .advance 0, .advance 0, .query 1 "b" "rb" [[1]], .advance 1,
          .advance 1, .finishTask "ra" ⟨none, some (1, [(⟨"x", [1]⟩, .plain 8)])⟩,
          .finishTask "rb" ⟨none, some (1, [(⟨"y", [1]⟩, .plain 8)])⟩, .query 2 "b" "rb" [[1]],
          .advance 2, .advance 2, .query 3 "a" "ra" [[1]], .advance 3, .advance 3],
      s.server.leases.granted.length = 2 ∧ s.Isolated twoInstances := by
  refine exists_mem_imp (Q := fun s => s.server.leases.granted.length = 2) (by decide)
    fun s hs hgranted => ?_
  obtain ⟨hisolated, hone⟩ := leases_isolated_of_ownTask twoInstances ⟨false, true⟩
  exact ⟨hgranted,
    hisolated _ s (hone (fun req => if req = "ra" then "x" else "y") _ (by decide)) hs⟩

/-- Both instances ask under the request id `r`.  `b` polls the task of `a` and gets a
lease on a block of the namespace `x`. -/
theorem shared_request_id_leaks :
    ∃ s ∈ Run.exec (step twoInstances ⟨false, true⟩) init
        [.query 0 "a" "r" [[1]], .advance 0, .advance 0,
          .finishTask "r" ⟨none, some (1, [(⟨"x", [1]⟩, .plain 8)])⟩, .query 1 "b" "r" [[2]],
          .advance 1, .advance 1],
      ¬ s.Isolated twoInstances := by
  refine exists_mem_imp (Q := fun s => ∃ lease ∈ s.server.leases.granted, lease.instanceId = "b" ∧
      ∃ b ∈ lease.blocks, b.1.nameSpace = "x") (by decide)
    fun s hs hrun => ?_
  obtain ⟨lease, hlease, hinst, b, hb, hns⟩ := hrun
  refine fun hisolated => ?_
  obtain ⟨target, htarget, hfound⟩ := hisolated lease hlease
  rw [hinst] at htarget
  cases htarget
  exact absurd ((hfound b hb).symm.trans hns) (by decide)

end QueryService

end PegaFlow.Storage
