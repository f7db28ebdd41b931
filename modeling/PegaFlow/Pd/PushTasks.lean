import Mathlib.Data.Finset.Basic
import PegaFlow.Lib.Run
import PegaFlow.Lib.Table

/-!
# Layer pushes and finalize tasks

The threads of the prefill side: the layer-push tasks of `_AsyncLayerPushSender`, the finalize
tasks of `_AsyncPushFinalizer` (`python/pegaflow/pd_connector/prefill_async.py`, both an
`InflightTaskRunner` of `async_runner.py`), the RDMA writes with their counters (`push_layer`,
`wait_for_request_writes`, `push_done` and `close_request` in `python/src/pd_rdma.rs`), and the
handler that submits, releases and closes (`prefill_worker.py`, `worker.py`).

A step is what one thread does under a lock or between two waits, so that every interleaving of the
threads is a run.  Requests are physical ones.

The sender keeps one error for all its tasks.  A task that raises stores its exception there, over
any older one; the next `wait_req`, of whatever request, takes it out and raises it.  The finalize
task of a request whose push failed can so find no error, and sends `push_done`.

The error is modelled by the request whose task raised it, which no step reads.  `failed` records
the requests with a task that raised or was skipped since they were opened.  The counters of a
request's writes are shared with the callbacks of its writes and outlive `close_request`; the
entry of the request is then a new one, which is what `life` counts.  The global write window,
deadlines (a wait that times out is `finalizerRaises`), statistics and log lines are left out.
-/

namespace PegaFlow.Pd

/-- A physical request id. -/
abbrev PhysicalReqId := String

inductive TaskStage where
  | queued
  | running
  | ended
deriving DecidableEq, Repr

/-- `_LayerPushTask`. -/
structure LayerTask where
  req : PhysicalReqId
  stage : TaskStage
deriving DecidableEq, Repr

/-- `PendingRdmaWrites`. -/
structure WriteCounts where
  submitted : Nat
  completed : Nat
  errors : Nat
deriving DecidableEq, Repr

/-- Where `_AsyncPushFinalizer._run` is with its current request.  A wait for writes knows the
counters it waits on and their `submitted` when it began. -/
inductive FinalizeStage where
  | check
  | waitTasks
  | checkTasks
  | waitWrites (target : Option (Nat × Nat))
  | checkWrites
  | pushDone (target : Option (Nat × Nat))
  | sent
deriving DecidableEq, Repr

/-- `_PushFinalizeTask`, with the requests it has not come to yet and the lives of its requests when
it was submitted. -/
structure Finalizer where
  reqIds : List PhysicalReqId
  rest : List PhysicalReqId
  stage : FinalizeStage
  lives : PhysicalReqId → Nat

structure PushSystem where
  /-- The sender. -/
  inflightByReq : Table PhysicalReqId Nat
  cancelled : Finset PhysicalReqId
  error : Option PhysicalReqId
  tasks : List LayerTask
  /-- The handler: the requests that are finalized, those that are released and not closed, and
  among these the ones whose finalize tasks are cancelled too. -/
  done : Finset PhysicalReqId
  releasing : Finset PhysicalReqId
  stopped : Finset PhysicalReqId
  /-- The finalizer. -/
  finalizers : List Finalizer
  finalizersCancelled : Finset PhysicalReqId
  finalizerError : Bool
  /-- The RDMA engine. -/
  remote : Finset PhysicalReqId
  life : PhysicalReqId → Nat
  writeCounts : Table (PhysicalReqId × Nat) WriteCounts
  writes : List (PhysicalReqId × Nat)
  failed : Finset PhysicalReqId

/-- How a layer push ends.  It may have no bytes to write, and it may raise before or after it has
counted a write. -/
inductive PushOutcome where
  | pushed (wrote : Bool)
  | raised (wrote : Bool)
deriving DecidableEq, Repr

inductive PushEvent where
  | openRequest (req : PhysicalReqId)
  | submit (req : PhysicalReqId)
  | startTask (i : Nat)
  | runTask (i : Nat) (outcome : PushOutcome)
  | finishTask (i : Nat)
  | completeWrite (i : Nat) (ok : Bool)
  | finalize (reqIds : List PhysicalReqId)
  | finalizerStep (i : Nat)
  | finalizerRaises (i : Nat)
  /-- The two `cancel_many` calls of `release`. -/
  | cancelPushes (reqIds : List PhysicalReqId)
  | cancelFinalizers (reqIds : List PhysicalReqId)
  /-- `wait_req` in `_drain_physical_request`. -/
  | drain (req : PhysicalReqId)
  | closeRequest (req : PhysicalReqId)

namespace PushSystem

def init : PushSystem :=
  ⟨∅, ∅, none, [], ∅, ∅, ∅, [], ∅, false, ∅, fun _ => 0, ∅, [], ∅⟩

variable (s : PushSystem)

def inflight (r : PhysicalReqId) : Nat := (s.inflightByReq.lookup r).getD 0

/-! ## Writes -/

def countsOf (key : PhysicalReqId × Nat) : WriteCounts :=
  (s.writeCounts.lookup key).getD ⟨0, 0, 0⟩

/-- `push_layer` counts a write and submits it. -/
def submitWrite (r : PhysicalReqId) : PushSystem :=
  let key := (r, s.life r)
  let counts := s.countsOf key
  { s with
    writeCounts := s.writeCounts.insert key { counts with submitted := counts.submitted + 1 }
    writes := s.writes ++ [key] }

/-- `push_layer` counts a write that cannot be submitted. -/
def failWrite (r : PhysicalReqId) : PushSystem :=
  let key := (r, s.life r)
  let counts := s.countsOf key
  let counts := ⟨counts.submitted + 1, counts.completed + 1, counts.errors + 1⟩
  { s with writeCounts := s.writeCounts.insert key counts }

/-- What `wait_for_request_writes` waits for, when it is called. -/
def writeTarget (r : PhysicalReqId) : Option (Nat × Nat) :=
  let counts := s.countsOf (r, s.life r)
  if counts.submitted = 0 then none else some (s.life r, counts.submitted)

inductive WaitResult where
  | waiting
  | failed
  | completed
deriving DecidableEq, Repr

/-- Where a wait for the writes of a request is. -/
def writesOver (r : PhysicalReqId) : Option (Nat × Nat) → WaitResult
  | none => .completed
  | some (life, submitted) =>
    let counts := s.countsOf (r, life)
    if counts.completed < submitted then .waiting
    else if counts.errors = 0 then .completed else .failed

/-! ## Finalize tasks -/

def setFinalizer (i : Nat) (f : Finalizer) : PushSystem :=
  { s with finalizers := s.finalizers.set i f }

/-- A finalize task ends. -/
def endFinalizer (i : Nat) (f : Finalizer) (raised : Bool) : PushSystem :=
  { s with
    finalizers := s.finalizers.eraseIdx i
    finalizersCancelled := s.finalizersCancelled \ f.reqIds.toFinset
    finalizerError := s.finalizerError || raised }

/-- One step of a finalize task. -/
def stepFinalizer (i : Nat) (f : Finalizer) : Option PushSystem :=
  match f.rest with
  | [] => some (s.endFinalizer i f false)
  | r :: rest =>
    let skip := s.setFinalizer i { f with rest := rest, stage := .check }
    match f.stage with
    | .check =>
      some (if r ∈ s.finalizersCancelled then skip
        else s.setFinalizer i { f with stage := .waitTasks })
    | .waitTasks =>
      match s.error with
      | some _ => some ({ s with error := none }.endFinalizer i f true)
      | none =>
        if s.inflight r = 0 then some (s.setFinalizer i { f with stage := .checkTasks })
        else none
    | .checkTasks =>
      some (if r ∈ s.finalizersCancelled then skip
        else s.setFinalizer i { f with stage := .waitWrites (s.writeTarget r) })
    | .waitWrites target =>
      match s.writesOver r target with
      | .waiting => none
      | .failed => some (s.endFinalizer i f true)
      | .completed => some (s.setFinalizer i { f with stage := .checkWrites })
    | .checkWrites =>
      some (if r ∈ s.finalizersCancelled then skip
        else s.setFinalizer i { f with stage := .pushDone (s.writeTarget r) })
    | .pushDone target =>
      match s.writesOver r target with
      | .waiting => none
      | .failed => some (s.endFinalizer i f true)
      | .completed =>
        some (if r ∈ s.remote then s.setFinalizer i { f with stage := .sent }
          else s.endFinalizer i f true)
    | .sent => some skip

/-- The request for which a step sends the done immediate. -/
def sends : PushEvent → Option PhysicalReqId
  | .finalizerStep i =>
    match s.finalizers[i]? with
    | some ⟨_, r :: _, .pushDone target, _⟩ =>
      if s.writesOver r target = .completed ∧ r ∈ s.remote then some r else none
    | _ => none
  | _ => none

/-- The request that a step inserts into `finished_sending`, with the life it had when it was
finalized. -/
def inserts : PushEvent → Option (PhysicalReqId × Nat)
  | .finalizerStep i =>
    match s.finalizers[i]? with
    | some ⟨_, r :: _, .sent, lives⟩ => some (r, lives r)
    | _ => none
  | _ => none

/-! ## The system -/

def setStage (i : Nat) (task : LayerTask) (stage : TaskStage) : PushSystem :=
  { s with tasks := s.tasks.set i { task with stage := stage } }

/-- `_finish_locked`. -/
def finish (r : PhysicalReqId) : PushSystem :=
  let remaining := s.inflight r - 1
  { s with
    inflightByReq :=
      if 0 < remaining then s.inflightByReq.insert r remaining else s.inflightByReq.erase r
    cancelled := if 0 < remaining then s.cancelled else s.cancelled.erase r }

def step : PushEvent → Option PushSystem
  | .openRequest r => some { s with remote := insert r s.remote }
  | .submit r =>
    if r ∈ s.done ∨ r ∈ s.releasing then none
    else if s.error.isSome then some s
    else
      some { s with
        inflightByReq := s.inflightByReq.insert r (s.inflight r + 1)
        tasks := s.tasks ++ [⟨r, .queued⟩] }
  | .startTask i =>
    match s.tasks[i]? with
    | some ⟨r, .queued⟩ =>
      if r ∈ s.cancelled then
        some { s.setStage i ⟨r, .queued⟩ .ended with failed := insert r s.failed }
      else some (s.setStage i ⟨r, .queued⟩ .running)
    | _ => none
  | .runTask i outcome =>
    match s.tasks[i]? with
    | some ⟨r, .running⟩ =>
      let s' := s.setStage i ⟨r, .running⟩ .ended
      match outcome with
      | .pushed wrote =>
        if r ∈ s.remote then some (if wrote then s'.submitWrite r else s') else none
      | .raised wrote =>
        let s' := if wrote then s'.failWrite r else s'
        some { s' with error := some r, failed := insert r s.failed }
    | _ => none
  | .finishTask i =>
    match s.tasks[i]? with
    | some ⟨r, .ended⟩ => some ({ s with tasks := s.tasks.eraseIdx i }.finish r)
    | _ => none
  | .completeWrite i ok =>
    match s.writes[i]? with
    | some key =>
      let counts := s.countsOf key
      let counts := { counts with
        completed := counts.completed + 1
        errors := if ok then counts.errors else counts.errors + 1 }
      some { s with
        writes := s.writes.eraseIdx i
        writeCounts := s.writeCounts.insert key counts }
    | none => none
  | .finalize reqIds =>
    if ∀ r ∈ reqIds, r ∉ s.done ∧ r ∉ s.releasing then
      let s' := { s with done := s.done ∪ reqIds.toFinset }
      if s.finalizerError ∨ reqIds ∈ s.finalizers.map Finalizer.reqIds then some s'
      else some { s' with finalizers := s.finalizers ++ [⟨reqIds, reqIds, .check, s.life⟩] }
    else none
  | .finalizerStep i => (s.finalizers[i]?).bind (s.stepFinalizer i)
  | .finalizerRaises i =>
    match s.finalizers[i]? with
    | some ⟨reqIds, rest, .waitWrites target, lives⟩ =>
      some (s.endFinalizer i ⟨reqIds, rest, .waitWrites target, lives⟩ true)
    | some ⟨reqIds, rest, .pushDone target, lives⟩ =>
      some (s.endFinalizer i ⟨reqIds, rest, .pushDone target, lives⟩ true)
    | some ⟨reqIds, rest, .sent, lives⟩ =>
      some (s.endFinalizer i ⟨reqIds, rest, .sent, lives⟩ true)
    | _ => none
  | .cancelPushes reqIds =>
    some { s with
      cancelled := s.cancelled ∪ (reqIds.filter fun r => 0 < s.inflight r).toFinset
      releasing := s.releasing ∪ reqIds.toFinset }
  | .cancelFinalizers reqIds =>
    if ∀ r ∈ reqIds, r ∈ s.releasing then
      some { s with
        finalizersCancelled := s.finalizersCancelled ∪
          (reqIds.filter fun r => s.finalizers.any fun f => r ∈ f.reqIds).toFinset
        stopped := s.stopped ∪ reqIds.toFinset }
    else none
  | .drain r =>
    if r ∈ s.stopped ∧ (s.inflight r = 0 ∨ s.error.isSome) then some { s with error := none }
    else none
  | .closeRequest r =>
    some { s with
      remote := s.remote.erase r
      life := Function.update s.life r (s.life r + 1)
      done := s.done.erase r
      releasing := s.releasing.erase r
      stopped := s.stopped.erase r
      failed := s.failed.erase r }

/-! ## Inversion -/

variable {s s' : PushSystem} {f f' : Finalizer} {i : Nat} {ev : PushEvent}
variable {r q : PhysicalReqId} {rest : List PhysicalReqId}

/-- What a finalize task does to itself in a step in which it goes on. -/
inductive Moves (s : PushSystem) (f : Finalizer) (r : PhysicalReqId) (rest : List PhysicalReqId) :
    Finalizer → Prop where
  | skips : r ∈ s.finalizersCancelled → Moves s f r rest { f with rest := rest, stage := .check }
  | begins : f.stage = .check → Moves s f r rest { f with stage := .waitTasks }
  | tasksOver : f.stage = .waitTasks → s.error = none → s.inflight r = 0 →
      Moves s f r rest { f with stage := .checkTasks }
  | waits : f.stage = .checkTasks → r ∉ s.finalizersCancelled →
      Moves s f r rest { f with stage := .waitWrites (s.writeTarget r) }
  | writesOver {target : Option (Nat × Nat)} : f.stage = .waitWrites target →
      Moves s f r rest { f with stage := .checkWrites }
  | pushes : f.stage = .checkWrites → r ∉ s.finalizersCancelled →
      Moves s f r rest { f with stage := .pushDone (s.writeTarget r) }
  | sent {target : Option (Nat × Nat)} : f.stage = .pushDone target →
      s.writesOver r target = .completed → r ∈ s.remote → Moves s f r rest { f with stage := .sent }
  | inserted : f.stage = .sent → Moves s f r rest { f with rest := rest, stage := .check }

inductive Step (s : PushSystem) : PushEvent → PushSystem → Prop where
  | idle {ev : PushEvent} : Step s ev s
  | opened {r : PhysicalReqId} : Step s (.openRequest r) { s with remote := insert r s.remote }
  | submitted {r : PhysicalReqId} : r ∉ s.done → r ∉ s.releasing →
      Step s (.submit r) { s with
        inflightByReq := s.inflightByReq.insert r (s.inflight r + 1)
        tasks := s.tasks ++ [⟨r, .queued⟩] }
  | started {i : Nat} {r : PhysicalReqId} : s.tasks[i]? = some ⟨r, .queued⟩ →
      Step s (.startTask i) (s.setStage i ⟨r, .queued⟩ .running)
  | skipped {i : Nat} {r : PhysicalReqId} : s.tasks[i]? = some ⟨r, .queued⟩ → r ∈ s.cancelled →
      Step s (.startTask i)
        { s.setStage i ⟨r, .queued⟩ .ended with failed := insert r s.failed }
  | pushed {i : Nat} {r : PhysicalReqId} : s.tasks[i]? = some ⟨r, .running⟩ →
      Step s (.runTask i (.pushed false)) (s.setStage i ⟨r, .running⟩ .ended)
  | wrote {i : Nat} {r : PhysicalReqId} : s.tasks[i]? = some ⟨r, .running⟩ →
      Step s (.runTask i (.pushed true)) ((s.setStage i ⟨r, .running⟩ .ended).submitWrite r)
  | raised {i : Nat} {r : PhysicalReqId} : s.tasks[i]? = some ⟨r, .running⟩ →
      Step s (.runTask i (.raised false))
        { s.setStage i ⟨r, .running⟩ .ended with error := some r, failed := insert r s.failed }
  | failedWrite {i : Nat} {r : PhysicalReqId} : s.tasks[i]? = some ⟨r, .running⟩ →
      Step s (.runTask i (.raised true))
        { (s.setStage i ⟨r, .running⟩ .ended).failWrite r with
          error := some r, failed := insert r s.failed }
  | finished {i : Nat} {r : PhysicalReqId} : s.tasks[i]? = some ⟨r, .ended⟩ →
      Step s (.finishTask i) ({ s with tasks := s.tasks.eraseIdx i }.finish r)
  | completed {i : Nat} {ok : Bool} {key : PhysicalReqId × Nat} : s.writes[i]? = some key →
      Step s (.completeWrite i ok) { s with
        writes := s.writes.eraseIdx i
        writeCounts := s.writeCounts.insert key
          { s.countsOf key with
            completed := (s.countsOf key).completed + 1
            errors := if ok then (s.countsOf key).errors else (s.countsOf key).errors + 1 } }
  | marked {reqIds : List PhysicalReqId} :
      Step s (.finalize reqIds) { s with done := s.done ∪ reqIds.toFinset }
  | finalized {reqIds : List PhysicalReqId} : (∀ r ∈ reqIds, r ∉ s.done ∧ r ∉ s.releasing) →
      Step s (.finalize reqIds) { s with
        done := s.done ∪ reqIds.toFinset
        finalizers := s.finalizers ++ [⟨reqIds, reqIds, .check, s.life⟩] }
  | moved {i : Nat} {f f' : Finalizer} {r : PhysicalReqId} {rest : List PhysicalReqId} :
      s.finalizers[i]? = some f → f.rest = r :: rest → s.Moves f r rest f' →
      Step s (.finalizerStep i) (s.setFinalizer i f')
  | tookError {i : Nat} {f : Finalizer} {r : PhysicalReqId} {rest : List PhysicalReqId} :
      s.finalizers[i]? = some f → f.rest = r :: rest → f.stage = .waitTasks →
      Step s (.finalizerStep i) ({ s with error := none }.endFinalizer i f true)
  | ended {ev : PushEvent} {i : Nat} {f : Finalizer} {raised : Bool} :
      ev = .finalizerStep i ∨ ev = .finalizerRaises i → s.finalizers[i]? = some f →
      Step s ev (s.endFinalizer i f raised)
  | cancelledPushes {reqIds : List PhysicalReqId} :
      Step s (.cancelPushes reqIds) { s with
        cancelled := s.cancelled ∪ (reqIds.filter fun r => 0 < s.inflight r).toFinset
        releasing := s.releasing ∪ reqIds.toFinset }
  | cancelledFinalizers {reqIds : List PhysicalReqId} : (∀ r ∈ reqIds, r ∈ s.releasing) →
      Step s (.cancelFinalizers reqIds) { s with
        finalizersCancelled := s.finalizersCancelled ∪
          (reqIds.filter fun r => s.finalizers.any fun f => r ∈ f.reqIds).toFinset
        stopped := s.stopped ∪ reqIds.toFinset }
  | drained {r : PhysicalReqId} : r ∈ s.stopped → Step s (.drain r) { s with error := none }
  | closed {r : PhysicalReqId} :
      Step s (.closeRequest r) { s with
        remote := s.remote.erase r
        life := Function.update s.life r (s.life r + 1)
        done := s.done.erase r
        releasing := s.releasing.erase r
        stopped := s.stopped.erase r
        failed := s.failed.erase r }

theorem inflight_finish :
    (s.finish r).inflight q = if q = r then s.inflight r - 1 else s.inflight q := by
  rw [inflight, finish]
  split
  · exact Table.getD_lookup_insert 0
  next hz =>
    rw [Table.getD_lookup_erase, Nat.eq_zero_of_not_pos hz]
    rfl

theorem mem_cancelled_finish :
    q ∈ (s.finish r).cancelled ↔ q ∈ s.cancelled ∧ (q = r → 1 < s.inflight r) := by
  rw [finish]
  split
  next hpos => exact (and_iff_left fun _ => by omega).symm
  next hz =>
    rw [Finset.mem_erase, and_comm]
    exact and_congr_right fun _ =>
      ⟨fun hqr heq => absurd heq hqr, fun hl heq => hz (Nat.sub_pos_of_lt (hl heq))⟩

theorem stepFinalizer_cases (hf : s.finalizers[i]? = some f) (h : s.stepFinalizer i f = some s') :
    s.Step (.finalizerStep i) s' := by
  unfold stepFinalizer at h
  split at h
  · cases h
    exact .ended (Or.inl rfl) hf
  next r rest hrest =>
    split at h
    next hst =>
      cases h
      split
      next hr => exact .moved hf hrest (.skips hr)
      · exact .moved hf hrest (.begins hst)
    next hst =>
      split at h
      · cases h
        exact .tookError hf hrest hst
      next herr =>
        obtain ⟨hinf, rfl⟩ := Run.guarded_eq_some.mp h
        exact .moved hf hrest (.tasksOver hst herr hinf)
    next hst =>
      cases h
      split
      next hr => exact .moved hf hrest (.skips hr)
      next hr => exact .moved hf hrest (.waits hst hr)
    next hst =>
      split at h
      · cases h
      · cases h
        exact .ended (Or.inl rfl) hf
      · cases h
        exact .moved hf hrest (.writesOver hst)
    next hst =>
      cases h
      split
      next hr => exact .moved hf hrest (.skips hr)
      next hr => exact .moved hf hrest (.pushes hst hr)
    next hst =>
      split at h
      · cases h
      · cases h
        exact .ended (Or.inl rfl) hf
      next ho =>
        cases h
        split
        next hr => exact .moved hf hrest (.sent hst ho hr)
        · exact .ended (Or.inl rfl) hf
    next hst =>
      cases h
      exact .moved hf hrest (.inserted hst)

theorem step_cases (h : s.step ev = some s') : s.Step ev s' := by
  cases ev with dsimp only [step] at h
  | openRequest r =>
    cases h
    exact .opened
  | submit r =>
    split at h
    · cases h
    next hr =>
      rw [not_or] at hr
      split at h
      · cases h
        exact .idle
      · cases h
        exact .submitted hr.1 hr.2
  | startTask i =>
    split at h
    next r ht =>
      split at h
      next hr =>
        cases h
        exact .skipped ht hr
      · cases h
        exact .started ht
    · cases h
  | runTask i outcome =>
    split at h
    next r ht =>
      cases outcome with
      | pushed wrote =>
        obtain ⟨-, rfl⟩ := Run.guarded_eq_some.mp h
        cases wrote with
        | false => exact .pushed ht
        | true => exact .wrote ht
      | raised wrote =>
        cases h
        cases wrote with
        | false => exact .raised ht
        | true => exact .failedWrite ht
    · cases h
  | finishTask i =>
    split at h
    next r ht =>
      cases h
      exact .finished ht
    · cases h
  | completeWrite i ok =>
    split at h
    next key hk =>
      cases h
      exact .completed hk
    · cases h
  | finalize reqIds =>
    split at h
    next hnew =>
      split at h
      · cases h
        exact .marked
      · cases h
        exact .finalized hnew
    · cases h
  | finalizerStep i =>
    obtain ⟨f, hf, h⟩ := Option.bind_eq_some_iff.mp h
    exact stepFinalizer_cases hf h
  | finalizerRaises i =>
    split at h
    next hf =>
      cases h
      exact .ended (Or.inr rfl) hf
    next hf =>
      cases h
      exact .ended (Or.inr rfl) hf
    next hf =>
      cases h
      exact .ended (Or.inr rfl) hf
    · cases h
  | cancelPushes reqIds =>
    cases h
    exact .cancelledPushes
  | cancelFinalizers reqIds =>
    obtain ⟨hrel, rfl⟩ := Run.guarded_eq_some.mp h
    exact .cancelledFinalizers hrel
  | drain r =>
    obtain ⟨hr, rfl⟩ := Run.guarded_eq_some.mp h
    exact .drained hr.1
  | closeRequest r =>
    cases h
    exact .closed

end PushSystem

end PegaFlow.Pd
