import PegaFlow.Lib.Run
import PegaFlow.Pd.DecodeWait

/-!
# Generations of a wait

`_AsyncRdmaDoneWaiter` of `python/pegaflow/pd_connector/decode_worker.py` waits for the RDMA writes
of requests on threads of its own.  A request id may come again, so every submission has a
generation.  When a wait fails, its generation is cancelled: the execution that finds itself
cancelled ends without a callback.

The callbacks are given the request id only.  An execution that raises calls the failure callback
without a look at its cancellation, and one that has looked may be cancelled before it calls the
success callback.  If a wait is registered under the id again by then, the outcome of the older
generation is taken for the outcome of the later one.  So it is when `wait_done` returns for an older
generation: it has put the id into `finished_recving` of the RDMA engine, where `get_finished` finds
it whether the execution is cancelled or not.

This does not happen in runs in which an id is registered again only when the executions that are
left of it are cancelled and have yet to see it, and in which `wait_done` does not come to an end for
a generation that has been superseded (`Isolating`).

The steps are those of the threads between two locks: the forward thread, which registers waits and
calls `get_finished` of `worker.py`, the executions, and the threads on which prefill requests fail.
`rdma.wait_done` may return or raise at any time.  Registrations are numbered to tell an older wait
from a later one; no step reads the numbers.
-/

namespace PegaFlow.Pd

open Option AList Table Run

/-- Where `_execute` is. -/
inductive WaitStage where
  | queued
  | waiting
  | returned
  | checked
  | raised
  | cancelling
  | finishing
deriving DecidableEq, Repr

/-- An execution, with the number of the registration it was submitted for. -/
structure WaitTask where
  stage : WaitStage
  registration : Nat
deriving DecidableEq, Repr

/-- An execution is known by its request id and generation. -/
abbrev TaskId := ReqId × Nat

/-- What `get_finished` takes next. -/
inductive ReportStage where
  | rdmaWaits
  | aborted
  | failed
  | finish
deriving DecidableEq, Repr

structure DecodeWaiter where
  waits : DecodeWaitState
  submitted : Table ReqId Nat
  cancelled : Table ReqId (Finset Nat)
  nextGeneration : Table ReqId Nat
  tasks : Table TaskId WaitTask
  /-- The request that the forward thread has registered and not submitted. -/
  submitting : Option (ReqId × Nat)
  /-- The requests that were marked as failed by their prefill request and are not cancelled. -/
  cancels : List ReqId
  /-- `finished_recving` of the RDMA engine, with the registrations that were waited for. -/
  finishedRecving : Table ReqId Nat
  /-- What the forward thread has gathered in `get_finished`. -/
  reporting : Option (ReportStage × Finset ReqId)
  registrations : Nat
  registered : Table ReqId Nat

inductive WaiterEvent where
  | registerWait (reqId : ReqId) (req : WaitReqMeta)
  | submit
  | start (task : TaskId)
  | returns (task : TaskId)
  | check (task : TaskId)
  | succeed (task : TaskId)
  | raises (task : TaskId)
  | fail (task : TaskId)
  | cancelOwn (task : TaskId)
  | finish (task : TaskId)
  | prefillFails (remoteRequestId : String)
  | cancel (i : Nat)
  | release (reqId : ReqId)
  | getFinished
  | report
  | drainFailedForMeta
  | drainFailedBlockIds

/-- The execution whose thread takes the step. -/
def WaiterEvent.task? : WaiterEvent → Option TaskId
  | .start task | .returns task | .check task | .succeed task | .raises task | .fail task
  | .cancelOwn task | .finish task => some task
  | _ => none

namespace DecodeWaiter

def new : DecodeWaiter := ⟨.new, ∅, ∅, ∅, ∅, none, [], ∅, none, 0, ∅⟩

variable (s : DecodeWaiter) (id : TaskId) (task : WaitTask)

/-- The forward thread is between two calls. -/
def Idle : Prop := s.submitting = none ∧ s.reporting = none

instance : Decidable s.Idle := inferInstanceAs (Decidable (_ ∧ _))

def isCancelled (task : TaskId) : Bool :=
  (s.cancelled.lookup task.1).any fun generations => task.2 ∈ generations

def setStage (stage : WaitStage) : DecodeWaiter :=
  { s with tasks := s.tasks.insert id { task with stage } }

def setWaits (waits : DecodeWaitState) : DecodeWaiter := { s with waits }

/-- `_AsyncRdmaDoneWaiter.cancel`. -/
def cancelReq (reqId : ReqId) : DecodeWaiter :=
  match s.submitted.lookup reqId with
  | none => s
  | some generation =>
    { s with
      submitted := s.submitted.erase reqId
      cancelled := s.cancelled.insert reqId
        (insert generation ((s.cancelled.lookup reqId).getD ∅)) }

/-- The `finally` block of `_execute`. -/
def finishTask : DecodeWaiter :=
  { s with
    submitted :=
      if s.submitted.lookup id.1 = some id.2 then s.submitted.erase id.1 else s.submitted
    cancelled :=
      match s.cancelled.lookup id.1 with
      | none => s.cancelled
      | some generations =>
        if generations.erase id.2 = ∅ then s.cancelled.erase id.1
        else s.cancelled.insert id.1 (generations.erase id.2)
    tasks := s.tasks.erase id }

/-- `_AsyncRdmaDoneWaiter.submit`. -/
def submitTask (reqId : ReqId) (registration : Nat) : DecodeWaiter :=
  if (s.submitted.lookup reqId).isSome then s
  else
    let generation := (s.nextGeneration.lookup reqId).getD 0 + 1
    { s with
      nextGeneration := s.nextGeneration.insert reqId generation
      submitted := s.submitted.insert reqId generation
      tasks := s.tasks.insert (reqId, generation) ⟨.queued, registration⟩ }

/-- `wait_done` returns. -/
def markReturned : DecodeWaiter :=
  { s.setStage id task .returned with
    finishedRecving :=
      if (s.finishedRecving.lookup id.1).isSome then s.finishedRecving
      else s.finishedRecving.insert id.1 task.registration }

/-- The next step of `get_finished`. -/
def reportStep : ReportStage → Finset ReqId → DecodeWaiter
  | .rdmaWaits, ids =>
    { s with
      waits := { s.waits with finishedRdmaWaits := ∅ }
      reporting := some (.aborted, ids ∪ s.waits.finishedRdmaWaits) }
  | .aborted, ids =>
    { s with
      waits := { s.waits with finishedAbortedRecving := ∅ }
      reporting := some (.failed, ids ∪ s.waits.finishedAbortedRecving) }
  | .failed, ids =>
    { s with
      waits := { s.waits with failedRecving := ∅ }
      reporting := some (.finish, ids ∪ s.waits.failedRecving) }
  | .finish, ids =>
    { s with
      waits := s.waits.finishRecving ids
      finishedRecving :=
        s.finishedRecving.filterMap fun reqId n => if reqId ∈ ids then none else some n
      reporting := none }

def step (s : DecodeWaiter) : WaiterEvent → Option DecodeWaiter
  | .registerWait reqId req =>
    if s.Idle ∧ s.waits.hasWait reqId = false then
      some
        { s with
          waits := s.waits.registerWait reqId req
          submitting := some (reqId, s.registrations)
          registrations := s.registrations + 1
          registered := s.registered.insert reqId s.registrations }
    else none
  | .submit =>
    match s.submitting with
    | some (reqId, registration) =>
      some (submitTask { s with submitting := none } reqId registration)
    | none => none
  | .start id =>
    match s.tasks.lookup id with
    | some ⟨.queued, registration⟩ =>
      some (s.setStage id ⟨.queued, registration⟩
        (if s.isCancelled id then .finishing else .waiting))
    | _ => none
  | .returns id =>
    match s.tasks.lookup id with
    | some ⟨.waiting, registration⟩ => some (s.markReturned id ⟨.waiting, registration⟩)
    | _ => none
  | .check id =>
    match s.tasks.lookup id with
    | some ⟨.returned, registration⟩ =>
      some (s.setStage id ⟨.returned, registration⟩
        (if s.isCancelled id then .finishing else .checked))
    | _ => none
  | .succeed id =>
    match s.tasks.lookup id with
    | some ⟨.checked, registration⟩ =>
      some ((s.setWaits (s.waits.recordRdmaDone id.1)).setStage id ⟨.checked, registration⟩
        .finishing)
    | _ => none
  | .raises id =>
    match s.tasks.lookup id with
    | some ⟨.waiting, registration⟩ => some (s.setStage id ⟨.waiting, registration⟩ .raised)
    | _ => none
  | .fail id =>
    match s.tasks.lookup id with
    | some ⟨.raised, registration⟩ =>
      some ((s.setWaits (s.waits.markWaitFailed id.1).1).setStage id ⟨.raised, registration⟩
        (if (s.waits.markWaitFailed id.1).2 = .failed then .cancelling else .finishing))
    | _ => none
  | .cancelOwn id =>
    match s.tasks.lookup id with
    | some ⟨.cancelling, registration⟩ =>
      some ((s.cancelReq id.1).setStage id ⟨.cancelling, registration⟩ .finishing)
    | _ => none
  | .finish id =>
    match s.tasks.lookup id with
    | some ⟨.finishing, _⟩ => some (s.finishTask id)
    | _ => none
  | .prefillFails remoteRequestId =>
    some
      { s with
        waits := (s.waits.markPrefillFailed remoteRequestId).1
        cancels := s.cancels ++ (s.waits.markPrefillFailed remoteRequestId).2.toList }
  | .cancel i =>
    match s.cancels[i]? with
    | some reqId => some { s.cancelReq reqId with cancels := s.cancels.eraseIdx i }
    | none => none
  | .release reqId => if s.Idle then some (s.setWaits (s.waits.markAborted reqId)) else none
  | .getFinished =>
    if s.Idle then
      some
        { s with
          finishedRecving := ∅
          reporting := some (.rdmaWaits, s.finishedRecving.keys.toFinset) }
    else none
  | .report => s.reporting.map fun (stage, ids) => s.reportStep stage ids
  | .drainFailedForMeta =>
    if s.Idle then some (s.setWaits { s.waits with failedRecvingForMeta := ∅ }) else none
  | .drainFailedBlockIds =>
    if s.Idle then some (s.setWaits { s.waits with failedBlockIds := ∅ }) else none

/-! ## What a step does -/

/-- The request is about to be reported by `get_finished`. -/
def Finishing (s : DecodeWaiter) (reqId : ReqId) : Prop :=
  (∃ n, s.finishedRecving.lookup reqId = some n) ∨ s.waits.Reportable reqId ∨
    ∃ e ∈ s.reporting, reqId ∈ e.2

/-- The forward thread gathers outcomes and takes waits out, but adds nothing. -/
structure Gathers (s s' : DecodeWaiter) : Prop where
  waits : ∀ k, s'.waits.hasWait k → s.waits.hasWait k
  kept : ∀ k, s.waits.hasWait k → s'.waits.hasWait k ∨ s.Finishing k
  finished : ∀ k n, s'.finishedRecving.lookup k = some n → s.finishedRecving.lookup k = some n
  finishing : ∀ k, s'.Finishing k → s.Finishing k

/-- The cases of a step. -/
inductive Step (s : DecodeWaiter) : WaiterEvent → DecodeWaiter → Prop where
  | registerWait {reqId : ReqId} {req : WaitReqMeta} (hidle : s.Idle)
      (hwait : s.waits.hasWait reqId = false) :
      Step s (.registerWait reqId req)
        { s with
          waits := s.waits.registerWait reqId req
          submitting := some (reqId, s.registrations)
          registrations := s.registrations + 1
          registered := s.registered.insert reqId s.registrations }
  | dropped : Step s .submit { s with submitting := none }
  | submitted {reqId : ReqId} {registration generation : Nat}
      {nextGeneration submitted : Table ReqId Nat}
      (hsubmitting : s.submitting = some (reqId, registration)) :
      Step s .submit
        { s with
          submitting := none
          nextGeneration
          submitted
          tasks := s.tasks.insert (reqId, generation) ⟨.queued, registration⟩ }
  | started {id : TaskId} {task : WaitTask} (htask : s.tasks.lookup id = some task) :
      Step s (.start id) (s.setStage id task .waiting)
  | gaveUp (ev : WaiterEvent) {id : TaskId} {task : WaitTask}
      (htask : s.tasks.lookup id = some task) : Step s ev (s.setStage id task .finishing)
  | returned {id : TaskId} {task : WaitTask} (htask : s.tasks.lookup id = some task)
      (hstage : task.stage = .waiting) : Step s (.returns id) (s.markReturned id task)
  | checked {id : TaskId} {task : WaitTask} (htask : s.tasks.lookup id = some task)
      (hstage : task.stage = .returned) (hcancelled : s.isCancelled id = false) :
      Step s (.check id) (s.setStage id task .checked)
  | succeeded {id : TaskId} {task : WaitTask} (htask : s.tasks.lookup id = some task)
      (hstage : task.stage = .checked) :
      Step s (.succeed id)
        ((s.setWaits (s.waits.recordRdmaDone id.1)).setStage id task .finishing)
  | raised {id : TaskId} {task : WaitTask} (htask : s.tasks.lookup id = some task) :
      Step s (.raises id) (s.setStage id task .raised)
  | failed {id : TaskId} {task : WaitTask} {stage : WaitStage}
      (htask : s.tasks.lookup id = some task) (hraised : task.stage = .raised)
      (hstage : stage = .cancelling ∨ stage = .finishing) :
      Step s (.fail id)
        ((s.setWaits (s.waits.markWaitFailed id.1).1).setStage id task stage)
  | cancelledOwn {id : TaskId} {task : WaitTask} (htask : s.tasks.lookup id = some task) :
      Step s (.cancelOwn id) ((s.cancelReq id.1).setStage id task .finishing)
  | finished {id : TaskId} : Step s (.finish id) (s.finishTask id)
  | prefillFails {remoteRequestId : String} {cancels : List ReqId} :
      Step s (.prefillFails remoteRequestId)
        { s with waits := (s.waits.markPrefillFailed remoteRequestId).1, cancels }
  | cancelled {i : Nat} {reqId : ReqId} {cancels : List ReqId} :
      Step s (.cancel i) { s.cancelReq reqId with cancels }
  | other (ev : WaiterEvent) {waits : DecodeWaitState} {finishedRecving : Table ReqId Nat}
      {reporting : Option (ReportStage × Finset ReqId)} (hev : ev.task? = none)
      (h : s.Gathers { s with waits, finishedRecving, reporting }) :
      Step s ev { s with waits, finishedRecving, reporting }

variable {s s' : DecodeWaiter} {ev : WaiterEvent}

theorem gathers_getFinished :
    s.Gathers
      { s with
        finishedRecving := ∅
        reporting := some (.rdmaWaits, s.finishedRecving.keys.toFinset) } where
  waits := fun _ h => h
  kept := fun _ => Or.inl
  finished := nofun
  finishing := by
    rintro k (⟨n, h⟩ | h | ⟨e, he, hk⟩)
    · cases h
    · exact Or.inr (Or.inl h)
    · cases he
      have hkey : k ∈ s.finishedRecving := List.mem_toFinset.mp hk
      exact Or.inl (isSome_iff_exists.mp (lookup_isSome.mpr hkey))

/-- What `get_finished` takes in, it takes out. -/
theorem gathers_reportStep {stage : ReportStage} {ids : Finset ReqId}
    (h : s.reporting = some (stage, ids)) : s.Gathers (s.reportStep stage ids) := by
  have hids : ∀ {k}, k ∈ ids → s.Finishing k := fun hk => Or.inr (Or.inr ⟨_, h, hk⟩)
  cases stage with
  | rdmaWaits =>
    refine ⟨fun _ h => h, fun _ => Or.inl, fun _ _ h => h, ?_⟩
    rintro k (h | (h | h) | ⟨e, he, hk⟩)
    · exact Or.inl h
    · exact absurd h (Finset.notMem_empty k)
    · exact Or.inr (Or.inl (Or.inr h))
    · cases he
      exact (Finset.mem_union.mp hk).elim hids fun hk => Or.inr (Or.inl (Or.inl hk))
  | aborted =>
    refine ⟨fun _ h => h, fun _ => Or.inl, fun _ _ h => h, ?_⟩
    rintro k (h | (h | h | h) | ⟨e, he, hk⟩)
    · exact Or.inl h
    · exact Or.inr (Or.inl (Or.inl h))
    · exact absurd h (Finset.notMem_empty k)
    · exact Or.inr (Or.inl (Or.inr (Or.inr h)))
    · cases he
      exact (Finset.mem_union.mp hk).elim hids fun hk => Or.inr (Or.inl (Or.inr (Or.inl hk)))
  | failed =>
    refine ⟨fun _ h => h, fun _ => Or.inl, fun _ _ h => h, ?_⟩
    rintro k (h | (h | h | h) | ⟨e, he, hk⟩)
    · exact Or.inl h
    · exact Or.inr (Or.inl (Or.inl h))
    · exact Or.inr (Or.inl (Or.inr (Or.inl h)))
    · exact absurd h (Finset.notMem_empty k)
    · cases he
      exact (Finset.mem_union.mp hk).elim hids fun hk => Or.inr (Or.inl (Or.inr (Or.inr hk)))
  | finish =>
    have hfin : ∀ k n, (s.reportStep .finish ids).finishedRecving.lookup k = some n →
        s.finishedRecving.lookup k = some n := by
      intro k n h
      simp only [reportStep] at h
      rw [lookup_filterMap] at h
      obtain ⟨n', hn, hkept⟩ := bind_eq_some_iff.mp h
      split at hkept
      · cases hkept
      · exact hn.trans hkept
    refine ⟨fun _ => DecodeWaitState.hasWait_finishRecving, fun k hw => ?_, hfin, ?_⟩
    · exact (DecodeWaitState.hasWait_of_finishRecving hw).symm.imp_right hids
    · rintro k (⟨n, h⟩ | h | ⟨e, he, hk⟩)
      · exact Or.inl ⟨n, hfin k n h⟩
      · exact Or.inr (Or.inl h)
      · cases he

theorem step_cases (h : s.step ev = some s') : Step s ev s' := by
  cases ev with dsimp only [step] at h
  | registerWait reqId req =>
    obtain ⟨⟨hid, hw⟩, rfl⟩ := guarded_eq_some.mp h
    exact .registerWait hid hw
  | submit =>
    split at h
    next hsubg =>
      cases h
      unfold submitTask
      split
      · exact .dropped
      · exact .submitted hsubg
    · cases h
  | start id =>
    split at h
    next ht =>
      cases h
      split
      · exact .gaveUp _ ht
      · exact .started ht
    · cases h
  | returns id =>
    split at h
    next ht =>
      cases h
      exact .returned ht rfl
    · cases h
  | check id =>
    split at h
    next ht =>
      cases h
      split
      · exact .gaveUp _ ht
      next hcan => exact .checked ht rfl (Bool.eq_false_of_not_eq_true hcan)
    · cases h
  | succeed id =>
    split at h
    next ht =>
      cases h
      exact .succeeded ht rfl
    · cases h
  | raises id =>
    split at h
    next ht =>
      cases h
      exact .raised ht
    · cases h
  | fail id =>
    split at h
    next ht =>
      cases h
      split
      · exact .failed ht rfl (Or.inl rfl)
      · exact .failed ht rfl (Or.inr rfl)
    · cases h
  | cancelOwn id =>
    split at h
    next ht =>
      cases h
      exact .cancelledOwn ht
    · cases h
  | finish id =>
    split at h
    · cases h
      exact .finished
    · cases h
  | prefillFails remoteRequestId =>
    cases h
    exact .prefillFails
  | cancel i =>
    split at h
    · cases h
      exact .cancelled
    · cases h
  | release reqId =>
    obtain ⟨-, rfl⟩ := guarded_eq_some.mp h
    refine .other _ rfl ⟨fun _ => DecodeWaitState.hasWait_markAborted, fun _ hw => ?_,
      fun _ _ h => h, fun _ h => ?_⟩
    · exact Or.inl (DecodeWaitState.hasWait_of_markAborted hw)
    · exact h.imp_right (Or.imp_left DecodeWaitState.reportable_markAborted)
  | getFinished =>
    obtain ⟨-, rfl⟩ := guarded_eq_some.mp h
    exact .other _ rfl gathers_getFinished
  | report =>
    obtain ⟨⟨stage, ids⟩, hrep, rfl⟩ := map_eq_some_iff.mp h
    have hgath := gathers_reportStep hrep
    cases stage with
    | rdmaWaits | aborted | failed | finish => exact .other _ rfl hgath
  | drainFailedForMeta | drainFailedBlockIds =>
    obtain ⟨-, rfl⟩ := guarded_eq_some.mp h
    exact .other _ rfl ⟨fun _ h => h, fun _ => Or.inl, fun _ _ h => h, fun _ h => h⟩

/-! ## Outcomes of older generations -/

/-- A wait is registered under the request id, and later than the given registration. -/
def Superseded (s : DecodeWaiter) (reqId : ReqId) (registration : Nat) : Prop :=
  s.waits.hasWait reqId ∧ ∃ n ∈ s.registered.lookup reqId, registration < n

instance (reqId : ReqId) (registration : Nat) : Decidable (s.Superseded reqId registration) :=
  inferInstanceAs (Decidable (_ ∧ _))

/-- A request id is registered again only when the executions left of it are cancelled, have yet to
see it, and have left nothing for `get_finished`; and `wait_done` does not come to an end for an
execution whose wait is superseded. -/
def Isolating (s : DecodeWaiter) : WaiterEvent → Prop
  | .registerWait reqId _ =>
    s.finishedRecving.lookup reqId = none ∧ ∀ e ∈ s.tasks.entries, e.1.1 = reqId →
      s.isCancelled e.1 ∧ e.2.stage ≠ .checked ∧ e.2.stage ≠ .raised
  | .returns id | .raises id => ∀ task ∈ s.tasks.lookup id, ¬ s.Superseded id.1 task.registration
  | _ => True

instance : ∀ ev, Decidable (s.Isolating ev)
  | .registerWait _ _ => inferInstanceAs (Decidable (_ ∧ ∀ _ ∈ _, _))
  | .returns _ | .raises _ => inferInstanceAs (Decidable (∀ _ ∈ _, _))
  | .submit | .start _ | .check _ | .succeed _ | .fail _ | .cancelOwn _ | .finish _
  | .prefillFails _ | .cancel _ | .release _ | .getFinished | .report | .drainFailedForMeta
  | .drainFailedBlockIds => isTrue trivial

/-- Executions whose wait is superseded are cancelled and about to see it. -/
structure Apart (s : DecodeWaiter) : Prop where
  submitting : ∀ reqId registration, s.submitting = some (reqId, registration) →
    s.registered.lookup reqId = some registration
  cancelled : ∀ id task, s.tasks.lookup id = some task → s.Superseded id.1 task.registration →
    s.isCancelled id
  settled : ∀ id task, s.tasks.lookup id = some task →
    task.stage = .checked ∨ task.stage = .raised → ¬ s.Superseded id.1 task.registration
  finished : ∀ reqId registration, s.finishedRecving.lookup reqId = some registration →
    ¬ s.Superseded reqId registration

variable {id : TaskId}

theorem isCancelled_iff :
    s.isCancelled id ↔ ∃ generations, s.cancelled.lookup id.1 = some generations ∧
      id.2 ∈ generations := by
  unfold isCancelled
  rw [any_eq_true]
  exact exists_congr fun generations => and_congr_right fun _ => decide_eq_true_iff

variable (s) in
theorem isCancelled_cancelReq (reqId : ReqId) (id : TaskId) (h : s.isCancelled id) :
    (s.cancelReq reqId).isCancelled id := by
  unfold cancelReq
  split
  · exact h
  obtain ⟨generations, hlk, hm⟩ := isCancelled_iff.mp h
  refine isCancelled_iff.mpr ?_
  by_cases heq : id.1 = reqId
  · subst heq
    refine ⟨_, lookup_insert _, Finset.mem_insert_of_mem ?_⟩
    rw [hlk]
    exact hm
  · exact ⟨generations, (lookup_insert_ne heq).trans hlk, hm⟩

variable {id' : TaskId}

theorem isCancelled_finishTask (hne : id' ≠ id) (h : s.isCancelled id') :
    (s.finishTask id).isCancelled id' := by
  obtain ⟨generations, hlk, hm⟩ := isCancelled_iff.mp h
  refine isCancelled_iff.mpr ?_
  by_cases heq : id'.1 = id.1
  · -- another generation of the same request stays in the set
    have hm' : id'.2 ∈ generations.erase id.2 :=
      Finset.mem_erase.mpr ⟨fun heq' => hne (Prod.ext heq heq'), hm⟩
    have hnonempty : generations.erase id.2 ≠ ∅ := Finset.ne_empty_of_mem hm'
    rw [heq] at hlk ⊢
    refine ⟨generations.erase id.2, ?_, hm'⟩
    unfold finishTask
    simp only [hlk, if_neg hnonempty]
    exact lookup_insert _
  · refine ⟨generations, ?_, hm⟩
    unfold finishTask
    dsimp only
    split
    · exact hlk
    split
    · exact (lookup_erase_ne heq).trans hlk
    · exact (lookup_insert_ne heq).trans hlk

variable (s) in
theorem cancelReq_eq (reqId : ReqId) :
    ∃ submitted cancelled, s.cancelReq reqId = { s with submitted, cancelled } := by
  unfold cancelReq
  split
  · exact ⟨_, _, rfl⟩
  · exact ⟨_, _, rfl⟩

variable {task : WaitTask}

/-- The step leaves an execution cancelled and on its way, unless its wait is not superseded. -/
def KeepsApart (s s' : DecodeWaiter) (id : TaskId) (task : WaitTask) : Prop :=
  ¬ s.Superseded id.1 task.registration ∨
    (∃ task₀, s.tasks.lookup id = some task₀ ∧ task₀.registration = task.registration) ∧
      (s.isCancelled id → s'.isCancelled id) ∧
      task.stage ≠ .checked ∧ task.stage ≠ .raised

/-- No wait is registered by the step. -/
theorem Apart.keep (ha : s.Apart) (hreg : s'.registered = s.registered)
    (hws : ∀ k, s'.waits.hasWait k → s.waits.hasWait k)
    (hsubg : s'.submitting = none ∨ s'.submitting = s.submitting)
    (hfin : ∀ k n, s'.finishedRecving.lookup k = some n →
      s.finishedRecving.lookup k = some n ∨ ¬ s.Superseded k n)
    (htks : ∀ id task, s'.tasks.lookup id = some task → s.KeepsApart s' id task) :
    s'.Apart := by
  have hsupd : ∀ {reqId registration}, s'.Superseded reqId registration →
      s.Superseded reqId registration := by
    rintro reqId registration ⟨hw, hlat⟩
    exact ⟨hws reqId hw, hreg ▸ hlat⟩
  refine ⟨?_, ?_, ?_, ?_⟩
  · intro reqId registration h
    rcases hsubg with hn | hsm
    · cases hn.symm.trans h
    · rw [hreg]
      exact ha.submitting reqId registration (hsm.symm.trans h)
  · intro id task ht hlat
    rcases htks id task ht with hnot | ⟨⟨task₀, ht₀, hregistration⟩, hcan, -⟩
    · exact absurd (hsupd hlat) hnot
    refine hcan (ha.cancelled id task₀ ht₀ ?_)
    rw [hregistration]
    exact hsupd hlat
  · intro id task ht hst hlat
    rcases htks id task ht with hnot | ⟨-, -, hchecked, hrsd⟩
    · exact hnot (hsupd hlat)
    · exact hst.elim hchecked hrsd
  · intro reqId registration h hlat
    rcases hfin reqId registration h with ho | hnot
    · exact ha.finished reqId registration ho (hsupd hlat)
    · exact hnot (hsupd hlat)

/-- An execution that stays as it is. -/
theorem Apart.same (ha : s.Apart) (ht : s.tasks.lookup id = some task)
    (hcan : s.isCancelled id → s'.isCancelled id) :
    s.KeepsApart s' id task := by
  by_cases hst : task.stage = .checked ∨ task.stage = .raised
  · exact Or.inl (ha.settled id task ht hst)
  · rw [not_or] at hst
    exact Or.inr ⟨⟨task, ht, rfl⟩, hcan, hst⟩

/-- One execution goes on to another stage. -/
theorem Apart.moves (ha : s.Apart) {stage : WaitStage} (ht : s.tasks.lookup id = some task)
    {task' : WaitTask} (ht' : (s.tasks.insert id { task with stage }).lookup id' = some task')
    (hst : ¬ s.Superseded id.1 task.registration ∨ stage ≠ .checked ∧ stage ≠ .raised)
    (hcan : ∀ id, s.isCancelled id → s'.isCancelled id) :
    s.KeepsApart s' id' task' := by
  rcases lookup_of_insert ht' with ⟨rfl, rfl⟩ | ⟨-, ht'⟩
  · exact hst.imp_right fun h => ⟨⟨task, ht, rfl⟩, hcan id', h⟩
  · exact ha.same ht' (hcan id')

theorem Apart.registerWait (ha : s.Apart) {reqId : ReqId} {req : WaitReqMeta}
    (hc : s.Isolating (.registerWait reqId req)) :
    Apart
      { s with
        waits := s.waits.registerWait reqId req
        submitting := some (reqId, s.registrations)
        registrations := s.registrations + 1
        registered := s.registered.insert reqId s.registrations } := by
  have hl : ∀ {id task}, s.tasks.lookup id = some task → id.1 = reqId →
      s.isCancelled id ∧ task.stage ≠ .checked ∧ task.stage ≠ .raised := by
    intro id task ht heq
    exact hc.2 ⟨id, task⟩ (mem_lookup_iff.mp ht) heq
  have hsupd : ∀ {k registration}, k ≠ reqId → (s.waits.registerWait reqId req).hasWait k ∧
        (∃ n ∈ (s.registered.insert reqId s.registrations).lookup k, registration < n) →
      s.Superseded k registration := by
    rintro k registration hne ⟨hw, n, hn, hlt⟩
    refine ⟨(DecodeWaitState.hasWait_registerWait hw).resolve_left hne, n, ?_, hlt⟩
    exact (lookup_insert_ne hne).symm.trans hn
  refine ⟨?_, ?_, ?_, ?_⟩
  · intro reqId' registration h
    cases h
    exact lookup_insert _
  · intro id task ht hlat
    by_cases heq : id.1 = reqId
    · exact (hl ht heq).1
    · exact ha.cancelled id task ht (hsupd heq hlat)
  · intro id task ht hst hlat
    by_cases heq : id.1 = reqId
    · obtain ⟨-, hchecked, hrsd⟩ := hl ht heq
      exact hst.elim hchecked hrsd
    · exact ha.settled id task ht hst (hsupd heq hlat)
  · intro k n h hlat
    have hne : k ≠ reqId := by
      rintro rfl
      cases hc.1.symm.trans h
    exact ha.finished k n h (hsupd hne hlat)

theorem Apart.step (ha : s.Apart) (hc : s.Isolating ev) (h : Step s ev s') : s'.Apart := by
  have ho : ∀ k n, s.finishedRecving.lookup k = some n →
      s.finishedRecving.lookup k = some n ∨ ¬ s.Superseded k n := fun _ _ => Or.inl
  cases h with
  | registerWait => exact ha.registerWait hc
  | dropped =>
    exact ha.keep rfl (fun _ h => h) (Or.inl rfl) ho fun _ _ ht => ha.same ht fun h => h
  | submitted hsubg =>
    refine ha.keep rfl (fun _ h => h) (Or.inl rfl) ho fun id task ht => ?_
    rcases lookup_of_insert ht with ⟨rfl, rfl⟩ | ⟨-, ht⟩
    · refine Or.inl ?_
      rintro ⟨-, n, hn, hlt⟩
      cases (ha.submitting _ _ hsubg).symm.trans hn
      exact Nat.lt_irrefl _ hlt
    · exact ha.same ht fun h => h
  | started ht | gaveUp _ ht =>
    exact ha.keep rfl (fun _ h => h) (Or.inr rfl) ho fun _ _ h =>
      ha.moves ht h (Or.inr ⟨nofun, nofun⟩) fun _ h => h
  | returned ht =>
    refine ha.keep rfl (fun _ h => h) (Or.inr rfl) (fun k n h => ?_) fun _ _ h =>
      ha.moves ht h (Or.inl (hc _ ht)) fun _ h => h
    unfold markReturned at h
    split at h
    · exact Or.inl h
    rcases lookup_of_insert h with ⟨rfl, rfl⟩ | ⟨-, h⟩
    · exact Or.inr (hc _ ht)
    · exact Or.inl h
  | checked ht _ hcan =>
    refine ha.keep rfl (fun _ h => h) (Or.inr rfl) ho fun _ _ h =>
      ha.moves ht h (Or.inl ?_) fun _ h => h
    intro hlat
    cases hcan.symm.trans (ha.cancelled _ _ ht hlat)
  | succeeded ht =>
    exact ha.keep rfl (fun _ => DecodeWaitState.hasWait_recordRdmaDone) (Or.inr rfl) ho
      fun _ _ h => ha.moves ht h (Or.inr ⟨nofun, nofun⟩) fun _ h => h
  | raised ht =>
    exact ha.keep rfl (fun _ h => h) (Or.inr rfl) ho fun _ _ h =>
      ha.moves ht h (Or.inl (hc _ ht)) fun _ h => h
  | failed ht _ hst =>
    refine ha.keep rfl (fun _ => DecodeWaitState.hasWait_markWaitFailed) (Or.inr rfl) ho
      fun _ _ h => ha.moves ht h (Or.inr ?_) fun _ h => h
    rcases hst with rfl | rfl
    · exact ⟨nofun, nofun⟩
    · exact ⟨nofun, nofun⟩
  | cancelledOwn ht =>
    next id task =>
    have hcan := s.isCancelled_cancelReq id.1
    obtain ⟨_, _, heq⟩ := s.cancelReq_eq id.1
    rw [heq] at hcan ⊢
    exact ha.keep rfl (fun _ h => h) (Or.inr rfl) ho fun _ _ h =>
      ha.moves ht h (Or.inr ⟨nofun, nofun⟩) hcan
  | finished =>
    refine ha.keep rfl (fun _ h => h) (Or.inr rfl) ho fun id' task' ht => ?_
    obtain ⟨hne, ht⟩ := lookup_of_erase ht
    exact ha.same ht (isCancelled_finishTask hne)
  | prefillFails =>
    exact ha.keep rfl (fun _ => DecodeWaitState.hasWait_markPrefillFailed) (Or.inr rfl) ho
      fun _ _ ht => ha.same ht fun h => h
  | cancelled =>
    next i reqId cancels =>
    have hcan := s.isCancelled_cancelReq reqId
    obtain ⟨_, _, heq⟩ := s.cancelReq_eq reqId
    rw [heq] at hcan ⊢
    exact ha.keep rfl (fun _ h => h) (Or.inr rfl) ho fun k _ ht =>
      ha.same ht (hcan k)
  | other _ _ hgath =>
    exact ha.keep rfl hgath.waits (Or.inr rfl) (fun k n h => Or.inl (hgath.finished k n h))
      fun _ _ ht => ha.same ht fun h => h

theorem new_apart : new.Apart where
  submitting := nofun
  cancelled := nofun
  settled := nofun
  finished := nofun

/-- No step of an execution that is cancelled changes the decode wait state when a later wait is
registered under its request id, and what `get_finished` will take from the RDMA engine is not of an
older generation. -/
structure OutcomesIsolated (s : DecodeWaiter) : Prop where
  steps : ∀ ev s' id task, s.step ev = some s' → ev.task? = some id →
    s.tasks.lookup id = some task → s.isCancelled id →
    s.Superseded id.1 task.registration → s'.waits = s.waits
  finished : ∀ reqId registration, s.finishedRecving.lookup reqId = some registration →
    ¬ s.Superseded reqId registration

theorem Apart.outcomesIsolated (ha : s.Apart) : s.OutcomesIsolated := by
  refine ⟨?_, ha.finished⟩
  intro ev s' id task h hid ht hcan hlat
  cases step_cases h with
  | registerWait | dropped | submitted | prefillFails | cancelled => cases hid
  | started | gaveUp | returned | checked | raised | finished => rfl
  | succeeded ht' hst =>
    cases hid
    cases ht.symm.trans ht'
    exact absurd hlat (ha.settled _ _ ht (Or.inl hst))
  | failed ht' hrsd =>
    cases hid
    cases ht.symm.trans ht'
    exact absurd hlat (ha.settled _ _ ht (Or.inr hrsd))
  | @cancelledOwn id =>
    obtain ⟨_, _, heq⟩ := s.cancelReq_eq id.1
    rw [heq]
    rfl
  | other _ hev => cases hev.symm.trans hid

/-- A wait for a prefill request with one block. -/
def waitFor (remoteRequestId : String) (block : Nat) : WaitReqMeta :=
  ⟨[[block]], remoteRequestId, "done", "url"⟩

end DecodeWaiter

end PegaFlow.Pd
