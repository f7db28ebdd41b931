import PegaFlow.Connector.SaveSafety

/-!
# The save loop

The save path of `python/pegaflow/connector/worker.py` once more, now with everything that can go
wrong in the save thread and without what the blocks hold.  `wait_for_save` notes the requests under
the lock and queues the task afterwards, and the two are two steps.  `shutdown` first unregisters,
which clears the list of layers, and then queues the marker `None`.  The save thread blocks for a
task, takes what else the queue holds and processes the batch:

* `_ensure_npu_device_set` may raise (`build false`);
* building the request raises if no layers are registered or the lists of an intent do not pair up
  where they are zipped;
* `_device_synchronize` may raise (`synchronize false`);
* the save RPC may fail or raise, which the thread logs (`reply false`);
* the requests of the batch are completed.

An exception that leaves `_process_save_batch` ends the thread.

The number of the forward step in a queued task, and the note that the marker was taken, are read by
no step.
-/

namespace PegaFlow.Connector

open List Run

/-- A queued task, with the number of the forward step it was made in. -/
structure QueuedTask where
  forward : Nat
  task : SaveTask

/-- The task is a save of the request. -/
def QueuedTask.names (r : ReqId) (t : QueuedTask) : Bool := r ∈ t.task.requestIds

theorem QueuedTask.names_iff {r : ReqId} {t : QueuedTask} :
    t.names r ↔ r ∈ t.task.requestIds := decide_eq_true_iff

/-- Where the save thread is.  `last` says that the marker ended the batch. -/
inductive LoopStage where
  /-- Blocked in `get`. -/
  | idle
  | collecting (batch : List QueuedTask)
  | building (batch : List QueuedTask) (last : Bool)
  | synchronizing (batch : List QueuedTask) (last : Bool)
  | sending (batch : List QueuedTask) (last : Bool)
  | calling (batch : List QueuedTask) (last : Bool)
  | finishing (batch : List QueuedTask) (last : Bool)
  /-- The loop was left at the marker. -/
  | stopped
  /-- An exception ended the thread. -/
  | dead

/-- The tasks in the hands of the thread. -/
def LoopStage.batch : LoopStage → List QueuedTask
  | collecting batch => batch
  | building batch _ | synchronizing batch _ | sending batch _ => batch
  | calling batch _ | finishing batch _ => batch
  | idle | stopped | dead => []

variable (batch : List QueuedTask) (last : Bool)

@[simp] theorem LoopStage.batch_collecting : (collecting batch).batch = batch := rfl

@[simp] theorem LoopStage.batch_finishing : (finishing batch last).batch = batch := rfl

@[simp] theorem LoopStage.batch_dead : dead.batch = [] := rfl

@[simp] theorem LoopStage.batch_done : (if last then stopped else idle).batch = [] := by
  cases last <;> rfl

/-- The thread takes no task any more. -/
def LoopStage.closing : LoopStage → Bool
  | building _ last | synchronizing _ last | sending _ last => last
  | calling _ last | finishing _ last => last
  | stopped | dead => true
  | idle | collecting _ => false

/-- The thread runs no more. -/
def LoopStage.ended : LoopStage → Bool
  | stopped | dead => true
  | _ => false

structure SaveLoop where
  /-- `_registered_layers` has not been cleared. -/
  registered : Bool
  book : SaveBook
  /-- `wait_for_save` has noted the requests of the task and not yet queued it. -/
  putting : Option QueuedTask
  preempting : Option (List ReqId × List Nat)
  /-- `none` is the marker. -/
  queue : List (Option QueuedTask)
  stage : LoopStage
  marked : Bool

inductive LoopEvent where
  | waitForSave (forward : Nat) (task : SaveTask)
  | put
  | unregisterContext
  | shutdown
  | getFinished (finishedReqIds : Finset ReqId)
  | handlePreemptions (preemptedReqIds : List ReqId)
  | preemptionsReturn
  | take
  | drain
  | build (deviceSet : Bool)
  | synchronize (ok : Bool)
  | send
  | reply (ok : Bool)
  | complete

namespace SaveLoop

def init : SaveLoop := ⟨true, .empty, none, none, [], .idle, false⟩

/-- vLLM's worker thread is in no call. -/
def free (s : SaveLoop) : Bool := s.putting.isNone && s.preempting.isNone

/-- `saves_by_layer`, unless the assertion on the registered layers raises first. -/
def savesByLayer (m : SaveMode) (s : SaveLoop) (batch : List QueuedTask) :
    Option (List LayerSave) :=
  let tasks := batch.map QueuedTask.task
  if !s.registered && m.crossLayerKey.isNone &&
      (tasks.flatMap SaveTask.saveIntents).any (fun p => p.2.blockIds ≠ []) then none
  else m.savesByLayer tasks

/-- One step of vLLM's worker thread or the save thread. -/
def step (m : SaveMode) (s : SaveLoop) : LoopEvent → Option SaveLoop
  | .waitForSave forward task =>
    if s.free ∧ task.saveIntents ≠ [] then
      some { s with book := s.book.track task.requestIds, putting := some ⟨forward, task⟩ }
    else none
  | .put =>
    s.putting.map fun t => { s with queue := s.queue ++ [some t], putting := none }
  | .unregisterContext => if s.free then some { s with registered := false } else none
  | .shutdown => if s.free then some { s with queue := s.queue ++ [none] } else none
  | .getFinished finishedReqIds =>
    if s.free then some { s with book := (s.book.getFinished finishedReqIds).1 } else none
  | .handlePreemptions preemptedReqIds =>
    if s.free then
      some { s with preempting := some (preemptedReqIds, s.book.eventsOf preemptedReqIds) }
    else none
  | .preemptionsReturn =>
    match s.preempting with
    | some (_, events) =>
      if ∀ i ∈ events, i ∈ s.book.fired then some { s with preempting := none } else none
    | none => none
  | .take =>
    match s.queue, s.stage with
    | some t :: rest, .idle => some { s with queue := rest, stage := .collecting [t] }
    | some t :: rest, .collecting batch =>
      some { s with queue := rest, stage := .collecting (batch ++ [t]) }
    | none :: rest, .idle =>
      some { s with queue := rest, stage := .stopped, marked := true }
    | none :: rest, .collecting batch =>
      some { s with queue := rest, stage := .building batch true, marked := true }
    | _, _ => none
  | .drain =>
    match s.queue, s.stage with
    | [], .collecting batch => some { s with stage := .building batch false }
    | _, _ => none
  | .build deviceSet =>
    match s.stage with
    | .building batch last =>
      if !deviceSet then some { s with stage := .dead }
      else
        match s.savesByLayer m batch with
        | none => some { s with stage := .dead }
        | some [] => some { s with stage := .finishing batch last }
        | some _ => some { s with stage := .synchronizing batch last }
    | _ => none
  | .synchronize ok =>
    match s.stage with
    | .synchronizing batch last =>
      some { s with stage := if ok then .sending batch last else .dead }
    | _ => none
  | .send =>
    match s.stage with
    | .sending batch last => some { s with stage := .calling batch last }
    | _ => none
  | .reply _ =>
    match s.stage with
    | .calling batch last => some { s with stage := .finishing batch last }
    | _ => none
  | .complete =>
    match s.stage with
    | .finishing batch last =>
      some { s with
        stage := if last then .stopped else .idle
        book := s.book.complete (batch.flatMap fun t => t.task.requestIds) }
    | _ => none

/-! ## What a step can do -/

variable {m : SaveMode} {s s' : SaveLoop} {ev : LoopEvent} {r : ReqId}

/-- The tasks that are queued, being processed or about to be queued. -/
def outstanding (s : SaveLoop) : List QueuedTask :=
  s.queue.filterMap id ++ s.stage.batch ++ s.putting.toList

/-- Where `_process_save_batch` raises. -/
def Raises (m : SaveMode) (s : SaveLoop) : LoopEvent → Prop
  | .build deviceSet => deviceSet = false ∨ s.savesByLayer m s.stage.batch = none
  | .synchronize ok => ok = false
  | _ => False

/-- What a step can do.  The steps of the save thread that only change where it is are one case. -/
inductive Step (m : SaveMode) (s : SaveLoop) : LoopEvent → SaveLoop → Prop where
  | waitForSave {forward : Nat} {task : SaveTask} : s.putting = none → s.preempting = none →
      Step m s (.waitForSave forward task)
        { s with book := s.book.track task.requestIds, putting := some ⟨forward, task⟩ }
  | put {t : QueuedTask} : s.putting = some t →
      Step m s .put { s with queue := s.queue ++ [some t], putting := none }
  | unregisterContext : Step m s .unregisterContext { s with registered := false }
  | shutdown : Step m s .shutdown { s with queue := s.queue ++ [none] }
  | getFinished {finishedReqIds : Finset ReqId} :
      Step m s (.getFinished finishedReqIds)
        { s with book := (s.book.getFinished finishedReqIds).1 }
  | handlePreemptions {reqs : List ReqId} :
      Step m s (.handlePreemptions reqs)
        { s with preempting := some (reqs, s.book.eventsOf reqs) }
  | preemptionsReturn : Step m s .preemptionsReturn { s with preempting := none }
  | take {t : QueuedTask} {rest : List (Option QueuedTask)} : s.queue = some t :: rest →
      Step m s .take { s with queue := rest, stage := .collecting (s.stage.batch ++ [t]) }
  | marker {rest : List (Option QueuedTask)} {stage : LoopStage} : s.queue = none :: rest →
      stage.batch = s.stage.batch →
      Step m s .take { s with queue := rest, stage := stage, marked := true }
  | stage {ev : LoopEvent} {stage : LoopStage} : stage.batch = s.stage.batch →
      stage.closing = s.stage.closing → Step m s ev { s with stage := stage }
  | raise {ev : LoopEvent} : Raises m s ev → Step m s ev { s with stage := .dead }
  | complete {batch : List QueuedTask} {last : Bool} : s.stage = .finishing batch last →
      Step m s .complete
        { s with
          stage := if last then .stopped else .idle
          book := s.book.complete (batch.flatMap fun t => t.task.requestIds) }

theorem free_iff : s.free ↔ s.putting = none ∧ s.preempting = none := by
  simp [free]

theorem step_cases (h : s.step m ev = some s') : Step m s ev s' := by
  cases ev with dsimp only [step] at h
  | waitForSave forward task =>
    obtain ⟨⟨hf, -⟩, rfl⟩ := guarded_eq_some.mp h
    obtain ⟨hput, hpre⟩ := free_iff.mp hf
    exact .waitForSave hput hpre
  | put =>
    obtain ⟨t, ht, rfl⟩ := Option.map_eq_some_iff.mp h
    exact .put ht
  | unregisterContext =>
    obtain ⟨-, rfl⟩ := guarded_eq_some.mp h
    exact .unregisterContext
  | shutdown =>
    obtain ⟨-, rfl⟩ := guarded_eq_some.mp h
    exact .shutdown
  | getFinished F =>
    obtain ⟨-, rfl⟩ := guarded_eq_some.mp h
    exact .getFinished
  | handlePreemptions reqs =>
    obtain ⟨-, rfl⟩ := guarded_eq_some.mp h
    exact .handlePreemptions
  | preemptionsReturn =>
    split at h
    next =>
      obtain ⟨-, rfl⟩ := guarded_eq_some.mp h
      exact .preemptionsReturn
    next => cases h
  | take =>
    split at h
    next t rest hq hs =>
      cases h
      have htk := Step.take (m := m) hq
      rwa [hs] at htk
    next t rest batch hq hs =>
      cases h
      have htk := Step.take (m := m) hq
      rwa [hs] at htk
    next rest hq hs =>
      cases h
      exact .marker hq (by rw [hs]; rfl)
    next rest batch hq hs =>
      cases h
      exact .marker hq (by rw [hs]; rfl)
    next => cases h
  | drain =>
    split at h
    next batch hq hs =>
      cases h
      exact .stage (by rw [hs]; rfl) (by rw [hs]; rfl)
    next => cases h
  | build deviceSet =>
    split at h
    next batch last hs =>
      split at h
      next hdev =>
        cases h
        exact .raise (Or.inl (by simpa using hdev))
      next =>
        split at h
        next hn =>
          cases h
          exact .raise (Or.inr (by rw [hs]; exact hn))
        next =>
          cases h
          exact .stage (by rw [hs]; rfl) (by rw [hs]; rfl)
        next =>
          cases h
          exact .stage (by rw [hs]; rfl) (by rw [hs]; rfl)
    next => cases h
  | synchronize ok =>
    split at h
    next batch last hs =>
      cases h
      cases ok with
      | true => exact .stage (by rw [hs]; rfl) (by rw [hs]; rfl)
      | false => exact .raise rfl
    next => cases h
  | send | reply ok =>
    split at h
    next batch last hs =>
      cases h
      exact .stage (by rw [hs]; rfl) (by rw [hs]; rfl)
    next => cases h
  | complete =>
    split at h
    next batch last hs =>
      cases h
      exact .complete hs
    next => cases h

theorem mem_outstanding {t : QueuedTask} :
    t ∈ s.outstanding ↔ some t ∈ s.queue ∨ t ∈ s.stage.batch ∨ s.putting = some t := by
  simp [outstanding]

/-- Only `wait_for_save` makes a task. -/
theorem Step.mem_outstanding {t : QueuedTask} (h : Step m s ev s') (ht : t ∈ s'.outstanding) :
    t ∈ s.outstanding ∨ ev = .waitForSave t.forward t.task := by
  rw [SaveLoop.mem_outstanding] at ht ⊢
  cases h with
  | waitForSave hput _ =>
    rcases ht with ht | ht | ht
    · exact Or.inl (Or.inl ht)
    · exact Or.inl (Or.inr (Or.inl ht))
    · cases ht
      exact Or.inr rfl
  | put hput =>
    left
    rcases ht with ht | ht | ht
    · rcases mem_append.mp ht with ht | ht
      · exact Or.inl ht
      · cases mem_singleton.mp ht
        exact Or.inr (Or.inr hput)
    · exact Or.inr (Or.inl ht)
    · cases ht
  | shutdown =>
    refine Or.inl (Or.imp_left ?_ ht)
    intro hm
    rcases mem_append.mp hm with hm | hm
    · exact hm
    · cases mem_singleton.mp hm
  | take hq =>
    left
    rw [hq]
    rcases ht with ht | ht | ht
    · exact Or.inl (mem_cons_of_mem _ ht)
    · rcases mem_append.mp ht with ht | ht
      · exact Or.inr (Or.inl ht)
      · rw [mem_singleton.mp ht]
        exact Or.inl mem_cons_self
    · exact Or.inr (Or.inr ht)
  | marker hq hbt =>
    rw [hq]
    rw [hbt] at ht
    exact Or.inl (Or.imp_left (mem_cons_of_mem _) ht)
  | stage hbt =>
    rw [hbt] at ht
    exact Or.inl ht
  | raise =>
    refine Or.inl (Or.imp_right (Or.imp_left ?_) ht)
    intro hm
    cases hm
  | complete hs =>
    refine Or.inl (Or.imp_right (Or.imp_left ?_) ht)
    rw [LoopStage.batch_done]
    intro hm
    cases hm
  | _ => exact Or.inl ht

end SaveLoop

end PegaFlow.Connector
