import Mathlib.Data.Finset.Image
import PegaFlow.Lib.Text
import PegaFlow.Pd.PushTasks

/-!
# The prefill handler and its signals

`PrefillHandler` of `python/pegaflow/pd_connector/prefill_worker.py` with the part of `worker.py` that
calls it, over the threads of `PushTasks`.  A logical request has one physical request for every
decode rank that it is pushed to.  It is opened with every chunk (`process_push_reqs`), pushed layer
by layer, finalized when its last chunk is submitted, and ends in one of two ways: it is reported by
`get_finished_sending`, or it is released.

A release pops the physical requests, cancels their push tasks, cancels their finalize tasks, and,
unless the producer has finished, drains each of them and signals it to the decode side: an abort if
the consumer aborted, a failure if the producer aborted or was preempted.  The worker then closes
them.  The third signal, done, is sent by the finalize tasks.

All of this but the finalize tasks is one thread, the forward thread.  `forward` says where it is;
between two of its steps the threads of the sender, the finalizer and the RDMA engine take any
number of theirs.  What the handler keeps to plan the pushes is in `LayerPush` and not here.

`signals` is the history of the signals, each with the life of the physical request it was sent for,
and `released` collects the physical requests whose release has returned; no step reads them.
-/

namespace PegaFlow.Pd

open Option Run

/-- The request id of the prefill side. -/
abbrev LogicalReqId := String

/-- A physical request from when it is first opened to when it is closed. -/
abbrev RequestLife := PhysicalReqId × Nat

inductive ReleaseReason where
  | consumerAbort
  | producerAbort
  | producerFinished
  | producerPreempted
deriving DecidableEq, Repr

/-- `PdRequestImmKind`. -/
inductive Signal where
  | done
  | fail
  | abort
deriving DecidableEq, Repr

/-- What a release tells the decode side. -/
def ReleaseReason.signal : ReleaseReason → Option Signal
  | .consumerAbort => some .abort
  | .producerAbort | .producerPreempted => some .fail
  | .producerFinished => none

/-- Where a release is with a physical request: in `_drain_physical_request`, or after it. -/
inductive DrainStage where
  | waitTasks
  | tasksOver
  | waitWrites (target : Option (Nat × Nat))
  | signal
deriving DecidableEq, Repr

/-- Where the forward thread is. -/
inductive ForwardStage where
  | idle
  | opening (rest : List PhysicalReqId)
  | cancelFinalizers (reason : ReleaseReason) (ids : List PhysicalReqId)
  | draining (signal : Signal) (ids rest : List PhysicalReqId) (stage : DrainStage)
  | closing (rest : List PhysicalReqId)
deriving DecidableEq, Repr

structure PrefillHandler where
  push : PushSystem
  logicalToPhysical : Table LogicalReqId (List PhysicalReqId)
  physicalToLogical : Table PhysicalReqId LogicalReqId
  completedPushes : Finset LogicalReqId
  completedPhysicalPushes : Finset PhysicalReqId
  producerFinished : Finset LogicalReqId
  /-- The set of the RDMA engine. -/
  finishedSending : Finset PhysicalReqId
  forward : ForwardStage
  signals : List (RequestLife × Signal)
  released : Finset RequestLife

inductive PrefillEvent where
  /-- A step of the sender, the finalizer or the RDMA engine. -/
  | thread (ev : PushEvent)
  /-- `process_push_reqs` comes to a request whose plan has targets with these ranks. -/
  | push (reqId : LogicalReqId) (ranks : List Nat)
  | submit (reqId : LogicalReqId) (physicalReqId : PhysicalReqId)
  | finalize (reqId : LogicalReqId)
  | preempt (reqId : LogicalReqId)
  | release (reqId : LogicalReqId) (reason : ReleaseReason)
  | getFinishedSending (finishedReqIds : Finset LogicalReqId)
  /-- The forward thread goes on with its call. -/
  | forward
  /-- A wait of the forward thread times out, or its signal cannot be sent. -/
  | forwardRaises

/-- The steps that are not those of the forward thread. -/
def PushEvent.ofThreads : PushEvent → Bool
  | .startTask _ | .runTask _ _ | .finishTask _ | .completeWrite _ _ | .finalizerStep _
  | .finalizerRaises _ => true
  | _ => false

/-- `_physical_req_ids`, for the ranks of the plan's targets. -/
def physicalReqIds (reqId : LogicalReqId) (ranks : List Nat) : List PhysicalReqId :=
  if ranks.length = 1 then [reqId] else ranks.map fun rank => reqId ++ "#d" ++ rank.repr

theorem nodup_physicalReqIds {reqId : LogicalReqId} {ranks : List Nat} (h : ranks.Nodup) :
    (physicalReqIds reqId ranks).Nodup := by
  unfold physicalReqIds
  split
  · exact List.nodup_singleton reqId
  refine h.map fun a b heq => ?_
  have hdigits : Nat.toDigits 10 a = Nat.toDigits 10 b := by
    have hrepr := (String.append_right_inj (reqId ++ "#d")).mp heq
    rw [Nat.repr_eq_ofList_toDigits, Nat.repr_eq_ofList_toDigits] at hrepr
    exact String.ofList_injective hrepr
  exact Text.toDigits_inj hdigits

namespace PrefillHandler

def new : PrefillHandler := ⟨.init, ∅, ∅, ∅, ∅, ∅, ∅, .idle, [], ∅⟩

variable (s : PrefillHandler) (finishedReqIds : Finset LogicalReqId)

/-- What a step of the finalizer does outside of `PushSystem`. -/
def note (ev : PushEvent) : PrefillHandler :=
  { s with
    signals :=
      match s.push.sends ev with
      | some r => s.signals ++ [((r, s.push.life r), .done)]
      | none => s.signals
    finishedSending :=
      match s.push.inserts ev with
      | some key => insert key.1 s.finishedSending
      | none => s.finishedSending }

/-- `process_push_reqs` for a request, up to the first `open_request`. -/
def plan (reqId : LogicalReqId) (ids : List PhysicalReqId) : PrefillHandler :=
  if ids = [] then { s with completedPushes := insert reqId s.completedPushes }
  else
    { s with
      logicalToPhysical := s.logicalToPhysical.insert reqId ids
      physicalToLogical := ids.foldl (fun t r => t.insert r reqId) s.physicalToLogical
      forward := .opening ids }

/-- `release` up to the first `cancel_many`. -/
def beginRelease (reqId : LogicalReqId) (reason : ReleaseReason)
    (ids : List PhysicalReqId) : Option PrefillHandler :=
  (s.push.step (.cancelPushes ids)).map fun push =>
    { s with
      push
      logicalToPhysical := s.logicalToPhysical.erase reqId
      forward := .cancelFinalizers reason ids }

/-- `release` returns its physical requests, and the worker closes them. -/
def endRelease (ids : List PhysicalReqId) : PrefillHandler :=
  { s with
    physicalToLogical := ids.foldl (fun t r => t.erase r) s.physicalToLogical
    completedPhysicalPushes := s.completedPhysicalPushes \ ids.toFinset
    released := s.released ∪ (ids.map fun r => (r, s.push.life r)).toFinset
    forward := .closing ids }

/-- The logical requests that `_record_finished_physical_pushes` completes. -/
def newlyCompleted : Finset LogicalReqId :=
  (s.finishedSending.image fun r => (s.physicalToLogical.lookup r).getD r).filter fun reqId =>
    ∀ r ∈ (s.logicalToPhysical.lookup reqId).getD [reqId],
      r ∈ s.completedPhysicalPushes ∪ s.finishedSending

/-- The logical requests that `get_finished_sending` reports. -/
def releasable : Finset LogicalReqId :=
  (s.completedPushes ∪ s.newlyCompleted) ∩ (s.producerFinished ∪ finishedReqIds)

/-- The physical requests that `get_finished_sending` closes. -/
def closable : List PhysicalReqId :=
  (s.logicalToPhysical.entries.filter fun e => e.1 ∈ s.releasable finishedReqIds).flatMap
    fun e => e.2

/-- `get_finished_sending` up to the first `close_request`. -/
def reportFinished : PrefillHandler :=
  let releasable := s.releasable finishedReqIds
  let closable := s.closable finishedReqIds
  { s with
    logicalToPhysical :=
      s.logicalToPhysical.filterMap fun reqId ids => if reqId ∈ releasable then none else some ids
    physicalToLogical := closable.foldl (fun t r => t.erase r) s.physicalToLogical
    completedPushes := (s.completedPushes ∪ s.newlyCompleted) \ releasable
    completedPhysicalPushes := (s.completedPhysicalPushes ∪ s.finishedSending) \ closable.toFinset
    producerFinished := (s.producerFinished ∪ finishedReqIds) \ releasable
    finishedSending := ∅
    forward := .closing closable }

/-- The next step of a release with a physical request. -/
def drainStep (signal : Signal) (ids : List PhysicalReqId) (r : PhysicalReqId)
    (rest : List PhysicalReqId) : DrainStage → Option PrefillHandler
  | .waitTasks =>
    (s.push.step (.drain r)).map fun push =>
      { s with
        push
        forward :=
          -- a stored error ends the drain of this request
          if s.push.error.isSome then .draining signal ids rest .waitTasks
          else .draining signal ids (r :: rest) .tasksOver }
  | .tasksOver =>
    some
      { s with
        forward := .draining signal ids (r :: rest) (.waitWrites (s.push.writeTarget r)) }
  | .waitWrites target =>
    match s.push.writesOver r target with
    | .waiting => none
    | .failed => some { s with forward := .draining signal ids rest .waitTasks }
    | .completed => some { s with forward := .draining signal ids (r :: rest) .signal }
  | .signal =>
    some
      { s with
        signals :=
          if r ∈ s.push.remote then s.signals ++ [((r, s.push.life r), signal)] else s.signals
        forward := .draining signal ids rest .waitTasks }

/-- The next step of the forward thread. -/
def forwardStep : ForwardStage → Option PrefillHandler
  | .idle => none
  | .opening [] => some { s with forward := .idle }
  | .opening (r :: rest) =>
    (s.push.step (.openRequest r)).map fun push => { s with push, forward := .opening rest }
  | .cancelFinalizers reason ids =>
    (s.push.step (.cancelFinalizers ids)).map fun push =>
      match reason.signal with
      | some signal => { s with push, forward := .draining signal ids ids .waitTasks }
      | none => { s with push }.endRelease ids
  | .draining _ ids [] _ => some (s.endRelease ids)
  | .draining signal ids (r :: rest) stage => s.drainStep signal ids r rest stage
  | .closing [] => some { s with forward := .idle }
  | .closing (r :: rest) =>
    (s.push.step (.closeRequest r)).map fun push =>
      { s with push, finishedSending := s.finishedSending.erase r, forward := .closing rest }

def step (s : PrefillHandler) : PrefillEvent → Option PrefillHandler
  | .thread ev =>
    if ev.ofThreads then (s.push.step ev).map fun push => { s.note ev with push } else none
  | .push reqId ranks =>
    -- the ranks of a plan's targets are the keys of a dict
    if s.forward = .idle ∧ ranks.Nodup then some (s.plan reqId (physicalReqIds reqId ranks))
    else none
  | .submit reqId r =>
    if s.forward = .idle ∧ ∃ ids ∈ s.logicalToPhysical.lookup reqId, r ∈ ids then
      (s.push.step (.submit r)).map fun push => { s with push }
    else none
  | .finalize reqId =>
    if s.forward = .idle then
      (s.logicalToPhysical.lookup reqId).bind fun ids =>
        (s.push.step (.finalize ids)).map fun push => { s with push }
    else none
  | .preempt reqId =>
    if s.forward = .idle then
      match s.logicalToPhysical.lookup reqId with
      | some ids => s.beginRelease reqId .producerPreempted ids
      | none => some s
    else none
  | .release reqId reason =>
    if s.forward = .idle then
      match s.logicalToPhysical.lookup reqId with
      | some ids => s.beginRelease reqId reason ids
      | none =>
        some (if reason = .consumerAbort then s else { s with forward := .closing [reqId] })
    else none
  | .getFinishedSending finishedReqIds =>
    if s.forward = .idle then some (s.reportFinished finishedReqIds) else none
  | .forward => s.forwardStep s.forward
  | .forwardRaises =>
    match s.forward with
    | .draining signal ids (_ :: rest) (.waitWrites _) | .draining signal ids (_ :: rest) .signal =>
      some { s with forward := .draining signal ids rest .waitTasks }
    | _ => none

/-! ## What a step does -/

/-- The cases of a step. -/
inductive Step (s : PrefillHandler) : PrefillEvent → PrefillHandler → Prop where
  | idle (ev : PrefillEvent) : Step s ev s
  | thread {ev : PushEvent} {push : PushSystem} (hev : ev.ofThreads)
      (h : s.push.step ev = some push) : Step s (.thread ev) { s.note ev with push }
  | skipped {reqId : LogicalReqId} {ranks : List Nat} :
      Step s (.push reqId ranks) { s with completedPushes := insert reqId s.completedPushes }
  | planned {reqId : LogicalReqId} {ranks : List Nat}
      {physicalToLogical : Table PhysicalReqId LogicalReqId} (hidle : s.forward = .idle)
      (hranks : ranks.Nodup) :
      Step s (.push reqId ranks)
        { s with
          logicalToPhysical := s.logicalToPhysical.insert reqId (physicalReqIds reqId ranks)
          physicalToLogical
          forward := .opening (physicalReqIds reqId ranks) }
  | submitted {reqId : LogicalReqId} {r : PhysicalReqId} {push : PushSystem}
      (hidle : s.forward = .idle) (h : s.push.step (.submit r) = some push) :
      Step s (.submit reqId r) { s with push }
  | finalized {reqId : LogicalReqId} {ids : List PhysicalReqId} {push : PushSystem}
      (hidle : s.forward = .idle) (hids : s.logicalToPhysical.lookup reqId = some ids)
      (h : s.push.step (.finalize ids) = some push) : Step s (.finalize reqId) { s with push }
  | releases (ev : PrefillEvent) {reqId : LogicalReqId} {reason : ReleaseReason}
      {ids : List PhysicalReqId} {push : PushSystem} (hidle : s.forward = .idle)
      (hids : s.logicalToPhysical.lookup reqId = some ids)
      (h : s.push.step (.cancelPushes ids) = some push) :
      Step s ev
        { s with
          push
          logicalToPhysical := s.logicalToPhysical.erase reqId
          forward := .cancelFinalizers reason ids }
  | closesUnknown {reqId : LogicalReqId} {reason : ReleaseReason} (hidle : s.forward = .idle)
      (hnone : s.logicalToPhysical.lookup reqId = none) :
      Step s (.release reqId reason) { s with forward := .closing [reqId] }
  | reported {finishedReqIds : Finset LogicalReqId} (hidle : s.forward = .idle) :
      Step s (.getFinishedSending finishedReqIds) (s.reportFinished finishedReqIds)
  | returned (hover : s.forward = .opening [] ∨ s.forward = .closing []) :
      Step s .forward { s with forward := .idle }
  | opened {r : PhysicalReqId} {rest : List PhysicalReqId} {push : PushSystem}
      (hforward : s.forward = .opening (r :: rest))
      (h : s.push.step (.openRequest r) = some push) :
      Step s .forward { s with push, forward := .opening rest }
  | cancelled {reason : ReleaseReason} {signal : Signal} {ids : List PhysicalReqId}
      {push : PushSystem} (hforward : s.forward = .cancelFinalizers reason ids)
      (hsignal : reason.signal = some signal) (h : s.push.step (.cancelFinalizers ids) = some push) :
      Step s .forward { s with push, forward := .draining signal ids ids .waitTasks }
  | cancelledFinished {reason : ReleaseReason} {ids : List PhysicalReqId} {push : PushSystem}
      (hforward : s.forward = .cancelFinalizers reason ids)
      (h : s.push.step (.cancelFinalizers ids) = some push) :
      Step s .forward ({ s with push }.endRelease ids)
  | drained {signal : Signal} {ids rest : List PhysicalReqId} {r : PhysicalReqId}
      {push : PushSystem} (hforward : s.forward = .draining signal ids (r :: rest) .waitTasks)
      (herror : s.push.error = none) (h : s.push.step (.drain r) = some push) :
      Step s .forward { s with push, forward := .draining signal ids (r :: rest) .tasksOver }
  | drainFailed {signal : Signal} {ids rest : List PhysicalReqId} {r : PhysicalReqId}
      {push : PushSystem} (hforward : s.forward = .draining signal ids (r :: rest) .waitTasks)
      (h : s.push.step (.drain r) = some push) :
      Step s .forward { s with push, forward := .draining signal ids rest .waitTasks }
  | waits {signal : Signal} {ids rest : List PhysicalReqId} {r : PhysicalReqId}
      (hforward : s.forward = .draining signal ids (r :: rest) .tasksOver) :
      Step s .forward
        { s with
          forward := .draining signal ids (r :: rest) (.waitWrites (s.push.writeTarget r)) }
  | writesOver {signal : Signal} {ids rest : List PhysicalReqId} {r : PhysicalReqId}
      {target : Option (Nat × Nat)}
      (hforward : s.forward = .draining signal ids (r :: rest) (.waitWrites target))
      (hover : s.push.writesOver r target = .completed) :
      Step s .forward { s with forward := .draining signal ids (r :: rest) .signal }
  | gaveUp (ev : PrefillEvent) {signal : Signal} {ids rest : List PhysicalReqId}
      {r : PhysicalReqId} {stage : DrainStage}
      (hforward : s.forward = .draining signal ids (r :: rest) stage) :
      Step s ev { s with forward := .draining signal ids rest .waitTasks }
  | signalled {signal : Signal} {ids rest : List PhysicalReqId} {r : PhysicalReqId}
      (hforward : s.forward = .draining signal ids (r :: rest) .signal)
      (hremote : r ∈ s.push.remote) :
      Step s .forward
        { s with
          signals := s.signals ++ [((r, s.push.life r), signal)]
          forward := .draining signal ids rest .waitTasks }
  | releaseReturned {signal : Signal} {ids : List PhysicalReqId} {stage : DrainStage}
      (hforward : s.forward = .draining signal ids [] stage) : Step s .forward (s.endRelease ids)
  | closed {r : PhysicalReqId} {rest : List PhysicalReqId} {push : PushSystem}
      (hforward : s.forward = .closing (r :: rest))
      (h : s.push.step (.closeRequest r) = some push) :
      Step s .forward
        { s with push, finishedSending := s.finishedSending.erase r, forward := .closing rest }

variable {s s' : PrefillHandler} {ev : PrefillEvent}

theorem beginRelease_cases {reqId : LogicalReqId} {reason : ReleaseReason}
    {ids : List PhysicalReqId} (hid : s.forward = .idle)
    (hids : s.logicalToPhysical.lookup reqId = some ids)
    (h : s.beginRelease reqId reason ids = some s') : Step s ev s' := by
  obtain ⟨push, hp, rfl⟩ := map_eq_some_iff.mp h
  exact .releases ev hid hids hp

theorem drainStep_cases {signal : Signal} {ids rest : List PhysicalReqId} {r : PhysicalReqId}
    {stage : DrainStage} (hfwd : s.forward = .draining signal ids (r :: rest) stage)
    (h : s.drainStep signal ids r rest stage = some s') : Step s .forward s' := by
  cases stage with
  | waitTasks =>
    obtain ⟨push, hp, rfl⟩ := map_eq_some_iff.mp h
    split
    · exact .drainFailed hfwd hp
    next herr => exact .drained hfwd (not_isSome_iff_eq_none.mp herr) hp
  | tasksOver =>
    cases h
    exact .waits hfwd
  | waitWrites target =>
    unfold drainStep at h
    dsimp only at h
    split at h
    · cases h
    · cases h
      exact .gaveUp .forward hfwd
    next ho =>
      cases h
      exact .writesOver hfwd ho
  | signal =>
    cases h
    split
    next hrem => exact .signalled hfwd hrem
    · exact .gaveUp .forward hfwd

theorem forwardStep_cases (h : s.forwardStep s.forward = some s') : Step s .forward s' := by
  unfold forwardStep at h
  split at h
  · cases h
  next hfwd =>
    cases h
    exact .returned (Or.inl hfwd)
  next hfwd =>
    obtain ⟨push, hp, rfl⟩ := map_eq_some_iff.mp h
    exact .opened hfwd hp
  next hfwd =>
    obtain ⟨push, hp, rfl⟩ := map_eq_some_iff.mp h
    split
    next hsignal => exact .cancelled hfwd hsignal hp
    · exact .cancelledFinished hfwd hp
  next hfwd =>
    cases h
    exact .releaseReturned hfwd
  next hfwd => exact drainStep_cases hfwd h
  next hfwd =>
    cases h
    exact .returned (Or.inr hfwd)
  next hfwd =>
    obtain ⟨push, hp, rfl⟩ := map_eq_some_iff.mp h
    exact .closed hfwd hp

theorem step_cases (h : s.step ev = some s') : Step s ev s' := by
  cases ev with dsimp only [step] at h
  | thread ev =>
    split at h
    next hev =>
      obtain ⟨push, hp, rfl⟩ := map_eq_some_iff.mp h
      exact .thread hev hp
    · cases h
  | push reqId ranks =>
    obtain ⟨⟨hid, hranks⟩, rfl⟩ := guarded_eq_some.mp h
    unfold plan
    split
    · exact .skipped
    · exact .planned hid hranks
  | submit reqId r =>
    split at h
    next hguard =>
      obtain ⟨push, hp, rfl⟩ := map_eq_some_iff.mp h
      exact .submitted hguard.1 hp
    · cases h
  | finalize reqId =>
    split at h
    next hid =>
      obtain ⟨ids, hids, h⟩ := bind_eq_some_iff.mp h
      obtain ⟨push, hp, rfl⟩ := map_eq_some_iff.mp h
      exact .finalized hid hids hp
    · cases h
  | preempt reqId =>
    split at h
    next hid =>
      split at h
      next hids => exact beginRelease_cases hid hids h
      · cases h
        exact .idle _
    · cases h
  | release reqId reason =>
    split at h
    next hid =>
      split at h
      next hids => exact beginRelease_cases hid hids h
      next hn =>
        cases h
        split
        · exact .idle _
        · exact .closesUnknown hid hn
    · cases h
  | getFinishedSending finishedReqIds =>
    obtain ⟨hid, rfl⟩ := guarded_eq_some.mp h
    exact .reported hid
  | forward => exact forwardStep_cases h
  | forwardRaises =>
    split at h
    next hfwd =>
      cases h
      exact .gaveUp _ hfwd
    next hfwd =>
      cases h
      exact .gaveUp _ hfwd
    · cases h

end PrefillHandler

end PegaFlow.Pd
