import Mathlib.Logic.Function.Basic
import PegaFlow.Lib.Run
import PegaFlow.Rdma.Backend

/-!
# Remote fetches

A fetch (`rdma_fetch_task` and `fetch_blocks_via_rdma` of `pegaflow-core/src/backing/rdma_fetch.rs`)
holds a lock on the blocks of a peer and pinned memory of its own, into which it reads them.
`batch_transfer_async` hands one batch of operations to each of several sessions; the fetch then waits
for their results in this order, and no longer than a timeout.  If all of them succeed, the memory
goes into the blocks it returns; otherwise it is dropped at once.  In both cases the lock is released
by a task of its own.

A session (`pegaflow-transfer/src/rc_backend/session.rs`) is a thread with a queue of batches.
`execute_batch` posts the operations as work requests, a few at a time, and polls the completion queue
until nothing is in flight.  It gives up at the first request that fails.  The numbers of work
requests begin at one for every batch; there are fewer than 2^64 of them, so they do not wrap.

`posted` has the work requests that the device may still carry out.  The device completes them in any
order, with success or not.  There are `k` sessions, which any number of fetches share; the READs of
fetches are all that is posted on them.
-/

namespace PegaFlow.Rdma

def maxWrChainOps : Nat := 4

def maxSendWr : Nat := 128

/-- A batch is known by its fetch and its place among the batches of that fetch. -/
abbrev BatchId := Nat × Nat

structure SessionCommand where
  batch : BatchId
  ops : List RdmaOp

structure WorkRequest where
  batch : BatchId
  wrId : Nat
  op : RdmaOp

/-- The variables of `execute_batch`; `polling` says that it is in the loop over completions. -/
structure Execution where
  command : SessionCommand
  nextIdx : Nat
  nextWrId : Nat
  inflight : Table Nat Nat
  transferred : Nat
  polling : Bool

namespace Execution

def start (command : SessionCommand) : Execution := ⟨command, 0, 1, ∅, 0, false⟩

variable (e : Execution)

/-- The condition of the loop that posts. -/
def CanPost : Prop :=
  e.nextIdx < e.command.ops.length ∧ e.inflight.entries.length < maxSendWr

instance : Decidable e.CanPost := inferInstanceAs (Decidable (_ ∧ _))

/-- The operations that are posted together. -/
def chain : List RdmaOp :=
  (e.command.ops.drop e.nextIdx).take (min maxWrChainOps (maxSendWr - e.inflight.entries.length))

/-- A posted operation is noted. -/
def track (op : RdmaOp) : Execution :=
  { e with
    inflight := e.inflight.insert e.nextWrId op.len
    nextWrId := e.nextWrId + 1
    nextIdx := e.nextIdx + 1 }

/-- The condition of the outer loop. -/
def Unfinished : Prop :=
  e.nextIdx < e.command.ops.length ∨ e.inflight.entries ≠ []

instance : Decidable e.Unfinished :=
  decidable_of_iff (e.nextIdx < e.command.ops.length ∨ e.inflight.entries.length ≠ 0)
    (or_congr_right (not_congr List.length_eq_zero_iff))

end Execution

structure RcSession where
  queue : List SessionCommand
  current : Option Execution
  posted : List WorkRequest
  completed : List (WorkRequest × Bool)

/-- Post operations: each is handed to the device and noted. -/
def postOps : List WorkRequest → Execution → List RdmaOp → List WorkRequest × Execution
  | posted, e, [] => (posted, e)
  | posted, e, op :: rest =>
    postOps (posted ++ [⟨e.command.batch, e.nextWrId, op⟩]) (e.track op) rest

/-- How far a fetch is. -/
inductive FetchStage (k : Nat) where
  | submitting (work : List (Fin k × List RdmaOp))
  | waiting (receivers : List Nat)
  | gaveUp
  | fetched

structure Fetch (k : Nat) where
  stage : FetchStage k
  submitted : Nat
  memoryReturned : Bool
  lockReleased : Bool

/-- A batch that was handed to a session, and what the session sent back. -/
structure Batch (k : Nat) where
  session : Fin k
  reply : Option Bool
deriving DecidableEq

structure FetchSystem (k : Nat) where
  fetches : Table Nat (Fetch k)
  batches : Table BatchId (Batch k)
  sessions : Fin k → RcSession

inductive FetchEvent (k : Nat) where
  | beginFetch (fetch : Nat) (work : List (Fin k × List RdmaOp))
  | submit (fetch : Nat)
  | submitFails (fetch : Nat)
  | receive (fetch : Nat)
  | receiveFails (fetch : Nat)
  | timeout (fetch : Nat)
  | releaseLock (fetch : Nat)
  | freeBlocks (fetch : Nat)
  | startBatch (session : Fin k)
  | post (session : Fin k)
  | postFails (session : Fin k)
  | complete (session : Fin k) (position : Nat) (success : Bool)
  | poll (session : Fin k)
  | pollFails (session : Fin k)
  | endPoll (session : Fin k)

namespace FetchSystem

variable {k : Nat}

def new (k : Nat) : FetchSystem k := ⟨∅, ∅, fun _ => ⟨[], none, [], []⟩⟩

variable (s : FetchSystem k) (i : Fin k) (session : RcSession)

def setFetch (fetch : Nat) (f : Fetch k) : FetchSystem k :=
  { s with fetches := s.fetches.insert fetch f }

def setSession : FetchSystem k :=
  { s with sessions := Function.update s.sessions i session }

/-- The batch that the session works on ends, and the result is sent to its fetch. -/
def reply (e : Execution) (success : Bool) : FetchSystem k :=
  { s.setSession i { session with current := none } with
    batches := s.batches.insert e.command.batch ⟨i, some success⟩ }

/-- `fetch_blocks_via_rdma` returns an error: its memory is dropped. -/
def giveUp (fetch : Nat) (f : Fetch k) : FetchSystem k :=
  s.setFetch fetch { f with stage := .gaveUp, memoryReturned := true }

/-- Take one completion from the queue; those of unknown number are skipped. -/
def poll (e : Execution) (wr : WorkRequest) (success : Bool) : FetchSystem k :=
  match e.inflight.lookup wr.wrId with
  | none => s.setSession i { session with current := some { e with polling := true } }
  | some bytes =>
    if success then
      s.setSession i
        { session with
          current := some
            { e with
              inflight := e.inflight.erase wr.wrId
              transferred := min (2 ^ 64 - 1) (e.transferred + bytes)
              polling := true } }
    else s.reply i session e false

def step (s : FetchSystem k) : FetchEvent k → Option (FetchSystem k)
  | .beginFetch fetch work =>
    if s.fetches.lookup fetch = none then
      some (s.setFetch fetch ⟨.submitting work, 0, false, false⟩)
    else none
  | .submit fetch =>
    match s.fetches.lookup fetch with
    | some ⟨.submitting ((i, ops) :: work), submitted, memoryReturned, lockReleased⟩ =>
      some
        { (s.setSession i
            { s.sessions i with
              queue := (s.sessions i).queue ++ [⟨(fetch, submitted), ops⟩] }).setFetch fetch
                ⟨.submitting work, submitted + 1, memoryReturned, lockReleased⟩ with
          batches := s.batches.insert (fetch, submitted) ⟨i, none⟩ }
    | some ⟨.submitting [], submitted, memoryReturned, lockReleased⟩ =>
      some
        (s.setFetch fetch
          ⟨.waiting (List.range submitted), submitted, memoryReturned, lockReleased⟩)
    | _ => none
  | .submitFails fetch =>
    match s.fetches.lookup fetch with
    | some ⟨.submitting work, submitted, memoryReturned, lockReleased⟩ =>
      some (s.giveUp fetch ⟨.submitting work, submitted, memoryReturned, lockReleased⟩)
    | _ => none
  | .receive fetch =>
    match s.fetches.lookup fetch with
    | some ⟨.waiting (j :: receivers), submitted, memoryReturned, lockReleased⟩ =>
      if (s.batches.lookup (fetch, j)).any fun b => b.reply = some true then
        some
          (s.setFetch fetch ⟨.waiting receivers, submitted, memoryReturned, lockReleased⟩)
      else none
    | some ⟨.waiting [], submitted, memoryReturned, lockReleased⟩ =>
      some (s.setFetch fetch ⟨.fetched, submitted, memoryReturned, lockReleased⟩)
    | _ => none
  | .receiveFails fetch =>
    match s.fetches.lookup fetch with
    | some ⟨.waiting (j :: receivers), submitted, memoryReturned, lockReleased⟩ =>
      if (s.batches.lookup (fetch, j)).any fun b => b.reply = some false then
        some
          (s.giveUp fetch
            ⟨.waiting (j :: receivers), submitted, memoryReturned, lockReleased⟩)
      else none
    | _ => none
  | .timeout fetch =>
    match s.fetches.lookup fetch with
    | some ⟨.waiting receivers, submitted, memoryReturned, lockReleased⟩ =>
      some (s.giveUp fetch ⟨.waiting receivers, submitted, memoryReturned, lockReleased⟩)
    | _ => none
  | .releaseLock fetch =>
    match s.fetches.lookup fetch with
    | some ⟨.gaveUp, submitted, memoryReturned, _⟩ =>
      some (s.setFetch fetch ⟨.gaveUp, submitted, memoryReturned, true⟩)
    | some ⟨.fetched, submitted, memoryReturned, _⟩ =>
      some (s.setFetch fetch ⟨.fetched, submitted, memoryReturned, true⟩)
    | _ => none
  | .freeBlocks fetch =>
    match s.fetches.lookup fetch with
    | some ⟨.fetched, submitted, _, lockReleased⟩ =>
      some (s.setFetch fetch ⟨.fetched, submitted, true, lockReleased⟩)
    | _ => none
  | .startBatch i =>
    match (s.sessions i).current, (s.sessions i).queue with
    | none, command :: queue =>
      some
        (s.setSession i
          { s.sessions i with queue, current := some (.start command) })
    | _, _ => none
  | .post i =>
    match (s.sessions i).current with
    | some e =>
      if e.polling = false ∧ e.CanPost ∧ ∀ op ∈ e.chain, op.len < 2 ^ 32 then
        some
          (s.setSession i
            { s.sessions i with
              posted := (postOps (s.sessions i).posted e e.chain).1
              current := some (postOps (s.sessions i).posted e e.chain).2 })
      else none
    | none => none
  | .postFails i =>
    match (s.sessions i).current with
    | some e =>
      if e.polling = false ∧ e.CanPost then some (s.reply i (s.sessions i) e false) else none
    | none => none
  | .complete i position success =>
    match (s.sessions i).posted[position]? with
    | some wr =>
      some
        (s.setSession i
          { s.sessions i with
            posted := (s.sessions i).posted.eraseIdx position
            completed := (s.sessions i).completed ++ [(wr, success)] })
    | none => none
  | .poll i =>
    match (s.sessions i).current, (s.sessions i).completed with
    | some e, (wr, success) :: completed =>
      if e.polling ∨ ¬ e.CanPost then
        some (s.poll i { s.sessions i with completed } e wr success)
      else none
    | _, _ => none
  | .pollFails i =>
    match (s.sessions i).current with
    | some e =>
      if e.polling = false ∧ ¬ e.CanPost then some (s.reply i (s.sessions i) e false)
      else none
    | none => none
  | .endPoll i =>
    match (s.sessions i).current with
    | some e =>
      if e.polling ∨ ¬ e.CanPost then
        if e.Unfinished then
          some
            (s.setSession i { s.sessions i with current := some { e with polling := false } })
        else some (s.reply i (s.sessions i) e true)
      else none
    | none => none

/-! ## What a step does -/

end FetchSystem

/-- The fetch has not returned from `fetch_blocks_via_rdma`. -/
def FetchStage.Alive {k : Nat} : FetchStage k → Prop
  | .submitting _ | .waiting _ => True
  | .gaveUp | .fetched => False

/-- The events with which a fetch gives up. -/
def FetchEvent.GivesUp {k : Nat} (ev : FetchEvent k) (fetch : Nat) : Prop :=
  ev = .submitFails fetch ∨ ev = .receiveFails fetch ∨ ev = .timeout fetch

namespace FetchSystem

variable {k : Nat}

/-- The cases of a step. -/
inductive Step (s : FetchSystem k) : FetchEvent k → FetchSystem k → Prop where
  | beginFetch {fetch : Nat} {work : List (Fin k × List RdmaOp)}
      (hfresh : s.fetches.lookup fetch = none) :
      Step s (.beginFetch fetch work) (s.setFetch fetch ⟨.submitting work, 0, false, false⟩)
  | submit {fetch : Nat} {f : Fetch k} {i : Fin k} {ops : List RdmaOp}
      {work : List (Fin k × List RdmaOp)} (hf : s.fetches.lookup fetch = some f)
      (hstage : f.stage = .submitting ((i, ops) :: work)) :
      Step s (.submit fetch)
        { (s.setSession i
            { s.sessions i with
              queue := (s.sessions i).queue ++ [⟨(fetch, f.submitted), ops⟩] }).setFetch fetch
                { f with stage := .submitting work, submitted := f.submitted + 1 } with
          batches := s.batches.insert (fetch, f.submitted) ⟨i, none⟩ }
  | submitted {fetch : Nat} {f : Fetch k} (hf : s.fetches.lookup fetch = some f)
      (hstage : f.stage = .submitting []) :
      Step s (.submit fetch)
        (s.setFetch fetch { f with stage := .waiting (List.range f.submitted) })
  | givesUp {ev : FetchEvent k} {fetch : Nat} {f : Fetch k}
      (hf : s.fetches.lookup fetch = some f) (hev : ev.GivesUp fetch) :
      Step s ev (s.giveUp fetch f)
  | received {fetch j : Nat} {f : Fetch k} {receivers : List Nat} {i : Fin k}
      (hf : s.fetches.lookup fetch = some f) (hstage : f.stage = .waiting (j :: receivers))
      (hreply : s.batches.lookup (fetch, j) = some ⟨i, some true⟩) :
      Step s (.receive fetch) (s.setFetch fetch { f with stage := .waiting receivers })
  | fetched {fetch : Nat} {f : Fetch k} (hf : s.fetches.lookup fetch = some f)
      (hstage : f.stage = .waiting []) :
      Step s (.receive fetch) (s.setFetch fetch { f with stage := .fetched })
  | settled (ev : FetchEvent k) {fetch : Nat} {f f' : Fetch k}
      (hf : s.fetches.lookup fetch = some f) (hdone : ¬ f.stage.Alive)
      (hsame : f'.stage = f.stage) (hsubmitted : f'.submitted = f.submitted) :
      Step s ev (s.setFetch fetch f')
  | startBatch {i : Fin k} {command : SessionCommand} {queue : List SessionCommand}
      (hidle : (s.sessions i).current = none) (hqueue : (s.sessions i).queue = command :: queue) :
      Step s (.startBatch i)
        (s.setSession i { s.sessions i with queue, current := some (.start command) })
  | post {i : Fin k} {e : Execution} (hcurrent : (s.sessions i).current = some e) :
      Step s (.post i)
        (s.setSession i
          { s.sessions i with
            posted := (postOps (s.sessions i).posted e e.chain).1
            current := some (postOps (s.sessions i).posted e e.chain).2 })
  | complete {i : Fin k} {position : Nat} {success : Bool} {wr : WorkRequest}
      (hwr : (s.sessions i).posted[position]? = some wr) :
      Step s (.complete i position success)
        (s.setSession i
          { s.sessions i with
            posted := (s.sessions i).posted.eraseIdx position
            completed := (s.sessions i).completed ++ [(wr, success)] })
  | skips {i : Fin k} {e : Execution} {entry : WorkRequest × Bool}
      {completed : List (WorkRequest × Bool)} (hcurrent : (s.sessions i).current = some e)
      (hcompleted : (s.sessions i).completed = entry :: completed) :
      Step s (.poll i)
        (s.setSession i
          { s.sessions i with completed, current := some { e with polling := true } })
  | takes {i : Fin k} {e : Execution} {entry : WorkRequest × Bool}
      {completed : List (WorkRequest × Bool)} {transferred : Nat}
      (hcurrent : (s.sessions i).current = some e)
      (hcompleted : (s.sessions i).completed = entry :: completed) :
      Step s (.poll i)
        (s.setSession i
          { s.sessions i with
            completed
            current := some
              { e with
                inflight := e.inflight.erase entry.1.wrId
                transferred
                polling := true } })
  | polled {i : Fin k} {e : Execution} (hcurrent : (s.sessions i).current = some e) :
      Step s (.endPoll i)
        (s.setSession i { s.sessions i with current := some { e with polling := false } })
  | fails {ev : FetchEvent k} {i : Fin k} {e : Execution}
      {completed : List (WorkRequest × Bool)} (hcurrent : (s.sessions i).current = some e) :
      Step s ev (s.reply i { s.sessions i with completed } e false)
  | finishes {i : Fin k} {e : Execution} (hcurrent : (s.sessions i).current = some e)
      (hdone : ¬ e.Unfinished) :
      Step s (.endPoll i) (s.reply i (s.sessions i) e true)

variable {s s' : FetchSystem k} {ev : FetchEvent k}

theorem reply_of_any {b : BatchId} {success : Bool}
    (h : (s.batches.lookup b).any fun b => b.reply = some success) :
    ∃ i, s.batches.lookup b = some ⟨i, some success⟩ := by
  obtain ⟨⟨i, r⟩, hb, hr⟩ := (Option.any_eq_true _ _).mp h
  cases of_decide_eq_true hr
  exact ⟨i, hb⟩

theorem poll_step {i : Fin k} {e : Execution} {wr : WorkRequest} {success : Bool}
    {completed : List (WorkRequest × Bool)} (hc : (s.sessions i).current = some e)
    (hcm : (s.sessions i).completed = (wr, success) :: completed) :
    Step s (.poll i) (s.poll i { s.sessions i with completed } e wr success) := by
  unfold poll
  split
  · exact .skips hc hcm
  split
  · exact .takes hc hcm
  · exact .fails hc

theorem step_cases (h : s.step ev = some s') : Step s ev s' := by
  cases ev with dsimp only [step] at h
  | beginFetch fetch work =>
    obtain ⟨hfr, rfl⟩ := Run.guarded_eq_some.mp h
    exact .beginFetch hfr
  | submit fetch =>
    split at h
    next hf =>
      cases h
      exact .submit hf rfl
    next hf =>
      cases h
      exact .submitted hf rfl
    · cases h
  | submitFails fetch =>
    split at h
    next hf =>
      cases h
      exact .givesUp hf (Or.inl rfl)
    · cases h
  | receive fetch =>
    split at h
    next hf =>
      obtain ⟨hr, rfl⟩ := Run.guarded_eq_some.mp h
      obtain ⟨i, hr⟩ := reply_of_any hr
      exact .received hf rfl hr
    next hf =>
      cases h
      exact .fetched hf rfl
    · cases h
  | receiveFails fetch =>
    split at h
    next hf =>
      obtain ⟨-, rfl⟩ := Run.guarded_eq_some.mp h
      exact .givesUp hf (Or.inr (Or.inl rfl))
    · cases h
  | timeout fetch =>
    split at h
    next hf =>
      cases h
      exact .givesUp hf (Or.inr (Or.inr rfl))
    · cases h
  | releaseLock fetch =>
    split at h
    next hf =>
      cases h
      exact .settled _ hf id rfl rfl
    next hf =>
      cases h
      exact .settled _ hf id rfl rfl
    · cases h
  | freeBlocks fetch =>
    split at h
    next hf =>
      cases h
      exact .settled _ hf id rfl rfl
    · cases h
  | startBatch i =>
    split at h
    next hid hqu =>
      cases h
      exact .startBatch hid hqu
    · cases h
  | post i =>
    split at h
    next hc =>
      obtain ⟨-, rfl⟩ := Run.guarded_eq_some.mp h
      exact .post hc
    · cases h
  | postFails i | pollFails i =>
    split at h
    next hc =>
      obtain ⟨-, rfl⟩ := Run.guarded_eq_some.mp h
      exact .fails hc
    · cases h
  | complete i position success =>
    split at h
    next hwr =>
      cases h
      exact .complete hwr
    · cases h
  | poll i =>
    split at h
    next hc hcm =>
      obtain ⟨-, rfl⟩ := Run.guarded_eq_some.mp h
      exact poll_step hc hcm
    · cases h
  | endPoll i =>
    split at h
    next hc =>
      split at h
      · split at h
        · cases h
          exact .polled hc
        next hd =>
          cases h
          exact .finishes hc hd
      · cases h
    · cases h

end FetchSystem

end PegaFlow.Rdma
