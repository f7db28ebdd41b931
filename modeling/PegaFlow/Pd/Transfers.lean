import Mathlib.Data.Finset.Option
import PegaFlow.Pd.ImmIds
import PegaFlow.Pd.SignalPromise
import PegaFlow.Pd.WaitEnds

/-!
# Prefill ranks and a decode worker

A wait of the decode worker has an immediate id, taken when it is registered.  The handshake that the
prefill ranks get for it has the id and the blocks they may write to; they open their physical
requests with it, write, and send their signals as immediates, which arrive in any order.  `wait_done`
looks the request up, and returns when one abort or as many done immediates as expected have arrived
(`wait_imm_or_fail` of `python/src/pd_rdma.rs`).  It raises when a failure has arrived, when the
request is not open, or after 30 seconds, that is, at any time.

The handshakes are sent by the first decode rank, with an id of its own counter, which may be ahead of
this worker.  So a physical request may be opened with any handshake, before the registration that it
names and with another id than the worker has for it, or with one of another decode rank (`none`).

A counter holds what has arrived with its id, and less if it was closed in between: the counters of a
closed request are dropped, but a `wait_done` that has looked them up goes on with them.  Here they
are never dropped, so `wait_done` may return whenever it does in the source.

The histories `opened`, `requests`, `ended` and `reported` are read by no step.
-/

namespace PegaFlow.Pd

/-- The registration whose blocks are written to, and the immediate id to signal. -/
structure Handshake where
  registration : Nat
  immId : Nat
deriving DecidableEq, Repr

/-- A physical request of a prefill rank that was opened with a handshake. -/
structure Opening (n : Nat) where
  rank : Fin n
  key : RequestLife
  handshake : Handshake
deriving DecidableEq, Repr

structure Imm (n : Nat) where
  opening : Opening n
  signal : Signal
  arrived : Bool
deriving DecidableEq, Repr

structure PdSystem (n : Nat) where
  prefill : Fin n → PrefillHandler
  /-- `remote_requests` of the prefill ranks. -/
  handshakes : Table (Fin n × RequestLife) Handshake
  imms : List (Imm n)
  decode : DecodeWaiter
  nextImmId : Nat
  /-- `remote_requests` of the decode worker. -/
  remoteRequests : Table ReqId Handshake
  /-- What the executions in `wait_done` have looked up. -/
  captured : Table TaskId Handshake
  opened : Finset (Opening n)
  /-- The request ids of the registrations. -/
  requests : List ReqId
  /-- The registrations whose wait was ended by something else than its done immediates. -/
  ended : Finset Nat
  reported : Finset Nat

inductive PdEvent (n : Nat) where
  /-- A step of a rank; if it opens a request for this worker, then with the handshake. -/
  | prefill (rank : Fin n) (ev : PrefillEvent) (handshake : Option Handshake)
  | deliver (i : Nat)
  /-- `wait_done` looks up its request. -/
  | lookUp (task : TaskId)
  | decode (ev : WaiterEvent)

/-- The physical request that the step opens. -/
def PrefillHandler.opens (s : PrefillHandler) : PrefillEvent → Option RequestLife
  | .forward =>
    match s.forward with
    | .opening (r :: _) => some (r, s.push.life r)
    | _ => none
  | _ => none

namespace PdSystem

variable {n : Nat}

def new (n : Nat) : PdSystem n :=
  ⟨fun _ => .new, ∅, [], .new, 1, ∅, ∅, ∅, [], ∅, ∅⟩

variable (s : PdSystem n) (i : Fin n)

/-- `open_request` of a prefill rank. -/
def openRequest (key : RequestLife) : Option Handshake → PdSystem n
  | some handshake =>
    { s with
      handshakes := s.handshakes.insert (i, key) handshake
      opened := insert ⟨i, key, handshake⟩ s.opened }
  | none => { s with handshakes := s.handshakes.erase (i, key) }

/-- The rank takes a step, and its signals are on their way. -/
def setRank (rank : PrefillHandler) : PdSystem n :=
  { s with
    prefill := Function.update s.prefill i rank
    imms := s.imms ++ (rank.signals.drop (s.prefill i).signals.length).filterMap fun e =>
      (s.handshakes.lookup (i, e.1)).map fun handshake => ⟨⟨i, e.1, handshake⟩, e.2, false⟩ }

/-- The immediates of a kind that have arrived with an id. -/
def arrived (s : PdSystem n) (signal : Signal) (immId : Nat) : Nat :=
  s.imms.countP fun m => m.arrived ∧ m.signal = signal ∧ m.opening.handshake.immId = immId

/-- What a step of the decode worker does outside of `DecodeWaiter`. -/
def afterDecode (decode : DecodeWaiter) : WaiterEvent → PdSystem n
  | .registerWait reqId _ =>
    { s with
      decode
      nextImmId := bumpImmId s.nextImmId
      remoteRequests := s.remoteRequests.insert reqId ⟨s.decode.registrations, s.nextImmId⟩
      requests := s.requests ++ [reqId] }
  | .start id => { s with decode, captured := s.captured.erase id }
  | .report =>
    match s.decode.reporting with
    | some (.finish, ids) =>
      { s with
        decode
        remoteRequests := s.remoteRequests.filterMap fun reqId handshake =>
          if reqId ∈ ids then none else some handshake
        reported := s.reported ∪ (Finset.range s.requests.length).filter fun w =>
          ∃ reqId ∈ s.requests[w]?, reqId ∈ ids }
    | _ => { s with decode }
  | _ => { s with decode }

variable (expected : Nat → Nat)

variable (s : PdSystem n)

/-- `wait_done` may return: the request was in `finished_recving`, or the counters allow it. -/
def CanReturn (id : TaskId) : Prop :=
  match s.captured.lookup id with
  | none => (s.decode.finishedRecving.lookup id.1).isSome
  | some handshake =>
    1 ≤ s.arrived .abort handshake.immId ∨
      expected handshake.registration ≤ s.arrived .done handshake.immId

instance (id : TaskId) : Decidable (s.CanReturn expected id) :=
  match h : s.captured.lookup id with
  | none =>
    decidable_of_iff ((s.decode.finishedRecving.lookup id.1).isSome) (by rw [CanReturn, h])
  | some handshake =>
    decidable_of_iff (1 ≤ s.arrived .abort handshake.immId ∨ expected handshake.registration ≤
      s.arrived .done handshake.immId) (by rw [CanReturn, h])

/-- The registration whose wait the step ends without all of its done immediates. -/
def ends : WaiterEvent → Option Nat
  | .returns id =>
    (s.captured.lookup id).bind fun handshake =>
      if expected handshake.registration ≤ s.arrived .done handshake.immId then none
      else some handshake.registration
  | .raises id => (s.decode.tasks.lookup id).map WaitTask.registration
  | .prefillFails remoteRequestId =>
    (s.decode.waits.waitOfRemote remoteRequestId).bind fun wait =>
      s.decode.registered.lookup wait.1
  | _ => none

/-- The step is one that `wait_done` allows. -/
def Allows : WaiterEvent → Prop
  | .returns id => s.CanReturn expected id
  | _ => True

instance : ∀ ev, Decidable (s.Allows expected ev)
  | .returns id => inferInstanceAs (Decidable (s.CanReturn expected id))
  | .registerWait _ _ | .submit | .start _ | .check _ | .succeed _ | .raises _ | .fail _
  | .cancelOwn _ | .finish _ | .prefillFails _ | .cancel _ | .release _ | .getFinished | .report
  | .drainFailedForMeta | .drainFailedBlockIds => isTrue trivial

def step (s : PdSystem n) : PdEvent n → Option (PdSystem n)
  | .prefill i ev handshake =>
    ((s.prefill i).step ev).map fun rank =>
      match (s.prefill i).opens ev with
      | some key => (s.openRequest i key handshake).setRank i rank
      | none => s.setRank i rank
  | .deliver i =>
    (s.imms[i]?).map fun m => { s with imms := s.imms.set i { m with arrived := true } }
  | .lookUp id =>
    match s.decode.tasks.lookup id, s.captured.lookup id with
    | some ⟨.waiting, _⟩, none =>
      (s.remoteRequests.lookup id.1).map fun handshake =>
        { s with captured := s.captured.insert id handshake }
    | _, _ => none
  | .decode ev =>
    if s.Allows expected ev then
      (s.decode.step ev).map fun decode =>
        { s.afterDecode decode ev with ended := s.ended ∪ (s.ends expected ev).toFinset }
    else none

end PdSystem

end PegaFlow.Pd
