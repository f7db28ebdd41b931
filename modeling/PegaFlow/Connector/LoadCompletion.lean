import Mathlib.Data.Finset.Basic
import PegaFlow.Connector.SaveWorker
import PegaFlow.Lib.Run

/-!
# When a load is reported

The load path between the worker connector (`start_load_kv` and the load half of `get_finished` in
`python/pegaflow/connector/worker.py`), the `load` handler of the server and its GPU load worker
(`load_worker_loop`, `process_load_task` in `pegaflow-core/src/gpu_worker.rs`).

The connector makes a shared-memory `LoadState`, calls the server and, when the call returns, notes
the load as pending.  The server validates the call and queues a task.  The load worker submits the
copies of the task to a stream, synchronises the stream and sets the load state.  `get_finished`
reports the requests of a load whose state is set, and hands their blocks back to vLLM.

Three other things make it report a request: the load is older than the timeout, the call raised,
or an older failure of the request was not reported yet.  None of them says where the copies are.
The call may raise although the server has accepted it or will.  The load state can be set early
as well: `h2d` returns its error before the stream is synchronised, and an error of the
synchronisation is only logged.

A copy carries the request it is made for; no step reads it.  The release of leases after a failed
call, the statistics and the availability of the server are left out.
-/

namespace PegaFlow.Connector

/-- A shared-memory segment. -/
abbrev ShmId := Nat

/-- What a `LoadState` holds. -/
inductive LoadStatus where
  | pending
  | success
  | error
deriving DecidableEq, Repr

/-- A copy from the host into a block of a layer. -/
structure LoadCopy where
  shm : ShmId
  req : ReqId
  layerName : String
  block : BlockId
deriving DecidableEq, Repr

/-- A load call: the load state, and the destination blocks by request. -/
structure LoadRpc where
  shm : ShmId
  loads : List (ReqId × List BlockId)
deriving DecidableEq, Repr

namespace LoadRpc

def requestIds (rpc : LoadRpc) : List ReqId := rpc.loads.map Prod.fst

def blockIds (rpc : LoadRpc) : List BlockId := rpc.loads.flatMap Prod.snd

/-- The copies of the task, layer by layer. -/
def copies (layers : List String) (rpc : LoadRpc) : List LoadCopy :=
  layers.flatMap fun layer =>
    rpc.loads.flatMap fun p => p.2.map fun block => ⟨rpc.shm, p.1, layer, block⟩

end LoadRpc

/-- What the connector notes for a load state.  The requests stand in the order in which their set
is iterated. -/
structure PendingLoad where
  requestIds : List ReqId
  start : Nat
  blockIds : List BlockId
deriving DecidableEq, Repr

/-- The task in the hands of the load worker: the copies it has not submitted yet, and those on the
stream. -/
structure RunningLoad where
  shm : ShmId
  todo : List LoadCopy
  running : List LoadCopy
deriving DecidableEq, Repr

structure LoadSystem where
  /-- `start_load_kv` waits for the server, with the time it started. -/
  calling : Option (LoadRpc × Nat)
  /-- `_pending_loads`. -/
  pendingLoads : Table ReqId ShmId
  /-- `_pending_load_reqs` and `_pending_load_meta`. -/
  pendingLoadReqs : Table ShmId PendingLoad
  failedLoadReqs : Finset ReqId
  failedLoadBlockIds : Finset BlockId
  nextShm : ShmId
  status : Table ShmId LoadStatus
  net : List LoadRpc
  /-- The calls the server has answered, and whether it accepted them. -/
  replies : Table ShmId Bool
  queue : List LoadRpc
  worker : Option RunningLoad
  /-- Copies still on the stream after their task was over. -/
  leftRunning : List LoadCopy

/-- What the handler makes of a call.  An error after the load state was attached is also written
there. -/
inductive LoadOutcome where
  | rejected (marked : Bool)
  | accepted
deriving DecidableEq, Repr

inductive LoadEvent where
  | startLoadKv (loads : List (ReqId × List BlockId)) (start : Nat)
  | callReturns
  | callRaises
  | handle (i : Nat) (outcome : LoadOutcome)
  | takeTask
  | submitCopy
  | copyEnds (i : Nat)
  /-- `build_copy_descs` or `h2d` returns an error. -/
  | transferFails
  | synchronize (ok : Bool)
  | leftCopyEnds (i : Nat)
  | getFinished (now : Nat)
  | getBlockIdsWithLoadErrors

namespace LoadSystem

def init : LoadSystem := ⟨none, ∅, ∅, ∅, ∅, 0, ∅, [], ∅, [], none, []⟩

variable (layers : List String) (timeout : Nat) (s : LoadSystem)

def statusOf (shm : ShmId) : LoadStatus := (s.status.lookup shm).getD .pending

/-! ## The load half of `get_finished` -/

/-- The status by which a pending load is judged: that of the load state noted for one of its
requests. -/
def sampleStatus (p : PendingLoad) : Option LoadStatus :=
  (p.requestIds.head?.bind s.pendingLoads.lookup).map s.statusOf

/-- The load is over for the connector. -/
def isOver (now : Nat) (p : PendingLoad) : Bool :=
  match s.sampleStatus p with
  | none => false
  | some .pending => decide (timeout < now - p.start)
  | some _ => true

def isFailed (p : PendingLoad) : Bool := s.sampleStatus p ≠ some .success

/-- The pending loads that are over. -/
def overLoads (now : Nat) : List PendingLoad :=
  (s.pendingLoadReqs.entries.map Sigma.snd).filter (s.isOver timeout now)

/-- `finished_recving`. -/
def finishedRecving (now : Nat) : Finset ReqId :=
  ((s.overLoads timeout now).flatMap PendingLoad.requestIds).toFinset ∪ s.failedLoadReqs

def getFinished (now : Nat) : LoadSystem :=
  let ended := s.overLoads timeout now
  { s with
    pendingLoads :=
      (ended.flatMap PendingLoad.requestIds).foldl (fun t r => t.erase r) s.pendingLoads
    pendingLoadReqs := s.pendingLoadReqs.filterMap fun _ p =>
      if s.isOver timeout now p then none else some p
    failedLoadReqs := ∅
    failedLoadBlockIds := s.failedLoadBlockIds ∪
      ((ended.filter s.isFailed).flatMap PendingLoad.blockIds).toFinset }

/-! ## The system -/

/-- `completion.signal`: the task is over, and what is on the stream keeps running. -/
def signal (task : RunningLoad) (status : LoadStatus) : LoadSystem :=
  { s with
    worker := none
    status := s.status.insert task.shm status
    leftRunning := s.leftRunning ++ task.running }

/-- One step of the connector, the handler of the server, its load worker or the device. -/
def step : LoadEvent → Option LoadSystem
  | .startLoadKv loads start =>
    let rpc : LoadRpc := ⟨s.nextShm, loads⟩
    if s.calling.isNone ∧ rpc.blockIds ≠ [] ∧ layers ≠ [] then
      some { s with
        calling := some (rpc, start)
        nextShm := s.nextShm + 1
        net := s.net ++ [rpc] }
    else none
  | .callReturns =>
    match s.calling with
    | some (rpc, start) =>
      if s.replies.lookup rpc.shm = some true then
        some { s with
          calling := none
          pendingLoads :=
            rpc.requestIds.foldl (fun t r => t.insert r rpc.shm) s.pendingLoads
          pendingLoadReqs :=
            s.pendingLoadReqs.insert rpc.shm ⟨rpc.requestIds, start, rpc.blockIds⟩ }
      else none
    | none => none
  | .callRaises =>
    match s.calling with
    | some (rpc, _) =>
      some { s with
        calling := none
        failedLoadReqs := s.failedLoadReqs ∪ rpc.requestIds.toFinset
        failedLoadBlockIds := s.failedLoadBlockIds ∪ rpc.blockIds.toFinset }
    | none => none
  | .handle i outcome =>
    match s.net[i]? with
    | some rpc =>
      let s := { s with net := s.net.eraseIdx i }
      match outcome with
      | .rejected marked =>
        some { s with
          replies := s.replies.insert rpc.shm false
          status := if marked then s.status.insert rpc.shm .error else s.status }
      | .accepted =>
        let s := { s with replies := s.replies.insert rpc.shm true }
        if rpc.copies layers = [] then
          some { s with status := s.status.insert rpc.shm .success }
        else some { s with queue := s.queue ++ [rpc] }
    | none => none
  | .takeTask =>
    match s.queue, s.worker with
    | rpc :: rest, none =>
      some { s with queue := rest, worker := some ⟨rpc.shm, rpc.copies layers, []⟩ }
    | _, _ => none
  | .submitCopy =>
    match s.worker with
    | some ⟨shm, copy :: todo, running⟩ =>
      some { s with worker := some ⟨shm, todo, running ++ [copy]⟩ }
    | _ => none
  | .copyEnds i =>
    s.worker.map fun task =>
      { s with worker := some { task with running := task.running.eraseIdx i } }
  | .transferFails => s.worker.map fun task => s.signal task .error
  | .synchronize ok =>
    match s.worker with
    | some ⟨shm, [], running⟩ =>
      if ok → running = [] then some (s.signal ⟨shm, [], running⟩ .success) else none
    | _ => none
  | .leftCopyEnds i => some { s with leftRunning := s.leftRunning.eraseIdx i }
  | .getFinished now => if s.calling.isNone then some (s.getFinished timeout now) else none
  | .getBlockIdsWithLoadErrors => some { s with failedLoadBlockIds := ∅ }

/-- The copies that are queued or running on the server. -/
def onServer : List LoadCopy :=
  s.queue.flatMap (LoadRpc.copies layers) ++
    (s.worker.toList.flatMap fun task => task.todo ++ task.running) ++ s.leftRunning

/-- The copies on the server and those it will make for calls on their way to it. -/
def outstanding : List LoadCopy :=
  s.net.flatMap (LoadRpc.copies layers) ++ s.onServer layers

end LoadSystem

end PegaFlow.Connector
