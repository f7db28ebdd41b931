import Mathlib.Data.Finset.Basic
import PegaFlow.Block

/-!
# Saving from the worker side

The save path of `python/pegaflow/connector/worker.py` with the `save` handler of
`pegaflow-server/src/service.rs` and vLLM around them.

vLLM's worker thread hands the save intents of a step to `wait_for_save`, which
notes the requests as pending and queues a task.  The save thread takes the queued
tasks as one batch, issues one save RPC for it and then completes every request
of the batch, whatever the reply was.  The handler spawns a background task that
copies the blocks, and replies at once.  `get_finished` and `handle_preemptions`
tell vLLM which requests it may take the blocks of.

`SaveBook` is what the connector guards by `_save_completion_lock`.  `SaveSystem`
is the whole system and `step` one step of one of its parties.  vLLM is outside
the repository; what it is assumed to do is the guard of `write`: it leaves a block
alone from the step that handed it to `wait_for_save` until its request was
released.  `snapshot`, `issued` and the request in front of each block number
record the past and are read by no step.

The sentinel that ends the save thread is left out: the thread processes the
batch it holds and stops.
-/

namespace PegaFlow.Connector

abbrev ReqId := String

abbrev BlockId := Nat

/-- The blocks of a request to save, and their hashes. -/
structure SaveIntent where
  blockIds : List BlockId
  blockHashes : List BlockHash
deriving DecidableEq

/-- A queued task: the save intents of one step, by request. -/
structure SaveTask where
  saveIntents : List (ReqId × SaveIntent)

def SaveTask.requestIds (t : SaveTask) : List ReqId := t.saveIntents.map Prod.fst

/-- Every block a task names, with its request. -/
def SaveTask.blocks (t : SaveTask) : List (ReqId × BlockId) :=
  t.saveIntents.flatMap fun p => p.2.blockIds.map fun b => (p.1, b)

/-! ## Building the request -/

/-- How a worker saves: the layers it registered, whether they are merged under
one key, and whether pages are striped over the ranks. -/
structure SaveMode where
  crossLayerKey : Option String
  pageFirst : Bool
  layerSplit : Bool
  registeredLayers : List String
  tpSize : Nat
  tpRank : Nat
  layers_ne : registeredLayers ≠ []

/-- The block ids of one layer in a save request, with the request that named
each, and their hashes. -/
structure LayerSave where
  layerName : String
  blockIds : List (ReqId × BlockId)
  blockHashes : List BlockHash

namespace SaveMode

variable (m : SaveMode) (intent : SaveIntent)

def targetLayers : List String :=
  match m.crossLayerKey with
  | some key => [key]
  | none => m.registeredLayers

/-- `_block_shard`.  The two lists are zipped strictly, so lists of different
lengths raise. -/
def blockShard : Option (List BlockId × List BlockHash) :=
  if m.tpSize ≤ 1 then some (intent.blockIds, intent.blockHashes)
  else if intent.blockIds.length = intent.blockHashes.length then
    some ((intent.blockIds.zip intent.blockHashes).filter fun p => p.1 % m.tpSize = m.tpRank).unzip
  else none

/-- The part of an intent this rank saves. -/
def ownPart : Option (List BlockId × List BlockHash) :=
  if m.crossLayerKey.isNone && m.pageFirst && !m.layerSplit then m.blockShard intent
  else some (intent.blockIds, intent.blockHashes)

/-- The ids and hashes every target layer is extended by, over all intents. -/
def gather (m : SaveMode) :
    List (ReqId × SaveIntent) → Option (List (ReqId × BlockId) × List BlockHash)
  | [] => some ([], [])
  | (req, intent) :: rest =>
    if intent.blockIds = [] then m.gather rest
    else
      match m.ownPart intent with
      | none => none
      | some (ids, hashes) =>
        if ids = [] then m.gather rest
        else (m.gather rest).map fun r => (ids.map (fun b => (req, b)) ++ r.1, hashes ++ r.2)

/-- `saves_by_layer` of `_process_save_batch`; `none` when building it raises. -/
def savesByLayer (m : SaveMode) (batch : List SaveTask) : Option (List LayerSave) :=
  (m.gather (batch.flatMap SaveTask.saveIntents)).map fun r =>
    if r.1 = [] then [] else m.targetLayers.map fun layer => ⟨layer, r.1, r.2⟩

end SaveMode

/-! ## Accounting -/

/-- `_req_pending_saves`, `_completed_saves`, `_finished_requests` and
`_save_completion_events`.  An event is a number, and `fired` holds those set. -/
structure SaveBook where
  pending : Finset ReqId
  completed : Finset ReqId
  finished : Finset ReqId
  events : Table ReqId Nat
  fired : Finset Nat
  nextEvent : Nat

namespace SaveBook

def empty : SaveBook := ⟨∅, ∅, ∅, ∅, ∅, 0⟩

variable (b : SaveBook) (req : ReqId) (reqs : List ReqId)

/-- What `wait_for_save` does for one request. -/
def trackOne : SaveBook :=
  if req ∈ b.pending then b
  else
    { b with
      pending := insert req b.pending
      events := b.events.insert req b.nextEvent
      nextEvent := b.nextEvent + 1 }

def track : SaveBook := reqs.foldl trackOne b

/-- What `_complete_save_requests` does for one request. -/
def completeOne : SaveBook :=
  if req ∈ b.pending then
    { b with
      pending := b.pending.erase req
      completed := insert req b.completed
      events := b.events.erase req
      fired := (b.events.lookup req).elim b.fired fun id => insert id b.fired }
  else b

def complete : SaveBook := reqs.foldl completeOne b

/-- The save half of `get_finished`: the book after it and `finished_sending`. -/
def getFinished (finishedReqIds : Finset ReqId) : SaveBook × Finset ReqId :=
  let finished := b.finished ∪ (finishedReqIds ∩ b.pending)
  let doneSaves := (b.completed ∩ finished) ∪ (b.completed ∩ finishedReqIds)
  ({ b with completed := b.completed \ doneSaves, finished := finished \ doneSaves }, doneSaves)

/-- The events `handle_preemptions` waits for. -/
def eventsOf : List Nat := reqs.filterMap b.events.lookup

end SaveBook

/-! ## The system -/

/-- The contents of every block of every layer. -/
abbrev DeviceMemory (β : Type) := String → BlockId → β

/-- A save RPC on its way to the server, with the memory when it was issued. -/
structure SaveRequest (β : Type) where
  call : Nat
  saves : List LayerSave
  snapshot : DeviceMemory β

/-- `validate_save_layers`. -/
def validateSaveLayers (saves : List LayerSave) : Bool :=
  saves.all fun l => l.blockIds.length == l.blockHashes.length

/-- A block the background task has to copy, with what it held when the RPC was
issued. -/
structure CopyItem (β : Type) where
  req : ReqId
  layerName : String
  block : BlockId
  hash : BlockHash
  issued : β

def SaveRequest.items {β : Type} (r : SaveRequest β) : List (CopyItem β) :=
  r.saves.flatMap fun l =>
    List.zipWith (fun p h => ⟨p.1, l.layerName, p.2, h, r.snapshot l.layerName p.2⟩)
      l.blockIds l.blockHashes

/-- What was stored for a hash and a layer. -/
structure StoredBytes (β : Type) where
  hash : BlockHash
  layerName : String
  bytes : β
  issued : β

/-- Where the save thread is. -/
inductive SaveThread where
  | idle
  /-- Taking what the queue holds. -/
  | collecting (batch : List SaveTask)
  /-- The queue was found empty, the request is not yet issued. -/
  | drained (batch : List SaveTask)
  | waiting (batch : List SaveTask) (call : Nat)
  /-- The call is over, the requests are not yet completed. -/
  | finishing (batch : List SaveTask)
  /-- Building the request raised. -/
  | dead

structure SaveSystem (β : Type) where
  mem : DeviceMemory β
  /-- The blocks vLLM leaves alone, with the request they wait for. -/
  held : List (ReqId × BlockId)
  book : SaveBook
  /-- The requests a `handle_preemptions` call names and the events it waits for. -/
  preempting : Option (List ReqId × List Nat)
  queue : List SaveTask
  thread : SaveThread
  nextCall : Nat
  net : List (SaveRequest β)
  replies : List Nat
  background : List (CopyItem β)
  stored : List (StoredBytes β)

inductive SaveEvent (β : Type) where
  | write (layerName : String) (block : BlockId) (bytes : β)
  | waitForSave (task : SaveTask)
  | take
  | drain
  | issue
  | handle (i : Nat) (accepted : Bool)
  | receive
  | callFails
  | complete
  | copy (i : Nat)
  | giveUp (i : Nat)
  | getFinished (finishedReqIds : Finset ReqId)
  | handlePreemptions (preemptedReqIds : List ReqId)
  | preemptionsReturn

namespace SaveSystem

variable {β : Type}

def init (mem : DeviceMemory β) : SaveSystem β :=
  ⟨mem, [], .empty, none, [], .idle, 0, [], [], [], []⟩

/-- Hand the blocks of requests back to vLLM. -/
def release (s : SaveSystem β) (released : ReqId → Bool) : SaveSystem β :=
  { s with held := s.held.filter fun p => !released p.1 }

/-- One step of vLLM's worker thread, the save thread, the server or its
background task.  The calls of the worker thread wait while one blocks in
`handle_preemptions`. -/
def step (m : SaveMode) (s : SaveSystem β) : SaveEvent β → Option (SaveSystem β)
  | .write layerName block bytes =>
    if ∀ p ∈ s.held, p.2 ≠ block then
      some { s with mem := fun l b =>
        if l = layerName ∧ b = block then bytes else s.mem l b }
    else none
  | .waitForSave task =>
    if s.preempting.isNone ∧ task.saveIntents ≠ [] then
      some { s with
        held := s.held ++ task.blocks
        book := s.book.track task.requestIds
        queue := s.queue ++ [task] }
    else none
  | .take =>
    match s.queue, s.thread with
    | task :: rest, .idle => some { s with queue := rest, thread := .collecting [task] }
    | task :: rest, .collecting batch =>
      some { s with queue := rest, thread := .collecting (batch ++ [task]) }
    | _, _ => none
  | .drain =>
    match s.queue, s.thread with
    | [], .collecting batch => some { s with thread := .drained batch }
    | _, _ => none
  | .issue =>
    match s.thread with
    | .drained batch =>
      match m.savesByLayer batch with
      | none => some { s with thread := .dead }
      | some [] => some { s with thread := .finishing batch }
      | some saves =>
        some { s with
          thread := .waiting batch s.nextCall
          nextCall := s.nextCall + 1
          net := s.net ++ [⟨s.nextCall, saves, s.mem⟩] }
    | _ => none
  | .handle i accepted =>
    match s.net[i]? with
    | some request =>
      some { s with
        net := s.net.eraseIdx i
        replies := s.replies ++ [request.call]
        background :=
          if accepted && validateSaveLayers request.saves then s.background ++ request.items
          else s.background }
    | none => none
  | .receive =>
    match s.thread with
    | .waiting batch call =>
      if call ∈ s.replies then some { s with thread := .finishing batch } else none
    | _ => none
  | .callFails =>
    match s.thread with
    | .waiting batch _ => some { s with thread := .finishing batch }
    | _ => none
  | .complete =>
    match s.thread with
    | .finishing batch =>
      some { s with
        thread := .idle
        book := s.book.complete (batch.flatMap SaveTask.requestIds) }
    | _ => none
  | .copy i =>
    match s.background[i]? with
    | some item =>
      some { s with
        background := s.background.eraseIdx i
        stored := s.stored ++
          [⟨item.hash, item.layerName, s.mem item.layerName item.block, item.issued⟩] }
    | none => none
  | .giveUp i =>
    match s.background[i]? with
    | some _ => some { s with background := s.background.eraseIdx i }
    | none => none
  | .getFinished finishedReqIds =>
    if s.preempting.isNone then
      some ({ s with book := (s.book.getFinished finishedReqIds).1 }.release
        fun r => r ∈ (s.book.getFinished finishedReqIds).2)
    else none
  | .handlePreemptions preemptedReqIds =>
    if s.preempting.isNone then
      some { s with preempting := some (preemptedReqIds, s.book.eventsOf preemptedReqIds) }
    else none
  | .preemptionsReturn =>
    match s.preempting with
    | some (reqs, events) =>
      if ∀ id ∈ events, id ∈ s.book.fired then
        some ({ s with preempting := none }.release fun r => r ∈ reqs)
      else none
    | none => none

end SaveSystem

end PegaFlow.Connector
