import PegaFlow.Lib.Run
import PegaFlow.Connector.SaveWorker

/-!
# Save intents of the scheduler

The save half of `SchedulerConnector`
(`python/pegaflow/connector/scheduler.py`), for one request.  Its dictionaries
are all keyed by request and no callback looks at two requests, so the state is
that of one request.

`update_state_after_alloc` starts four counters: the number of blocks the cache
lookup covered (`baseBlockIdx`), the block list, the scheduled tokens and the first
block not yet saved.  Each step in which the request is scheduled updates them and
may emit a save intent for the blocks from there on; `request_finished` may emit a
last one.  A save intent holds two slices by the same indices, one of the block
list and one of the hash list.

The events are what vLLM does with the request.  Four fields record the past and
are read by no callback: `present`, the number of tokens whose KV is in the
request's blocks, which is what vLLM makes it (`numComputed + numScheduled` after a
step, none after a preemption); `residency`, the number of resumes; `steps`; and
`intents`, with the lists each intent was cut from.  A final intent is logged when
it is made; it is attached unchanged to the next metadata.  The load half of the
callbacks does not touch these fields and is left out.
-/

namespace PegaFlow.Connector

/-- The mode and the block size of the scheduler. -/
structure SchedulerContext where
  readEnabled : Bool
  virtualBlockSize : Nat

/-- `_block_hashes`, `_block_index_offsets`, `_allocated_blocks`,
`_scheduled_tokens` and `_next_stored_block_idx` of a request, which are set and
removed together. -/
structure Tracked where
  blockHashes : List BlockHash
  baseBlockIdx : Nat
  allocatedBlocks : List BlockId
  scheduledTokens : Nat
  nextStoredBlockIdx : Nat

/-- A save intent with the index of its first block, the lists it was cut from,
the tokens present by the end of its step and the residency. -/
structure IssuedIntent where
  startBlockIdx : Nat
  intent : SaveIntent
  allocatedBlocks : List BlockId
  blockHashes : List BlockHash
  present : Nat
  residency : Nat

namespace Tracked

/-- What `update_state_after_alloc` starts a request with. -/
def start (blockHashes : List BlockHash) (baseBlockIdx : Nat) : Tracked :=
  ⟨blockHashes, baseBlockIdx, [], 0, baseBlockIdx⟩

variable (ctx : SchedulerContext) (t : Tracked)

/-- The common end of `_consume_save_intent` and `_consume_final_save_intent`: save
the blocks from the first unsaved one to `saveableBlockIdx`.  The slices of Python
stop at the end of a list. -/
def consumeUpTo (saveableBlockIdx : Nat) : Tracked × Option SaveIntent :=
  if saveableBlockIdx ≤ t.nextStoredBlockIdx then (t, none)
  else
    let newBlocks := saveableBlockIdx - t.nextStoredBlockIdx
    ({ t with nextStoredBlockIdx := saveableBlockIdx },
      some
        ⟨(t.allocatedBlocks.drop t.nextStoredBlockIdx).take newBlocks,
          (t.blockHashes.drop t.nextStoredBlockIdx).take newBlocks⟩)

/-- The end of the blocks a step may save. -/
def saveable : Nat :=
  min t.blockHashes.length
    (t.baseBlockIdx + min t.allocatedBlocks.length (t.scheduledTokens / ctx.virtualBlockSize))

/-- The end of the blocks a finished request may save. -/
def finalSaveable : Nat :=
  min t.blockHashes.length (t.baseBlockIdx + t.allocatedBlocks.length)

/-- `_consume_save_intent`. -/
def consumeSaveIntent : Tracked × Option SaveIntent :=
  t.consumeUpTo (t.saveable ctx)

/-- `_consume_final_save_intent`. -/
def consumeFinalSaveIntent : Tracked × Option SaveIntent :=
  if t.allocatedBlocks = [] then (t, none) else t.consumeUpTo t.finalSaveable

/-- How a step counts its tokens. -/
def countTokens (numComputed numScheduled : Nat) : Tracked :=
  { t with scheduledTokens :=
      if ctx.readEnabled then t.scheduledTokens + numScheduled
      else max t.scheduledTokens (numComputed + numScheduled) }

end Tracked

/-- The scheduler's state for one request. -/
structure SchedulerRequest where
  externalMatchedBlocks : Option Nat
  tracked : Option Tracked
  pendingSave : Bool
  held : Bool
  finished : Bool
  present : Nat
  residency : Nat
  steps : Nat
  intents : List IssuedIntent

inductive SchedulerEvent where
  /-- A cache lookup that found this many blocks, local ones included. -/
  | lookup (matchedBlocks : Nat)
  | updateStateAfterAlloc (blockHashes : List BlockHash)
  | newRequest (blockIds : Option (List BlockId)) (numComputed numScheduled : Nat)
  | cachedRequest (blockHashes : List BlockHash) (newBlockIds : Option (List BlockId))
      (resumed : Bool) (numComputed numScheduled : Nat)
  | preempt
  | requestFinished
  /-- The worker reports the request in `finished_sending`. -/
  | saveFinished

namespace SchedulerRequest

def init : SchedulerRequest := ⟨none, none, false, false, false, 0, 0, 0, []⟩

variable (ctx : SchedulerContext) (s : SchedulerRequest)

/-- Log an intent that was cut from `t`. -/
def emit (t : Tracked) (r : Tracked × Option SaveIntent) : SchedulerRequest :=
  match r.2 with
  | none => { s with tracked := some r.1 }
  | some intent =>
    { s with
      tracked := some r.1
      pendingSave := true
      intents := s.intents ++
        [⟨t.nextStoredBlockIdx, intent, t.allocatedBlocks, t.blockHashes, s.present,
          s.residency⟩] }

/-- The part of `build_connector_meta` that new and cached requests share: count
the tokens of the step and save what they cover. -/
def schedule (t : Tracked) (numComputed numScheduled : Nat) : SchedulerRequest :=
  let t' := t.countTokens ctx numComputed numScheduled
  { s with present := numComputed + numScheduled, steps := s.steps + 1 }.emit t'
    (t'.consumeSaveIntent ctx)

/-- The block list of a cached request in a step. -/
def cachedBlocks (t : Tracked) (newBlockIds : Option (List BlockId)) (resumed : Bool) :
    List BlockId :=
  if resumed then newBlockIds.getD []
  else t.allocatedBlocks ++ newBlockIds.getD []

/-- The counters of a request with the lists a step gives it. -/
def newTracked (t : Tracked) (blockIds : Option (List BlockId)) : Tracked :=
  { t with allocatedBlocks := blockIds.getD t.allocatedBlocks }

def cachedTracked (t : Tracked) (blockHashes : List BlockHash)
    (newBlockIds : Option (List BlockId)) (resumed : Bool) : Tracked :=
  { t with blockHashes := blockHashes, allocatedBlocks := cachedBlocks t newBlockIds resumed }

def cleanup : SchedulerRequest :=
  { s with tracked := none, externalMatchedBlocks := none, pendingSave := false }

/-- The end of `request_finished`: the blocks are held while a save is pending. -/
def close : SchedulerRequest :=
  if s.pendingSave then { s with held := true, finished := true }
  else { s.cleanup with finished := true }

/-- One callback.  Nothing is scheduled for a finished request. -/
def step : SchedulerEvent → Option SchedulerRequest
  | .lookup matchedBlocks =>
    if s.finished then none
    else if ctx.readEnabled then some { s with externalMatchedBlocks := some matchedBlocks }
    else some s
  | .updateStateAfterAlloc blockHashes =>
    if s.finished then none
    else
      match s.tracked with
      | some t => some { s with tracked := some { t with blockHashes := blockHashes } }
      | none =>
        some { s with tracked := some (.start blockHashes (s.externalMatchedBlocks.getD 0)) }
  | .newRequest blockIds numComputed numScheduled =>
    if s.finished then none
    else
      match s.tracked with
      | some t =>
        some (s.schedule ctx (newTracked t blockIds) numComputed numScheduled)
      | none => none
  | .cachedRequest blockHashes newBlockIds resumed numComputed numScheduled =>
    if s.finished then none
    else
      let s' := { s with residency := if resumed then s.residency + 1 else s.residency }
      match s.tracked with
      | some t =>
        some (s'.schedule ctx (cachedTracked t blockHashes newBlockIds resumed)
          numComputed numScheduled)
      | none => some { s' with present := numComputed + numScheduled, steps := s.steps + 1 }
  | .preempt => if s.finished then none else some { s with present := 0 }
  | .requestFinished =>
    if s.finished then none
    else
      match s.tracked with
      | some t =>
        some (if s.pendingSave then s else s.emit t t.consumeFinalSaveIntent).close
      | none => some s.close
  | .saveFinished =>
    let s' := { s with pendingSave := false }
    some (if s'.held then { s'.cleanup with held := false } else s')

end SchedulerRequest

end PegaFlow.Connector
