import Mathlib.Data.Finset.Basic
import PegaFlow.Pd.BlockMap

/-!
# Pushing the blocks of a prompt

A chunked prefill on the prefill side: `update_state_after_alloc` and `_add_cached_producer_chunks`
(`python/pegaflow/pd_connector/scheduler.py`), `process_push_reqs`, `_prepare_push_layers` and
`_push_pending_blocks` (`prefill_worker.py`) and `ChunkTracker` (`chunk_tracker.py`).

In each step vLLM computes the next tokens of the prompt and allocates the blocks they touch
first.  The scheduler sends the new blocks of a step, if there are any, as a push request; the
worker makes a plan from them, layer by layer.  When a layer of the forward pass has been
computed, the worker pushes the blocks of its plan.  In a step without new blocks the old plan is
still there and its blocks are pushed again.  At the last layer of the first step in which all
chunks are seen, the finalize task is submitted and the request is done.

The tables of the handler are keyed by request and no callback looks at two requests, so the state
is that of one request.  Three fields record the past: the tokens whose KV each layer has, how many
that were when a block was last pushed, and both of these when the finalize task was submitted.
Byte counts, traces and log lines are left out.
-/

namespace PegaFlow.Pd

/-- `_PreparedLayerPush`. -/
structure PreparedLayerPush where
  reqBlocks : List BlockId
  pushedReqBlocks : List BlockId
  targetPushes : List (String × BlockMap)
  allChunksSeen : Bool

/-- The plan of a layer, from the maps of the targets.  A target without blocks is left out. -/
def PreparedLayerPush.ofMaps (reqBlocks : List BlockId) (maps : List (String × BlockMap))
    (allChunksSeen : Bool) : PreparedLayerPush :=
  let targetPushes := maps.filter fun m => m.2 ≠ []
  ⟨reqBlocks, (targetPushes.flatMap fun m => m.2.map Prod.fst).dedup, targetPushes, allChunksSeen⟩

variable (plan : PreparedLayerPush) (physicalReqId : String) (block : BlockId)

/-- A plan pushes a block to a target. -/
def PreparedLayerPush.Pushes : Prop :=
  ∃ m ∈ plan.targetPushes, m.1 = physicalReqId ∧ block ∈ m.2.map Prod.fst

instance : Decidable (plan.Pushes physicalReqId block) :=
  inferInstanceAs (Decidable (∃ m ∈ plan.targetPushes, _ ∧ _))

/-- What was computed and pushed, by layer, target and block. -/
structure PushSnapshot where
  computed : Nat → Nat
  lastPush : Nat → String → BlockId → Option Nat

structure PushRequest where
  localBlockIds : BlockIds
  /-- `_remote_block_offsets`. -/
  offsets : Table String Nat
  /-- `_push_layer_plans`. -/
  layerPlans : Table Nat PreparedLayerPush
  /-- `_push_all_layers_seen`. -/
  allLayersSeen : Bool
  /-- `_push_chunk_maps`. -/
  chunkSeen : Table Nat Bool
  pushedPairs : Finset (Nat × BlockId)
  done : Bool
  history : PushSnapshot
  finalized : Option PushSnapshot

namespace PushRequest

def init : PushRequest := ⟨[], ∅, ∅, false, ∅, ∅, false, ⟨fun _ => 0, fun _ _ _ => none⟩, none⟩

/-! ## Plans -/

/-- The loop of `_prepare_push_layers`: the plans, whether all layers have seen all chunks, and the
offsets. -/
def prepareLayers (w : PdWorker) (targets : List PushTarget) (blockIds : BlockIds) :
    Nat → List String → Table String Nat →
      Except String ((Table Nat PreparedLayerPush × Bool) × Table String Nat)
  | _, [], offsets => .ok ((∅, true), offsets)
  | layerIdx, layerName :: layerNames, offsets => do
      let reqBlocks ← w.blockIdsForLayer blockIds layerName
      if reqBlocks = [] then
        let ((layers, _), offsets) ←
          prepareLayers w targets blockIds (layerIdx + 1) layerNames offsets
        return ((layers, false), offsets)
      else
        let ((maps, seen), offsets) ← remoteBlockIdMaps reqBlocks layerIdx targets offsets
        let ((layers, allSeen), offsets) ←
          prepareLayers w targets blockIds (layerIdx + 1) layerNames offsets
        return ((layers.insert layerIdx (.ofMaps reqBlocks maps seen), seen && allSeen), offsets)

variable (w : PdWorker) (targets : List PushTarget) (s : PushRequest)

/-- `process_push_reqs`, for a plan with targets. -/
def processPushReq (blockIds : BlockIds) : Except String PushRequest := do
  let ((layers, seen), offsets) ← prepareLayers w targets blockIds 0 w.layerNames s.offsets
  return { s with
    localBlockIds := blockIds
    offsets := offsets
    layerPlans := layers
    allLayersSeen := seen
    chunkSeen := ∅ }

/-! ## Pushes -/

/-- The layer tasks of a plan are submitted. -/
def push (layerIdx : Nat) (plan : PreparedLayerPush) : PushRequest :=
  { s with history :=
      { s.history with lastPush := fun l physicalReqId block =>
          if l = layerIdx ∧ plan.Pushes physicalReqId block then some (s.history.computed layerIdx)
          else s.history.lastPush l physicalReqId block } }

/-- `_all_layer_chunks_seen`. -/
def allLayerChunksSeen (layerIdx : Nat) (seen : Bool) : Bool :=
  (List.range w.layerNames.length).all fun l =>
    ((s.chunkSeen.insert layerIdx seen).lookup l).getD false

/-- `has_pushed_all_blocks`.  The blocks of each layer were looked up before, for the plans. -/
def hasPushedAllBlocks : Bool :=
  w.layerNames.zipIdx.all fun layer =>
    match w.blockIdsForLayer s.localBlockIds layer.1 with
    | .ok ids => ids.all fun block => decide ((layer.2, block) ∈ s.pushedPairs)
    | .error _ => false

/-- The finalize task is submitted. -/
def finalize : PushRequest :=
  { s with
    chunkSeen := ∅
    layerPlans := ∅
    allLayersSeen := false
    done := true
    finalized := some s.history }

/-- The end of `_push_pending_blocks`, at the last layer. -/
def endChunk (layerIdx : Nat) (seen : Bool) : PushRequest :=
  if s.allLayersSeen then s.finalize
  else
    let allSeen := s.allLayerChunksSeen w layerIdx seen
    let complete := s.hasPushedAllBlocks w || allSeen
    let s := { s with chunkSeen := ∅ }
    if complete && allSeen then s.finalize else s

/-- `_push_pending_blocks`. -/
def pushPendingBlocks (layerIdx : Nat) : PushRequest :=
  if s.done then s
  else
    match s.layerPlans.lookup layerIdx with
    | none => s
    | some plan =>
      let s := s.push layerIdx plan
      let s :=
        if s.allLayersSeen then s
        else
          { s with
            chunkSeen := s.chunkSeen.insert layerIdx plan.allChunksSeen
            pushedPairs := s.pushedPairs ∪
              (plan.pushedReqBlocks.map (layerIdx, ·)).toFinset }
      if layerIdx + 1 = w.layerNames.length then s.endChunk w layerIdx plan.allChunksSeen else s

/-! ## Steps -/

/-- The number of blocks that the first tokens of a prompt touch. -/
def blocksFor (blockSize tokens : Nat) : Nat := (tokens + blockSize - 1) / blockSize

/-- The blocks of each group that a step allocates. -/
def newBlockIds (prefill : BlockIds) (blockSize before after : Nat) : BlockIds :=
  prefill.map fun ids =>
    (ids.drop (blocksFor blockSize before)).take
      (blocksFor blockSize after - blocksFor blockSize before)

/-- `_has_blocks`. -/
def hasBlocks (blockIds : BlockIds) : Bool := blockIds.any fun group => decide (0 < group.length)

/-- The KV of the layer has been computed for all tokens up to `tokens`, and `save_kv_layer` is
called. -/
def saveKvLayer (tokens : Nat) (s : PushRequest) (layerIdx : Nat) : PushRequest :=
  { s with history :=
      { s.history with computed := Function.update s.history.computed layerIdx tokens }
    }.pushPendingBlocks w layerIdx

/-- The forward pass of a step. -/
def forward (tokens : Nat) (s : PushRequest) : PushRequest :=
  (List.range w.layerNames.length).foldl (saveKvLayer w tokens) s

/-- The push request of a step, if the scheduler sends one.  The first allocation is sent as it is,
later ones only if they have blocks. -/
def sendPush (prefill : BlockIds) (blockSize : Nat)
    (s : PushRequest) (before after : Nat) : Except String PushRequest :=
  let new := newBlockIds prefill blockSize before after
  if before = 0 ∨ hasBlocks new then s.processPushReq w targets new else .ok s

def step (prefill : BlockIds) (blockSize : Nat)
    (s : PushRequest) (before after : Nat) : Except String PushRequest := do
  let s ← s.sendPush w targets prefill blockSize before after
  return s.forward w after

/-- A chunked prefill: each entry of the schedule is the number of tokens of a step. -/
def run (w : PdWorker) (targets : List PushTarget) (prefill : BlockIds) (blockSize : Nat) :
    PushRequest → Nat → List Nat → Except String PushRequest
  | s, _, [] => .ok s
  | s, computed, tokens :: schedule => do
      let s ← s.step w targets prefill blockSize computed (computed + tokens)
      run w targets prefill blockSize s (computed + tokens) schedule

end PushRequest

end PegaFlow.Pd
