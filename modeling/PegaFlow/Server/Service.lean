import PegaFlow.Lib.Run
import PegaFlow.Server.Registry

/-!
# The server and its instances

The parts of `GrpcEngineService` that make and unmake an instance: the sessions that watch over it,
`register_context_batch`, `unregister_context` and the cleanup of a closed session, and the saves
and loads that copy between the device memory of its contexts and the host.

What the source does under one lock, or as one command of the registry thread, is one step here.  A
registration materializes its tensors, then finds or makes the instance, then adds its device; one
that fails in the engine sends a rollback for its context key.  A cleanup drops the tensors and
unregisters the instance in a later step.  A save or load holds the instance it found, and from it
the layouts, that is raw device addresses, until its copy is done.

An instance lives as long as something holds it, so the instances are numbered, and `instances`
gives the number of the one registered under an id.  A handler whose client has gone away is dropped
where it waits (`cancelCall`, `cancelCleanup`); the cleanup of a session and a save are tasks of
their own.

Left out: the version check of a registration, the query leases of an instance, and the order in
which a worker takes the copies it has queued, any one of which may be next.  Checks of a save or
load that only refuse it (`refuseTransfer`) are not spelt out here.
-/

namespace PegaFlow.Server

open PegaFlow.Engine
open PegaFlow.Storage (InstanceId)
open Option AList Table Run

/-! ## Requests -/

/-- One layer of a registration; address and size are those of the tensor. -/
structure LayerShape where
  name : String
  numBlocks : Nat
  bytesPerBlock : Nat
  kvStrideBytes : Nat
  segments : Nat

structure RegisterRequest where
  instanceId : InstanceId
  nameSpace : String
  tpRank : Nat
  ppRank : Nat
  tpSize : Nat
  worldSize : Nat
  deviceId : Int
  pageFirst : Bool
  layers : List LayerShape

namespace RegisterRequest

variable (req : RegisterRequest)

/-- What the service checks before it touches anything. -/
def Valid : Prop :=
  0 ≤ req.deviceId ∧ 0 < req.tpSize ∧ 0 < req.worldSize ∧ req.tpRank < req.tpSize ∧
    req.layers.length ≠ 0

instance : Decidable req.Valid := inferInstanceAs (Decidable (_ ∧ _))

def key : String :=
  contextKey req.instanceId req.tpRank req.ppRank req.deviceId

/-- The layers for the engine, with the addresses and sizes of their tensors. -/
def specs (metadatas : List TensorMetadata) : List LayerSpec :=
  (req.layers.zip metadatas).map fun (layer, metadata) =>
    { name := layer.name
      dataPtr := metadata.dataPtr
      sizeBytes := metadata.sizeBytes
      numBlocks := layer.numBlocks
      bytesPerBlock := layer.bytesPerBlock
      kvStrideBytes := layer.kvStrideBytes
      segments := layer.segments
      blockStrideBytes := none }

end RegisterRequest

inductive RegisterError where
  | engine (e : EngineError)
  | topologyMismatch (message : String)

inductive TransferKind where
  | save (tpRank ppRank : Nat)
  | load

structure TransferRequest where
  instanceId : InstanceId
  deviceId : Int
  kind : TransferKind
  layerNames : List String

namespace TransferRequest

/-- The device of a transfer. -/
def gpu (req : TransferRequest) (inst : InstanceContext) : Except EngineError GpuContext :=
  match req.kind with
  | .save tpRank ppRank => inst.getGpuForSaveGroup req.deviceId tpRank ppRank
  | .load =>
    match inst.getGpu req.deviceId with
    | none => .error (.workerMissing req.instanceId req.deviceId)
    | some gpu => .ok gpu

/-- The layout of one layer of a transfer. -/
def layout (req : TransferRequest) (topology : LayerTopology) (gpu : GpuContext) (name : String) :
    Except EngineError (String × KVCacheLayout) :=
  match topology.layerId name with
  | .error e => .error e
  | .ok _ =>
    match gpu.getLayout name, req.kind with
    | some layout, _ => .ok (name, layout)
    | none, .save _ _ => .error (.invalidArgument s!"layer {name} not registered on device")
    | none, .load =>
      .error (.invalidArgument s!"layer {name} not registered on device {req.deviceId}")

/-- The layouts that a transfer takes from the instance it found. -/
def layouts (req : TransferRequest) (inst : InstanceContext) :
    Except EngineError (List (String × KVCacheLayout)) :=
  match inst.sealedTopology with
  | .error e => .error e
  | .ok topology =>
    match req.gpu inst with
    | .error e => .error e
    | .ok gpu => req.layerNames.mapM' (req.layout topology gpu)

end TransferRequest

/-! ## State -/

/-- An instance of the engine.  `created` lists the sessions installed before it was made, and
`origins` has the context that each of its devices was registered from. -/
structure EngineInstance where
  context : InstanceContext
  created : List InstanceId
  origins : Table Int Stamp

/-- How far a registration is.  A failed one has its rollback to do. -/
inductive RegisterStage where
  | materialized (metadatas : List TensorMetadata)
  | entered (inst : Nat) (kvCaches : Table String KVCacheLayout)
  | failed (e : RegisterError)

/-- A registration that has materialized its tensors; `serial` is the number of its context. -/
structure RegisterCall where
  req : RegisterRequest
  serial : Nat
  stage : RegisterStage

inductive CleanupOwner where
  | session (epoch : Nat)
  | request
deriving DecidableEq

inductive CleanupStage where
  | dropTensors
  | unregister
deriving DecidableEq

structure Cleanup where
  instanceId : InstanceId
  owner : CleanupOwner
  stage : CleanupStage
deriving DecidableEq

/-- How far a save or load is.  From its layouts on, `serial` is the number of the context they
are of. -/
inductive TransferStage where
  | resolved (inst : Nat)
  | queued (serial : Nat) (layouts : List (String × KVCacheLayout))
  | copying (serial : Nat) (layouts : List (String × KVCacheLayout))

structure Transfer where
  req : TransferRequest
  stage : TransferStage

/-- Something that a cleanup of the instance removed, with the sessions that were installed when
it was registered. -/
structure Removal where
  instanceId : InstanceId
  owner : CleanupOwner
  registered : List InstanceId

/-- `opening` has the sessions that have a token and no entry yet, `watchers` those whose stream
is watched.  `installs` lists the instances of the sessions installed so far, newest first. -/
structure ServerState where
  nextToken : Nat
  opening : Table Nat InstanceId
  sessions : Table InstanceId SessionEntry
  watchers : Table Nat InstanceId
  installs : List InstanceId
  contexts : Contexts
  nextContext : Nat
  heap : Table Nat EngineInstance
  nextInstance : Nat
  instances : Table InstanceId Nat
  calls : Table Nat RegisterCall
  cleanups : Table Nat Cleanup
  transfers : Table Nat Transfer
  removals : List Removal

inductive ServerEvent where
  | issueToken (instanceId : InstanceId)
  | install (token : Nat)
  | closeSession (token cleanup : Nat)
  | unregisterContext (instanceId : InstanceId) (cleanup : Nat)
  | dropTensors (cleanup : Nat)
  | unregister (cleanup : Nat)
  | cancelCleanup (cleanup : Nat)
  | materialize (call : Nat) (req : RegisterRequest) (tensors : List (Except String TensorMetadata))
  | enterInstance (call : Nat)
  | registerGpu (call : Nat) (numaNode : NumaNode) (failure : Option EngineError)
  | rollback (call : Nat)
  | cancelCall (call : Nat)
  | resolve (transfer : Nat) (req : TransferRequest)
  | prepare (transfer : Nat) (kept : List String)
  | refuseTransfer (transfer : Nat)
  | startCopy (transfer : Nat)
  | finishCopy (transfer : Nat)

namespace ServerState

def new : ServerState := ⟨0, ∅, ∅, ∅, [], ∅, 0, ∅, 0, ∅, ∅, ∅, ∅, []⟩

variable (ssd : Option Engine.Alignment) (s : ServerState)

/-- The instance registered under the id, with its number. -/
def instance? (instanceId : InstanceId) : Option (Nat × EngineInstance) :=
  (s.instances.lookup instanceId).bind fun i => (s.heap.lookup i).map fun inst => (i, inst)

/-- The contexts and the instance of a cleanup that its steps remove, each as a removal. -/
def removed (cleanup : Cleanup) (registered : List (List InstanceId)) : List Removal :=
  registered.map fun installs => ⟨cleanup.instanceId, cleanup.owner, installs⟩

/-- What `unregister_instance` takes away: the instance, and its devices. -/
def registrations (inst : EngineInstance) : List (List InstanceId) :=
  inst.created :: inst.origins.entries.map fun e => e.2.installs

def verifyTopology (inst : InstanceContext) (tpSize worldSize : Nat) (pageFirst : Bool) :
    Option String :=
  if inst.tpSize ≠ tpSize ∨ inst.worldSize ≠ worldSize ∨ inst.pageFirst ≠ pageFirst then
    some s!"exists with tp={inst.tpSize}, world={inst.worldSize}, page_first={inst.pageFirst}; requested tp={tpSize}, world={worldSize}, page_first={pageFirst}"
  else none

/-- `get_or_create_instance`, with the number of the instance. -/
def getOrCreateInstance (req : RegisterRequest) : Except RegisterError (Nat × ServerState) :=
  match s.instance? req.instanceId with
  | some (i, inst) =>
    match verifyTopology inst.context req.tpSize req.worldSize req.pageFirst with
    | some message => .error (.topologyMismatch s!"instance {req.instanceId} {message}")
    | none => .ok (i, s)
  | none =>
    match InstanceContext.new req.instanceId req.nameSpace req.tpSize req.worldSize
        req.pageFirst with
    | .error message => .error (.engine (.invalidArgument message))
    | .ok context =>
      .ok (s.nextInstance,
        { s with
          heap := s.heap.insert s.nextInstance ⟨context, s.installs, ∅⟩
          nextInstance := s.nextInstance + 1
          instances := s.instances.insert req.instanceId s.nextInstance })

def setCall (call : Nat) (c : RegisterCall) (stage : RegisterStage) : ServerState :=
  { s with calls := s.calls.insert call { c with stage } }

def setTransfer (transfer : Nat) (t : Transfer) (stage : TransferStage) : ServerState :=
  { s with transfers := s.transfers.insert transfer { t with stage } }

def endTransfer (transfer : Nat) : ServerState :=
  { s with transfers := s.transfers.erase transfer }

/-- The engine's part of a registration, up to the device. -/
def enterInstance (call : Nat) (c : RegisterCall) (metadatas : List TensorMetadata) : ServerState :=
  match buildKvCaches ssd (c.req.specs metadatas) ∅ with
  | .error e => s.setCall call c (.failed (.engine e))
  | .ok kvCaches =>
    match s.getOrCreateInstance c.req with
    | .error e => s.setCall call c (.failed e)
    | .ok (i, s') => s'.setCall call c (.entered i kvCaches)

/-- `register_new_gpu`; a device whose NUMA node or worker pool cannot be had fails before. -/
def registerGpu (call : Nat) (c : RegisterCall) (i : Nat) (inst : EngineInstance)
    (kvCaches : Table String KVCacheLayout) (numaNode : NumaNode) : Option EngineError → ServerState
  | some e => s.setCall call c (.failed (.engine e))
  | none =>
    match inst.context.registerNewGpu
        ⟨c.req.deviceId, c.req.tpRank, c.req.ppRank, numaNode, kvCaches⟩ with
    | .error e => s.setCall call c (.failed (.engine e))
    | .ok context =>
      { s with
        heap := s.heap.insert i
          { inst with
            context
            origins :=
              inst.origins.insert c.req.deviceId ⟨c.serial, c.req.instanceId, s.installs⟩ }
        calls := s.calls.erase call }

/-- The layouts of a transfer that have blocks to copy go to the queue of the worker. -/
def prepare (transfer : Nat) (t : Transfer) (inst : EngineInstance)
    (kept : List String) : Option ServerState :=
  match t.req.layouts inst.context with
  | .error _ => some (s.endTransfer transfer)
  | .ok layouts =>
    let layouts := layouts.filter fun e => e.1 ∈ kept
    if layouts.isEmpty then some (s.endTransfer transfer)
    else
      (inst.origins.lookup t.req.deviceId).map fun origin =>
        s.setTransfer transfer t (.queued origin.serial layouts)

def step : ServerEvent → Option ServerState
  | .issueToken instanceId =>
    if instanceId ≠ "" then
      some
        { s with
          nextToken := s.nextToken + 1
          opening := s.opening.insert (s.nextToken + 1) instanceId }
    else none
  | .install token =>
    (s.opening.lookup token).map fun instanceId =>
      { s with
        opening := s.opening.erase token
        sessions := s.sessions.insert instanceId
          ⟨token, (instanceId :: s.installs).count instanceId⟩
        watchers := s.watchers.insert token instanceId
        installs := instanceId :: s.installs }
  | .closeSession token cleanup =>
    (s.watchers.lookup token).bind fun instanceId =>
      match take s.sessions instanceId token with
      | none => some { s with watchers := s.watchers.erase token }
      | some entry =>
        if s.cleanups.lookup cleanup = none then
          some
            { s with
              watchers := s.watchers.erase token
              sessions := s.sessions.erase instanceId
              cleanups := s.cleanups.insert cleanup
                ⟨instanceId, .session entry.epoch, .dropTensors⟩ }
        else none
  | .unregisterContext instanceId cleanup =>
    if s.cleanups.lookup cleanup = none then
      some
        { s with cleanups := s.cleanups.insert cleanup ⟨instanceId, .request, .dropTensors⟩ }
    else none
  | .dropTensors cleanup =>
    ((s.cleanups.lookup cleanup).filter fun c => c.stage = .dropTensors).map fun c =>
      { s with
        contexts := s.contexts.dropInstance c.instanceId
        cleanups := s.cleanups.insert cleanup { c with stage := .unregister }
        removals :=
          removed c ((s.contexts.instanceContexts c.instanceId).map fun context =>
            context.stamp.installs) ++ s.removals }
  | .unregister cleanup =>
    ((s.cleanups.lookup cleanup).filter fun c => c.stage = .unregister).map fun c =>
      { s with
        instances := s.instances.erase c.instanceId
        cleanups := s.cleanups.erase cleanup
        removals :=
          removed c ((s.instance? c.instanceId).elim [] fun e => registrations e.2) ++
            s.removals }
  | .cancelCleanup cleanup =>
    ((s.cleanups.lookup cleanup).filter fun c => c.owner = .request).map fun _ =>
      { s with cleanups := s.cleanups.erase cleanup }
  | .materialize call req tensors =>
    if req.Valid ∧ tensors.length = req.layers.length ∧ s.calls.lookup call = none then
      match s.contexts.registerLayers req.key req.deviceId
          ((req.layers.map LayerShape.name).zip tensors)
          ⟨s.nextContext, req.instanceId, s.installs⟩ with
      | .error _ => some s
      | .ok (contexts, metadatas) =>
        some
          { s with
            contexts
            nextContext := s.nextContext + 1
            calls := s.calls.insert call ⟨req, s.nextContext, .materialized metadatas⟩ }
    else none
  | .enterInstance call =>
    match s.calls.lookup call with
    | some ⟨req, serial, .materialized metadatas⟩ =>
      some (s.enterInstance ssd call ⟨req, serial, .materialized metadatas⟩ metadatas)
    | _ => none
  | .registerGpu call numaNode failure =>
    match s.calls.lookup call with
    | some ⟨req, serial, .entered i kvCaches⟩ =>
      (s.heap.lookup i).map fun inst =>
        s.registerGpu call ⟨req, serial, .entered i kvCaches⟩ i inst kvCaches numaNode failure
    | _ => none
  | .rollback call =>
    match s.calls.lookup call with
    | some ⟨req, _, .failed _⟩ =>
      some
        { s with contexts := s.contexts.dropContext req.key, calls := s.calls.erase call }
    | _ => none
  | .cancelCall call =>
    match s.calls.lookup call with
    | some ⟨_, _, .materialized _⟩ | some ⟨_, _, .failed _⟩ =>
      some { s with calls := s.calls.erase call }
    | _ => none
  | .resolve transfer req =>
    if s.transfers.lookup transfer = none then
      (s.instance? req.instanceId).map fun e =>
        { s with transfers := s.transfers.insert transfer ⟨req, .resolved e.1⟩ }
    else none
  | .prepare transfer kept =>
    match s.transfers.lookup transfer with
    | some ⟨req, .resolved i⟩ =>
      (s.heap.lookup i).bind fun inst => s.prepare transfer ⟨req, .resolved i⟩ inst kept
    | _ => none
  | .refuseTransfer transfer =>
    match s.transfers.lookup transfer with
    | some ⟨_, .resolved _⟩ => some (s.endTransfer transfer)
    | _ => none
  | .startCopy transfer =>
    match s.transfers.lookup transfer with
    | some ⟨req, .queued serial layouts⟩ =>
      some (s.setTransfer transfer ⟨req, .queued serial layouts⟩ (.copying serial layouts))
    | _ => none
  | .finishCopy transfer =>
    match s.transfers.lookup transfer with
    | some ⟨_, .copying _ _⟩ => some (s.endTransfer transfer)
    | _ => none

/-! ## What a step does -/

/-- The cases of a step. -/
inductive Step (ssd : Option Engine.Alignment) (s : ServerState) : ServerEvent → ServerState → Prop where
  | issueToken (instanceId : InstanceId) :
      Step ssd s (.issueToken instanceId)
        { s with
          nextToken := s.nextToken + 1
          opening := s.opening.insert (s.nextToken + 1) instanceId }
  | install {token : Nat} {instanceId : InstanceId} (hopening : s.opening.lookup token = some instanceId) :
      Step ssd s (.install token)
        { s with
          opening := s.opening.erase token
          sessions := s.sessions.insert instanceId
            ⟨token, (instanceId :: s.installs).count instanceId⟩
          watchers := s.watchers.insert token instanceId
          installs := instanceId :: s.installs }
  | superseded (token cleanup : Nat) :
      Step ssd s (.closeSession token cleanup) { s with watchers := s.watchers.erase token }
  | closeSession {token cleanup : Nat} {instanceId : InstanceId} {entry : SessionEntry}
      (hsession : s.sessions.lookup instanceId = some entry)
      (hfresh : s.cleanups.lookup cleanup = none) :
      Step ssd s (.closeSession token cleanup)
        { s with
          watchers := s.watchers.erase token
          sessions := s.sessions.erase instanceId
          cleanups := s.cleanups.insert cleanup
            ⟨instanceId, .session entry.epoch, .dropTensors⟩ }
  | unregisterContext {cleanup : Nat} (instanceId : InstanceId)
      (hfresh : s.cleanups.lookup cleanup = none) :
      Step ssd s (.unregisterContext instanceId cleanup)
        { s with cleanups := s.cleanups.insert cleanup ⟨instanceId, .request, .dropTensors⟩ }
  | dropTensors {cleanup : Nat} {c : Cleanup} (hcleanup : s.cleanups.lookup cleanup = some c)
      (hstage : c.stage = .dropTensors) :
      Step ssd s (.dropTensors cleanup)
        { s with
          contexts := s.contexts.dropInstance c.instanceId
          cleanups := s.cleanups.insert cleanup { c with stage := .unregister }
          removals :=
            removed c ((s.contexts.instanceContexts c.instanceId).map fun context =>
              context.stamp.installs) ++ s.removals }
  | unregister {cleanup : Nat} {c : Cleanup} (hcleanup : s.cleanups.lookup cleanup = some c)
      (hstage : c.stage = .unregister) :
      Step ssd s (.unregister cleanup)
        { s with
          instances := s.instances.erase c.instanceId
          cleanups := s.cleanups.erase cleanup
          removals :=
            removed c ((s.instance? c.instanceId).elim [] fun e => registrations e.2) ++
              s.removals }
  | cancelCleanup {cleanup : Nat} {c : Cleanup} (hcleanup : s.cleanups.lookup cleanup = some c) :
      Step ssd s (.cancelCleanup cleanup) { s with cleanups := s.cleanups.erase cleanup }
  | refused (call : Nat) (req : RegisterRequest) (tensors : List (Except String TensorMetadata)) :
      Step ssd s (.materialize call req tensors) s
  | materialize {call : Nat} {req : RegisterRequest} {tensors : List (Except String TensorMetadata)}
      {context : ContextState} {metadatas : List TensorMetadata}
      (hfresh : s.calls.lookup call = none) (hfree : s.contexts.lookup req.key = none)
      (hstamp : context.stamp = ⟨s.nextContext, req.instanceId, s.installs⟩)
      (hmaps : ∀ metadata ∈ metadatas, context.Maps metadata.region) :
      Step ssd s (.materialize call req tensors)
        { s with
          contexts := s.contexts.insert req.key context
          nextContext := s.nextContext + 1
          calls := s.calls.insert call ⟨req, s.nextContext, .materialized metadatas⟩ }
  | enterFails {call : Nat} {c : RegisterCall} (hcall : s.calls.lookup call = some c)
      (e : RegisterError) :
      Step ssd s (.enterInstance call) (s.setCall call c (.failed e))
  | enterExisting {call i : Nat} {c : RegisterCall} {metadatas : List TensorMetadata}
      {inst : EngineInstance} {kvCaches : Table String KVCacheLayout}
      (hcall : s.calls.lookup call = some c) (hstage : c.stage = .materialized metadatas)
      (hcaches : buildKvCaches ssd (c.req.specs metadatas) ∅ = .ok kvCaches)
      (hinst : s.instance? c.req.instanceId = some (i, inst)) :
      Step ssd s (.enterInstance call) (s.setCall call c (.entered i kvCaches))
  | enterNew {call : Nat} {c : RegisterCall} {metadatas : List TensorMetadata}
      {context : InstanceContext} {kvCaches : Table String KVCacheLayout}
      (hcall : s.calls.lookup call = some c) (hstage : c.stage = .materialized metadatas)
      (hcaches : buildKvCaches ssd (c.req.specs metadatas) ∅ = .ok kvCaches)
      (hid : context.id = c.req.instanceId) (hgpus : context.gpuContexts = ∅) :
      Step ssd s (.enterInstance call)
        (setCall
          { s with
            heap := s.heap.insert s.nextInstance ⟨context, s.installs, ∅⟩
            nextInstance := s.nextInstance + 1
            instances := s.instances.insert c.req.instanceId s.nextInstance }
          call c (.entered s.nextInstance kvCaches))
  | registerFails {call : Nat} {c : RegisterCall} (hcall : s.calls.lookup call = some c)
      (e : RegisterError) (numaNode : NumaNode) (failure : Option EngineError) :
      Step ssd s (.registerGpu call numaNode failure) (s.setCall call c (.failed e))
  | registerGpu {call i : Nat} {c : RegisterCall} {kvCaches : Table String KVCacheLayout}
      {inst : EngineInstance} {context : InstanceContext} {numaNode : NumaNode}
      (hcall : s.calls.lookup call = some c) (hstage : c.stage = .entered i kvCaches)
      (hinst : s.heap.lookup i = some inst)
      (hok : inst.context.registerNewGpu
        ⟨c.req.deviceId, c.req.tpRank, c.req.ppRank, numaNode, kvCaches⟩ = .ok context) :
      Step ssd s (.registerGpu call numaNode none)
        { s with
          heap := s.heap.insert i
            { inst with
              context
              origins :=
                inst.origins.insert c.req.deviceId ⟨c.serial, c.req.instanceId, s.installs⟩ }
          calls := s.calls.erase call }
  | rollback {call : Nat} {c : RegisterCall} {e : RegisterError}
      (hcall : s.calls.lookup call = some c) (hstage : c.stage = .failed e) :
      Step ssd s (.rollback call)
        { s with contexts := s.contexts.dropContext c.req.key, calls := s.calls.erase call }
  | cancelCall (call : Nat) :
      Step ssd s (.cancelCall call) { s with calls := s.calls.erase call }
  | resolve {transfer i : Nat} {req : TransferRequest} {inst : EngineInstance}
      (hinst : s.instance? req.instanceId = some (i, inst)) :
      Step ssd s (.resolve transfer req)
        { s with transfers := s.transfers.insert transfer ⟨req, .resolved i⟩ }
  | prepare {transfer i : Nat} {kept : List String} {t : Transfer} {inst : EngineInstance}
      {origin : Stamp} {layouts : List (String × KVCacheLayout)}
      (htransfer : s.transfers.lookup transfer = some t) (hstage : t.stage = .resolved i)
      (hinst : s.heap.lookup i = some inst) (hlayouts : t.req.layouts inst.context = .ok layouts)
      (horigin : inst.origins.lookup t.req.deviceId = some origin) :
      Step ssd s (.prepare transfer kept)
        (s.setTransfer transfer t
          (.queued origin.serial (layouts.filter fun e => e.1 ∈ kept)))
  | startCopy {transfer serial : Nat} {t : Transfer} {layouts : List (String × KVCacheLayout)}
      (htransfer : s.transfers.lookup transfer = some t)
      (hstage : t.stage = .queued serial layouts) :
      Step ssd s (.startCopy transfer) (s.setTransfer transfer t (.copying serial layouts))
  | nothingToCopy (transfer : Nat) (kept : List String) :
      Step ssd s (.prepare transfer kept) (s.endTransfer transfer)
  | refuseTransfer (transfer : Nat) :
      Step ssd s (.refuseTransfer transfer) (s.endTransfer transfer)
  | finishCopy (transfer : Nat) : Step ssd s (.finishCopy transfer) (s.endTransfer transfer)

variable {ssd : Option Engine.Alignment} {s s' : ServerState} {ev : ServerEvent}

theorem new_ok {id nameSpace : String} {tpSize worldSize : Nat} {pageFirst : Bool}
    {context : InstanceContext}
    (h : InstanceContext.new id nameSpace tpSize worldSize pageFirst = .ok context) :
    context.id = id ∧ context.gpuContexts = ∅ := by
  unfold InstanceContext.new at h
  split at h
  · cases h
  · cases h
    exact ⟨rfl, rfl⟩

variable {i : Nat}

theorem getOrCreateInstance_ok {req : RegisterRequest} (h : s.getOrCreateInstance req = .ok (i, s')) :
    (∃ inst, s.instance? req.instanceId = some (i, inst) ∧ s' = s) ∨
      ∃ context : InstanceContext, context.id = req.instanceId ∧ context.gpuContexts = ∅ ∧
        i = s.nextInstance ∧
        s' = { s with
          heap := s.heap.insert s.nextInstance ⟨context, s.installs, ∅⟩
          nextInstance := s.nextInstance + 1
          instances := s.instances.insert req.instanceId s.nextInstance } := by
  unfold getOrCreateInstance at h
  split at h
  next j inst hin =>
    split at h
    · cases h
    · cases h
      exact Or.inl ⟨inst, hin, rfl⟩
  · split at h
    · cases h
    next context hnew =>
      cases h
      obtain ⟨hid, hgs⟩ := new_ok hnew
      exact Or.inr ⟨context, hid, hgs, rfl, rfl⟩

variable {call : Nat} {c : RegisterCall}

theorem enterInstance_step {metadatas : List TensorMetadata} (hc : s.calls.lookup call = some c)
    (hst : c.stage = .materialized metadatas) :
    Step ssd s (.enterInstance call) (s.enterInstance ssd call c metadatas) := by
  unfold enterInstance
  split
  · exact .enterFails hc _
  next kvCaches hcas =>
    split
    · exact .enterFails hc _
    next i s₁ hentd =>
      rcases getOrCreateInstance_ok hentd with
        ⟨inst, hin, rfl⟩ | ⟨context, hid, hgs, rfl, rfl⟩
      · exact .enterExisting hc hst hcas hin
      · exact .enterNew hc hst hcas hid hgs

variable {kvCaches : Table String KVCacheLayout}

theorem registerGpu_step {inst : EngineInstance} (hc : s.calls.lookup call = some c)
    (hst : c.stage = .entered i kvCaches) (hin : s.heap.lookup i = some inst)
    (numaNode : NumaNode) (failure : Option EngineError) :
    Step ssd s (.registerGpu call numaNode failure)
      (s.registerGpu call c i inst kvCaches numaNode failure) := by
  cases failure with
  | some e => exact .registerFails hc _ numaNode (some e)
  | none =>
    unfold registerGpu
    cases hok : inst.context.registerNewGpu
        ⟨c.req.deviceId, c.req.tpRank, c.req.ppRank, numaNode, kvCaches⟩ with
    | error e =>
      exact .registerFails hc _ numaNode none
    | ok context =>
      exact .registerGpu hc hst hin hok

theorem prepare_step {transfer : Nat} {t : Transfer} {inst : EngineInstance} {kept : List String}
    (htr : s.transfers.lookup transfer = some t) (hst : t.stage = .resolved i)
    (hin : s.heap.lookup i = some inst) (h : s.prepare transfer t inst kept = some s') :
    Step ssd s (.prepare transfer kept) s' := by
  unfold prepare at h
  split at h
  · cases h
    exact .nothingToCopy transfer kept
  next layouts hlos =>
    dsimp only at h
    split at h
    · cases h
      exact .nothingToCopy transfer kept
    · obtain ⟨origin, horg, rfl⟩ := map_eq_some_iff.mp h
      exact .prepare htr hst hin hlos horg

theorem step_cases (h : s.step ssd ev = some s') : Step ssd s ev s' := by
  cases ev with dsimp only [step] at h
  | issueToken instanceId =>
    obtain ⟨-, rfl⟩ := guarded_eq_some.mp h
    exact .issueToken instanceId
  | install token =>
    obtain ⟨instanceId, hopening, rfl⟩ := map_eq_some_iff.mp h
    exact .install hopening
  | closeSession token cleanup =>
    obtain ⟨instanceId, -, h⟩ := bind_eq_some_iff.mp h
    cases htk : take s.sessions instanceId token with
    | none =>
      rw [htk] at h
      cases h
      exact .superseded token cleanup
    | some entry =>
      rw [htk] at h
      obtain ⟨hfr, rfl⟩ := guarded_eq_some.mp h
      exact .closeSession (Option.filter_eq_some_iff.mp htk).1 hfr
  | unregisterContext instanceId cleanup =>
    obtain ⟨hfr, rfl⟩ := guarded_eq_some.mp h
    exact .unregisterContext instanceId hfr
  | dropTensors cleanup =>
    obtain ⟨c, hc, rfl⟩ := map_eq_some_iff.mp h
    obtain ⟨hcl, hst⟩ := filter_eq_some_iff.mp hc
    exact .dropTensors hcl (of_decide_eq_true hst)
  | unregister cleanup =>
    obtain ⟨c, hc, rfl⟩ := map_eq_some_iff.mp h
    obtain ⟨hcl, hst⟩ := filter_eq_some_iff.mp hc
    exact .unregister hcl (of_decide_eq_true hst)
  | cancelCleanup cleanup =>
    obtain ⟨c, hc, rfl⟩ := map_eq_some_iff.mp h
    exact .cancelCleanup (filter_eq_some_iff.mp hc).1
  | materialize call req tensors =>
    split at h
    next hguard =>
      split at h
      · cases h
        exact .refused call req tensors
      next contexts metadatas hmd =>
        cases h
        obtain ⟨hf, context, hstm, hm, rfl⟩ := Contexts.registerLayers_ok hmd
        exact .materialize hguard.2.2 hf hstm hm
    · cases h
  | enterInstance call =>
    split at h
    next hcall =>
      cases h
      exact enterInstance_step hcall rfl
    · cases h
  | registerGpu call numaNode failure =>
    split at h
    next hcall =>
      obtain ⟨inst, hin, rfl⟩ := map_eq_some_iff.mp h
      exact registerGpu_step hcall rfl hin numaNode failure
    · cases h
  | rollback call =>
    split at h
    next req serial e hcall =>
      cases h
      exact .rollback (c := ⟨req, serial, .failed e⟩) hcall rfl
    · cases h
  | cancelCall call =>
    split at h
    · cases h
      exact .cancelCall call
    · cases h
      exact .cancelCall call
    · cases h
  | resolve transfer req =>
    split at h
    · obtain ⟨⟨i, inst⟩, hin, rfl⟩ := map_eq_some_iff.mp h
      exact .resolve hin
    · cases h
  | prepare transfer kept =>
    split at h
    next htr =>
      obtain ⟨inst, hin, h⟩ := bind_eq_some_iff.mp h
      exact prepare_step htr rfl hin h
    · cases h
  | refuseTransfer transfer =>
    split at h
    · cases h
      exact .refuseTransfer transfer
    · cases h
  | startCopy transfer =>
    split at h
    next htr =>
      cases h
      exact .startCopy htr rfl
    · cases h
  | finishCopy transfer =>
    split at h
    · cases h
      exact .finishCopy transfer
    · cases h

variable {instanceId : InstanceId}

theorem instance?_eq_some {inst : EngineInstance} :
    s.instance? instanceId = some (i, inst) ↔
      s.instances.lookup instanceId = some i ∧ s.heap.lookup i = some inst := by
  unfold instance?
  rw [bind_eq_some_iff]
  constructor
  · rintro ⟨j, hj, h⟩
    obtain ⟨inst', hin', heq⟩ := map_eq_some_iff.mp h
    cases heq
    exact ⟨hj, hin'⟩
  · rintro ⟨hi, hin⟩
    exact ⟨i, hi, map_eq_some_iff.mpr ⟨inst, hin, rfl⟩⟩

/-! ## The instances and who holds them -/

/-- The number is that of an instance of the id. -/
def Names (s : ServerState) (i : Nat) (instanceId : InstanceId) : Prop :=
  ∃ inst, s.heap.lookup i = some inst ∧ inst.context.id = instanceId

/-- A registered instance has the id it is registered under, and a registration holds an instance
of the id it names. -/
structure Wired (s : ServerState) : Prop where
  heap_lt : ∀ i inst, s.heap.lookup i = some inst → i < s.nextInstance
  registered : ∀ instanceId i, s.instances.lookup instanceId = some i → s.Names i instanceId
  entered : ∀ call c i kvCaches, s.calls.lookup call = some c → c.stage = .entered i kvCaches →
    s.Names i c.req.instanceId

theorem registerNewGpu_id {inst inst' : InstanceContext} {gpu : GpuContext}
    (h : inst.registerNewGpu gpu = .ok inst') : inst'.id = inst.id := by
  unfold InstanceContext.registerNewGpu at h
  split at h
  · cases h
  split at h
  · cases h
  split at h
  · cases h
  split at h
  · cases h
  split at h
  · split at h
    · cases h
    · cases h
      rfl
  · cases h
    rfl

/-- An instance keeps its number and its id. -/
theorem Names.step (hnms : s.Names i instanceId) (hlt : i < s.nextInstance) (h : Step ssd s ev s') :
    s'.Names i instanceId := by
  obtain ⟨inst, hin, hid⟩ := hnms
  cases h with
  | enterNew =>
    refine ⟨inst, ?_, hid⟩
    exact (lookup_insert_ne (Nat.ne_of_lt hlt)).trans hin
  | registerGpu hc hst hin' hok =>
    next j c kvCaches inst' context _ =>
    by_cases hj : i = j
    · subst hj
      cases hin.symm.trans hin'
      exact ⟨_, lookup_insert _, (registerNewGpu_id hok).trans hid⟩
    · exact ⟨inst, (lookup_insert_ne hj).trans hin, hid⟩
  | _ => exact ⟨inst, hin, hid⟩

theorem Names.lt (hw : s.Wired) (hnms : s.Names i instanceId) : i < s.nextInstance := by
  obtain ⟨inst, hin, -⟩ := hnms
  exact hw.heap_lt i inst hin

/-- A call whose stage changes holds an instance of its id, if the new stage does. -/
theorem Wired.setCall {stage : RegisterStage} (hw : s.Wired)
    (hst : ∀ i kvCaches, stage = .entered i kvCaches → s.Names i c.req.instanceId) :
    (s.setCall call c stage).Wired := by
  refine ⟨hw.heap_lt, hw.registered, ?_⟩
  intro k c' i kvCaches hk hentd
  rcases lookup_of_insert hk with ⟨-, rfl⟩ | ⟨-, hk⟩
  · exact hst i kvCaches hentd
  · exact hw.entered k c' i kvCaches hk hentd

theorem Wired.erase_call (hw : s.Wired) {k : Nat} (hk : (s.calls.erase call).lookup k = some c)
    (hst : c.stage = .entered i kvCaches) : s.Names i c.req.instanceId :=
  hw.entered k c i kvCaches (lookup_of_erase hk).2 hst

theorem Wired.step (hw : s.Wired) (h : Step ssd s ev s') : s'.Wired := by
  have hnms : ∀ {i instanceId}, s.Names i instanceId → s'.Names i instanceId :=
    fun hn => hn.step (hn.lt hw) h
  cases h with
  | unregister =>
    refine { hw with registered := ?_ }
    intro instanceId i hi
    exact hw.registered instanceId i (lookup_of_erase hi).2
  | materialize =>
    refine { hw with entered := ?_ }
    intro k c i kvCaches hk hst
    rcases lookup_of_insert hk with ⟨-, rfl⟩ | ⟨-, hk⟩
    · cases hst
    · exact hw.entered k c i kvCaches hk hst
  | enterFails hc e | registerFails hc e =>
    refine hw.setCall ?_
    rintro _ _ ⟨⟩
  | enterExisting hc hst hcas hin =>
    obtain ⟨hi, -⟩ := instance?_eq_some.mp hin
    refine hw.setCall ?_
    rintro _ _ ⟨⟩
    exact hw.registered _ _ hi
  | enterNew hc hst hcas hid hgs =>
    next call c metadatas context kvCaches =>
    have hnew : (ServerState.setCall
        { s with
          heap := s.heap.insert s.nextInstance ⟨context, s.installs, ∅⟩
          nextInstance := s.nextInstance + 1
          instances := s.instances.insert c.req.instanceId s.nextInstance }
        call c (.entered s.nextInstance kvCaches)).Names s.nextInstance c.req.instanceId :=
      ⟨_, lookup_insert _, hid⟩
    refine ⟨?_, ?_, ?_⟩
    · refine forall_lookup_insert ?_ fun i inst hi => Nat.lt_succ_of_lt (hw.heap_lt i inst hi)
      exact Nat.lt_succ_self _
    · exact forall_lookup_insert hnew fun instanceId i hi => hnms (hw.registered instanceId i hi)
    · intro k c' i caches hk hst
      rcases lookup_of_insert hk with ⟨-, rfl⟩ | ⟨-, hk⟩
      · cases hst
        exact hnew
      · exact hnms (hw.entered k c' i caches hk hst)
  | registerGpu hc hst hin hok =>
    refine ⟨?_, fun instanceId i hi => hnms (hw.registered instanceId i hi), ?_⟩
    · exact forall_lookup_insert (hw.heap_lt _ _ hin) hw.heap_lt
    · intro k c i kvCaches hk hentd
      exact hnms (hw.erase_call hk hentd)
  | rollback | cancelCall =>
    exact { hw with entered := fun k c i kvCaches hk hst => hw.erase_call hk hst }
  | _ => exact { hw with }

theorem new_wired : new.Wired := ⟨nofun, nofun, nofun⟩

/-- A registration of one worker on device 0 with one layer. -/
def oneWorker : RegisterRequest :=
  ⟨"i", "n", 0, 0, 1, 1, 0, false, [⟨"l", 2, 16, 0, 1⟩]⟩

/-- The tensor of the layer. -/
def oneTensor : List (Except String TensorMetadata) := [.ok ⟨4096, 32, 0⟩]

end ServerState

end PegaFlow.Server
