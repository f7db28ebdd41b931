import PegaFlow.Block

/-!
# The block hash store of the MetaServer

`pegaflow-metaserver/src/store.rs`.  For each block key the store keeps the nodes that own the
block, and for each node its current session.  A session is named by the id the node chose when it
started.  An owner record carries the id of the session that wrote it.  A query lists an owner if
that session is still the current one of the node and the node was seen recently.

The functions take the clock as an argument.  `insert_hashes` reads it twice, once to touch the
session and once to stamp the owners.  An operation returns the store after it also when it fails.

`invalidate_all` has no caller.  The counters of the metrics and the log lines are left out.
-/

namespace PegaFlow.MetaServer

/-- The URL of a node. -/
abbrev Node := String

/-- The id of a session, a UUID. -/
abbrev NodeId := Nat

structure StoreConfig where
  nodeStaleAfter : Nat
  ttl : Nat
deriving DecidableEq, Repr

inductive StoreError where
  | unknownNode
  | staleSession
deriving DecidableEq, Repr

/-- The session that wrote an ownership, and when. -/
structure OwnerRecord where
  nodeId : NodeId
  keyRegisterTime : Nat
deriving DecidableEq, Repr

/-- The current session of a node. -/
structure NodeRecord where
  nodeId : NodeId
  lastSeen : Nat
deriving DecidableEq, Repr

structure PrefixEntry where
  blockHash : BlockHash
  nodes : List Node
deriving DecidableEq, Repr

structure SweepStats where
  removedOwners : Nat
  removedKeys : Nat
  removedNodes : Nat
deriving DecidableEq, Repr

/-- How many keys have one, two, three and more visible owners. -/
structure RedundancySnapshot where
  keys1 : Nat
  keys2 : Nat
  keys3 : Nat
  keys4plus : Nat
  copies : Nat
deriving DecidableEq, Repr

namespace RedundancySnapshot

def empty : RedundancySnapshot := ⟨0, 0, 0, 0, 0⟩

def record (snapshot : RedundancySnapshot) (visibleOwners : Nat) : RedundancySnapshot :=
  let snapshot := { snapshot with copies := snapshot.copies + visibleOwners }
  match visibleOwners with
  | 0 => snapshot
  | 1 => { snapshot with keys1 := snapshot.keys1 + 1 }
  | 2 => { snapshot with keys2 := snapshot.keys2 + 1 }
  | 3 => { snapshot with keys3 := snapshot.keys3 + 1 }
  | _ => { snapshot with keys4plus := snapshot.keys4plus + 1 }

end RedundancySnapshot

/-- The owners of one key. -/
abbrev Owners := Table Node OwnerRecord

namespace Owners

variable (owners : Owners) (node : Node) (nodeId : NodeId)

/-- Whether the session wrote the record of the node. -/
def writtenBy : Bool :=
  (owners.lookup node).any fun owner => owner.nodeId == nodeId

/-- The owners without the node, if the session wrote its record. -/
def drop : Owners :=
  if owners.writtenBy node nodeId then owners.erase node else owners

/-- A key without owners is not kept. -/
def kept : Option Owners :=
  if owners.entries.isEmpty then none else some owners

end Owners

structure BlockHashStore where
  blocks : Table BlockKey Owners
  nodes : Table Node NodeRecord
  redundancy : RedundancySnapshot

/-- The two decisions about an owner: whether it survives the sweep and whether a query lists it. -/
structure OwnerEval where
  keep : Bool
  visible : Bool
deriving DecidableEq, Repr

namespace BlockHashStore

def new : BlockHashStore := ⟨∅, ∅, .empty⟩

/-! ## Sessions -/

variable (c : StoreConfig) (s : BlockHashStore) (nameSpace : String)

def heartbeatNode (node : Node) (nodeId : NodeId)
    (now : Nat) : BlockHashStore × Except StoreError Unit :=
  match s.nodes.lookup node with
  | none => ({ s with nodes := s.nodes.insert node ⟨nodeId, now⟩ }, .ok ())
  | some record =>
    if record.nodeId = nodeId ∨ c.nodeStaleAfter < now - record.lastSeen then
      ({ s with nodes := s.nodes.insert node ⟨nodeId, now⟩ }, .ok ())
    else (s, .error .staleSession)

def touchNodeSession (node : Node) (nodeId : NodeId) (now : Nat) :
    BlockHashStore × Except StoreError Unit :=
  match s.nodes.lookup node with
  | none => (s, .error .unknownNode)
  | some record =>
    if record.nodeId ≠ nodeId then (s, .error .staleSession)
    else ({ s with nodes := s.nodes.insert node { record with lastSeen := now } }, .ok ())

def removeNodeOwners (node : Node) (nodeId : NodeId) : BlockHashStore × Nat :=
  ({ s with blocks := s.blocks.filterMap fun _ owners => (owners.drop node nodeId).kept },
    s.blocks.entries.countP fun e => e.2.writtenBy node nodeId)

def unregisterNode (node : Node) (nodeId : NodeId) : BlockHashStore × Except StoreError Nat :=
  match s.nodes.lookup node with
  | none => (s, .error .unknownNode)
  | some record =>
    if record.nodeId = nodeId then
      let (s, removed) := { s with nodes := s.nodes.erase node }.removeNodeOwners node nodeId
      (s, .ok removed)
    else (s, .error .staleSession)

/-! ## Owners -/

def insertHash (node : Node) (owner : OwnerRecord) (s : BlockHashStore)
    (hash : BlockHash) : BlockHashStore :=
  { s with
    blocks := s.blocks.insert ⟨nameSpace, hash⟩
      (((s.blocks.lookup ⟨nameSpace, hash⟩).getD ∅).insert node owner) }

def insertHashes (hashes : List BlockHash)
    (node : Node) (nodeId : NodeId) (touchAt now : Nat) : BlockHashStore × Except StoreError Nat :=
  match s.touchNodeSession node nodeId touchAt with
  | (s, .error e) => (s, .error e)
  | (s, .ok ()) => (hashes.foldl (insertHash nameSpace node ⟨nodeId, now⟩) s, .ok hashes.length)

def removeHash (node : Node) (nodeId : NodeId)
    (acc : BlockHashStore × Nat) (hash : BlockHash) : BlockHashStore × Nat :=
  match acc.1.blocks.lookup ⟨nameSpace, hash⟩ with
  | none => acc
  | some owners =>
    ({ acc.1 with
        blocks :=
          match (owners.drop node nodeId).kept with
          | none => acc.1.blocks.erase ⟨nameSpace, hash⟩
          | some owners => acc.1.blocks.insert ⟨nameSpace, hash⟩ owners },
      if owners.writtenBy node nodeId then acc.2 + 1 else acc.2)

def removeHashes (hashes : List BlockHash)
    (node : Node) (nodeId : NodeId) (now : Nat) : BlockHashStore × Except StoreError Nat :=
  match s.touchNodeSession node nodeId now with
  | (s, .error e) => (s, .error e)
  | (s, .ok ()) =>
    let (s, removed) := hashes.foldl (removeHash nameSpace node nodeId) (s, 0)
    (s, .ok removed)

/-! ## Queries and the sweep -/

def evalOwner (node : Node) (owner : OwnerRecord) (now : Nat) : OwnerEval :=
  match s.nodes.lookup node with
  | none => ⟨false, false⟩
  | some record =>
    let nodeAge := now - record.lastSeen
    { keep := decide (now - owner.keyRegisterTime ≤ c.ttl) && decide (nodeAge ≤ c.ttl)
      visible := decide (record.nodeId = owner.nodeId) && decide (nodeAge ≤ c.nodeStaleAfter) }

def isOwnerVisible (node : Node) (owner : OwnerRecord) (now : Nat) : Bool :=
  (s.evalOwner c node owner now).visible

def liveNodes (owners : Owners) (now : Nat) : List Node :=
  owners.entries.filterMap fun e => if s.isOwnerVisible c e.1 e.2 now then some e.1 else none

/-- The longest prefix of the hashes with at least one live owner each. -/
def queryPrefix (c : StoreConfig) (s : BlockHashStore) (nameSpace : String) (now : Nat) :
    List BlockHash → List PrefixEntry
  | [] => []
  | hash :: hashes =>
    match s.blocks.lookup ⟨nameSpace, hash⟩ with
    | none => []
    | some owners =>
      if (s.liveNodes c owners now).isEmpty then []
      else ⟨hash, s.liveNodes c owners now⟩ :: s.queryPrefix c nameSpace now hashes

/-- The owners of a key that the sweep keeps. -/
def sweepOwners (now : Nat) (owners : Owners) : Owners :=
  owners.filterMap fun node owner =>
    if (s.evalOwner c node owner now).keep then some owner else none

/-- How many owners of a key survive the sweep and are visible. -/
def sweepVisible (now : Nat) (owners : Owners) : Nat :=
  owners.entries.countP fun e =>
    let eval := s.evalOwner c e.1 e.2 now
    eval.keep && eval.visible

def sweepExpired (now : Nat) : BlockHashStore × SweepStats :=
  let entries := s.blocks.entries
  let nodes := s.nodes.retain fun record => decide (now - record.lastSeen ≤ c.ttl)
  ({ blocks := s.blocks.filterMap fun _ owners => (s.sweepOwners c now owners).kept
     nodes := nodes
     redundancy :=
       (entries.filter fun e => ((s.sweepOwners c now e.2).kept).isSome).foldl
         (fun snapshot e => snapshot.record (s.sweepVisible c now e.2)) .empty },
   { removedOwners :=
       (entries.map fun e => e.2.entries.length - (s.sweepOwners c now e.2).entries.length).sum
     removedKeys := entries.countP fun e => ((s.sweepOwners c now e.2).kept).isNone
     removedNodes := s.nodes.entries.length - nodes.entries.length })

end BlockHashStore

end PegaFlow.MetaServer
