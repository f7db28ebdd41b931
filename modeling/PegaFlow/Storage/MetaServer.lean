import Mathlib.Data.Finset.Basic
import PegaFlow.Block

/-!
# The client of the MetaServer

`pegaflow-core/src/internode/metaserver_client.rs`.  The node tells the MetaServer which blocks
it holds.  Registrations and removals are commands in a queue; `registration_loop` takes
everything that is queued, nets it and sends the outcome in chunks, insertions first.

The MetaServer (`pegaflow-metaserver/src/store.rs`) keeps the owners of each key by node, and an
RPC changes only the node that sends it.  So the model keeps the set of keys that are listed for
this node.  All RPCs succeed here, heartbeats among them.

Netting is right if sending its outcome lists what the commands would list one after the other
(`serveAll_rpcsOf`).
-/

namespace PegaFlow.Storage

open List AList

/-- Hashes by namespace. -/
abbrev HashGroups := List (String × List BlockHash)

abbrev GroupMap := Table String (List BlockHash)

inductive MetaServerCommand where
  | insert (groups : HashGroups)
  | remove (groups : HashGroups)
  | shutdown
deriving DecidableEq

def keysOf (groups : HashGroups) : List BlockKey :=
  groups.flatMap fun group => group.2.map fun hash => ⟨group.1, hash⟩

namespace GroupMap

def groups (map : GroupMap) : HashGroups := map.entries.map fun e => (e.1, e.2)

/-- `map.entry(namespace).or_default()`, and then the hashes are appended. -/
def append (map : GroupMap) (group : String × List BlockHash) : GroupMap :=
  map.insert group.1 ((map.lookup group.1).getD [] ++ group.2)

end GroupMap

/-- `BlockHashBatch::from_entries`. -/
def fromEntries (entries : List BlockKey) : HashGroups :=
  (entries.foldl (fun map key => GroupMap.append map (key.nameSpace, [key.hash])) ∅).groups

def appendGroups (target : GroupMap) (groups : HashGroups) : GroupMap :=
  groups.foldl GroupMap.append target

/-! ## One round of the loop -/

/-- What happens last to a key; `true` is an insertion. -/
abbrev Net := Table BlockKey Bool

def insertGroupsIntoNet (isInsert : Bool) (net : Net) (groups : HashGroups) : Net :=
  (keysOf groups).foldl (fun net key => net.insert key isInsert) net

def buildNet (inserts removes : GroupMap) : Net :=
  insertGroupsIntoNet false (insertGroupsIntoNet true ∅ inserts.groups) removes.groups

/-- The variables of the loop that drains the queue. -/
structure DrainState where
  inserts : GroupMap
  removes : GroupMap
  mixedOps : Option Net
  sawInsert : Bool
  sawRemove : Bool

namespace DrainState

def new : DrainState := ⟨∅, ∅, none, false, false⟩

variable (d : DrainState) (groups : HashGroups)

/-- The table of mixed operations, which starts with the pure ones. -/
def net : Net := d.mixedOps.getD (buildNet d.inserts d.removes)

def pushInsert : DrainState :=
  if d.sawRemove then
    { inserts := if d.mixedOps.isNone then ∅ else d.inserts
      removes := if d.mixedOps.isNone then ∅ else d.removes
      mixedOps := some (insertGroupsIntoNet true d.net groups)
      sawInsert := true
      sawRemove := d.sawRemove }
  else { d with inserts := appendGroups d.inserts groups, sawInsert := true }

def pushRemove : DrainState :=
  if d.sawInsert then
    { inserts := if d.mixedOps.isNone then ∅ else d.inserts
      removes := if d.mixedOps.isNone then ∅ else d.removes
      mixedOps := some (insertGroupsIntoNet false d.net groups)
      sawInsert := d.sawInsert
      sawRemove := true }
  else { d with removes := appendGroups d.removes groups, sawRemove := true }

def spreadOne (maps : GroupMap × GroupMap) (op : Sigma fun _ : BlockKey => Bool) :
    GroupMap × GroupMap :=
  if op.2 then (GroupMap.append maps.1 (op.1.nameSpace, [op.1.hash]), maps.2)
  else (maps.1, GroupMap.append maps.2 (op.1.nameSpace, [op.1.hash]))

/-- The mixed operations, sorted into the two maps. -/
def spread : GroupMap × GroupMap :=
  match d.mixedOps with
  | none => (d.inserts, d.removes)
  | some net => net.entries.foldl spreadOne (d.inserts, d.removes)

end DrainState

/-- A request to the MetaServer. -/
inductive Rpc where
  | insertBlockHashes (nameSpace : String) (hashes : List BlockHash)
  | removeBlockHashes (nameSpace : String) (hashes : List BlockHash)
  | unregisterNode
deriving DecidableEq

def maxHashesPerRpc : Nat := 16384

variable (limit : Nat) (rpcs : List Rpc) (listed : Finset BlockKey)

/-- `hashes.chunks(limit)`, for a positive limit. -/
def chunksOf (hashes : List BlockHash) : List (List BlockHash) :=
  (hashes.toChunksAux (limit - 1) 0).2

def inChunksOf (groups : HashGroups) : HashGroups :=
  groups.flatMap fun group => (chunksOf limit group.2).map (group.1, ·)

/-- `hashes.chunks(MAX_HASHES_PER_RPC)`. -/
def chunks (hashes : List BlockHash) : List (List BlockHash) :=
  (hashes.toChunksAux (maxHashesPerRpc - 1) 0).2

/-- One group for each request. -/
def inChunks (groups : HashGroups) : HashGroups :=
  groups.flatMap fun group => (chunks group.2).map (group.1, ·)

/-- The commands up to a shutdown, if there is one. -/
def drain : List MetaServerCommand → DrainState → Option DrainState
  | [], d => some d
  | .insert groups :: commands, d => drain commands (d.pushInsert groups)
  | .remove groups :: commands, d => drain commands (d.pushRemove groups)
  | .shutdown :: _, _ => none

/-- The requests of one round of `registration_loop`.  A shutdown drops what was drained with
it. -/
def rpcsOf (commands : List MetaServerCommand) : List Rpc :=
  match drain commands .new with
  | none => [.unregisterNode]
  | some d =>
    (inChunks d.spread.1.groups).map (fun group => .insertBlockHashes group.1 group.2) ++
      (inChunks d.spread.2.groups).map fun group => .removeBlockHashes group.1 group.2

/-- The requests for what a round has drained.  The hash maps of the source are iterated in some
order: the table of mixed operations, and the namespaces of the two maps. -/
def DrainState.Sends (d : DrainState) (limit : Nat) (rpcs : List Rpc) : Prop :=
  ∃ (ops : List (Sigma fun _ : BlockKey => Bool)) (inserts removes : HashGroups),
    ops.Perm (d.mixedOps.elim [] AList.entries) ∧
      inserts.Perm (ops.foldl spreadOne (d.inserts, d.removes)).1.groups ∧
      removes.Perm (ops.foldl spreadOne (d.inserts, d.removes)).2.groups ∧
      rpcs = (inChunksOf limit inserts).map (fun group => .insertBlockHashes group.1 group.2) ++
        (inChunksOf limit removes).map fun group => .removeBlockHashes group.1 group.2

/-- What the MetaServer lists for this node after a request. -/
def Rpc.serve : Rpc → Finset BlockKey
  | .insertBlockHashes nameSpace hashes => listed ∪ (keysOf [(nameSpace, hashes)]).toFinset
  | .removeBlockHashes nameSpace hashes => listed \ (keysOf [(nameSpace, hashes)]).toFinset
  | .unregisterNode => ∅

def serveAll : Finset BlockKey :=
  rpcs.foldl Rpc.serve listed

/-! ## Commands one after the other -/

/-- What a command asks for. -/
def MetaServerCommand.apply : MetaServerCommand → Finset BlockKey
  | .insert groups => listed ∪ (keysOf groups).toFinset
  | .remove groups => listed \ (keysOf groups).toFinset
  | .shutdown => ∅

def applyAll (commands : List MetaServerCommand) (listed : Finset BlockKey) : Finset BlockKey :=
  commands.foldl MetaServerCommand.apply listed

/-! ## Groups of hashes -/

section

variable {k : BlockKey} {groups : HashGroups} {map : GroupMap}

theorem mem_keysOf :
    k ∈ keysOf groups ↔ ∃ hashes, (k.nameSpace, hashes) ∈ groups ∧ k.hash ∈ hashes := by
  unfold keysOf
  rw [mem_flatMap]
  constructor
  · rintro ⟨⟨nameSpace, hashes⟩, hgrp, hk⟩
    obtain ⟨hash, hh, rfl⟩ := List.mem_map.mp hk
    exact ⟨hashes, hgrp, hh⟩
  · rintro ⟨hashes, hgrp, hh⟩
    exact ⟨_, hgrp, List.mem_map.mpr ⟨k.hash, hh, rfl⟩⟩

theorem mem_keysOf_cons {group : String × List BlockHash} :
    k ∈ keysOf (group :: groups) ↔ k ∈ keysOf [group] ∨ k ∈ keysOf groups := by
  rw [mem_keysOf, mem_keysOf, mem_keysOf]
  constructor
  · rintro ⟨hashes, hgrp, hh⟩
    rcases List.mem_cons.mp hgrp with rfl | hgrp
    · exact Or.inl ⟨hashes, mem_cons_self, hh⟩
    · exact Or.inr ⟨hashes, hgrp, hh⟩
  · rintro (⟨hashes, hgrp, hh⟩ | ⟨hashes, hgrp, hh⟩)
    · rw [mem_singleton] at hgrp
      exact ⟨hashes, List.mem_cons.mpr (Or.inl hgrp), hh⟩
    · exact ⟨hashes, mem_cons_of_mem _ hgrp, hh⟩

@[simp] theorem not_mem_keysOf_nil : k ∉ keysOf [] := nofun

namespace GroupMap

theorem mem_groups : k ∈ keysOf map.groups ↔ k.hash ∈ (map.lookup k.nameSpace).getD [] := by
  rw [mem_keysOf]
  have hgrp : ∀ hashes, (k.nameSpace, hashes) ∈ map.groups ↔
      map.lookup k.nameSpace = some hashes := by
    intro hashes
    rw [← Option.mem_def, AList.mem_lookup_iff, groups, List.mem_map]
    constructor
    · rintro ⟨⟨nameSpace, group⟩, he, heq⟩
      cases heq
      exact he
    · intro he
      exact ⟨_, he, rfl⟩
  simp only [hgrp]
  cases map.lookup k.nameSpace <;> simp

@[simp] theorem not_mem_groups_empty : k ∉ keysOf (∅ : GroupMap).groups := nofun

theorem mem_groups_append {group : String × List BlockHash} :
    k ∈ keysOf (map.append group).groups ↔ k ∈ keysOf map.groups ∨ k ∈ keysOf [group] := by
  obtain ⟨nameSpace, hashes⟩ := group
  rw [mem_groups, mem_groups, mem_keysOf, append]
  by_cases hk : k.nameSpace = nameSpace
  · subst hk
    rw [lookup_insert, Option.getD_some, mem_append]
    simp
  · rw [lookup_insert_ne hk]
    simp [hk]

theorem mem_groups_appendGroups :
    k ∈ keysOf (appendGroups map groups).groups ↔ k ∈ keysOf map.groups ∨ k ∈ keysOf groups := by
  induction groups generalizing map with
  | nil => simp [appendGroups]
  | cons group groups ih =>
    rw [appendGroups, List.foldl_cons, ← appendGroups, ih, mem_groups_append, or_assoc,
      ← mem_keysOf_cons]

end GroupMap

theorem mem_fromEntries {entries : List BlockKey} :
    k ∈ keysOf (fromEntries entries) ↔ k ∈ entries := by
  suffices h : ∀ map : GroupMap, k ∈ keysOf (entries.foldl (fun map key =>
      GroupMap.append map (key.nameSpace, [key.hash])) map).groups ↔
        k ∈ keysOf map.groups ∨ k ∈ entries by
    rw [fromEntries, h]
    simp
  induction entries with
  | nil => simp
  | cons key entries ih =>
    intro map
    rw [List.foldl_cons, ih, GroupMap.mem_groups_append, or_assoc, List.mem_cons]
    have hk : k ∈ keysOf [(key.nameSpace, [key.hash])] ↔ k = key := by
      simp [keysOf]
    rw [hk]

end

/-! ## Netting -/

theorem lookup_insertGroupsIntoNet (isInsert : Bool) (net : Net) (groups : HashGroups)
    (k : BlockKey) : (insertGroupsIntoNet isInsert net groups).lookup k =
      if k ∈ keysOf groups then some isInsert else net.lookup k :=
  Table.lookup_foldl_insert (keysOf groups) isInsert

theorem lookup_buildNet (inserts removes : GroupMap) (k : BlockKey) :
    (buildNet inserts removes).lookup k =
      if k ∈ keysOf removes.groups then some false
      else if k ∈ keysOf inserts.groups then some true else none := by
  rw [buildNet, lookup_insertGroupsIntoNet, lookup_insertGroupsIntoNet, lookup_empty]

namespace DrainState

/-- Either all commands so far were of one kind, or the maps are empty and everything is in the
table of mixed operations. -/
inductive Wf : DrainState → Prop where
  | new : Wf new
  | inserts {inserts : GroupMap} : Wf ⟨inserts, ∅, none, true, false⟩
  | removes {removes : GroupMap} : Wf ⟨∅, removes, none, false, true⟩
  | mixed {net : Net} : Wf ⟨∅, ∅, some net, true, true⟩

variable {d : DrainState} {groups : HashGroups}

theorem Wf.pushInsert (h : d.Wf) : (d.pushInsert groups).Wf := by
  cases h with
  | new | inserts => exact .inserts
  | removes | mixed => exact .mixed

theorem Wf.pushRemove (h : d.Wf) : (d.pushRemove groups).Wf := by
  cases h with
  | new | removes => exact .removes
  | inserts | mixed => exact .mixed

theorem Wf.lookup_pushInsert (h : d.Wf) (k : BlockKey) :
    (d.pushInsert groups).net.lookup k =
      if k ∈ keysOf groups then some true else d.net.lookup k := by
  have hpure : ∀ inserts : GroupMap, (buildNet (appendGroups inserts groups) ∅).lookup k =
      if k ∈ keysOf groups then some true else (buildNet inserts ∅).lookup k := by
    intro inserts
    rw [lookup_buildNet, lookup_buildNet]
    by_cases hk : k ∈ keysOf groups <;> simp [GroupMap.mem_groups_appendGroups, hk]
  cases h with
  | new => exact hpure ∅
  | inserts => exact hpure _
  | removes | mixed => exact lookup_insertGroupsIntoNet _ _ _ k

theorem Wf.lookup_pushRemove (h : d.Wf) (k : BlockKey) :
    (d.pushRemove groups).net.lookup k =
      if k ∈ keysOf groups then some false else d.net.lookup k := by
  have hpure : ∀ removes : GroupMap, (buildNet ∅ (appendGroups removes groups)).lookup k =
      if k ∈ keysOf groups then some false else (buildNet ∅ removes).lookup k := by
    intro removes
    rw [lookup_buildNet, lookup_buildNet]
    by_cases hk : k ∈ keysOf groups <;> simp [GroupMap.mem_groups_appendGroups, hk]
  cases h with
  | new => exact hpure ∅
  | inserts | mixed => exact lookup_insertGroupsIntoNet _ _ _ k
  | removes => exact hpure _

theorem mem_spread_fold (ops : List (Sigma fun _ : BlockKey => Bool)) (maps : GroupMap × GroupMap)
    (k : BlockKey) :
    (k ∈ keysOf (ops.foldl spreadOne maps).1.groups ↔
      k ∈ keysOf maps.1.groups ∨ ⟨k, true⟩ ∈ ops) ∧
    (k ∈ keysOf (ops.foldl spreadOne maps).2.groups ↔
      k ∈ keysOf maps.2.groups ∨ ⟨k, false⟩ ∈ ops) := by
  induction ops generalizing maps with
  | nil => simp
  | cons op ops ih =>
    obtain ⟨key, isInsert⟩ := op
    have hk : k ∈ keysOf [(key.nameSpace, [key.hash])] ↔ k = key := by
      simp [keysOf]
    rw [List.foldl_cons, (ih _).1, (ih _).2]
    cases isInsert <;> simp [spreadOne, GroupMap.mem_groups_append, hk, or_assoc]

/-- The two maps hold what happens last to each key. -/
theorem Wf.mem_spread (h : d.Wf) {ops : List (Sigma fun _ : BlockKey => Bool)}
    (hops : ops.Perm (d.mixedOps.elim [] AList.entries)) (k : BlockKey) :
    (k ∈ keysOf (ops.foldl spreadOne (d.inserts, d.removes)).1.groups ↔
      d.net.lookup k = some true) ∧
    (k ∈ keysOf (ops.foldl spreadOne (d.inserts, d.removes)).2.groups ↔
      d.net.lookup k = some false) := by
  rw [(mem_spread_fold _ _ k).1, (mem_spread_fold _ _ k).2, hops.mem_iff, hops.mem_iff]
  cases h with
  | new => simp [DrainState.new, net, lookup_buildNet]
  | inserts | removes => simp [net, lookup_buildNet]
  | mixed => simp [net, ← AList.mem_lookup_iff]

end DrainState

/-! ## What is listed -/

theorem flatten_toChunksAux {α : Type} (n : Nat) (l : List α) (i : Nat) :
    (l.toChunksAux n i).1 ++ (l.toChunksAux n i).2.flatten = l := by
  induction l generalizing i with
  | nil => rfl
  | cons x l ih =>
    cases i with
    | zero => exact congrArg (x :: ·) (ih n)
    | succ i => exact congrArg (x :: ·) (ih i)

theorem flatten_chunksOf (limit : Nat) (hashes : List BlockHash) :
    (chunksOf limit hashes).flatten = hashes := by
  have hfst : (hashes.toChunksAux (limit - 1) 0).1 = [] := by
    cases hashes <;> rfl
  have h := flatten_toChunksAux (limit - 1) hashes 0
  rw [hfst] at h
  exact h

theorem mem_inChunksOf {limit : Nat} {groups : HashGroups} {k : BlockKey} :
    k ∈ keysOf (inChunksOf limit groups) ↔ k ∈ keysOf groups := by
  have hch : ∀ hashes : List BlockHash,
      (∃ chunk ∈ chunksOf limit hashes, k.hash ∈ chunk) ↔ k.hash ∈ hashes := by
    intro hashes
    rw [← mem_flatten, flatten_chunksOf]
  rw [mem_keysOf, mem_keysOf]
  constructor
  · rintro ⟨chunk, hm, hh⟩
    obtain ⟨⟨nameSpace, hashes⟩, hgrp, hmap⟩ := mem_flatMap.mp hm
    obtain ⟨chunk', hch', heq⟩ := List.mem_map.mp hmap
    cases heq
    exact ⟨hashes, hgrp, (hch hashes).mp ⟨chunk, hch', hh⟩⟩
  · rintro ⟨hashes, hgrp, hh⟩
    obtain ⟨chunk, hm, hh⟩ := (hch hashes).mpr hh
    exact ⟨chunk, mem_flatMap.mpr ⟨_, hgrp, List.mem_map.mpr ⟨chunk, hm, rfl⟩⟩, hh⟩

section

variable {k : BlockKey} {listed : Finset BlockKey} {groups : HashGroups}

theorem mem_serveAll_inserts :
    k ∈ serveAll (groups.map fun group => .insertBlockHashes group.1 group.2) listed ↔
      k ∈ listed ∨ k ∈ keysOf groups := by
  induction groups generalizing listed with
  | nil => simp [serveAll]
  | cons group groups ih =>
    rw [List.map_cons, serveAll, List.foldl_cons, ← serveAll, ih, mem_keysOf_cons, ← or_assoc,
      Rpc.serve, Finset.mem_union, List.mem_toFinset]

theorem mem_serveAll_removes :
    k ∈ serveAll (groups.map fun group => .removeBlockHashes group.1 group.2) listed ↔
      k ∈ listed ∧ k ∉ keysOf groups := by
  induction groups generalizing listed with
  | nil => simp [serveAll]
  | cons group groups ih =>
    rw [List.map_cons, serveAll, List.foldl_cons, ← serveAll, ih, mem_keysOf_cons, not_or,
      ← and_assoc, Rpc.serve, Finset.mem_sdiff, List.mem_toFinset]

/-- What a table of operations makes of a listing. -/
def Net.Lists (net : Net) (listed : Finset BlockKey) (k : BlockKey) : Prop :=
  (net.lookup k).elim (k ∈ listed) (· = true)

variable {d : DrainState} {limit : Nat} {rpcs : List Rpc}

theorem mem_keysOf_perm {groups' : HashGroups} (h : groups.Perm groups') :
    k ∈ keysOf groups ↔ k ∈ keysOf groups' :=
  (h.flatMap_right _).mem_iff

theorem DrainState.Sends.mem_serveAll (hsn : d.Sends limit rpcs) (h : d.Wf) :
    k ∈ serveAll rpcs listed ↔ d.net.Lists listed k := by
  obtain ⟨ops, inserts, removes, hops, hinserts, hremoves, rfl⟩ := hsn
  rw [serveAll, foldl_append, ← serveAll, ← serveAll, mem_serveAll_removes, mem_serveAll_inserts,
    mem_inChunksOf, mem_inChunksOf, mem_keysOf_perm hinserts, mem_keysOf_perm hremoves, (h.mem_spread hops k).1,
    (h.mem_spread hops k).2, Net.Lists]
  cases d.net.lookup k with
  | none => simp
  | some isInsert => cases isInsert <;> simp

theorem applyAll_append (commands commands' : List MetaServerCommand) (listed : Finset BlockKey) :
    applyAll (commands ++ commands') listed = applyAll commands' (applyAll commands listed) :=
  foldl_append

variable {commands : List MetaServerCommand}

theorem applyAll_mono {listed listed' : Finset BlockKey} (h : listed ⊆ listed') :
    applyAll commands listed ⊆ applyAll commands listed' := by
  induction commands generalizing listed listed' with
  | nil => exact h
  | cons command commands ih =>
    refine ih ?_
    cases command with
    | insert groups => exact Finset.union_subset_union_left h
    | remove groups => exact Finset.sdiff_subset_sdiff h (Finset.Subset.refl _)
    | shutdown => exact Finset.Subset.refl _

/-- Draining keeps track of what the commands would list. -/
theorem drain_spec {d' : DrainState} {current : Finset BlockKey} (hd : d.Wf)
    (h : drain commands d = some d') (hlists : ∀ k, k ∈ current ↔ d.net.Lists listed k) :
    d'.Wf ∧ ∀ k, k ∈ applyAll commands current ↔ d'.net.Lists listed k := by
  induction commands generalizing d current with
  | nil =>
    cases h
    exact ⟨hd, hlists⟩
  | cons command commands ih =>
    cases command with
    | insert groups =>
      refine ih hd.pushInsert h ?_
      intro k
      rw [MetaServerCommand.apply, Finset.mem_union, hlists, Net.Lists,
        Net.Lists, hd.lookup_pushInsert]
      by_cases hk : k ∈ keysOf groups <;> simp [hk]
    | remove groups =>
      refine ih hd.pushRemove h ?_
      intro k
      rw [MetaServerCommand.apply, Finset.mem_sdiff, hlists, Net.Lists,
        Net.Lists, hd.lookup_pushRemove]
      by_cases hk : k ∈ keysOf groups <;> simp [hk]
    | shutdown => cases h

theorem drain_eq_none : drain commands d = none ↔ .shutdown ∈ commands := by
  induction commands generalizing d with
  | nil => simp [drain]
  | cons command commands ih =>
    cases command with
    | insert groups | remove groups => simp [drain, ih]
    | shutdown => simp [drain]

theorem serveAll_of_drain (hdrain : drain commands .new = some d) (hsn : d.Sends limit rpcs) :
    serveAll rpcs listed = applyAll commands listed := by
  obtain ⟨hwf, hlists⟩ := drain_spec .new hdrain fun _ => Iff.rfl
  ext k
  rw [hlists]
  exact hsn.mem_serveAll hwf

theorem exists_drain (h : .shutdown ∉ commands) : ∃ d, drain commands .new = some d :=
  Option.ne_none_iff_exists'.mp fun hn => h (drain_eq_none.mp hn)

/-- The order of the table is one of the orders. -/
theorem sends_rpcsOf (hdrain : drain commands .new = some d) :
    d.Sends maxHashesPerRpc (rpcsOf commands) := by
  have hspread : (d.mixedOps.elim [] AList.entries).foldl DrainState.spreadOne
      (d.inserts, d.removes) = d.spread := by
    unfold DrainState.spread
    cases d.mixedOps <;> rfl
  refine ⟨_, d.spread.1.groups, d.spread.2.groups, .refl _, ?_, ?_, ?_⟩
  · rw [hspread]
  · rw [hspread]
  · rw [rpcsOf, hdrain]
    rfl

/-- A round of the loop lists what its commands would list one after the other. -/
theorem serveAll_rpcsOf (h : .shutdown ∉ commands) :
    serveAll (rpcsOf commands) listed = applyAll commands listed := by
  obtain ⟨d, hdrain⟩ := exists_drain h
  exact serveAll_of_drain hdrain (sends_rpcsOf hdrain)

/-- Whatever the limit of a request and the order of the hash maps, what a round sends lists what
its commands would list one after the other. -/
theorem netted_requests_list (commands : List MetaServerCommand) (h : .shutdown ∉ commands)
    (limit : Nat) (listed : Finset BlockKey) :
    ∃ d, drain commands .new = some d ∧
      ∀ rpcs, d.Sends limit rpcs → serveAll rpcs listed = applyAll commands listed := by
  obtain ⟨d, hdrain⟩ := exists_drain h
  exact ⟨d, hdrain, fun rpcs hsends => serveAll_of_drain hdrain hsends⟩

/-- The kinds alternate, and a key is removed and inserted again. -/
theorem netted_requests_list_mixed :
    ∃ d, drain [.remove [("a", [[1], [2]])], .insert [("a", [[1]]), ("b", [[1]])],
        .remove [("b", [[1]])]] .new = some d ∧
      ∀ rpcs, d.Sends 1 rpcs → serveAll rpcs {⟨"a", [2]⟩} = {⟨"a", [1]⟩} :=
  netted_requests_list _ (by decide) 1 {⟨"a", [2]⟩}

/-- A round with a shutdown lists nothing. -/
theorem serveAll_rpcsOf_subset (commands : List MetaServerCommand) (listed : Finset BlockKey) :
    serveAll (rpcsOf commands) listed ⊆ applyAll commands listed := by
  by_cases h : .shutdown ∈ commands
  · rw [rpcsOf, drain_eq_none.mpr h]
    exact Finset.empty_subset _
  · rw [serveAll_rpcsOf h]

end

end PegaFlow.Storage
