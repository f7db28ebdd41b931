import PegaFlow.Engine.Instance
import PegaFlow.Lib.Loop
import PegaFlow.Lib.Text
import PegaFlow.Storage.Lease

/-!
# Sessions and device tensors of the server

`SessionRegistry` of `pegaflow-server/src/session.rs`, and `CudaTensorRegistry` of
`pegaflow-server/src/registry.rs`, whose commands one thread takes one after another.

The tensors of a worker stand under a context key, which begins with the id of the instance.
`drop_instance` goes by that prefix alone, so it also takes the contexts of an instance whose id
continues its own after a colon, or whose id and ranks make up its own.  `drop_context` takes
whatever stands under the key.

Neither registry says when an entry was made.  The model keeps a `Stamp` with every entry, so that
statements can tell apart the entries that stood under one key at different times.
-/

namespace PegaFlow.Server

open PegaFlow.Storage (InstanceId)
open List Option AList Table Loop Text

/-- When an entry was made: the instances of the sessions installed until then, newest first, and
the number of the context. -/
structure Stamp where
  serial : Nat
  instanceId : InstanceId
  installs : List InstanceId

/-! ## Sessions -/

/-- The session of an instance; `epoch` counts the sessions installed for the instance, this one
included. -/
structure SessionEntry where
  token : Nat
  epoch : Nat

/-- `SessionRegistry::take`: the entry it removed, for the caller that owns the cleanup. -/
def take (sessions : Table InstanceId SessionEntry) (instanceId : InstanceId) (token : Nat) :
    Option SessionEntry :=
  (sessions.lookup instanceId).filter fun entry => entry.token = token

/-! ## Device tensors -/

structure TensorMetadata where
  dataPtr : Nat
  sizeBytes : Nat
  deviceId : Int

structure ContextState where
  deviceId : Int
  tensors : Table String TensorMetadata
  stamp : Stamp

/-- The device memory of the tensor: its address and its size. -/
def TensorMetadata.region (metadata : TensorMetadata) : Nat × Nat :=
  (metadata.dataPtr, metadata.sizeBytes)

/-- The context holds a tensor of that device memory, which keeps it mapped. -/
def ContextState.Maps (context : ContextState) (region : Nat × Nat) : Prop :=
  ∃ name metadata, context.tensors.lookup name = some metadata ∧ metadata.region = region

abbrev Contexts := Table String ContextState

def contextKey (instanceId : InstanceId) (tpRank ppRank : Nat) (deviceId : Int) : String :=
  s!"{instanceId}:tp{tpRank}:pp{ppRank}:dev{deviceId}"

variable (instanceId : InstanceId) (key : String)

/-- The key begins with the id and a colon. -/
def KeyOf : Prop :=
  (instanceId.toList ++ [':']) <+: key.toList

instance : Decidable (KeyOf instanceId key) :=
  inferInstanceAs (Decidable (_ <+: _))

theorem keyOf_contextKey (tpRank ppRank : Nat) (deviceId : Int) :
    KeyOf instanceId (contextKey instanceId tpRank ppRank deviceId) := by
  simp [KeyOf, contextKey, toString]

variable {instanceId other : InstanceId} {tp pp : Nat} {dev : Int}

theorem toList_contextKey (instanceId : InstanceId) (tp pp : Nat) (dev : Int) :
    (contextKey instanceId tp pp dev).toList =
      ((instanceId.toList ++ ':' :: ("tp".toList ++ Nat.toDigits 10 tp)) ++
        ':' :: ("pp".toList ++ Nat.toDigits 10 pp)) ++ ':' :: ("dev".toList ++ dev.repr.toList) := by
  simp [contextKey, toString]

/-- Only the instance id can have a colon. -/
theorem colon_not_mem (tp pp : Nat) (dev : Int) : ':' ∉ "tp".toList ++ Nat.toDigits 10 tp ∧
    ':' ∉ "pp".toList ++ Nat.toDigits 10 pp ∧ ':' ∉ "dev".toList ++ dev.repr.toList := by
  have hdigits : ∀ n, ':' ∉ Nat.toDigits 10 n := fun _ => not_mem_toDigits rfl
  rw [Int.repr_eq_if]
  split <;> simp [hdigits]

theorem contextKey_injective :
    Function.Injective fun k : InstanceId × Nat × Nat × Int =>
      contextKey k.1 k.2.1 k.2.2.1 k.2.2.2 := by
  rintro ⟨i, tp, pp, dev⟩ ⟨i', tp', pp', dev'⟩ h
  obtain ⟨htp, hpp, hdev⟩ := colon_not_mem tp pp dev
  obtain ⟨htp', hpp', hdev'⟩ := colon_not_mem tp' pp' dev'
  have hlist := congrArg String.toList h
  simp only [toList_contextKey] at hlist
  obtain ⟨hlist, hd⟩ := append_cons_inj hdev hdev' hlist
  obtain ⟨hlist, hp⟩ := append_cons_inj hpp hpp' hlist
  obtain ⟨hi, ht⟩ := append_cons_inj htp htp' hlist
  obtain rfl := String.toList_inj.mp hi
  obtain rfl := toDigits_inj (append_cancel_left ht)
  obtain rfl := toDigits_inj (append_cancel_left hp)
  obtain rfl := repr_inj (append_cancel_left hd)
  rfl

theorem keyOf_contextKey_iff :
    KeyOf instanceId (contextKey other tp pp dev) ↔
      ((KeyOf instanceId other ∨ instanceId = other) ∨ instanceId = s!"{other}:tp{tp}") ∨
        instanceId = s!"{other}:tp{tp}:pp{pp}" := by
  obtain ⟨htp, hpp, hdev⟩ := colon_not_mem tp pp dev
  unfold KeyOf
  rw [toList_contextKey, concat_prefix_append_cons hdev, concat_prefix_append_cons hpp,
    concat_prefix_append_cons htp]
  simp [← String.toList_inj, toString]

namespace Contexts

/-- The first layer name that comes a second time. -/
def repeatedLayer : List String → List String → Option String
  | _, [] => none
  | seen, name :: names => if name ∈ seen then some name else repeatedLayer (name :: seen) names

/-- Materialize the tensors of a context one after another.  A layer comes with what
`materialize_tensor` makes of its bytes. -/
def materializeLayers (key : String) :
    ContextState → List (String × Except String TensorMetadata) →
      Except String (ContextState × List TensorMetadata)
  | context, [] => .ok (context, [])
  | context, (name, tensor) :: layers =>
    match tensor with
    | .error e => .error e
    | .ok metadata =>
      if context.deviceId ≠ metadata.deviceId then
        .error s!"context {key} is pinned to device {context.deviceId} but got {metadata.deviceId}"
      else
        (materializeLayers key
          { context with tensors := context.tensors.insert name metadata } layers).map
            fun made => (made.1, metadata :: made.2)

def registerLayers (contexts : Contexts) (key : String) (deviceId : Int)
    (layers : List (String × Except String TensorMetadata)) (stamp : Stamp) :
    Except String (Contexts × List TensorMetadata) :=
  if (contexts.lookup key).isSome then .error s!"context {key} is already registered"
  else
    match repeatedLayer [] (layers.map Prod.fst) with
    | some name => .error s!"layer {name} appears more than once in context {key}"
    | none =>
      (materializeLayers key ⟨deviceId, ∅, stamp⟩ layers).map fun made =>
        (contexts.insert key made.1, made.2)

/-- Remove the keys. -/
def releaseContexts (contexts : Contexts) (keys : List String) : Contexts :=
  keys.foldl (fun contexts key => contexts.erase key) contexts

/-- The number of device tensors under the keys, which `release_contexts` returns. -/
def tensorCount (contexts : Contexts) (keys : List String) : Nat :=
  ((keys.filterMap contexts.lookup).map fun context => context.tensors.keys.length).sum

def dropContext (contexts : Contexts) (key : String) : Contexts := contexts.releaseContexts [key]

/-- The keys that `drop_instance` goes by. -/
def instanceKeys (contexts : Contexts) (instanceId : InstanceId) : List String :=
  contexts.keys.filter (KeyOf instanceId)

def dropInstance (contexts : Contexts) (instanceId : InstanceId) : Contexts :=
  contexts.releaseContexts (contexts.instanceKeys instanceId)

/-- The contexts that `drop_instance` removes. -/
def instanceContexts (contexts : Contexts) (instanceId : InstanceId) : List ContextState :=
  (contexts.instanceKeys instanceId).filterMap contexts.lookup

variable {contexts contexts' : Contexts} {key k : String} {deviceId : Int} {stamp : Stamp}
variable {layers : List (String × Except String TensorMetadata)} {context : ContextState}
variable {metadatas : List TensorMetadata} {instanceId : InstanceId}

theorem nodup_of_repeatedLayer {seen names : List String} (h : repeatedLayer seen names = none) :
    names.Nodup ∧ ∀ name ∈ names, name ∉ seen := by
  induction names generalizing seen with
  | nil => simp
  | cons name names ih =>
    unfold repeatedLayer at h
    split at h
    · cases h
    next hn =>
      obtain ⟨hnd, hse⟩ := ih h
      refine ⟨nodup_cons.mpr ⟨fun hm => hse name hm mem_cons_self, hnd⟩, ?_⟩
      rw [forall_mem_cons]
      exact ⟨hn, fun other hoth hm => hse other hoth (mem_cons_of_mem _ hm)⟩

/-- A context of distinct layers keeps the tensors it had and holds all that were materialized. -/
theorem materializeLayers_ok {context' : ContextState}
    (h : materializeLayers key context layers = .ok (context', metadatas))
    (hnd : (layers.map Prod.fst).Nodup) :
    context'.stamp = context.stamp ∧
      (∀ name ∉ layers.map Prod.fst, context'.tensors.lookup name = context.tensors.lookup name) ∧
      ∀ metadata ∈ metadatas, context'.Maps metadata.region := by
  induction layers generalizing context metadatas with
  | nil =>
    cases h
    exact ⟨rfl, fun _ _ => rfl, by simp⟩
  | cons layer layers ih =>
    obtain ⟨name, tensor⟩ := layer
    obtain ⟨hn, hd⟩ := nodup_cons.mp hnd
    unfold materializeLayers at h
    cases tensor with
    | error e => cases h
    | ok metadata =>
      dsimp only at h
      split at h
      · cases h
      obtain ⟨⟨made, rest⟩, hmd, heq⟩ := map_eq_ok.mp h
      cases heq
      obtain ⟨hstm, hk, hm⟩ := ih hmd hd
      refine ⟨hstm, ?_, ?_⟩
      · intro other hoth
        rw [map_cons, mem_cons, not_or] at hoth
        exact (hk other hoth.2).trans (lookup_insert_ne hoth.1)
      · rw [forall_mem_cons]
        exact ⟨⟨name, metadata, (hk name hn).trans (lookup_insert _), rfl⟩, hm⟩

/-- A registration publishes one context, under a key that was free, or none. -/
theorem registerLayers_ok
    (h : contexts.registerLayers key deviceId layers stamp = .ok (contexts', metadatas)) :
    contexts.lookup key = none ∧
      ∃ context, context.stamp = stamp ∧ (∀ metadata ∈ metadatas, context.Maps metadata.region) ∧
        contexts' = contexts.insert key context := by
  unfold registerLayers at h
  split at h
  · cases h
  next hf =>
    rw [not_isSome_iff_eq_none] at hf
    refine ⟨hf, ?_⟩
    split at h
    · cases h
    next hrepeated =>
      obtain ⟨⟨context, rest⟩, hmd, heq⟩ := map_eq_ok.mp h
      cases heq
      obtain ⟨hstm, -, hm⟩ :=
        materializeLayers_ok hmd (nodup_of_repeatedLayer hrepeated).1
      exact ⟨context, hstm, hm, rfl⟩

theorem lookup_dropContext :
    (contexts.dropContext key).lookup k = if k = key then none else contexts.lookup k := by
  simp only [dropContext, releaseContexts, lookup_foldl_erase, mem_singleton]

theorem mem_instanceKeys : k ∈ contexts.instanceKeys instanceId ↔ k ∈ contexts ∧ KeyOf instanceId k := by
  rw [instanceKeys, List.mem_filter, decide_eq_true_eq, AList.mem_keys]

/-- `drop_instance` removes the contexts whose key begins with the id, and no others. -/
theorem lookup_dropInstance :
    (contexts.dropInstance instanceId).lookup k =
      if KeyOf instanceId k then none else contexts.lookup k := by
  rw [dropInstance, releaseContexts, lookup_foldl_erase]
  by_cases hk : KeyOf instanceId k
  · rw [if_pos hk, ite_eq_left_iff, mem_instanceKeys]
    intro hm
    rw [lookup_eq_none]
    exact fun h => hm ⟨h, hk⟩
  · rw [if_neg hk, if_neg fun h => hk (mem_instanceKeys.mp h).2]

theorem lookup_of_dropInstance (h : (contexts.dropInstance instanceId).lookup k = some context) :
    ¬ KeyOf instanceId k ∧ contexts.lookup k = some context := by
  rw [lookup_dropInstance] at h
  split at h
  · cases h
  next hk => exact ⟨hk, h⟩

theorem mem_instanceContexts :
    context ∈ contexts.instanceContexts instanceId ↔
      ∃ k, KeyOf instanceId k ∧ contexts.lookup k = some context := by
  rw [instanceContexts, mem_filterMap]
  constructor
  · rintro ⟨k, hk, hlk⟩
    exact ⟨k, (mem_instanceKeys.mp hk).2, hlk⟩
  · rintro ⟨k, hk, hlk⟩
    refine ⟨k, mem_instanceKeys.mpr ⟨?_, hk⟩, hlk⟩
    rw [← lookup_isSome, hlk]
    rfl

/-- No context of the instance is left after `drop_instance`, whatever its ranks and device. -/
theorem lookup_contextKey_dropInstance (contexts : Contexts) (instanceId : InstanceId)
    (tpRank ppRank : Nat) (deviceId : Int) :
    (contexts.dropInstance instanceId).lookup (contextKey instanceId tpRank ppRank deviceId) =
      none := by
  rw [lookup_dropInstance, if_pos (keyOf_contextKey instanceId tpRank ppRank deviceId)]

/-- `drop_instance` takes the contexts of the instance and leaves those of all others, which their
keys tell apart. -/
structure DropsOwn (contexts : Contexts) (instanceId : InstanceId) : Prop where
  keys : Function.Injective fun k : InstanceId × Nat × Nat × Int =>
    contextKey k.1 k.2.1 k.2.2.1 k.2.2.2
  own : ∀ tp pp dev,
    (contexts.dropInstance instanceId).lookup (contextKey instanceId tp pp dev) = none
  others : ∀ other tp pp dev, other ≠ instanceId →
    (contexts.dropInstance instanceId).lookup (contextKey other tp pp dev) =
      contexts.lookup (contextKey other tp pp dev)

/-- `drop_instance` is exact if no context is registered for an id that continues the dropped one,
or that the dropped one continues by ranks of the context. -/
theorem dropsOwn_iff (contexts : Contexts) (instanceId : InstanceId) :
    contexts.DropsOwn instanceId ↔
      ∀ other tp pp dev, other ≠ instanceId → contextKey other tp pp dev ∈ contexts →
        ¬ KeyOf instanceId other ∧ instanceId ≠ s!"{other}:tp{tp}" ∧
          instanceId ≠ s!"{other}:tp{tp}:pp{pp}" := by
  constructor
  · intro h other tp pp dev hne hmem
    have hkey : ¬ KeyOf instanceId (contextKey other tp pp dev) := by
      intro hkey
      have hnone := h.others other tp pp dev hne
      rw [lookup_dropInstance, if_pos hkey] at hnone
      exact AList.lookup_eq_none.mp hnone.symm hmem
    simp only [keyOf_contextKey_iff, not_or] at hkey
    exact ⟨hkey.1.1.1, hkey.1.2, hkey.2⟩
  · intro h
    refine ⟨contextKey_injective, contexts.lookup_contextKey_dropInstance instanceId, ?_⟩
    intro other tp pp dev hne
    rw [lookup_dropInstance, ite_eq_right_iff]
    intro hkey
    by_contra hlk
    have hmem : contextKey other tp pp dev ∈ contexts := by
      by_contra hmem
      exact hlk (AList.lookup_eq_none.mpr hmem).symm
    obtain ⟨hid, htp, hpp⟩ := h other tp pp dev hne hmem
    rcases keyOf_contextKey_iff.mp hkey with ((hkey | heq) | heq) | heq
    · exact hid hkey
    · exact hne heq.symm
    · exact htp heq
    · exact hpp heq

/-- A context of `a:b` goes with `a`, and one of `a` with `a:tp0`. -/
theorem drop_takes_other_instances :
    (∃ contexts metadatas,
      registerLayers ∅ (contextKey "a:b" 0 0 0) 0 [("k", .ok ⟨0, 512, 0⟩)] ⟨0, "a:b", []⟩ =
        .ok (contexts, metadatas) ∧
      contextKey "a:b" 0 0 0 ∈ contexts ∧ contextKey "a:b" 0 0 0 ∉ contexts.dropInstance "a") ∧
    ∃ contexts metadatas,
      registerLayers ∅ (contextKey "a" 0 0 0) 0 [("k", .ok ⟨0, 512, 0⟩)] ⟨0, "a", []⟩ =
        .ok (contexts, metadatas) ∧
      contextKey "a" 0 0 0 ∈ contexts ∧ contextKey "a" 0 0 0 ∉ contexts.dropInstance "a:tp0" := by
  refine ⟨⟨_, _, rfl, ?_, ?_⟩, ⟨_, _, rfl, ?_, ?_⟩⟩
  all_goals decide +kernel

end Contexts

end PegaFlow.Server
