import PegaFlow.Lib.Run
import PegaFlow.MetaServer.Store

/-!
# Sessions of the MetaServer

The operations of `BlockHashStore` one after another, by any nodes and sessions, under a clock that
does not run backwards.  Sessions of one node take over from each other while the owner records of
older sessions stay in the table, so what a query lists is tied to what happened by the log of the
operations and their replies.

An owner record in the table is the trace of an accepted insertion by the session it names, and that
session has neither removed the key nor unregistered since (`Server.Traced`).  A query adds that the
session is the current one of the node, and that the node was seen recently.
-/

namespace PegaFlow.MetaServer

open List Option AList Table Run

inductive Op where
  | heartbeat (node : Node) (nodeId : NodeId) (now : Nat)
  | unregister (node : Node) (nodeId : NodeId)
  | insert (nameSpace : String) (hashes : List BlockHash) (node : Node) (nodeId : NodeId)
      (touchAt now : Nat)
  | remove (nameSpace : String) (hashes : List BlockHash) (node : Node) (nodeId : NodeId)
      (now : Nat)
  | sweep (now : Nat)
deriving DecidableEq

inductive Reply where
  | done
  | count (n : Nat)
  | swept (stats : SweepStats)
deriving DecidableEq

namespace Op

/-- The node an operation names. -/
def node : Op → Option Node
  | heartbeat node _ _ => some node
  | unregister node _ => some node
  | insert _ _ node _ _ _ => some node
  | remove _ _ node _ _ => some node
  | sweep _ => none

variable (n : Node) (key : BlockKey) (id : NodeId)

/-- The operation asks to insert the key for the node, in the name of the session. -/
def Inserts : Op → Prop
  | insert nameSpace hashes node nodeId _ _ =>
    node = n ∧ nodeId = id ∧ nameSpace = key.nameSpace ∧ key.hash ∈ hashes
  | _ => False

/-- The operation asks to remove the key of the node, or to unregister the node, in the name of the
session. -/
def Ends : Op → Prop
  | remove nameSpace hashes node nodeId _ =>
    node = n ∧ nodeId = id ∧ nameSpace = key.nameSpace ∧ key.hash ∈ hashes
  | unregister node nodeId => node = n ∧ nodeId = id
  | _ => False

/-- The clock after the operation has read it; `none` if it ran backwards. -/
def tick (clock : Nat) : Op → Option Nat
  | heartbeat _ _ now => if clock ≤ now then some now else none
  | unregister _ _ => some clock
  | insert _ _ _ _ touchAt now => if clock ≤ touchAt ∧ touchAt ≤ now then some now else none
  | remove _ _ _ _ now => if clock ≤ now then some now else none
  | sweep now => if clock ≤ now then some now else none

theorem le_of_tick {clock clock' : Nat} {op : Op} (h : op.tick clock = some clock') :
    clock ≤ clock' := by
  cases op with
  | heartbeat _ _ now | remove _ _ _ _ now | sweep now =>
    obtain ⟨hle, rfl⟩ := guarded_eq_some.mp h
    exact hle
  | unregister => cases h; exact le_rfl
  | insert _ _ _ _ touchAt now =>
    obtain ⟨⟨htouch, hnow⟩, rfl⟩ := guarded_eq_some.mp h
    exact Nat.le_trans htouch hnow

end Op

namespace BlockHashStore

variable (c : StoreConfig) (s : BlockHashStore)

def serve : Op → BlockHashStore × Except StoreError Reply
  | .heartbeat node nodeId now =>
    let (s, r) := s.heartbeatNode c node nodeId now
    (s, r.map fun _ => .done)
  | .unregister node nodeId =>
    let (s, r) := s.unregisterNode node nodeId
    (s, r.map .count)
  | .insert nameSpace hashes node nodeId touchAt now =>
    let (s, r) := s.insertHashes nameSpace hashes node nodeId touchAt now
    (s, r.map .count)
  | .remove nameSpace hashes node nodeId now =>
    let (s, r) := s.removeHashes nameSpace hashes node nodeId now
    (s, r.map .count)
  | .sweep now =>
    let (s, stats) := s.sweepExpired c now
    (s, .ok (.swept stats))

/-- A query for the key lists the node. -/
def Lists (now : Nat) (key : BlockKey) (n : Node) : Prop :=
  ∃ entry ∈ s.queryPrefix c key.nameSpace now [key.hash], n ∈ entry.nodes

end BlockHashStore

/-- The store, the clock and the operations so far with their replies, newest first. -/
structure Server where
  store : BlockHashStore
  clock : Nat
  log : List (Op × Except StoreError Reply)

namespace Server

def new : Server := ⟨.new, 0, []⟩

def step (c : StoreConfig) (s : Server) (op : Op) : Option Server :=
  (op.tick s.clock).map fun clock =>
    { store := (s.store.serve c op).1, clock, log := (op, (s.store.serve c op).2) :: s.log }

end Server

/-- The session inserted the key for the node, and since then it has neither removed it nor
unregistered. -/
def InsertedSince (log : List (Op × Except StoreError Reply)) (n : Node) (key : BlockKey)
    (id : NodeId) : Prop :=
  ∃ later op reply earlier, log = later ++ (op, .ok reply) :: earlier ∧ op.Inserts n key id ∧
    ∀ op' reply', (op', .ok reply') ∈ later → ¬ op'.Ends n key id

theorem InsertedSince.cons {log : List (Op × Except StoreError Reply)} {n : Node} {key : BlockKey}
    {id : NodeId} {op : Op} {reply : Except StoreError Reply} (h : InsertedSince log n key id)
    (hop : ∀ r, reply = .ok r → ¬ op.Ends n key id) :
    InsertedSince ((op, reply) :: log) n key id := by
  obtain ⟨later, iop, ireply, earlier, rfl, hins, hlat⟩ := h
  refine ⟨(op, reply) :: later, iop, ireply, earlier, rfl, hins, ?_⟩
  intro op' reply' hm
  rcases mem_cons.mp hm with heq | hm
  · obtain ⟨rfl, hr⟩ := Prod.mk.inj heq
    exact hop reply' hr.symm
  · exact hlat op' reply' hm

/-! ## What an operation does to one owner record -/

namespace Owners

variable {owners : Owners} {node n : Node} {nodeId : NodeId}

theorem writtenBy_eq_true :
    owners.writtenBy node nodeId ↔
      ∃ owner, owners.lookup node = some owner ∧ owner.nodeId = nodeId := by
  rw [writtenBy, Option.any_eq_true]
  simp only [beq_iff_eq]

theorem lookup_drop {owner : OwnerRecord} :
    (owners.drop node nodeId).lookup n = some owner ↔
      owners.lookup n = some owner ∧ ¬ (n = node ∧ owner.nodeId = nodeId) := by
  rw [drop]
  by_cases hn : n = node
  · subst hn
    split
    next hw =>
      obtain ⟨o, hl, hid⟩ := writtenBy_eq_true.mp hw
      rw [lookup_erase, hl]
      constructor
      · intro h
        cases h
      · rintro ⟨heq, hne⟩
        cases heq
        exact absurd ⟨rfl, hid⟩ hne
    next hw =>
      refine ⟨fun hl => ⟨hl, fun hid => hw (writtenBy_eq_true.mpr ⟨owner, hl, hid.2⟩)⟩, And.left⟩
  · split <;> simp [hn, lookup_erase_ne]

theorem kept_eq_some {owners' : Owners} :
    owners.kept = some owners' ↔ owners = owners' ∧ owners ≠ ∅ := by
  have hemp : owners.entries.isEmpty ↔ owners = ∅ :=
    List.isEmpty_iff.trans ⟨fun h => ext h, fun h => by rw [h]; rfl⟩
  rw [kept, ite_none_left_eq_some, hemp, some.injEq, and_comm]

theorem kept_bind : owners.kept.bind (fun owners => owners.lookup n) = owners.lookup n := by
  rw [kept]
  split
  next h => rw [AList.lookup, List.isEmpty_iff.mp h]; rfl
  next => rfl

end Owners

namespace BlockHashStore

variable {c : StoreConfig} {s s' : BlockHashStore} {key : BlockKey} {n node : Node}
variable {nodeId : NodeId} {nameSpace : String} {hash : BlockHash} {hashes : List BlockHash}

/-- The record of a node among the owners of a key. -/
def owner (s : BlockHashStore) (key : BlockKey) (n : Node) : Option OwnerRecord :=
  (s.blocks.lookup key).bind fun owners => owners.lookup n

theorem owner_insertHash (o : OwnerRecord) :
    (insertHash nameSpace node o s hash).owner key n =
      if n = node ∧ key = ⟨nameSpace, hash⟩ then some o else s.owner key n := by
  rw [owner, insertHash]
  by_cases hk : key = ⟨nameSpace, hash⟩
  · subst hk
    rw [lookup_insert, bind_some]
    by_cases hn : n = node
    · subst hn
      simp [lookup_insert]
    · rw [lookup_insert_ne hn, owner]
      cases s.blocks.lookup ⟨nameSpace, hash⟩ <;> simp [hn]
  · rw [lookup_insert_ne hk, if_neg fun h => hk h.2]
    rfl

theorem owner_insertHashes (o : OwnerRecord) :
    (hashes.foldl (insertHash nameSpace node o) s).owner key n =
      if n = node ∧ nameSpace = key.nameSpace ∧ key.hash ∈ hashes then some o
      else s.owner key n := by
  induction hashes generalizing s with
  | nil => simp
  | cons hash hashes ih =>
    rw [foldl_cons, ih, owner_insertHash]
    obtain ⟨ns, h⟩ := key
    simp only [BlockKey.mk.injEq, mem_cons]
    grind

variable {acc : BlockHashStore × Nat} {o : OwnerRecord}

theorem owner_removeHash :
    (removeHash nameSpace node nodeId acc hash).1.owner key n = some o ↔
      acc.1.owner key n = some o ∧
        ¬ (n = node ∧ key = ⟨nameSpace, hash⟩ ∧ o.nodeId = nodeId) := by
  rw [removeHash]
  by_cases hk : key = ⟨nameSpace, hash⟩
  · subst hk
    split
    next hl => simp [owner, hl]
    next owners hl =>
      have hdrop : (owners.drop node nodeId).lookup n = some o ↔ _ := Owners.lookup_drop
      rw [← Owners.kept_bind] at hdrop
      simp only [owner, hl, bind_some, true_and]
      rw [← hdrop]
      cases (owners.drop node nodeId).kept with
      | none => simp [lookup_erase]
      | some kept => simp [lookup_insert]
  · split
    next => simp [hk]
    next owners hl =>
      simp only [owner, hk, false_and, and_false, not_false_eq_true, and_true]
      split
      · rw [lookup_erase_ne hk]
      · rw [lookup_insert_ne hk]

theorem owner_removeHashes :
    (hashes.foldl (removeHash nameSpace node nodeId) acc).1.owner key n = some o ↔
      acc.1.owner key n = some o ∧
        ¬ (n = node ∧ (nameSpace = key.nameSpace ∧ key.hash ∈ hashes) ∧ o.nodeId = nodeId) := by
  induction hashes generalizing acc with
  | nil => simp
  | cons hash hashes ih =>
    rw [foldl_cons, ih, owner_removeHash]
    obtain ⟨ns, h⟩ := key
    simp only [BlockKey.mk.injEq, mem_cons]
    grind

variable {f : Owners → Owners} {blocks : Table BlockKey Owners}

theorem owner_filterMap (h : s.blocks = blocks.filterMap fun _ owners => (f owners).kept) :
    s.owner key n = some o ↔ ∃ owners, blocks.lookup key = some owners ∧
      (f owners).lookup n = some o := by
  rw [owner, h, lookup_filterMap, bind_assoc]
  simp only [Owners.kept_bind, bind_eq_some_iff]

theorem owner_removeNodeOwners :
    (s.removeNodeOwners node nodeId).1.owner key n = some o ↔
      s.owner key n = some o ∧ ¬ (n = node ∧ o.nodeId = nodeId) := by
  rw [owner_filterMap (f := fun owners => owners.drop node nodeId) rfl, owner, bind_eq_some_iff]
  simp only [Owners.lookup_drop, ← and_assoc, exists_and_right]

variable {now : Nat}

theorem owner_sweepExpired :
    (s.sweepExpired c now).1.owner key n = some o ↔
      s.owner key n = some o ∧ (s.evalOwner c n o now).keep := by
  rw [owner_filterMap (f := s.sweepOwners c now) rfl, owner]
  simp only [sweepOwners, lookup_filterMap, bind_eq_some_iff, ite_none_right_eq_some, some.injEq]
  grind

/-! ## The operations -/

/-- What an accepted operation does. -/
inductive Effect (c : StoreConfig) (s : BlockHashStore) : Op → BlockHashStore → Prop where
  | heartbeat {node : Node} {nodeId : NodeId} {now : Nat} :
      Effect c s (.heartbeat node nodeId now)
        { s with nodes := s.nodes.insert node ⟨nodeId, now⟩ }
  | unregister {node : Node} {nodeId : NodeId} :
      Effect c s (.unregister node nodeId)
        ({ s with nodes := s.nodes.erase node }.removeNodeOwners node nodeId).1
  | insert {nameSpace : String} {hashes : List BlockHash} {node : Node} {nodeId : NodeId}
      {touchAt now : Nat} :
      Effect c s (.insert nameSpace hashes node nodeId touchAt now)
        (hashes.foldl (insertHash nameSpace node ⟨nodeId, now⟩)
          { s with nodes := s.nodes.insert node ⟨nodeId, touchAt⟩ })
  | remove {nameSpace : String} {hashes : List BlockHash} {node : Node} {nodeId : NodeId}
      {now : Nat} :
      Effect c s (.remove nameSpace hashes node nodeId now)
        (hashes.foldl (removeHash nameSpace node nodeId)
          ({ s with nodes := s.nodes.insert node ⟨nodeId, now⟩ }, 0)).1
  | sweep {now : Nat} : Effect c s (.sweep now) (s.sweepExpired c now).1

variable (c) (s)

theorem touchNodeSession_cases (node : Node) (nodeId : NodeId) (now : Nat) :
    s.touchNodeSession node nodeId now =
        ({ s with nodes := s.nodes.insert node ⟨nodeId, now⟩ }, .ok ()) ∨
      ∃ e, s.touchNodeSession node nodeId now = (s, .error e) := by
  rw [touchNodeSession]
  split
  next => exact Or.inr ⟨_, rfl⟩
  next record hl =>
    split
    next => exact Or.inr ⟨_, rfl⟩
    next hid =>
      obtain rfl : record.nodeId = nodeId := not_not.mp hid
      exact Or.inl rfl

theorem heartbeatNode_cases (node : Node) (nodeId : NodeId) (now : Nat) :
    s.heartbeatNode c node nodeId now =
        ({ s with nodes := s.nodes.insert node ⟨nodeId, now⟩ }, .ok ()) ∨
      ∃ e, s.heartbeatNode c node nodeId now = (s, .error e) := by
  rw [heartbeatNode]
  split
  next => exact Or.inl rfl
  next =>
    split
    next => exact Or.inl rfl
    next => exact Or.inr ⟨_, rfl⟩

theorem unregisterNode_cases (node : Node) (nodeId : NodeId) :
    (∃ removed, s.unregisterNode node nodeId =
        (({ s with nodes := s.nodes.erase node }.removeNodeOwners node nodeId).1, .ok removed)) ∨
      ∃ e, s.unregisterNode node nodeId = (s, .error e) := by
  rw [unregisterNode]
  split
  next => exact Or.inr ⟨_, rfl⟩
  next =>
    split
    next => exact Or.inl ⟨_, rfl⟩
    next => exact Or.inr ⟨_, rfl⟩

/-- An operation is accepted and takes effect, or it is rejected and changes nothing. -/
theorem serve_cases (op : Op) :
    (∃ reply, (s.serve c op).2 = .ok reply ∧ Effect c s op (s.serve c op).1) ∨
      ∃ e, s.serve c op = (s, .error e) := by
  cases op with
  | heartbeat node nodeId now =>
    rw [serve]
    obtain h | ⟨e, h⟩ := s.heartbeatNode_cases c node nodeId now
    · rw [h]
      exact Or.inl ⟨_, rfl, .heartbeat⟩
    · rw [h]
      exact Or.inr ⟨_, rfl⟩
  | unregister node nodeId =>
    rw [serve]
    obtain ⟨removed, h⟩ | ⟨e, h⟩ := s.unregisterNode_cases node nodeId
    · rw [h]
      exact Or.inl ⟨_, rfl, .unregister⟩
    · rw [h]
      exact Or.inr ⟨_, rfl⟩
  | insert nameSpace hashes node nodeId touchAt now =>
    rw [serve, insertHashes]
    obtain h | ⟨e, h⟩ := s.touchNodeSession_cases node nodeId touchAt
    · rw [h]
      exact Or.inl ⟨_, rfl, .insert⟩
    · rw [h]
      exact Or.inr ⟨_, rfl⟩
  | remove nameSpace hashes node nodeId now =>
    rw [serve, removeHashes]
    obtain h | ⟨e, h⟩ := s.touchNodeSession_cases node nodeId now
    · rw [h]
      exact Or.inl ⟨_, rfl, .remove⟩
    · rw [h]
      exact Or.inr ⟨_, rfl⟩
  | sweep now => exact Or.inl ⟨_, rfl, .sweep⟩

variable {c} {s}

variable {op : Op}

/-- An owner record after an operation was written by it, or it was there and the operation does
not end it. -/
theorem Effect.owner_eq_some (h : Effect c s op s') (ho : s'.owner key n = some o) :
    op.Inserts n key o.nodeId ∨ s.owner key n = some o ∧ ¬ op.Ends n key o.nodeId := by
  cases h with
  | heartbeat => exact Or.inr ⟨ho, id⟩
  | unregister =>
    obtain ⟨hold, hne⟩ := owner_removeNodeOwners.mp ho
    exact Or.inr ⟨hold, fun hes => hne ⟨hes.1.symm, hes.2.symm⟩⟩
  | insert =>
    rw [owner_insertHashes] at ho
    split at ho
    next hins =>
      cases ho
      exact Or.inl ⟨hins.1.symm, rfl, hins.2⟩
    next => exact Or.inr ⟨ho, id⟩
  | remove =>
    obtain ⟨hold, hne⟩ := owner_removeHashes.mp ho
    refine Or.inr ⟨hold, fun hes => hne ⟨hes.1.symm, hes.2.2, hes.2.1.symm⟩⟩
  | sweep => exact Or.inr ⟨(owner_sweepExpired.mp ho).1, id⟩

theorem nodes_foldl_insertHash (o : OwnerRecord) :
    (hashes.foldl (insertHash nameSpace node o) s).nodes = s.nodes :=
  foldlRecOn hashes _ (motive := fun t : BlockHashStore => t.nodes = s.nodes) rfl
    fun _ ht _ _ => ht

theorem nodes_foldl_removeHash (acc : BlockHashStore × Nat) :
    (hashes.foldl (removeHash nameSpace node nodeId) acc).1.nodes = acc.1.nodes := by
  refine foldlRecOn hashes _
    (motive := fun t : BlockHashStore × Nat => t.1.nodes = acc.1.nodes) rfl ?_
  intro t ht hash _
  rw [removeHash]
  split
  · exact ht
  · exact ht

/-- An operation that names a node leaves the owner records and the sessions of the others. -/
theorem Effect.frame (h : Effect c s op s') (hop : op.node = some node) (hn : n ≠ node) :
    (∀ key, s'.owner key n = s.owner key n) ∧ s'.nodes.lookup n = s.nodes.lookup n := by
  cases h with
  | heartbeat =>
    cases hop
    exact ⟨fun key => rfl, lookup_insert_ne hn⟩
  | unregister =>
    cases hop
    refine ⟨fun key => ext fun o => ?_, lookup_erase_ne hn⟩
    rw [owner_removeNodeOwners]
    simp [hn, owner]
  | insert =>
    cases hop
    refine ⟨fun key => ?_, ?_⟩
    · rw [owner_insertHashes, if_neg fun h => hn h.1]
      rfl
    · rw [nodes_foldl_insertHash]
      exact lookup_insert_ne hn
  | remove =>
    cases hop
    refine ⟨fun key => ext fun o => ?_, ?_⟩
    · rw [owner_removeHashes]
      simp [hn, owner]
    · rw [nodes_foldl_removeHash]
      exact lookup_insert_ne hn
  | sweep => cases hop

/-- Every key of the table has an owner. -/
def Keyed (s : BlockHashStore) : Prop :=
  ∀ key owners, s.blocks.lookup key = some owners → owners ≠ ∅

theorem keyed_insertHash (h : s.Keyed) : (insertHash nameSpace node o s hash).Keyed := by
  intro key owners hl
  obtain ⟨-, rfl⟩ | ⟨-, hl⟩ := lookup_of_insert hl
  · intro hemp
    have hlk := lookup_insert (a := node) (b := o) ((s.blocks.lookup ⟨nameSpace, hash⟩).getD ∅)
    rw [hemp] at hlk
    cases hlk
  · exact h key owners hl

theorem keyed_removeHash (h : acc.1.Keyed) :
    (removeHash nameSpace node nodeId acc hash).1.Keyed := by
  rw [removeHash]
  split
  next => exact h
  next dropped _ =>
    intro key owners hl
    split at hl
    next => exact h key owners (lookup_of_erase hl).2
    next kept hk =>
      obtain ⟨-, rfl⟩ | ⟨-, hl⟩ := lookup_of_insert hl
      · obtain ⟨rfl, hne⟩ := Owners.kept_eq_some.mp hk
        exact hne
      · exact h key owners hl

theorem keyed_filterMap (h : s.blocks = blocks.filterMap fun _ owners => (f owners).kept) :
    s.Keyed := by
  intro key owners hl
  rw [h, lookup_filterMap, bind_eq_some_iff] at hl
  obtain ⟨before, -, hk⟩ := hl
  obtain ⟨rfl, hne⟩ := Owners.kept_eq_some.mp hk
  exact hne

theorem Effect.keyed (h : Effect c s op s') (hs : s.Keyed) : s'.Keyed := by
  cases h with
  | heartbeat => exact hs
  | @unregister node nodeId =>
    exact keyed_filterMap (f := fun owners => owners.drop node nodeId) rfl
  | insert => exact foldlRecOn _ _ (motive := Keyed) hs fun _ ht _ _ => keyed_insertHash ht
  | remove =>
    exact foldlRecOn _ _ (motive := fun t : BlockHashStore × Nat => t.1.Keyed) hs
      fun _ ht _ _ => keyed_removeHash ht
  | @sweep now => exact keyed_filterMap (f := s.sweepOwners c now) rfl

/-- No node was seen later than the clock. -/
def SeenBy (s : BlockHashStore) (clock : Nat) : Prop :=
  ∀ n record, s.nodes.lookup n = some record → record.lastSeen ≤ clock

variable {clock : Nat}

theorem SeenBy.insert (h : s.SeenBy clock) (hle : clock ≤ now) {t : Nat} (ht : t ≤ now) :
    ∀ n record, (s.nodes.insert node ⟨nodeId, t⟩).lookup n = some record →
      record.lastSeen ≤ now := by
  intro n record hl
  obtain ⟨-, rfl⟩ | ⟨-, hl⟩ := lookup_of_insert hl
  · exact ht
  · exact Nat.le_trans (h n record hl) hle

theorem Effect.seenBy {clock' : Nat} (h : Effect c s op s') (htick : op.tick clock = some clock')
    (hs : s.SeenBy clock) : s'.SeenBy clock' := by
  have hle := Op.le_of_tick htick
  cases h with
  | heartbeat =>
    obtain ⟨-, rfl⟩ := guarded_eq_some.mp htick
    exact hs.insert hle le_rfl
  | unregister =>
    cases htick
    exact fun n record hl => hs n record (lookup_of_erase hl).2
  | insert =>
    obtain ⟨hclock, rfl⟩ := guarded_eq_some.mp htick
    rw [SeenBy, nodes_foldl_insertHash]
    exact hs.insert hle hclock.2
  | remove =>
    obtain ⟨-, rfl⟩ := guarded_eq_some.mp htick
    rw [SeenBy, nodes_foldl_removeHash]
    exact hs.insert hle le_rfl
  | sweep =>
    intro n record hl
    rw [sweepExpired, lookup_retain, filter_eq_some_iff] at hl
    exact Nat.le_trans (hs n record hl.1) hle

/-! ## Queries -/

theorem isOwnerVisible_eq_true :
    s.isOwnerVisible c n o now ↔
      ∃ record, s.nodes.lookup n = some record ∧ record.nodeId = o.nodeId ∧
        now - record.lastSeen ≤ c.nodeStaleAfter := by
  rw [isOwnerVisible, evalOwner]
  cases s.nodes.lookup n with
  | none | some record => simp

theorem mem_liveNodes {owners : Owners} :
    n ∈ s.liveNodes c owners now ↔
      ∃ o, owners.lookup n = some o ∧ s.isOwnerVisible c n o now := by
  simp only [liveNodes, mem_filterMap, ite_none_right_eq_some, some.injEq, Sigma.exists]
  constructor
  · rintro ⟨m, o, hm, hvis, rfl⟩
    exact ⟨o, mem_lookup_iff.mpr hm, hvis⟩
  · rintro ⟨o, hl, hvis⟩
    exact ⟨n, o, mem_lookup_iff.mp hl, hvis, rfl⟩

/-- A query lists only nodes with a visible owner record. -/
theorem visible_of_mem_queryPrefix {entry : PrefixEntry}
    (h : entry ∈ s.queryPrefix c nameSpace now hashes) (hn : n ∈ entry.nodes) :
    ∃ o, s.owner ⟨nameSpace, entry.blockHash⟩ n = some o ∧ s.isOwnerVisible c n o now := by
  induction hashes with
  | nil => cases h
  | cons hash hashes ih =>
    rw [queryPrefix] at h
    split at h
    next => cases h
    next owners hl =>
      split at h
      next => cases h
      next =>
        rcases mem_cons.mp h with rfl | h
        · obtain ⟨o, ho, hvis⟩ := mem_liveNodes.mp hn
          exact ⟨o, by rw [owner, hl]; exact ho, hvis⟩
        · exact ih h

theorem lists_iff :
    s.Lists c now key n ↔
      ∃ o, s.owner key n = some o ∧ s.isOwnerVisible c n o now := by
  constructor
  · rintro ⟨entry, hent, hn⟩
    have h := visible_of_mem_queryPrefix hent hn
    rw [queryPrefix] at hent
    split at hent
    next => cases hent
    next =>
      split at hent
      next => cases hent
      next =>
        obtain rfl := mem_singleton.mp hent
        exact h
  · rintro ⟨o, ho, hvis⟩
    obtain ⟨owners, hl, ho⟩ := bind_eq_some_iff.mp ho
    have hn : n ∈ s.liveNodes c owners now := mem_liveNodes.mpr ⟨o, ho, hvis⟩
    refine ⟨⟨key.hash, s.liveNodes c owners now⟩, ?_, hn⟩
    simp [queryPrefix, hl, ne_nil_of_mem hn]

/-- An operation that names a node does not change which other nodes a query lists. -/
theorem serve_lists_iff (hop : op.node = some node) (hn : n ≠ node) :
    (s.serve c op).1.Lists c now key n ↔ s.Lists c now key n := by
  obtain ⟨reply, -, heffect⟩ | ⟨e, h⟩ := s.serve_cases c op
  · obtain ⟨how, hnd⟩ := heffect.frame hop hn
    simp only [lists_iff, isOwnerVisible_eq_true, how key, hnd]
  · rw [h]

end BlockHashStore

/-! ## Whole runs -/

namespace Server

variable {c : StoreConfig} {s s' : Server} {op : Op} {ops : List Op}

/-- What holds in every state of a run. -/
structure Inv (s : Server) : Prop where
  traced : ∀ key n o, s.store.owner key n = some o → InsertedSince s.log n key o.nodeId
  keyed : s.store.Keyed
  seen : s.store.SeenBy s.clock

theorem inv_new : new.Inv where
  traced := fun key n o h => by cases h
  keyed := fun key owners h => by cases h
  seen := fun n record h => by cases h

theorem inv_step (hs : s.Inv) (h : s.step c op = some s') : s'.Inv := by
  obtain ⟨clock, htick, rfl⟩ := map_eq_some_iff.mp h
  obtain ⟨reply, hr, heffect⟩ | ⟨e, heq⟩ := s.store.serve_cases c op
  · refine ⟨?_, heffect.keyed hs.keyed, heffect.seenBy htick hs.seen⟩
    intro key n o ho
    simp only [hr]
    rcases heffect.owner_eq_some ho with hins | ⟨hold, hes⟩
    · exact ⟨[], op, reply, s.log, rfl, hins, fun _ _ hm => absurd hm not_mem_nil⟩
    · exact (hs.traced key n o hold).cons fun _ _ => hes
  · simp only [heq]
    refine ⟨?_, hs.keyed, ?_⟩
    · intro key n o ho
      exact (hs.traced key n o ho).cons fun _ herr => by cases herr
    · intro n record hl
      exact Nat.le_trans (hs.seen n record hl) (Op.le_of_tick htick)

theorem inv_of_exec (h : Run.exec (step c) new ops = some s) : s.Inv :=
  exec_invariant (fun _ _ _ => inv_step) inv_new h

/-- After any operations: a query lists a node for a key only if the current session of the node
is fresh, has inserted the key and has neither removed it nor unregistered since.  An operation that
is rejected changes nothing, one that names a node leaves what queries list of the others, and every
key has an owner. -/
theorem session_soundness (h : Run.exec (step c) new ops = some s) :
    (∀ nameSpace hashes now, s.clock ≤ now →
      ∀ entry ∈ s.store.queryPrefix c nameSpace now hashes, ∀ n ∈ entry.nodes,
        ∃ record, s.store.nodes.lookup n = some record ∧
          (record.lastSeen ≤ now ∧ now ≤ record.lastSeen + c.nodeStaleAfter) ∧
          InsertedSince s.log n ⟨nameSpace, entry.blockHash⟩ record.nodeId) ∧
      (∀ op e, (s.store.serve c op).2 = .error e → (s.store.serve c op).1 = s.store) ∧
      (∀ op node, op.node = some node → ∀ n, n ≠ node → ∀ now key,
        (s.store.serve c op).1.Lists c now key n ↔ s.store.Lists c now key n) ∧
      ∀ key owners, s.store.blocks.lookup key = some owners → owners ≠ ∅ := by
  have hinv := inv_of_exec h
  refine ⟨?_, ?_, fun op node hop n hn now key => BlockHashStore.serve_lists_iff hop hn, hinv.keyed⟩
  · intro nameSpace hashes now hnow entry hentry n hn
    obtain ⟨o, ho, hvis⟩ := BlockHashStore.visible_of_mem_queryPrefix hentry hn
    obtain ⟨record, hl, hid, hage⟩ := BlockHashStore.isOwnerVisible_eq_true.mp hvis
    refine ⟨record, hl, ⟨Nat.le_trans (hinv.seen n record hl) hnow, by omega⟩, ?_⟩
    rw [hid]
    exact hinv.traced _ _ _ ho
  · intro op e herror
    obtain ⟨reply, hreply, -⟩ | ⟨e', heq⟩ := s.store.serve_cases c op
    · rw [hreply] at herror
      cases herror
    · rw [heq]

/-- Session 1 goes silent and session 2 takes the node over; the query lists what session 2 has
inserted. -/
theorem session_soundness_takeover :
    ∃ s, Run.exec (step ⟨30, 7200⟩) new
        [.heartbeat "a" 1 0, .insert "m" [[1], [2]] "a" 1 1 1, .heartbeat "a" 2 40,
          .insert "m" [[1]] "a" 2 41 42] = some s ∧
      (∃ entry ∈ s.store.queryPrefix ⟨30, 7200⟩ "m" 50 [[1], [2]], "a" ∈ entry.nodes) ∧
      InsertedSince s.log "a" ⟨"m", [1]⟩ 2 := by
  refine exists_mem_of_eq rfl fun hrun => ?_
  refine ⟨by decide, ?_⟩
  obtain ⟨record, hl, -, hins⟩ := (session_soundness hrun).1
    "m" [[1], [2]] 50 (by decide) ⟨[1], ["a"]⟩ (by decide) "a" (by decide)
  cases hl
  exact hins

end Server

end PegaFlow.MetaServer
