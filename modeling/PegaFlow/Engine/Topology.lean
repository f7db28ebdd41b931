import Mathlib.Data.List.Sort
import PegaFlow.Lib.Loop
import PegaFlow.Lib.Packing
import PegaFlow.Engine.Layout

/-!
# The slots of a stored block

`LayerTopology` and `build_page_layout` of `pegaflow-core/src/instance.rs`.  Layer-first, a
slot of a stored block is a layer and a tp rank.  Page-first, the layers that one worker
holds are a shard, a slot is a shard, and a layer is at an offset in the page of its shard.
The layers of a shard do not overlap in the page (`PageLayout.disjoint`) and are inside it
(`PageLayout.inside`).

A set of layer ids is a sorted list.
-/

namespace PegaFlow.Engine

open List Option

inductive EngineError where
  | instanceMissing (id : String)
  | workerMissing (id : String) (deviceId : Int)
  | invalidArgument (message : String)
  | deviceInit (message : String)
  | storage (message : String)
deriving DecidableEq

/-! ## Page layouts -/

/-- Page-first placement: the shard and the padded size of every layer, by layer id. -/
structure PageLayout where
  layerShard : List Nat
  layerBytes : List Nat
  numShards : Nat
  length_eq : layerShard.length = layerBytes.length
  shard_lt : ∀ shard ∈ layerShard, shard < numShards

namespace PageLayout

/-- The last loop of `build_page_layout`: each layer is put at the end of its shard's
page. -/
def placement (p : PageLayout) : List Nat × (Nat → Nat) :=
  Packing.pack (p.layerShard.zip p.layerBytes) fun _ => 0

def layerOffsets (p : PageLayout) : List Nat := p.placement.1

def shardPageSizes (p : PageLayout) : List Nat := (List.range p.numShards).map p.placement.2

variable {p : PageLayout} {layer layer' shard offset offset' bytes bytes' : Nat}

section

variable (hsh : p.layerShard[layer]? = some shard) (hby : p.layerBytes[layer]? = some bytes)
include hsh hby

theorem zip_getElem? : (p.layerShard.zip p.layerBytes)[layer]? = some (shard, bytes) :=
  getElem?_zip_eq_some.mpr ⟨hsh, hby⟩

end

/-- Two layers of a shard do not overlap. -/
theorem disjoint (hne : layer ≠ layer') (hsh : p.layerShard[layer]? = some shard)
    (hsh' : p.layerShard[layer']? = some shard) (hby : p.layerBytes[layer]? = some bytes)
    (hby' : p.layerBytes[layer']? = some bytes') (hoff : p.layerOffsets[layer]? = some offset)
    (hoff' : p.layerOffsets[layer']? = some offset') :
    (⟨offset, bytes⟩ : ByteRange).Disjoint ⟨offset', bytes'⟩ := by
  have hi := zip_getElem? hsh hby
  have hi' := zip_getElem? hsh' hby'
  rcases Nat.lt_or_gt_of_ne hne with hlt | hgt
  · have hle : offset + bytes ≤ offset' := Packing.pack_ordered hlt hi hi' hoff hoff'
    exact ByteRange.disjoint_of_le hle
  · have hle : offset' + bytes' ≤ offset := Packing.pack_ordered hgt hi' hi hoff' hoff
    have hd : (⟨offset', bytes'⟩ : ByteRange).Disjoint ⟨offset, bytes⟩ :=
      ByteRange.disjoint_of_le hle
    exact hd.symm

theorem length_layerOffsets (p : PageLayout) : p.layerOffsets.length = p.layerShard.length := by
  rw [layerOffsets, placement, Packing.length_pack, length_zip, ← p.length_eq, Nat.min_self]

end PageLayout

/-- One shard claims its layers. -/
def claimLayers (names : List String) (shardId : Nat) :
    List Nat → List (Option Nat) → Except EngineError (List (Option Nat))
  | [], owner => .ok owner
  | layerId :: rest, owner =>
    match (owner[layerId]?).join with
    | some other =>
      .error (.invalidArgument s!"page-first layer {names.getD layerId default} claimed by shards {other} and {shardId}: registered layer sets must be identical (replica) or disjoint (split)")
    | none => claimLayers names shardId rest (owner.set layerId (some shardId))

/-- The shards claim their layers, in order. -/
def claimShards (names : List String) :
    Nat → List (List Nat) → List (Option Nat) → Except EngineError (List (Option Nat))
  | _, [], owner => .ok owner
  | shardId, shard :: shards, owner =>
    (claimLayers names shardId shard owner).bind (claimShards names (shardId + 1) shards)

/-- Every claimed layer has a shard below `n`. -/
def ClaimedBelow (n : Nat) (owner : List (Option Nat)) : Prop :=
  ∀ shard, some shard ∈ owner → shard < n

variable {names : List String} {shardId : Nat} {owner owner' : List (Option Nat)}

theorem claimLayers_ok {n : Nat} {layers : List Nat} (hlt : shardId < n)
    (hbelow : ClaimedBelow n owner) (h : claimLayers names shardId layers owner = .ok owner') :
    owner'.length = owner.length ∧ ClaimedBelow n owner' := by
  induction layers generalizing owner with
  | nil =>
    cases h
    exact ⟨rfl, hbelow⟩
  | cons layerId rest ih =>
    unfold claimLayers at h
    split at h
    · cases h
    have hset : ClaimedBelow n (owner.set layerId (some shardId)) := by
      intro shard hm
      rcases mem_or_eq_of_mem_set hm with ho | hnew
      · exact hbelow shard ho
      · cases hnew
        exact hlt
    obtain ⟨hlen, hbelow'⟩ := ih hset h
    exact ⟨hlen.trans (length_set ..), hbelow'⟩

theorem claimShards_ok {shards : List (List Nat)}
    (hbelow : ClaimedBelow (shardId + shards.length) owner)
    (h : claimShards names shardId shards owner = .ok owner') :
    owner'.length = owner.length ∧ ClaimedBelow (shardId + shards.length) owner' := by
  induction shards generalizing shardId owner with
  | nil =>
    cases h
    exact ⟨rfl, hbelow⟩
  | cons shard shards ih =>
    obtain ⟨next, hclm, h⟩ := Loop.bind_eq_ok.mp h
    have hlength : (shard :: shards).length = shards.length + 1 := rfl
    obtain ⟨hlen, hn⟩ := claimLayers_ok (by omega) hbelow hclm
    rw [hlength, ← Nat.add_assoc, Nat.add_right_comm] at hn ⊢
    obtain ⟨hlen', how⟩ := ih hn h
    exact ⟨hlen'.trans hlen, how⟩

variable (workerLayerSets : List (List Nat))

/-- The distinct layer sets of the workers, by least layer id. -/
def shardsOf : List (List Nat) :=
  let distinct := workerLayerSets.foldl
    (fun shards set => if set ∈ shards then shards else shards ++ [set]) []
  distinct.insertionSort fun a b => a.head?.getD (2 ^ 64 - 1) ≤ b.head?.getD (2 ^ 64 - 1)

/-- `build_page_layout`, for the names and padded sizes of the layers. -/
def buildPageLayout (layers : List (String × Nat)) : Except EngineError PageLayout :=
  let shards := shardsOf workerLayerSets
  match hclaim : claimShards (layers.map Prod.fst) 0 shards (layers.map fun _ => none) with
  | .error e => .error e
  | .ok owner =>
    match howned : owner.findIdx? Option.isNone with
    | some layerId =>
      .error (.invalidArgument s!"page-first layer {(layers.map Prod.fst).getD layerId default} has no shard owner after sealing")
    | none =>
      have hclaimed := claimShards_ok (by simp [ClaimedBelow]) hclaim
      .ok
        { layerShard := owner.map (Option.getD · 0)
          layerBytes := layers.map Prod.snd
          numShards := shards.length
          length_eq := by simpa using hclaimed.1
          shard_lt := by
            intro shard hmem
            obtain ⟨claim, hclaim, rfl⟩ := List.mem_map.mp hmem
            cases claim with
            | none =>
              exact absurd (List.findIdx?_eq_none_iff.mp howned none hclaim) (by simp)
            | some s => simpa using hclaimed.2 s hclaim }

variable {sets : List (List Nat)} {layers : List (String × Nat)} {p : PageLayout}

theorem buildPageLayout_eq_ok : buildPageLayout sets layers = .ok p ↔ ∃ owner,
        claimShards (layers.map Prod.fst) 0 (shardsOf sets) (layers.map fun _ => none) = .ok owner ∧
        owner.findIdx? Option.isNone = none ∧ p.layerShard = owner.map (Option.getD · 0) ∧
        p.layerBytes = layers.map Prod.snd ∧ p.numShards = (shardsOf sets).length := by
  unfold buildPageLayout
  dsimp only
  split
  next e hclm => simp only [hclm, reduceCtorEq, false_and, exists_false]
  next owner hclm =>
    simp only [hclm, Except.ok.injEq, existsAndEq, true_and]
    split
    next hwn => simp [hwn]
    next hwn =>
      obtain ⟨layerShard, layerBytes, numShards, hlen, hsh⟩ := p
      simp only [hwn, Except.ok.injEq, PageLayout.mk.injEq, true_and]
      constructor
      · rintro ⟨rfl, rfl, rfl⟩
        exact ⟨rfl, rfl, rfl⟩
      · rintro ⟨rfl, rfl, rfl⟩
        exact ⟨rfl, rfl, rfl⟩

theorem buildPageLayout_layerBytes
    (h : buildPageLayout sets layers = .ok p) : p.layerBytes = layers.map Prod.snd := by
  obtain ⟨_, _, _, _, hby, _⟩ := buildPageLayout_eq_ok.mp h
  exact hby

/-! ## The sealed topology -/

/-- The layer ids and slots of a sealed instance.  The id of a layer is the rank of its
name. -/
structure LayerTopology where
  names : List String
  tpSize : Nat
  pageLayout : Option PageLayout
  names_nodup : names.Nodup
  page_length : ∀ p, pageLayout = some p → p.layerBytes.length = names.length

namespace LayerTopology

variable (t : LayerTopology) (shard : Nat)

def layerId (layerName : String) : Except EngineError Nat :=
  if layerName ∈ t.names then .ok (t.names.idxOf layerName)
  else .error (.invalidArgument s!"layer {layerName} is not registered")

def numLayers : Nat := t.names.length

def isPageFirst : Bool := t.pageLayout.isSome

def totalSlots : Nat :=
  match t.pageLayout with
  | some p => p.shardPageSizes.length
  | none => t.numLayers * t.tpSize

def shardPageSize : Option Nat :=
  t.pageLayout.map fun p => p.shardPageSizes.getD shard 0

def shardLayerCount : Option Nat :=
  t.pageLayout.map fun p => (p.layerShard.filter fun s => s = shard).length

def pagePlacement (layerId : Nat) : Option (Nat × Nat) :=
  t.pageLayout.map fun p => (p.layerOffsets.getD layerId 0, p.layerBytes.getD layerId 0)

/-- The slot of a layer that `slot_index` is given in range. -/
def slotOf (layerId tpRank : Nat) : Nat :=
  match t.pageLayout with
  | some p => p.layerShard.getD layerId 0
  | none => layerId * t.tpSize + tpRank

def slotIndex (layerId tpRank : Nat) : Except EngineError Nat :=
  if t.numLayers ≤ layerId then
    .error (.invalidArgument s!"layer_id {layerId} out of range ({t.numLayers} layers)")
  else if t.tpSize ≤ tpRank then
    .error (.invalidArgument s!"tp_rank {tpRank} out of range (tp_size {t.tpSize})")
  else .ok (t.slotOf layerId tpRank)

/-- The offset of a layer in its slot: `page_placement`, or 0 layer-first. -/
def hostOffset (layerId : Nat) : Nat :=
  (t.pagePlacement layerId).elim 0 Prod.fst

variable {t : LayerTopology} {layerName : String} {layer layer' tpRank tpRank' slot : Nat}

theorem layerId_eq_ok :
    t.layerId layerName = .ok layer ↔ layerName ∈ t.names ∧ t.names.idxOf layerName = layer := by
  unfold layerId
  split <;> simp_all

theorem slotIndex_eq_ok :
    t.slotIndex layer tpRank = .ok slot ↔
      layer < t.numLayers ∧ tpRank < t.tpSize ∧ t.slotOf layer tpRank = slot := by
  unfold slotIndex
  split
  · simp only [reduceCtorEq, false_iff]
    omega
  · split
    · simp only [reduceCtorEq, false_iff]
      omega
    · simp only [Except.ok.injEq]
      omega

variable {p : PageLayout}

/-- Page-first, the slot of a layer is its shard. -/
theorem layerShard_eq (hp : t.pageLayout = some p) (hl : layer < t.numLayers) (tpRank : Nat) :
    p.layerShard[layer]? = some (t.slotOf layer tpRank) := by
  have hlt : layer < p.layerShard.length := by
    rw [p.length_eq, t.page_length p hp]
    exact hl
  simp only [slotOf, hp]
  rw [getD_eq_getElem?_getD, getElem?_eq_getElem hlt, getD_some]

theorem slotOf_lt (hl : layer < t.numLayers) (hr : tpRank < t.tpSize) :
    t.slotOf layer tpRank < t.totalSlots := by
  cases hp : t.pageLayout with
  | none =>
    have hmul := Nat.mul_le_mul_right t.tpSize (Nat.succ_le_of_lt hl)
    rw [Nat.succ_mul] at hmul
    simp only [slotOf, totalSlots, hp]
    omega
  | some p =>
    have hsh := p.shard_lt _ (mem_of_getElem? (layerShard_eq hp hl tpRank))
    simpa only [totalSlots, hp, PageLayout.shardPageSizes, length_map, length_range] using hsh

theorem layerOffsets_eq (hp : t.pageLayout = some p) (hl : layer < t.numLayers) :
    p.layerOffsets[layer]? = some (t.hostOffset layer) := by
  have hlt : layer < p.layerOffsets.length := by
    rw [p.length_layerOffsets, p.length_eq, t.page_length p hp]
    exact hl
  simp only [hostOffset, pagePlacement, hp, map_some, elim_some]
  rw [getD_eq_getElem?_getD, getElem?_eq_getElem hlt, getD_some]

/-- Layer-first, a slot belongs to one layer and one tp rank. -/
theorem slotOf_inj (hp : t.pageLayout = none) (hr : tpRank < t.tpSize)
    (hr' : tpRank' < t.tpSize) (h : t.slotOf layer tpRank = t.slotOf layer' tpRank') :
    layer = layer' ∧ tpRank = tpRank' := by
  simp only [slotOf, hp] at h
  have hdiv := congrArg (· / t.tpSize) h
  have hmod := congrArg (· % t.tpSize) h
  simp only [Nat.mul_add_mod_of_lt, hr, hr'] at hmod
  simp only [Nat.mul_comm _ t.tpSize, Nat.mul_add_div (Nat.zero_lt_of_lt hr),
    Nat.div_eq_of_lt hr, Nat.div_eq_of_lt hr', Nat.add_zero] at hdiv
  exact ⟨hdiv, hmod⟩

/-- Page-first, a slot does not depend on the tp rank, so a slot that a tp rank has a layer
in is the slot of its every layer in there. -/
theorem slotOf_eq_of_eq (hr : tpRank < t.tpSize) (hr' : tpRank' < t.tpSize)
    (h : t.slotOf layer tpRank = t.slotOf layer' tpRank') :
    t.slotOf layer tpRank' = t.slotOf layer tpRank := by
  cases hp : t.pageLayout with
  | none => rw [(slotOf_inj hp hr hr' h).2]
  | some p => simp only [slotOf, hp]

end LayerTopology

end PegaFlow.Engine
