import PegaFlow.Lib.Claims
import PegaFlow.Engine.Instance

/-!
# Sealing does not depend on the order of the devices

`seal_topology` walks hash maps: the registered devices, and the layers of each.  It succeeds
for one order of the devices exactly if it succeeds for every order, and then with one
topology (`InstanceContext.sealTopology_perm`).

The walk over the geometries and the walk over the pipeline stages are lists of claims, so they
are functions of the set of the claims (`collectGeometry_iff_claims`, `claimOwners_iff_claims`).
The layer names are sorted, so they are a function of the set of the names.  The shards of a
page layout are sorted by their least layer only, which does not separate two shards with the
same least layer; but such shards overlap, and a layer that two shards claim is refused
(`claimShards_disjoint`).
-/

namespace PegaFlow.Engine

open List AList Run

/-- Where a relation separates the members of a list, sorting by it forgets their order. -/
theorem insertionSort_eq_of_perm {α : Type*} (r : α → α → Prop) [DecidableRel r] [Std.Total r]
    [IsTrans α r] {l l' : List α} (hp : l.Perm l')
    (hanti : ∀ a ∈ l, ∀ b ∈ l, r a b → r b a → a = b) : l.insertionSort r = l'.insertionSort r := by
  have hsorted : (l.insertionSort r).Perm (l'.insertionSort r) :=
    ((perm_insertionSort r l).trans hp).trans (perm_insertionSort r l').symm
  refine hsorted.eq_of_pairwise ?_ (pairwise_insertionSort r l) (pairwise_insertionSort r l')
  intro a b ha hb
  exact hanti a ((mem_insertionSort r).mp ha) b (hp.mem_iff.mpr ((mem_insertionSort r).mp hb))

/-! ## Geometries -/

/-- What a layer of a device claims of its name. -/
def geometryClaim (entry : Int × String × KVCacheLayout) : String × Geometry :=
  (entry.2.1, entry.2.2.geometry)

theorem lookup_insert_eq_update (geometry : Table String Geometry) (name : String) (g : Geometry) :
    (fun n => (geometry.insert name g).lookup n) =
      Function.update (fun n => geometry.lookup n) name (some g) := by
  funext n
  by_cases hn : n = name
  · subst hn
    rw [lookup_insert, Function.update_self]
  · rw [lookup_insert_ne hn, Function.update_of_ne hn]

variable {geometry : Table String Geometry}

/-- Collecting the geometries is entering the claims of the layers. -/
theorem collectGeometry_iff_claims {layers : List (Int × String × KVCacheLayout)}
    {m : String → Option Geometry} :
    (∃ geometry', collectGeometry layers geometry = .ok geometry' ∧
        (fun n => geometry'.lookup n) = m) ↔
      Run.exec Claims.claim (fun n => geometry.lookup n) (layers.map geometryClaim) = some m := by
  induction layers generalizing geometry with
  | nil => simp [collectGeometry]
  | cons entry rest ih =>
    rw [map_cons, exec_cons_eq_some]
    simp only [Claims.claim_eq_some, geometryClaim]
    unfold collectGeometry
    split
    next hn =>
      rw [ih, lookup_insert_eq_update]
      simp [hn]
    next existing hs =>
      split
      next heq =>
        rw [ih, lookup_insert_eq_update]
        simp [hs, heq]
      next hne => simp [hs, hne]

theorem collectGeometry_perm {layers layers' : List (Int × String × KVCacheLayout)}
    (hp : layers.Perm layers') (h : collectGeometry layers ∅ = .ok geometry) :
    ∃ geometry', collectGeometry layers' ∅ = .ok geometry' ∧
      ∀ n, geometry.lookup n = geometry'.lookup n := by
  have hclaims := collectGeometry_iff_claims.mp ⟨geometry, h, rfl⟩
  rw [Claims.exec_claim_congr fun _ => (hp.map geometryClaim).mem_iff] at hclaims
  obtain ⟨geometry', hok, hlk⟩ := collectGeometry_iff_claims.mpr hclaims
  exact ⟨geometry', hok, fun n => (congrFun hlk n).symm⟩

/-! ## Pipeline stages -/

/-- The pipeline stage that owns a cell of the grid. -/
def stageAt (owners : List (Option (Int × Nat))) (cell : Nat) : Option Nat :=
  (owners[cell]?).join.map Prod.snd

/-- The cell that a layer of a device claims, and the pipeline stage it claims it for. -/
def stageClaim (names : List String) (tpSize : Nat) (claim : GpuContext × String) : Nat × Nat :=
  (names.idxOf claim.2 * tpSize + claim.1.tpRank, claim.1.ppRank)

variable {owners : List (Option (Int × Nat))}

theorem stageAt_set {cell : Nat} (hlt : cell < owners.length) (deviceId : Int) (ppRank : Nat) :
    stageAt (owners.set cell (some (deviceId, ppRank))) =
      Function.update (stageAt owners) cell (some ppRank) := by
  funext k
  by_cases hk : k = cell
  · subst hk
    rw [Function.update_self, stageAt, getElem?_set_self hlt]
    rfl
  · rw [Function.update_of_ne hk, stageAt, getElem?_set_ne (Ne.symm hk), stageAt]

variable {names : List String} {tpSize : Nat} {claims : List (GpuContext × String)}

/-- Claiming the owners is entering the claims of the layers, if their cells are in the grid. -/
theorem claimOwners_iff_claims {m : Nat → Option Nat}
    (hlt : ∀ claim ∈ claims, (stageClaim names tpSize claim).1 < owners.length) :
    (∃ owners', claimOwners names tpSize claims owners = .ok owners' ∧ stageAt owners' = m) ↔
      Run.exec Claims.claim (stageAt owners) (claims.map (stageClaim names tpSize)) = some m := by
  induction claims generalizing owners with
  | nil => simp [claimOwners]
  | cons claim rest ih =>
    obtain ⟨gpu, name⟩ := claim
    rw [forall_mem_cons] at hlt
    obtain ⟨hcell, hr⟩ := hlt
    rw [map_cons, exec_cons_eq_some]
    simp only [Claims.claim_eq_some]
    unfold claimOwners
    dsimp only [stageClaim] at hcell ⊢
    generalize names.idxOf name * tpSize + gpu.tpRank = cell at hcell ⊢
    split
    next hn =>
      have hst : stageAt owners cell = none := by
        rw [stageAt, hn]
        rfl
      have hset := @ih (owners.set cell (some (gpu.deviceId, gpu.ppRank)))
        (by simpa only [length_set] using hr)
      rw [stageAt_set hcell] at hset
      rw [hset]
      simp [hst]
    next existingDevice existingPpRank hs =>
      -- A second owner of the same stage leaves the first in place, which is no change here.
      have hst : stageAt owners cell = some existingPpRank := by
        rw [stageAt, hs]
        rfl
      split
      next hne => simp [hst, hne]
      next heq =>
        rw [not_not] at heq
        have hsm : Function.update (stageAt owners) cell (some gpu.ppRank) = stageAt owners := by
          rw [← heq, ← hst, Function.update_eq_self]
        rw [ih hr, hsm]
        simp [hst, heq]

theorem length_claimOwners {owners' : List (Option (Int × Nat))}
    (h : claimOwners names tpSize claims owners = .ok owners') :
    owners'.length = owners.length := by
  induction claims generalizing owners with
  | nil =>
    cases h
    rfl
  | cons claim rest ih =>
    unfold claimOwners at h
    dsimp only at h
    split at h
    · exact (ih h).trans (length_set ..)
    split at h
    · cases h
    · exact ih h

/-- Every cell of the grid has an owner. -/
theorem findIdx?_isNone_iff :
    owners.findIdx? Option.isNone = none ↔
      ∀ cell < owners.length, (stageAt owners cell).isSome := by
  rw [findIdx?_eq_none_iff]
  constructor
  · intro h cell hlt
    have hcell := h owners[cell] (getElem_mem hlt)
    simp [stageAt, getElem?_eq_getElem hlt, Option.isSome_iff_ne_none, hcell,
      ← Option.isNone_iff_eq_none]
  · intro h owner hm
    obtain ⟨cell, hlt, rfl⟩ := getElem_of_mem hm
    have hcell := h cell hlt
    simpa [stageAt, getElem?_eq_getElem hlt] using hcell

theorem claimOwners_perm {claims' : List (GpuContext × String)}
    {owners₁ : List (Option (Int × Nat))} (hp : claims.Perm claims')
    (hlt : ∀ claim ∈ claims, (stageClaim names tpSize claim).1 < owners.length)
    (h : claimOwners names tpSize claims owners = .ok owners₁)
    (hwn : owners₁.findIdx? Option.isNone = none) :
    ∃ owners₂, claimOwners names tpSize claims' owners = .ok owners₂ ∧
      owners₂.findIdx? Option.isNone = none := by
  have hclaims := (claimOwners_iff_claims hlt).mp ⟨owners₁, h, rfl⟩
  rw [Claims.exec_claim_congr fun _ => (hp.map (stageClaim names tpSize)).mem_iff] at hclaims
  obtain ⟨owners₂, hok, hst⟩ :=
    (claimOwners_iff_claims fun claim hm => hlt claim (hp.mem_iff.mpr hm)).mpr hclaims
  refine ⟨owners₂, hok, findIdx?_isNone_iff.mpr ?_⟩
  rw [hst, length_claimOwners hok, ← length_claimOwners h]
  exact findIdx?_isNone_iff.mp hwn

/-! ## Shards -/

/-- No shard has claimed the layer. -/
def Unclaimed (owner : List (Option Nat)) (layer : Nat) : Prop := (owner[layer]?).join = none

variable {owner : List (Option Nat)} {shardId : Nat}

theorem unclaimed_set {layerId layer : Nat} (hlt : layerId < owner.length) :
    Unclaimed (owner.set layerId (some shardId)) layer ↔
      layer ≠ layerId ∧ Unclaimed owner layer := by
  by_cases heq : layer = layerId
  · subst heq
    simp [Unclaimed, getElem?_set_self hlt]
  · simp [Unclaimed, getElem?_set_ne (Ne.symm heq), heq]

variable {owner' : List (Option Nat)}

/-- What is unclaimed after a shard has claimed its layers was so before, and is not one of
them. -/
theorem claimLayers_claims {layers : List Nat} (hlt : ∀ layer ∈ layers, layer < owner.length)
    (h : claimLayers names shardId layers owner = .ok owner') :
    owner'.length = owner.length ∧ (∀ layer ∈ layers, Unclaimed owner layer) ∧
      ∀ layer, Unclaimed owner' layer → layer ∉ layers ∧ Unclaimed owner layer := by
  induction layers generalizing owner with
  | nil =>
    cases h
    exact ⟨rfl, by simp, fun layer hl => ⟨not_mem_nil, hl⟩⟩
  | cons layerId rest ih =>
    rw [forall_mem_cons] at hlt
    unfold claimLayers at h
    split at h
    · cases h
    next hn =>
      obtain ⟨hlen, hbef, haft⟩ := ih (by simpa only [length_set] using hlt.2) h
      simp only [unclaimed_set hlt.1] at hbef haft
      refine ⟨hlen.trans (length_set ..), ?_, ?_⟩
      · rw [forall_mem_cons]
        exact ⟨hn, fun layer hm => (hbef layer hm).2⟩
      · intro layer hl
        obtain ⟨hr, hne, ho⟩ := haft layer hl
        exact ⟨not_mem_cons_of_ne_of_not_mem hne hr, ho⟩

variable {shards : List (List Nat)}

/-- Shards whose claims are all accepted do not share a layer. -/
theorem claimShards_disjoint (hlt : ∀ shard ∈ shards, ∀ layer ∈ shard, layer < owner.length)
    (h : claimShards names shardId shards owner = .ok owner') :
    shards.Pairwise List.Disjoint ∧ ∀ shard ∈ shards, ∀ layer ∈ shard, Unclaimed owner layer := by
  induction shards generalizing shardId owner with
  | nil => exact ⟨List.Pairwise.nil, by simp⟩
  | cons shard shards ih =>
    rw [forall_mem_cons] at hlt
    obtain ⟨next, hclm, h⟩ := Loop.bind_eq_ok.mp h
    obtain ⟨hlen, hfst, haft⟩ := claimLayers_claims hlt.1 hclm
    obtain ⟨hd, hr⟩ := ih (by rw [hlen]; exact hlt.2) h
    refine ⟨pairwise_cons.mpr ⟨?_, hd⟩, forall_mem_cons.mpr ⟨hfst, ?_⟩⟩
    · intro other hoth layer hm hm'
      exact (haft layer (hr other hoth layer hm')).1 hm
    · intro other hoth layer hm
      exact (haft layer (hr other hoth layer hm)).2

variable {sets : List (List Nat)} {set : List Nat}

/-- The distinct layer sets of the workers are a function of the set of the layer sets. -/
theorem mem_distinct :
    set ∈ sets.foldl (fun shards set => if set ∈ shards then shards else shards ++ [set]) shards ↔
      set ∈ shards ∨ set ∈ sets := by
  induction sets generalizing shards with
  | nil => simp
  | cons first sets ih =>
    rw [foldl_cons, ih, mem_cons]
    split
    next hm =>
      constructor
      · rintro (h | h)
        · exact Or.inl h
        · exact Or.inr (Or.inr h)
      · rintro (h | rfl | h)
        · exact Or.inl h
        · exact Or.inl hm
        · exact Or.inr h
    · rw [List.mem_append, List.mem_singleton, or_assoc]

theorem nodup_distinct (h : shards.Nodup) :
    (sets.foldl (fun shards set => if set ∈ shards then shards else shards ++ [set])
      shards).Nodup := by
  refine foldlRecOn (motive := Nodup) sets _ h fun shards h set _ => ?_
  split
  · exact h
  next hm => exact nodup_append_comm.mp (nodup_cons.mpr ⟨hm, h⟩)

theorem mem_shardsOf : set ∈ shardsOf sets ↔ set ∈ sets := by
  rw [shardsOf, mem_insertionSort, mem_distinct]
  simp only [not_mem_nil, false_or]

variable {sets' : List (List Nat)}

/-- Shards that do not overlap are sorted in one way. -/
theorem shardsOf_perm (hp : sets.Perm sets') (hne : ∀ set ∈ sets, set ≠ [])
    (hd : (shardsOf sets).Pairwise List.Disjoint) : shardsOf sets = shardsOf sets' := by
  refine insertionSort_eq_of_perm _ ?_ ?_
  · rw [perm_ext_iff_of_nodup (nodup_distinct nodup_nil) (nodup_distinct nodup_nil)]
    intro set
    rw [mem_distinct, mem_distinct, hp.mem_iff]
  · intro a ha b hb hab hba
    simp only [mem_distinct, not_mem_nil, false_or] at ha hb
    obtain ⟨x, as, rfl⟩ := exists_cons_of_ne_nil (hne a ha)
    obtain ⟨y, bs, rfl⟩ := exists_cons_of_ne_nil (hne b hb)
    -- Two shards with one least layer share that layer.
    obtain rfl : x = y := le_antisymm hab hba
    by_contra hdiff
    have : Std.Symm (@List.Disjoint Nat) := ⟨fun _ _ h => h.symm⟩
    exact hd.forall (mem_shardsOf.mpr ha) (mem_shardsOf.mpr hb) hdiff mem_cons_self mem_cons_self

theorem buildPageLayout_perm {layers : List (String × Nat)} {p : PageLayout}
    (hp : sets.Perm sets') (hne : ∀ set ∈ sets, set ≠ [])
    (hlt : ∀ set ∈ sets, ∀ layer ∈ set, layer < layers.length)
    (h : buildPageLayout sets layers = .ok p) : buildPageLayout sets' layers = .ok p := by
  rw [buildPageLayout_eq_ok] at h ⊢
  obtain ⟨owner, hclm, hpg⟩ := h
  have hlt' : ∀ shard ∈ shardsOf sets, ∀ layer ∈ shard,
      layer < (layers.map fun _ => (none : Option Nat)).length := by
    intro shard hm
    rw [length_map]
    exact hlt shard (mem_shardsOf.mp hm)
  have hshards := shardsOf_perm hp hne (claimShards_disjoint hlt' hclm).1
  rw [← hshards]
  exact ⟨owner, hclm, hpg⟩

/-! ## The topology -/

namespace InstanceContext

variable {inst : InstanceContext} {gpus gpus' : List GpuContext} {t : LayerTopology}

theorem mem_names_of_mem_layerNames (h : inst.sealTopology gpus = .ok t) {gpu : GpuContext}
    {name : String} (hg : gpu ∈ gpus) (hn : name ∈ gpu.layerNames) : name ∈ t.names := by
  obtain ⟨layout, hlo⟩ := Option.isSome_iff_exists.mp (lookup_isSome.mpr (mem_keys.mpr hn))
  exact (sealTopology_sealed h).mem_names gpu hg name layout hlo

theorem stageClaim_lt (h : inst.sealTopology gpus = .ok t)
    (hranks : ∀ gpu ∈ gpus, gpu.tpRank < inst.tpSize) {claim : GpuContext × String}
    (hclm : claim ∈ layerClaims gpus) :
    (stageClaim t.names inst.tpSize claim).1 < t.names.length * inst.tpSize := by
  obtain ⟨gpu, hg, hm⟩ := mem_flatMap.mp hclm
  obtain ⟨name, hn, rfl⟩ := mem_map.mp hm
  have hid := idxOf_lt_length_of_mem (mem_names_of_mem_layerNames h hg hn)
  have hmul := Nat.mul_le_mul_right inst.tpSize (Nat.succ_le_of_lt hid)
  rw [Nat.succ_mul] at hmul
  have hr := hranks gpu hg
  dsimp only [stageClaim]
  omega

variable {set : List Nat}

theorem workerLayerSets_ne_nil {names : List String} (hls : ∀ gpu ∈ gpus, gpu.layerNames ≠ [])
    (hset : set ∈ workerLayerSets names gpus) : set ≠ [] := by
  obtain ⟨gpu, hg, rfl⟩ := mem_map.mp hset
  intro hnil
  have hlen := congrArg length hnil
  rw [length_insertionSort, length_map] at hlen
  exact hls gpu hg (length_eq_zero_iff.mp hlen)

theorem workerLayerSets_lt (h : inst.sealTopology gpus = .ok t) {layer : Nat}
    (hset : set ∈ workerLayerSets t.names gpus) (hl : layer ∈ set) :
    layer < t.names.length := by
  obtain ⟨gpu, hg, rfl⟩ := mem_map.mp hset
  obtain ⟨name, hn, rfl⟩ := mem_map.mp ((mem_insertionSort (· ≤ ·)).mp hl)
  exact idxOf_lt_length_of_mem (mem_names_of_mem_layerNames h hg hn)

/-- Sealing the same devices in another order makes the same topology. -/
theorem sealTopology_perm (hperm : gpus.Perm gpus')
    (hranks : ∀ gpu ∈ gpus, gpu.tpRank < inst.tpSize)
    (hls : ∀ gpu ∈ gpus, gpu.layerNames ≠ []) (h : inst.sealTopology gpus = .ok t) :
    inst.sealTopology gpus' = .ok t := by
  obtain ⟨geometry, owners, hgeo, hnms, hs, hows, hwn, hp⟩ :=
    sealTopology_eq_ok.mp h
  obtain ⟨geometry', hgeo', hlk⟩ :=
    collectGeometry_perm (hperm.flatMap_right _) hgeo
  obtain ⟨owners', hows', hwn'⟩ := claimOwners_perm (hperm.flatMap_right _) (fun claim hclm => by
      rw [length_replicate]
      exact stageClaim_lt h hranks hclm) hows hwn
  refine sealTopology_eq_ok.mpr ⟨geometry', owners', hgeo', hnms.trans ?_, hs, hows', hwn', ?_⟩
  · exact insertionSort_eq_of_perm _ (Table.keys_perm hlk) fun _ _ _ _ => String.le_antisymm
  cases hlo : t.pageLayout with
  | none => simpa only [hlo] using hp
  | some p =>
    simp only [hlo] at hp
    have hpages : pageLayers t.names geometry = pageLayers t.names geometry' := by
      simp only [pageLayers, hlk]
    rw [hpages] at hp
    refine ⟨hp.1, buildPageLayout_perm (hperm.map _) ?_ ?_ hp.2⟩
    · exact fun set hset => workerLayerSets_ne_nil hls hset
    · intro set hset layer hl
      rw [pageLayers, length_map]
      exact workerLayerSets_lt h hset hl

end InstanceContext

end PegaFlow.Engine
