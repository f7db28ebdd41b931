import PegaFlow.Lib.Loop
import PegaFlow.Lib.Pairing
import PegaFlow.Lib.Table

/-!
# Handshakes

What the decode side of the P/D connector tells the prefill side about its blocks
(`python/pegaflow/pd_connector/metadata.py`, `build_all_rank_handshake_dicts` in
`decode_worker.py`, `block_ids_for_layer` in `worker.py`).

A handshake lists, for each layer of a decode rank, the block ids of the layer's KV cache group as a
sorted tuple: the order of the prompt is gone.  On the wire the tuple stands once if it is the same
for all layers.  The fields that no modelled function reads (addresses, memory descriptors, engine
and request ids, immediates) are left out.  A failed assertion is an error.
-/

namespace PegaFlow.Pd

open List Option Loop

abbrev BlockId := Nat

/-- Block ids by KV cache group, in prompt order. -/
abbrev BlockIds := List (List BlockId)

/-- `LayerRemoteLayout`, with the `block_len` of each of its regions. -/
structure LayerRemoteLayout where
  layerIdx : Nat
  blockIds : List BlockId
  blockLens : List Nat

structure PdHandshake where
  tpRank : Nat
  tpSize : Nat
  expectedImmCount : Nat
  layers : List LayerRemoteLayout

/-- `layers_by_idx`: of two layers with one index the later one counts. -/
def PdHandshake.layersByIdx (handshake : PdHandshake) (layerIdx : Nat) : Option LayerRemoteLayout :=
  handshake.layers.reverse.find? (·.layerIdx == layerIdx)

/-! ## On the wire -/

structure LayerPayload where
  layerIdx : Nat
  blockIds : Option (List BlockId)
  blockLens : List Nat

structure HandshakePayload where
  tpRank : Nat
  tpSize : Nat
  expectedImmCount : Nat
  blockIds : Option (List BlockId)
  layers : List LayerPayload

/-- `layer_layout_from_dict`, with the assertions of `LayerRemoteLayout`. -/
def layerLayoutFromDict (shared : Option (List BlockId)) (layer : LayerPayload) :
    Except String LayerRemoteLayout :=
  match layer.blockIds.or shared with
  | none => .error "block_ids"
  | some blockIds =>
    if blockIds ≠ [] ∧ blockIds.Pairwise (· < ·) ∧ layer.blockLens ≠ [] then
      .ok ⟨layer.layerIdx, blockIds, layer.blockLens⟩
    else .error "assertion failed"

/-- `handshake_from_dict`.  An absent or zero count is one. -/
def handshakeFromDict (data : HandshakePayload) : Except String PdHandshake := do
  let layers ← data.layers.mapM (layerLayoutFromDict data.blockIds)
  return ⟨data.tpRank, data.tpSize, if data.expectedImmCount = 0 then 1 else data.expectedImmCount,
    layers⟩

/-! ## The decode side -/

/-- The layers of a worker and their KV cache groups. -/
structure PdWorker where
  layerNames : List String
  layerGroupIndices : Table String Nat

def PdWorker.groupIdxForLayer (w : PdWorker) (layerName : String) : Except String Nat :=
  if w.layerGroupIndices.entries = [] then .ok 0
  else
    match w.layerGroupIndices.lookup layerName with
    | some groupIdx => .ok groupIdx
    | none => .error s!"unknown KV cache group for layer {layerName}"

/-- `block_ids_for_layer`, a set. -/
def PdWorker.blockIdsForLayer (w : PdWorker) (blockIds : BlockIds) (layerName : String) :
    Except String (List BlockId) := do
  let groupIdx ← w.groupIdxForLayer layerName
  return (blockIds.getD groupIdx []).dedup

structure LayerTemplate where
  layerName : String
  layerIdx : Nat
  blockLens : List Nat

/-- The state of `_DecodePeerState` that a handshake is built from. -/
structure DecodePeer where
  worker : PdWorker
  tpSize : Nat
  layerTemplates : Table Nat (List LayerTemplate)
  expectedImmCount : Nat → Nat

namespace DecodePeer

/-- The layers of one rank that have blocks. -/
def rankLayers (peer : DecodePeer) (blockIds : BlockIds) :
    List LayerTemplate → Except String (List (LayerTemplate × List BlockId))
  | [] => .ok []
  | layer :: layers => do
      let layerBlockIds ← peer.worker.blockIdsForLayer blockIds layer.layerName
      let rest ← peer.rankLayers blockIds layers
      return if layerBlockIds = [] then rest else (layer, Pairing.sorted layerBlockIds) :: rest

/-- The payload of one rank. -/
def rankPayload (peer : DecodePeer) (reqId : String) (rank : Nat)
    (layers : List (LayerTemplate × List BlockId)) : Except String HandshakePayload :=
  match layers with
  | [] => .error s!"PdConnector D wait req={reqId} has no local KV blocks"
  | (_, sharedBlockIds) :: _ =>
    let compact := layers.all fun l => l.2 == sharedBlockIds
    .ok ⟨rank, peer.tpSize, peer.expectedImmCount rank,
      if compact then some sharedBlockIds else none,
      layers.map fun l =>
        ⟨l.1.layerIdx, if compact then none else some l.2, l.1.blockLens⟩⟩

/-- `build_all_rank_handshake_dicts`, for the ranks in the given order. -/
def buildRankHandshakeDicts (peer : DecodePeer) (reqId : String) (blockIds : BlockIds) :
    List Nat → Except String (List HandshakePayload)
  | [] => .ok []
  | rank :: ranks => do
      let layers ← peer.rankLayers blockIds ((peer.layerTemplates.lookup rank).getD [])
      let payload ← peer.rankPayload reqId rank layers
      let rest ← peer.buildRankHandshakeDicts reqId blockIds ranks
      return payload :: rest

def buildAllRankHandshakeDicts (peer : DecodePeer) (reqId : String) (blockIds : BlockIds) :
    Except String (List HandshakePayload) :=
  peer.buildRankHandshakeDicts reqId blockIds (Pairing.sorted peer.layerTemplates.keys)

end DecodePeer

/-! ## What a handshake says of a layer -/

theorem layerLayoutFromDict_eq_ok {shared : Option (List BlockId)} {layer : LayerPayload}
    {layout : LayerRemoteLayout} (h : layerLayoutFromDict shared layer = .ok layout) :
    layout.layerIdx = layer.layerIdx ∧ layer.blockIds.or shared = some layout.blockIds := by
  rw [layerLayoutFromDict] at h
  split at h
  next => cases h
  next blockIds hids =>
    split at h
    next =>
      cases h
      exact ⟨rfl, hids⟩
    next => cases h

namespace DecodePeer

variable {peer : DecodePeer} {reqId : String} {blockIds : BlockIds}

variable {layers : List (LayerTemplate × List BlockId)}

theorem mem_rankLayers {templates : List LayerTemplate}
    (h : peer.rankLayers blockIds templates = .ok layers) {entry : LayerTemplate × List BlockId} :
    entry ∈ layers ↔ entry.1 ∈ templates ∧
      ∃ ids, peer.worker.blockIdsForLayer blockIds entry.1.layerName = .ok ids ∧ ids ≠ [] ∧
        entry.2 = Pairing.sorted ids := by
  induction templates generalizing layers with
  | nil =>
    cases h
    simp
  | cons template templates ih =>
    obtain ⟨ids, hids, h⟩ := bind_eq_ok.mp h
    obtain ⟨rest, hr, h⟩ := bind_eq_ok.mp h
    cases h
    split
    next hnil =>
      rw [ih hr, mem_cons]
      refine and_congr_left fun ⟨ids', hids', hne, _⟩ => ?_
      refine ⟨Or.inr, fun hm => hm.resolve_left ?_⟩
      rintro rfl
      rw [hids] at hids'
      cases hids'
      exact hne hnil
    next hne =>
      rw [mem_cons, ih hr, mem_cons, or_and_right]
      refine or_congr_left ?_
      constructor
      · rintro rfl
        exact ⟨rfl, ids, hids, hne, rfl⟩
      · rintro ⟨hfst, ids', hids', -, hsnd⟩
        rw [hfst, hids] at hids'
        cases hids'
        exact Prod.ext hfst hsnd

variable {payload : HandshakePayload} {handshake : PdHandshake}

/-- A handshake that is parsed from the payload of a rank has the layers of the rank. -/
theorem layers_of_rankPayload {rank : Nat}
    (hpayload : peer.rankPayload reqId rank layers = .ok payload)
    (hparsed : handshakeFromDict payload = .ok handshake) :
    List.Forall₂ (fun entry layer => layer.layerIdx = entry.1.layerIdx ∧ layer.blockIds = entry.2)
      layers handshake.layers := by
  obtain ⟨parsed, hmap, h⟩ := bind_eq_ok.mp hparsed
  cases h
  have hforall := mapM_eq_ok.mp ((mapM'_eq_mapM).trans hmap)
  cases layers with
  | nil => cases hpayload
  | cons first rest =>
    cases hpayload
    rw [forall₂_map_left_iff] at hforall
    by_cases hcompact : ((first :: rest).all fun l => l.2 == first.2)
    · have hall : ∀ entry ∈ first :: rest, entry.2 = first.2 := by
        intro entry hent
        exact beq_iff_eq.mp (all_eq_true.mp hcompact entry hent)
      refine ((forall₂_and_left _ _).mpr ⟨hall, hforall⟩).imp ?_
      rintro entry layer ⟨heq, h⟩
      obtain ⟨hidx, hids⟩ := layerLayoutFromDict_eq_ok h
      rw [if_pos hcompact, if_pos hcompact] at hids
      exact ⟨hidx, (some.inj hids).symm.trans heq.symm⟩
    · refine hforall.imp fun entry layer h => ?_
      obtain ⟨hidx, hids⟩ := layerLayoutFromDict_eq_ok h
      rw [if_neg hcompact] at hids
      exact ⟨hidx, (some.inj hids).symm⟩

variable {payloads : List HandshakePayload}

theorem mem_buildRankHandshakeDicts {ranks : List Nat}
    (h : peer.buildRankHandshakeDicts reqId blockIds ranks = .ok payloads)
    (hm : payload ∈ payloads) :
    ∃ rank ∈ ranks, ∃ layers,
      peer.rankLayers blockIds ((peer.layerTemplates.lookup rank).getD []) = .ok layers ∧
        peer.rankPayload reqId rank layers = .ok payload := by
  induction ranks generalizing payloads with
  | nil =>
    cases h
    cases hm
  | cons rank ranks ih =>
    obtain ⟨layers, hls, h⟩ := bind_eq_ok.mp h
    obtain ⟨first, hf, h⟩ := bind_eq_ok.mp h
    obtain ⟨rest, hr, h⟩ := bind_eq_ok.mp h
    cases h
    rcases mem_cons.mp hm with rfl | hm
    · exact ⟨rank, mem_cons_self, layers, hls, hf⟩
    · obtain ⟨rank', hr', hblt⟩ := ih hr hm
      exact ⟨rank', mem_cons_of_mem rank hr', hblt⟩

/-- Every rank has the layer, under this index and this name. -/
def HasLayer (peer : DecodePeer) (layerIdx : Nat) (layerName : String) : Prop :=
  ∀ rank templates, peer.layerTemplates.lookup rank = some templates →
    (∃ t ∈ templates, t.layerIdx = layerIdx) ∧
      ∀ t ∈ templates, t.layerIdx = layerIdx → t.layerName = layerName

/-- The handshakes of all ranks offer the decode blocks of a layer in increasing order. -/
theorem layersByIdx_of_handshake {layerIdx groupIdx : Nat} {layerName : String}
    {decode : List BlockId}
    (hpay : peer.buildAllRankHandshakeDicts reqId blockIds = .ok payloads)
    (hm : payload ∈ payloads) (hparsed : handshakeFromDict payload = .ok handshake)
    (hlay : peer.HasLayer layerIdx layerName)
    (hgrp : peer.worker.groupIdxForLayer layerName = .ok groupIdx)
    (hdecode : blockIds[groupIdx]? = some decode) (hne : decode ≠ []) :
    ∃ layer, handshake.layersByIdx layerIdx = some layer ∧
      layer.blockIds = Pairing.sorted decode := by
  obtain ⟨rank, hr, layers, hls, hpayload⟩ := mem_buildRankHandshakeDicts hpay hm
  obtain ⟨templates, htemplates⟩ : ∃ templates, peer.layerTemplates.lookup rank = some templates :=
    isSome_iff_exists.mp (AList.lookup_isSome.mpr (Pairing.mem_sorted.mp hr))
  rw [htemplates] at hls
  obtain ⟨⟨template, htemplate, hidx⟩, hn⟩ := hlay rank templates htemplates
  have hids : peer.worker.blockIdsForLayer blockIds layerName = .ok decode.dedup := by
    rw [PdWorker.blockIdsForLayer, hgrp]
    change Except.ok (blockIds.getD groupIdx []).dedup = _
    rw [getD_eq_getElem?_getD, hdecode, getD_some]
  have hforall := layers_of_rankPayload hpayload hparsed
  have hent : (template, Pairing.sorted decode.dedup) ∈ layers := by
    refine (mem_rankLayers hls).mpr ⟨htemplate, decode.dedup, ?_, ?_, rfl⟩
    · rw [hn template htemplate hidx]
      exact hids
    · obtain ⟨a, ha⟩ := exists_mem_of_ne_nil decode hne
      exact ne_nil_of_mem (mem_dedup.mpr ha)
  obtain ⟨offered, hoffered, hofferedIdx, -⟩ := exists_result hforall hent
  have hfd : ∃ layer, handshake.layersByIdx layerIdx = some layer := by
    refine isSome_iff_exists.mp (find?_isSome.mpr ⟨offered, ?_, ?_⟩)
    · exact mem_reverse.mpr hoffered
    · exact beq_iff_eq.mpr (hofferedIdx.trans hidx)
  obtain ⟨layer, hl⟩ := hfd
  refine ⟨layer, hl, ?_⟩
  -- whichever layer of the index is found, it is the named one
  have hlayerMem := mem_reverse.mp (mem_of_find?_eq_some hl)
  have hlayerIdx : layer.layerIdx = layerIdx := by
    have hfd := find?_some hl
    exact beq_iff_eq.mp hfd
  obtain ⟨entry, hmemEntry, hentryIdx, hentryIds⟩ := exists_item hforall hlayerMem
  obtain ⟨hin, ids, hent, -, hsorted⟩ := (mem_rankLayers hls).mp hmemEntry
  rw [hn entry.1 hin (hentryIdx.symm.trans hlayerIdx), hids] at hent
  cases hent
  rw [hentryIds, hsorted, Pairing.sorted, Pairing.sorted, dedup_idem]

end DecodePeer

end PegaFlow.Pd
