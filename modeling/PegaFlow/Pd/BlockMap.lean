import Mathlib.Data.String.Basic
import PegaFlow.Lib.Text
import PegaFlow.Pd.Handshake

/-!
# Which decode block a prefill block goes to

`_remote_block_id_map_for_handshake` and `_remote_block_id_maps`
(`python/pegaflow/pd_connector/prefill_worker.py`).

The prefill blocks of a prompt come in chunks, one per push request.  For each layer and target
the handler keeps an offset into the decode block ids, and pairs the sorted ids of a chunk with
the ids from there on.  Both sides are sorted by id, not by position in the prompt, so the pairing
is the one by position exactly if the two id lists are ordered alike (`Pairing.InOrder`).  That no
decode block is used twice and when the last chunk is seen do not depend on the order.

A dictionary of block ids is the list of its items.
-/

namespace PegaFlow.Pd

open List Option AList

abbrev BlockMap := List (BlockId × BlockId)

/-- A target of a push plan, with its physical request id. -/
structure PushTarget where
  physicalReqId : String
  handshake : PdHandshake

/-- The key of `_remote_block_offsets`. -/
def offsetKey (physicalReqId : String) (layerIdx : Nat) : String :=
  physicalReqId ++ "#l" ++ toString layerIdx

/-- `_remote_block_id_map_for_handshake`: the map, whether all chunks were seen, and the offsets. -/
def remoteBlockIdMapForHandshake (key : String) (handshake : PdHandshake)
    (localBlockIds : List BlockId) (layerIdx : Nat) (offsets : Table String Nat) :
    Except String ((BlockMap × Bool) × Table String Nat) :=
  if handshake.layers = [] then .ok ((localBlockIds.map fun b => (b, b), true), offsets)
  else
    match handshake.layersByIdx layerIdx with
    | none =>
      .error s!"PdConnector missing decode layer layout for push layer_idx={layerIdx} available={handshake.layers.map LayerRemoteLayout.layerIdx}"
    | some remoteLayer =>
      let remoteBlockIds := remoteLayer.blockIds
      let orderedLocal := Pairing.sorted localBlockIds
      if orderedLocal.length = remoteBlockIds.length then
        .ok ((orderedLocal.zip remoteBlockIds, true), offsets.insert key remoteBlockIds.length)
      else
        let offset := (offsets.lookup key).getD 0
        if remoteBlockIds.length ≤ offset then .ok (([], true), offsets)
        else
          let nextOffset := min (offset + orderedLocal.length) remoteBlockIds.length
          let remoteChunk := (remoteBlockIds.drop offset).take (nextOffset - offset)
          .ok (((orderedLocal.take (nextOffset - offset)).zip remoteChunk,
            decide (nextOffset = remoteBlockIds.length)), offsets.insert key nextOffset)

/-- `_remote_block_id_maps`: the maps of the targets, and whether all of them have seen all
chunks. -/
def remoteBlockIdMaps (localBlockIds : List BlockId) (layerIdx : Nat) :
    List PushTarget → Table String Nat →
      Except String ((List (String × BlockMap) × Bool) × Table String Nat)
  | [], offsets => .ok (([], true), offsets)
  | target :: targets, offsets => do
      let ((map, seen), offsets) ← remoteBlockIdMapForHandshake
        (offsetKey target.physicalReqId layerIdx) target.handshake localBlockIds layerIdx offsets
      let ((maps, allSeen), offsets) ← remoteBlockIdMaps localBlockIds layerIdx targets offsets
      return (((target.physicalReqId, map) :: maps, seen && allSeen), offsets)

/-- The maps of one layer for successive chunks. -/
def chunkMaps (targets : List PushTarget) (layerIdx : Nat) :
    List (List BlockId) → Table String Nat → Except String (List (List (String × BlockMap) × Bool))
  | [], _ => .ok []
  | chunk :: chunks, offsets => do
      let (maps, offsets) ← remoteBlockIdMaps chunk layerIdx targets offsets
      let rest ← chunkMaps targets layerIdx chunks offsets
      return maps :: rest

/-- What successive maps send to a target, together. -/
def pairsOf (physicalReqId : String) (maps : List (List (String × BlockMap) × Bool)) : BlockMap :=
  maps.flatMap fun m => (m.1.lookup physicalReqId).getD []

/-! ## One chunk -/

/-- The digits behind the last `#l` are the layer. -/
theorem offsetKey_inj {a b : String} {i j : Nat} (h : offsetKey a i = offsetKey b j) :
    a = b ∧ i = j := by
  have hdigits : ∀ (c : String) (n : Nat),
      ((offsetKey c n).toList.reverse.takeWhile Char.isDigit).reverse = Nat.toDigits 10 n := by
    intro c n
    have hall : ∀ d ∈ (Nat.toDigits 10 n).reverse, d.isDigit := fun d hd =>
      Nat.isDigit_of_mem_toDigits (by decide) (by decide) (mem_reverse.mp hd)
    rw [offsetKey, Nat.toString_eq_repr, String.toList_append, String.toList_append,
      Nat.toList_repr, reverse_append, reverse_append,
      takeWhile_append_of_pos hall]
    exact (congrArg reverse (append_nil _)).trans (reverse_reverse _)
  have hij : i = j := by
    have heq := hdigits a i
    rw [h, hdigits b j] at heq
    exact (Text.toDigits_inj heq).symm
  rw [hij] at h
  exact ⟨(String.append_left_inj _).mp ((String.append_left_inj _).mp h), hij⟩

variable {handshake : PdHandshake} {layerIdx : Nat} {layer : LayerRemoteLayout}
variable {offsets : Table String Nat} {chunk : List BlockId}

theorem layers_ne_nil_of_layersByIdx (h : handshake.layersByIdx layerIdx = some layer) :
    handshake.layers ≠ [] := by
  intro hnil
  rw [PdHandshake.layersByIdx, hnil] at h
  cases h

variable {offset : Nat}

/-- A chunk that fits is mapped to the next decode blocks. -/
theorem remoteBlockIdMapForHandshake_eq {key : String}
    (hl : handshake.layersByIdx layerIdx = some layer)
    (hoff : (offsets.lookup key).getD 0 = offset) (hnd : chunk.Nodup) (hne : chunk ≠ [])
    (hf : offset + chunk.length ≤ layer.blockIds.length) :
    remoteBlockIdMapForHandshake key handshake chunk layerIdx offsets =
      .ok (((Pairing.sorted chunk).zip ((layer.blockIds.drop offset).take chunk.length),
        decide (offset + chunk.length = layer.blockIds.length)),
        offsets.insert key (offset + chunk.length)) := by
  have hlen := Pairing.length_sorted hnd
  have hpos := length_pos_of_ne_nil hne
  simp only [remoteBlockIdMapForHandshake, if_neg (layers_ne_nil_of_layersByIdx hl), hl, hlen, hoff]
  split
  next heq =>
    have hz : offset = 0 := by omega
    subst hz
    simp [heq]
  next hneq =>
    rw [if_neg (by omega), Nat.min_eq_left hf, Nat.add_sub_cancel_left, take_of_length_le hlen.le]

/-- All targets offer the same decode blocks for the layer. -/
def Offer (targets : List PushTarget) (layerIdx : Nat) (remote : List BlockId) : Prop :=
  ∀ t ∈ targets, ∃ layer, t.handshake.layersByIdx layerIdx = some layer ∧ layer.blockIds = remote

/-- All targets are at the same offset. -/
def At (targets : List PushTarget) (layerIdx : Nat) (offsets : Table String Nat) (offset : Nat) :
    Prop :=
  ∀ t ∈ targets, (offsets.lookup (offsetKey t.physicalReqId layerIdx)).getD 0 = offset

variable {targets : List PushTarget} {remote : List BlockId}

section

variable (hoffer : Offer targets layerIdx remote) (hat : At targets layerIdx offsets offset)
  (hids : (targets.map PushTarget.physicalReqId).Nodup)
include hoffer hat hids

theorem remoteBlockIdMaps_eq (hnd : chunk.Nodup) (hne : chunk ≠ [])
    (hf : offset + chunk.length ≤ remote.length) :
    ∃ offsets', remoteBlockIdMaps chunk layerIdx targets offsets =
      .ok ((targets.map fun t => (t.physicalReqId,
          (Pairing.sorted chunk).zip ((remote.drop offset).take chunk.length)),
        targets.all fun _ => decide (offset + chunk.length = remote.length)), offsets') ∧
      (∀ t ∈ targets, offsets'.lookup (offsetKey t.physicalReqId layerIdx) =
        some (offset + chunk.length)) ∧
      ∀ key, (∀ t ∈ targets, key ≠ offsetKey t.physicalReqId layerIdx) →
        offsets'.lookup key = offsets.lookup key := by
  induction targets generalizing offsets with
  | nil => exact ⟨offsets, rfl, (fun t ht => by cases ht), fun _ _ => rfl⟩
  | cons target targets ih =>
    rw [Offer, forall_mem_cons] at hoffer
    rw [At, forall_mem_cons] at hat
    rw [List.map_cons, nodup_cons] at hids
    obtain ⟨layer, hl, rfl⟩ := hoffer.1
    have hfst := remoteBlockIdMapForHandshake_eq hl hat.1 hnd hne hf
    have hoth : ∀ t ∈ targets,
        offsetKey t.physicalReqId layerIdx ≠ offsetKey target.physicalReqId layerIdx :=
      fun t ht h => hids.1 ((offsetKey_inj h).1 ▸ mem_map_of_mem ht)
    have hat' : At targets layerIdx (offsets.insert (offsetKey target.physicalReqId layerIdx)
        (offset + chunk.length)) offset := by
      intro t ht
      rw [lookup_insert_ne (hoth t ht)]
      exact hat.2 t ht
    obtain ⟨offsets', hr, hset, hk⟩ := ih hoffer.2 hat' hids.2
    refine ⟨offsets', ?_, ?_, ?_⟩
    · simp only [remoteBlockIdMaps, hfst, hr, bind, Except.bind]
      rfl
    · intro t ht
      rcases mem_cons.mp ht with rfl | ht
      · rw [hk _ fun t' ht' h => hoth t' ht' h.symm]
        exact lookup_insert _
      · exact hset t ht
    · intro key hkey
      rw [forall_mem_cons] at hkey
      rw [hk key hkey.2, lookup_insert_ne hkey.1]

/-! ## Successive chunks -/

/-- The maps for the chunks, where `remote` are the decode blocks that are left. -/
def mapsFrom (targets : List PushTarget) :
    List (List BlockId) → List BlockId → List (List (String × BlockMap) × Bool)
  | [], _ => []
  | chunk :: chunks, remote =>
    (targets.map fun t =>
        (t.physicalReqId, (Pairing.sorted chunk).zip (remote.take chunk.length)),
      targets.all fun _ => decide (chunk.length = remote.length)) ::
    mapsFrom targets chunks (remote.drop chunk.length)

variable {chunks : List (List BlockId)}

theorem chunkMaps_eq (hchs : ∀ chunk ∈ chunks, chunk ≠ [] ∧ chunk.Nodup)
    (hf : offset + chunks.flatten.length ≤ remote.length) :
    chunkMaps targets layerIdx chunks offsets =
      .ok (mapsFrom targets chunks (remote.drop offset)) := by
  induction chunks generalizing offset offsets with
  | nil => rfl
  | cons chunk chunks ih =>
    rw [forall_mem_cons] at hchs
    rw [flatten_cons, length_append] at hf
    obtain ⟨offsets', hm, hset, -⟩ :=
      remoteBlockIdMaps_eq hoffer hat hids hchs.1.2 hchs.1.1 (by omega)
    have hat' : At targets layerIdx offsets' (offset + chunk.length) :=
      fun t ht => by rw [hset t ht, getD_some]
    have hr := ih hat' hchs.2 (by omega)
    have hl : (offset + chunk.length = remote.length) =
        (chunk.length = (remote.drop offset).length) := by
      rw [length_drop, eq_iff_iff]
      omega
    simp only [chunkMaps, hm, hr, bind, Except.bind, mapsFrom, drop_drop, hl]
    rfl

end

variable {t : PushTarget}

theorem lookup_map_target (ht : t ∈ targets) (m : BlockMap) :
    (targets.map fun t => (t.physicalReqId, m)).lookup t.physicalReqId = some m := by
  induction targets with
  | nil => cases ht
  | cons target targets ih =>
    rw [List.map_cons, lookup_cons]
    split
    next => rfl
    next hne =>
      rcases mem_cons.mp ht with rfl | ht
      · simp at hne
      · exact ih ht

theorem pairsOf_mapsFrom (ht : t ∈ targets) (chunks : List (List BlockId)) (remote : List BlockId) :
    pairsOf t.physicalReqId (mapsFrom targets chunks remote) =
      Pairing.chunkPairs chunks remote := by
  induction chunks generalizing remote with
  | nil => rfl
  | cons chunk chunks ih =>
    rw [mapsFrom, pairsOf, flatMap_cons, lookup_map_target ht]
    exact congrArg _ (ih _)

theorem all_const {α : Type} {l : List α} (hne : l ≠ []) (b : Bool) : (l.all fun _ => b) = b := by
  obtain ⟨a, l', rfl⟩ := exists_cons_of_ne_nil hne
  cases b with
  | false => rfl
  | true => exact all_eq_true.mpr fun _ _ => rfl

/-- All chunks are seen exactly at the last one. -/
theorem map_snd_mapsFrom (hne : targets ≠ []) (hchs : ∀ chunk ∈ chunks, chunk ≠ [])
    (hlen : chunks.flatten.length = remote.length) :
    (mapsFrom targets chunks remote).map Prod.snd =
      (List.range chunks.length).map fun i => decide (i + 1 = chunks.length) := by
  induction chunks generalizing remote with
  | nil => rfl
  | cons chunk chunks ih =>
    rw [forall_mem_cons] at hchs
    rw [flatten_cons, length_append] at hlen
    have hlast : chunk.length = remote.length ↔ chunks.length = 0 := by
      rw [length_eq_zero_iff]
      constructor
      · intro heq
        have hnil := eq_nil_of_length_eq_zero (by omega : chunks.flatten.length = 0)
        cases chunks with
        | nil => rfl
        | cons next rest =>
          rw [flatten_cons, append_eq_nil_iff] at hnil
          exact absurd hnil.1 (hchs.2 next mem_cons_self)
      · rintro rfl
        simpa using hlen
    have hse : (targets.all fun _ => decide (chunk.length = remote.length)) =
        decide (0 + 1 = (chunk :: chunks).length) := by
      rw [all_const hne, decide_eq_decide, hlast, length_cons]
      omega
    have hl : chunks.flatten.length = (remote.drop chunk.length).length := by
      rw [length_drop]
      omega
    have hr := ih hchs.2 hl
    rw [mapsFrom, List.map_cons, hse, hr, length_cons, range_succ_eq_map,
      List.map_cons, List.map_map]
    simp

/-! ## The pairing -/

/-- The chunks of a prompt are mapped without an error, no decode block is the target of two prefill
blocks, and all chunks are seen exactly at the last one.  The maps together send the k-th prefill
block to the k-th decode block, for every k, exactly if the two id lists are in order. -/
theorem pairing_by_position_iff {peer : DecodePeer} {reqId layerName : String} {blockIds : BlockIds}
    {payloads : List HandshakePayload} {groupIdx : Nat} {decode : List BlockId}
    {targets : List PushTarget} {chunks : List (List BlockId)}
    (hpayloads : peer.buildAllRankHandshakeDicts reqId blockIds = .ok payloads)
    (hlayer : peer.HasLayer layerIdx layerName)
    (hgroup : peer.worker.groupIdxForLayer layerName = .ok groupIdx)
    (hdecode : blockIds[groupIdx]? = some decode)
    (htargets : ∀ t ∈ targets, ∃ payload ∈ payloads, handshakeFromDict payload = .ok t.handshake)
    (hne : targets ≠ []) (hids : (targets.map PushTarget.physicalReqId).Nodup)
    (hoffsets : ∀ t ∈ targets, offsets.lookup (offsetKey t.physicalReqId layerIdx) = none)
    (hchunks : ∀ chunk ∈ chunks, chunk ≠ []) (hprefill : chunks.flatten.Nodup)
    (hdistinct : decode.Nodup) (hlen : chunks.flatten.length = decode.length) :
    ∃ maps, chunkMaps targets layerIdx chunks offsets = .ok maps ∧
      maps.map Prod.snd =
        (List.range chunks.length).map (fun i => decide (i + 1 = chunks.length)) ∧
      ∀ t ∈ targets, ((pairsOf t.physicalReqId maps).map Prod.snd).Nodup ∧
        (chunks.flatten.zip decode ⊆ pairsOf t.physicalReqId maps ↔
          Pairing.InOrder chunks decode) := by
  have hnodup : ∀ chunk ∈ chunks, chunk.Nodup :=
    fun chunk hchunk => hprefill.sublist (sublist_flatten_of_mem hchunk)
  have hremote := Pairing.length_sorted hdistinct
  have hat : At targets layerIdx offsets 0 := fun t ht => by rw [hoffsets t ht, getD_none]
  have hmaps : chunkMaps targets layerIdx chunks offsets =
      .ok (mapsFrom targets chunks (Pairing.sorted decode)) := by
    rcases eq_or_ne chunks [] with rfl | hsome
    · rfl
    have hdecodeNe : decode ≠ [] := by
      obtain ⟨chunk, rest, rfl⟩ := exists_cons_of_ne_nil hsome
      rw [flatten_cons, length_append] at hlen
      have hpos := length_pos_of_ne_nil (hchunks chunk mem_cons_self)
      exact ne_nil_of_length_pos (by omega)
    have hoffer : Offer targets layerIdx (Pairing.sorted decode) := by
      intro t ht
      obtain ⟨payload, hmem, hparsed⟩ := htargets t ht
      exact DecodePeer.layersByIdx_of_handshake hpayloads hmem hparsed hlayer hgroup hdecode
        hdecodeNe
    refine chunkMaps_eq hoffer hat hids (fun chunk hc => ⟨hchunks chunk hc, hnodup chunk hc⟩) ?_
    rw [Nat.zero_add, hremote, hlen]
  refine ⟨_, hmaps, map_snd_mapsFrom hne hchunks (hlen.trans hremote.symm), fun t ht => ?_⟩
  rw [pairsOf_mapsFrom ht, Pairing.map_snd_chunkPairs hnodup (hlen.trans hremote.symm)]
  exact ⟨Pairing.nodup_sorted decode, Pairing.zip_subset_chunkPairs_iff hprefill
    (Pairing.pairwise_sorted decode) (Pairing.sorted_perm hdistinct).symm hlen⟩

/-- A decode side of one rank with one layer, and what it says of the blocks 4 and 9. -/
def onePeer : DecodePeer where
  worker := ⟨["layer"], ∅⟩
  tpSize := 1
  layerTemplates := (∅ : Table Nat (List LayerTemplate)).insert 0 [⟨"layer", 0, [64]⟩]
  expectedImmCount := fun _ => 1

def onePayload : HandshakePayload := ⟨0, 1, 1, some [4, 9], [⟨0, none, [64]⟩]⟩

def oneTarget : PushTarget := ⟨"req", ⟨0, 1, 1, [⟨0, [4, 9], [64]⟩]⟩⟩

/-- Two chunks whose ids grow on both sides. -/
theorem pairing_by_position_two_chunks :
    ∃ maps, chunkMaps [oneTarget] 0 [[7], [2]] ∅ = .ok maps ∧ maps.map Prod.snd = [false, true] ∧
      [(7, 4), (2, 9)] ⊆ pairsOf "req" maps := by
  have hlayer : onePeer.HasLayer 0 "layer" := by
    intro rank templates h
    rcases Table.lookup_of_insert h with ⟨-, rfl⟩ | ⟨-, h⟩
    · exact ⟨⟨_, mem_singleton_self _, rfl⟩, fun t ht _ => by rw [mem_singleton.mp ht]⟩
    · cases h
  have htargets : ∀ t ∈ [oneTarget], ∃ payload ∈ [onePayload],
      handshakeFromDict payload = .ok t.handshake := by
    intro t ht
    rw [mem_singleton.mp ht]
    exact ⟨onePayload, mem_singleton_self _, rfl⟩
  have hpayloads : onePeer.buildAllRankHandshakeDicts "req" [[4, 9]] = .ok [onePayload] := rfl
  have hoffsets : ∀ t ∈ [oneTarget],
      (∅ : Table String Nat).lookup (offsetKey t.physicalReqId 0) = none := fun _ _ => rfl
  have hchunks : ∀ chunk ∈ [[7], [2]], chunk ≠ [] := by decide
  obtain ⟨maps, hmaps, hseen, hpairs⟩ := pairing_by_position_iff hpayloads hlayer rfl rfl htargets
    (by decide) (by decide) hoffsets hchunks (by decide) (by decide) rfl
  exact ⟨maps, hmaps, hseen, (hpairs oneTarget (mem_singleton_self _)).2.mpr (by decide)⟩

/-- Prefill ids that fall while the decode ids grow are crossed. -/
theorem falling_ids_crossed :
    onePeer.buildAllRankHandshakeDicts "req" [[4, 9]] = .ok [onePayload] ∧
    handshakeFromDict onePayload = .ok oneTarget.handshake ∧
    ∃ maps, chunkMaps [oneTarget] 0 [[7, 2]] ∅ = .ok maps ∧
      pairsOf "req" maps = [(2, 4), (7, 9)] ∧ ¬ [7, 2].zip [4, 9] ⊆ pairsOf "req" maps :=
  ⟨rfl, rfl, _, rfl, rfl, by decide⟩

end PegaFlow.Pd
