import Mathlib.Data.List.Perm.Basic
import PegaFlow.Lib.Tiles
import PegaFlow.Pd.HeadMapping

/-!
# What a plan copies

As long as the heads of a rank divide the total, the code numbers the heads in tiles, one per
rank, until the total is reached, and starts over.  The owner of a head is the rank of its tile,
so that the plans of all ranks together copy every head of the total once, from its place in the
prefill tiling to its place in the decode tiling (`copies_perm`).  How many ranks that takes for a
decode rank is a question about the two tilings (`mem_ranks_headPlan`).
-/

namespace PegaFlow.Pd

open List Option Table Loop

variable {ranks l m total rank head i : Nat}

/-! ## Owners -/

/-- The heads of a rank divide the total, and the ranks have room for it. -/
structure Tiled (ranks l total : Nat) : Prop where
  pos : 0 < l
  dvd : l ∣ total
  covers : total ≤ ranks * l

theorem tile_lt_of_dvd (hdvd : l ∣ total) (hh : head < total) (hi : i < l) :
    head / l * l + i < total := by
  obtain ⟨k, rfl⟩ := hdvd
  have hlt : head / l < k := Nat.div_lt_of_lt_mul hh
  calc head / l * l + i < head / l * l + l := Nat.add_lt_add_left hi _
    _ = (head / l + 1) * l := (Nat.succ_mul ..).symm
    _ ≤ k * l := Nat.mul_le_mul_right l hlt
    _ = l * k := Nat.mul_comm ..

theorem mem_rankGlobalHeads :
    head ∈ rankGlobalHeads rank l total ↔ ∃ i < l, (rank * l + i) % total = head := by
  rw [rankGlobalHeads, List.mem_map]
  exact exists_congr fun i => and_congr_left fun _ => mem_range

theorem rankGlobalHeads_div (hdvd : l ∣ total) (hh : head < total) :
    rankGlobalHeads (head / l) l total = (List.range l).map (head / l * l + ·) :=
  map_congr_left fun _ hi =>
    Nat.mod_eq_of_lt (tile_lt_of_dvd hdvd hh (mem_range.mp hi))

theorem Tiled.owner (h : Tiled ranks l total) (hh : head < total) :
    ownerRankForGlobalHead head ranks l total = .ok (head / l) := by
  have hfind : (range ranks).find? (fun rank => head ∈ rankGlobalHeads rank l total) =
      some (head / l) := by
    rw [find?_range_eq_some]
    refine ⟨decide_eq_true ?_, mem_range.mpr ?_, fun rank hr => ?_⟩
    · rw [rankGlobalHeads_div h.dvd hh]
      exact List.mem_map.mpr ⟨head % l, mem_range.mpr (Nat.mod_lt head h.pos),
        Nat.div_add_mod' head l⟩
    · exact Nat.div_lt_of_lt_mul ((hh.trans_le h.covers).trans_eq (Nat.mul_comm ..))
    · rw [Bool.not_eq_true', decide_eq_false_iff_not, mem_rankGlobalHeads]
      rintro ⟨i, hi, heq⟩
      -- an earlier rank ends before the tile of the head begins
      have hlt : rank * l + i < head / l * l :=
        calc rank * l + i < rank * l + l := Nat.add_lt_add_left hi _
          _ = (rank + 1) * l := (Nat.succ_mul ..).symm
          _ ≤ head / l * l := Nat.mul_le_mul_right l hr
      have hle := Nat.div_mul_le_self head l
      rw [Nat.mod_eq_of_lt (by omega)] at heq
      omega
  rw [ownerRankForGlobalHead, hfind]

theorem idxOf_rankGlobalHeads (hdvd : l ∣ total) (hl : 0 < l) (hh : head < total) :
    (rankGlobalHeads (head / l) l total).idxOf head = head % l := by
  rw [rankGlobalHeads_div hdvd hh]
  have hnd : ((range l).map (head / l * l + ·)).Nodup :=
    nodup_range.map fun _ _ h => Nat.add_left_cancel h
  have hget : ((range l).map (head / l * l + ·))[head % l]? = some head := by
    rw [getElem?_map, getElem?_range (Nat.mod_lt head hl), map_some, Nat.div_add_mod']
  obtain ⟨hlt, hget⟩ := List.getElem?_eq_some_iff.mp hget
  have := hnd.idxOf_getElem _ hlt
  rwa [hget] at this

/-- A rank owns a head it numbers exactly until the total is reached. -/
theorem owner_eq_iff (rank : Nat) (hdvd : l ∣ total) (hi : i < l) (htot : 0 < total) :
    (rank * l + i) % total / l = rank ↔ rank * l + i < total := by
  have hl : 0 < l := Nat.zero_lt_of_lt hi
  constructor
  · intro h
    have := tile_lt_of_dvd hdvd (Nat.mod_lt (rank * l + i) htot) hi
    rwa [h] at this
  · intro h
    rw [Nat.mod_eq_of_lt h, Nat.add_comm, Nat.add_mul_div_right _ _ hl, Nat.div_eq_of_lt hi,
      Nat.zero_add]

/-! ## Copies -/

/-- A head slot of a prefill rank is copied to one of a decode rank. -/
structure HeadCopy where
  source : Nat × Nat
  target : Nat × Nat
deriving DecidableEq, Repr

def HeadSlice.pairs (slice : HeadSlice) : List (Nat × Nat) :=
  (List.range (slice.localEnd - slice.localStart)).map fun i =>
    (slice.localStart + i, slice.remoteStart + i)

def PushTargetPlan.pairs (target : PushTargetPlan) (localNumKvHeads : Nat) : List (Nat × Nat) :=
  match target.headSlices with
  | [] => (List.range localNumKvHeads).map fun i => (i, i)
  | slices => slices.flatMap HeadSlice.pairs

/-- The copies of a target, of a prefill rank with this many heads. -/
def PushTargetPlan.copies (target : PushTargetPlan) (rank localNumKvHeads : Nat) : List HeadCopy :=
  (target.pairs localNumKvHeads).map fun p => ⟨(rank, p.1), (target.handshake.tpRank, p.2)⟩

def PushLayoutPlan.copies (plan : PushLayoutPlan) (rank localNumKvHeads : Nat) : List HeadCopy :=
  plan.targets.flatMap fun target => target.copies rank localNumKvHeads

theorem HeadSlice.pairs_single (localIdx remoteIdx globalHead : Nat) :
    (single localIdx remoteIdx globalHead).pairs = [(localIdx, remoteIdx)] := by
  simp [pairs, single]

theorem HeadSlice.pairs_join {prev item : HeadSlice} (h : prev.Joins item) :
    (prev.join item h).pairs = prev.pairs ++ item.pairs := by
  have hp := prev.local_lt
  have hi := item.local_lt
  have hs := prev.same_length
  have hlen : item.localEnd - prev.localStart =
      (prev.localEnd - prev.localStart) + (item.localEnd - item.localStart) := by
    have := h.1
    omega
  change (range (item.localEnd - prev.localStart)).map _ = _
  rw [hlen, List.range_add, List.map_append, List.map_map]
  refine congrArg _ (map_congr_left fun i _ => Prod.ext ?_ ?_)
  · have := h.1
    change prev.localStart + (prev.localEnd - prev.localStart + i) = item.localStart + i
    omega
  · have := h.2.1
    change prev.remoteStart + (prev.localEnd - prev.localStart + i) = item.remoteStart + i
    omega

variable (prev : HeadSlice) (rest : List HeadSlice) {slices : List HeadSlice}

theorem pairs_coalesceFrom :
    (coalesceFrom prev rest).flatMap HeadSlice.pairs = (prev :: rest).flatMap HeadSlice.pairs := by
  induction rest generalizing prev with
  | nil => rfl
  | cons item rest ih =>
    rw [coalesceFrom]
    split
    next h =>
      rw [ih, flatMap_cons, HeadSlice.pairs_join, flatMap_cons, flatMap_cons, append_assoc]
    · rw [flatMap_cons, ih]
      rfl

theorem pairs_coalesceHeadSlices (slices : List HeadSlice) :
    ((coalesceHeadSlices slices).flatMap HeadSlice.pairs).Perm
      (slices.flatMap HeadSlice.pairs) := by
  have hsort := (perm_insertionSort HeadSlice.Le slices).flatMap_right HeadSlice.pairs
  rw [coalesceHeadSlices]
  split
  next h => rwa [h] at hsort
  next h =>
    rw [pairs_coalesceFrom, ← h]
    exact hsort

theorem coalesceFrom_ne_nil : coalesceFrom prev rest ≠ [] := by
  induction rest generalizing prev with
  | nil => exact cons_ne_nil _ _
  | cons item rest ih =>
    rw [coalesceFrom]
    split
    · exact ih _
    · exact cons_ne_nil _ _

theorem coalesceHeadSlices_ne_nil (h : slices ≠ []) : coalesceHeadSlices slices ≠ [] := by
  rw [coalesceHeadSlices]
  split
  next hsort =>
    have := (perm_insertionSort HeadSlice.Le slices).symm
    rw [hsort] at this
    exact absurd this.eq_nil h
  · exact coalesceFrom_ne_nil _ _

/-- A target without slices is one whose only slice is the whole rank. -/
theorem pairs_dropFullRankSlice (h : slices ≠ []) (hs : PdHandshake)
    (localNumKvHeads remoteNumKvHeads : Nat) :
    (PushTargetPlan.mk hs (dropFullRankSlice localNumKvHeads remoteNumKvHeads slices)).pairs
      localNumKvHeads = slices.flatMap HeadSlice.pairs := by
  match slices with
  | [] => exact absurd rfl h
  | [only] =>
    rw [dropFullRankSlice]
    split
    next hfull =>
      obtain ⟨hsta, hend, hrem, -⟩ := hfull
      rw [flatMap_singleton, HeadSlice.pairs, hsta, hend, hrem]
      simp only [Nat.zero_add]
      rfl
    · rfl
  | _ :: _ :: _ => rfl

/-! ## Plans -/

/-- One handshake per decode rank. -/
structure OnePerRank (handshakes : List PdHandshake) (decodeTp : Nat) : Prop where
  ranks : (handshakes.map PdHandshake.tpRank).Perm (List.range decodeTp)
  tpSizes : ∀ h ∈ handshakes, h.tpSize = decodeTp

/-- The handshake of a rank. -/
def handshakeOf (handshakes : List PdHandshake) (rank : Nat) : PdHandshake :=
  (handshakes.reverse.find? (·.tpRank == rank)).getD ⟨rank, 0, 0, []⟩

theorem tpRank_handshakeOf (handshakes : List PdHandshake) (rank : Nat) :
    (handshakeOf handshakes rank).tpRank = rank := by
  rw [handshakeOf]
  cases hfd : handshakes.reverse.find? (·.tpRank == rank) with
  | none => rfl
  | some found =>
    have := find?_some hfd
    exact beq_iff_eq.mp this

theorem OnePerRank.handshakeByRank {handshakes : List PdHandshake} {decodeTp : Nat}
    (h : OnePerRank handshakes decodeTp) (hr : rank < decodeTp) :
    handshakeByRank handshakes rank = .ok (handshakeOf handshakes rank) := by
  have hm : rank ∈ handshakes.map PdHandshake.tpRank :=
    h.ranks.mem_iff.mpr (mem_range.mpr hr)
  obtain ⟨hs, hhs, hr⟩ := List.mem_map.mp hm
  obtain ⟨found, hfd⟩ : ∃ found, handshakes.reverse.find? (·.tpRank == rank) = some found := by
    refine isSome_iff_exists.mp (find?_isSome.mpr ⟨hs, mem_reverse.mpr hhs, ?_⟩)
    exact beq_iff_eq.mpr hr
  rw [Pd.handshakeByRank, handshakeOf, hfd]
  rfl

/-- The place of a head in both tilings. -/
def copyOf (l m x : Nat) : HeadCopy := ⟨(x / l, x % l), (x / m, x % m)⟩

namespace LayoutArgs

variable {args : LayoutArgs} {decodeTp : Nat} {handshakes : List PdHandshake}

/-- The slice of a slot of the rank, with its decode rank. -/
def sliceOf (args : LayoutArgs) (i : Nat) : Option (Nat × HeadSlice) :=
  let x := args.prefillTpRank * args.localNumKvHeads + i
  if x < args.totalNumKvHeads then
    some (x / args.remoteNumKvHeads, .single i (x % args.remoteNumKvHeads) x)
  else none

structure Even (args : LayoutArgs) (decodeTp : Nat) : Prop where
  rank_lt : args.prefillTpRank < args.prefillTpSize
  total_pos : 0 < args.totalNumKvHeads
  prefill : Tiled args.prefillTpSize args.localNumKvHeads args.totalNumKvHeads
  decode : Tiled decodeTp args.remoteNumKvHeads args.totalNumKvHeads

theorem Even.addHead_eq (h : args.Even decodeTp) (hi : i < args.localNumKvHeads)
    (slices : Table Nat (List HeadSlice)) :
    args.addHead decodeTp slices
        ((args.prefillTpRank * args.localNumKvHeads + i) % args.totalNumKvHeads, i) =
      .ok ((args.sliceOf i).elim slices fun e =>
        slices.insert e.1 ((slices.lookup e.1).getD [] ++ [e.2])) := by
  have hlt := Nat.mod_lt (args.prefillTpRank * args.localNumKvHeads + i) h.total_pos
  have hown := owner_eq_iff args.prefillTpRank h.prefill.dvd hi h.total_pos
  simp only [addHead, h.prefill.owner hlt, h.decode.owner hlt, bind, Except.bind, sliceOf]
  by_cases hx : args.prefillTpRank * args.localNumKvHeads + i < args.totalNumKvHeads
  · rw [if_neg (not_not.mpr (hown.mpr hx)), if_pos hx, Nat.mod_eq_of_lt hx,
      idxOf_rankGlobalHeads h.decode.dvd h.decode.pos hx]
    rfl
  · rw [if_pos (fun heq => hx (hown.mp heq)), if_neg hx]
    rfl

/-- The slices of the rank, in the order of its slots. -/
def sliceList (args : LayoutArgs) : List (Nat × HeadSlice) :=
  (List.range args.localNumKvHeads).filterMap args.sliceOf

theorem Even.targetSlices_eq (h : args.Even decodeTp) :
    (rankGlobalHeads args.prefillTpRank args.localNumKvHeads args.totalNumKvHeads).zipIdx.foldlM
      (args.addHead decodeTp) ∅ = .ok (Table.group args.sliceList) := by
  rw [rankGlobalHeads, Tiles.zipIdx_map_range, foldlM_map, group, sliceList, foldl_filterMap]
  refine foldlM_eq_ok_foldl _ fun i hi slices => ?_
  rw [h.addHead_eq (mem_range.mp hi)]
  cases args.sliceOf i <;> rfl

theorem mem_sliceList {e : Nat × HeadSlice} :
    e ∈ args.sliceList ↔ ∃ i < args.localNumKvHeads, args.sliceOf i = some e := by
  rw [sliceList, mem_filterMap]
  exact exists_congr fun i => and_congr_left fun _ => mem_range

/-- The decode ranks the rank has a slice for. -/
theorem mem_keys_iff {b : Nat} :
    b ∈ args.sliceList.map Prod.fst ↔
      Tiles.Meets args.localNumKvHeads args.remoteNumKvHeads args.totalNumKvHeads
        args.prefillTpRank b := by
  simp only [List.mem_map, mem_sliceList, sliceOf, Option.ite_none_right_eq_some, Option.some.injEq]
  constructor
  · rintro ⟨e, ⟨i, hi, hx, rfl⟩, rfl⟩
    exact ⟨i, hi, hx, rfl⟩
  · rintro ⟨i, hi, hx, rfl⟩
    exact ⟨_, ⟨i, hi, hx, rfl⟩, rfl⟩

/-- What the plan of a rank is to copy. -/
def planned (args : LayoutArgs) : List HeadCopy :=
  (List.range args.localNumKvHeads).filterMap fun i =>
    let x := args.prefillTpRank * args.localNumKvHeads + i
    if x < args.totalNumKvHeads then
      some (copyOf args.localNumKvHeads args.remoteNumKvHeads x)
    else none

/-- The copies of one slice. -/
def copiesOf (rank : Nat) (e : Nat × HeadSlice) : List HeadCopy :=
  e.2.pairs.map fun p => ⟨(rank, p.1), (e.1, p.2)⟩

theorem flatMap_copiesOf : args.sliceList.flatMap (copiesOf args.prefillTpRank) = args.planned := by
  rw [sliceList, planned, filterMap_eq_flatMap_toList, filterMap_eq_flatMap_toList, flatMap_assoc]
  refine flatMap_congr fun i hi => ?_
  simp only [sliceOf]
  split
  · have hplace := (Tiles.eq_iff args.prefillTpRank (mem_range.mp hi)).mpr rfl
    simp only [toList_some, flatMap_singleton, copiesOf, HeadSlice.pairs_single,
      map_singleton, copyOf, hplace]
  · rfl

/-- The decode ranks of the plan, in order. -/
def targetRanks (args : LayoutArgs) : List Nat :=
  Pairing.sorted (Table.group args.sliceList).keys

theorem mem_targetRanks {b : Nat} : b ∈ args.targetRanks ↔ b ∈ args.sliceList.map Prod.fst := by
  rw [targetRanks, Pairing.mem_sorted, ← AList.mem_keys, Table.mem_group]

/-- The target of a rank. -/
def targetOf (args : LayoutArgs) (handshakes : List PdHandshake) (b : Nat) : PushTargetPlan :=
  ⟨handshakeOf handshakes b, dropFullRankSlice args.localNumKvHeads args.remoteNumKvHeads
    (coalesceHeadSlices (((Table.group args.sliceList).lookup b).getD []))⟩

theorem copies_targetOf {b : Nat} (hm : b ∈ args.targetRanks) :
    ((args.targetOf handshakes b).copies rank args.localNumKvHeads).Perm
      ((args.sliceList.filter (·.1 = b)).flatMap (copiesOf rank)) := by
  have hne : (args.sliceList.filter (·.1 = b)).map Prod.snd ≠ [] := by
    obtain ⟨e, he, heq⟩ := List.mem_map.mp (mem_targetRanks.mp hm)
    exact ne_nil_of_mem (mem_map_of_mem (mem_filter.mpr ⟨he, decide_eq_true heq⟩))
  rw [PushTargetPlan.copies, targetOf, getD_lookup_group,
    pairs_dropFullRankSlice (coalesceHeadSlices_ne_nil hne)]
  refine ((pairs_coalesceHeadSlices _).map _).trans (.of_eq ?_)
  rw [flatMap_map, map_flatMap]
  refine flatMap_congr fun e he => ?_
  have : e.1 = b := of_decide_eq_true (mem_filter.mp he).2
  rw [copiesOf, this, tpRank_handshakeOf]

/-- The plan that a rank makes. -/
def headPlan (args : LayoutArgs) (handshakes : List PdHandshake) : PushLayoutPlan :=
  ⟨args.targetRanks.map (args.targetOf handshakes)⟩

theorem ranks_headPlan : (args.headPlan handshakes).ranks = args.targetRanks := by
  rw [PushLayoutPlan.ranks, headPlan, List.map_map]
  exact (map_congr_left fun b _ => tpRank_handshakeOf handshakes b).trans (map_id _)

theorem nodup_ranks_headPlan : (args.headPlan handshakes).ranks.Nodup := by
  rw [ranks_headPlan]
  exact Pairing.nodup_sorted _

theorem mem_ranks_headPlan {b : Nat} : b ∈ (args.headPlan handshakes).ranks ↔
    Tiles.Meets args.localNumKvHeads args.remoteNumKvHeads args.totalNumKvHeads
      args.prefillTpRank b := by
  rw [ranks_headPlan, mem_targetRanks, mem_keys_iff]

theorem copies_headPlan (args : LayoutArgs) (handshakes : List PdHandshake) :
    ((args.headPlan handshakes).copies args.prefillTpRank args.localNumKvHeads).Perm
      args.planned := by
  rw [PushLayoutPlan.copies, headPlan, flatMap_map, ← flatMap_copiesOf]
  refine (List.Perm.flatMap_left _ fun b hb => copies_targetOf hb).trans ?_
  rw [← flatMap_assoc]
  refine (flatMap_filter_perm (Pairing.nodup_sorted _) _ fun e he => ?_).flatMap_right _
  exact mem_targetRanks.mpr (mem_map_of_mem he)

theorem Even.buildHeadPlan_eq (h : args.Even decodeTp) (hone : OnePerRank handshakes decodeTp)
    (hdvd : args.prefillTpSize ∣ decodeTp ∨ decodeTp ∣ args.prefillTpSize) :
    args.buildHeadPlan decodeTp handshakes = .ok (args.headPlan handshakes) := by
  have hdvd : args.prefillTpSize = decodeTp ∨ args.prefillTpSize % decodeTp = 0 ∨
      decodeTp % args.prefillTpSize = 0 :=
    Or.inr (hdvd.symm.imp Nat.mod_eq_zero_of_dvd Nat.mod_eq_zero_of_dvd)
  have hlt : ∀ b ∈ args.targetRanks, b < decodeTp := by
    intro b hb
    obtain ⟨i, -, hx, rfl⟩ := mem_keys_iff.mp (mem_targetRanks.mp hb)
    exact Nat.div_lt_of_lt_mul ((hx.trans_le h.decode.covers).trans_eq (Nat.mul_comm ..))
  have htgts : args.targetRanks.mapM' (args.targetPlan handshakes (group args.sliceList)) =
      .ok (args.targetRanks.map (args.targetOf handshakes)) := by
    refine mapM_eq_ok_map fun b hb => ?_
    rw [targetPlan, hone.handshakeByRank (hlt b hb)]
    rfl
  simp only [buildHeadPlan, require_ok hdvd, require_ok h.prefill.covers,
    require_ok h.decode.covers, h.targetSlices_eq, bind, Except.bind]
  rw [targetRanks] at htgts
  rw [htgts]
  rfl

/-- The assertions of `build_push_layout_plan` pass. -/
theorem buildPushLayoutPlan_eq_ite (args : LayoutArgs)
    (hr : args.prefillTpRank < args.prefillTpSize)
    (hloc : 0 < args.localNumKvHeads) (hrem : 0 < args.remoteNumKvHeads)
    (htot : 0 < args.totalNumKvHeads) (hone : OnePerRank handshakes decodeTp)
    (htp : 0 < decodeTp) :
    args.buildPushLayoutPlan handshakes =
      if args.useMla then args.buildMlaPlan decodeTp handshakes
      else args.buildHeadPlan decodeTp handshakes := by
  have hlen : (Pairing.sorted (handshakes.map PdHandshake.tpRank)).length = decodeTp := by
    rw [Pairing.length_sorted (hone.ranks.nodup_iff.mpr nodup_range), hone.ranks.length_eq,
      length_range]
  cases handshakes with
  | nil => exact absurd hlen htp.ne
  | cons first rest =>
    have hfst : first.tpSize = decodeTp := hone.tpSizes first mem_cons_self
    simp only [buildPushLayoutPlan, assertHandshakeTpConsistency, hfst, require_ok hr,
      require_ok hloc, require_ok hrem, require_ok htot, require_ok hone.tpSizes,
      require_ok hlen, bind, Except.bind]

theorem Even.buildPushLayoutPlan_eq (h : args.Even decodeTp) (hmla : args.useMla = false)
    (hone : OnePerRank handshakes decodeTp) (htp : 0 < decodeTp)
    (hdvd : args.prefillTpSize ∣ decodeTp ∨ decodeTp ∣ args.prefillTpSize) :
    args.buildPushLayoutPlan handshakes = .ok (args.headPlan handshakes) := by
  rw [buildPushLayoutPlan_eq_ite args h.rank_lt h.prefill.pos h.decode.pos h.total_pos hone htp,
    hmla]
  exact h.buildHeadPlan_eq hone hdvd

/-- The second of two prefill ranks with four heads splits them over two decode ranks. -/
example :
    let plan := (LayoutArgs.mk 1 2 4 2 8 false).buildPushLayoutPlan (placeholderHandshakes 4)
    plan.toOption.map (fun plan => plan.targets.map fun target => (target.handshake.tpRank,
      target.headSlices.map fun slice =>
        (slice.localStart, slice.localEnd, slice.remoteStart, slice.remoteEnd))) =
      some [(2, [(0, 2, 0, 2)]), (3, [(2, 4, 0, 2)])] := rfl

/-! ## All ranks -/

variable {prefillTp : Nat}

/-- The heads of all ranks, without MLA. -/
def ofRank (prefillTp l m total rank : Nat) : LayoutArgs := ⟨rank, prefillTp, l, m, total, false⟩

theorem copies_perm (hcov : total ≤ prefillTp * l) :
    ((List.range prefillTp).flatMap fun rank =>
        ((ofRank prefillTp l m total rank).headPlan handshakes).copies rank l).Perm
      ((List.range total).map (copyOf l m)) := by
  rw [← Tiles.filterMap_range_lt hcov, ← Tiles.flatMap_range, filterMap_flatMap]
  refine List.Perm.flatMap_left _ fun rank _ => ?_
  rw [filterMap_map]
  exact copies_headPlan (ofRank prefillTp l m total rank) handshakes

theorem countP_ranks (handshakes : List PdHandshake) (b : Nat) :
    ((List.range prefillTp).map fun rank =>
        (ofRank prefillTp l m total rank).headPlan handshakes).countP (fun plan => b ∈ plan.ranks) =
      Tiles.sources prefillTp l m total b := by
  rw [countP_map]
  refine countP_congr fun rank _ => ?_
  rw [Function.comp_apply, decide_eq_true_iff, decide_eq_true_iff]
  exact mem_ranks_headPlan

theorem onePerRank_placeholderHandshakes (decodeTp : Nat) :
    OnePerRank (placeholderHandshakes decodeTp) decodeTp where
  ranks := by
    rw [placeholderHandshakes, List.map_map]
    exact .of_eq (map_id _)
  tpSizes h hh := by
    obtain ⟨rank, -, rfl⟩ := List.mem_map.mp hh
    rfl

/-- A rank that nobody pushes to has no entry. -/
theorem sourceCounts_eq (htot : 0 < total) (hpre : Tiled prefillTp l total)
    (hdecode : Tiled decodeTp m total) (htp : 0 < decodeTp)
    (hdvd : prefillTp ∣ decodeTp ∨ decodeTp ∣ prefillTp) :
    ∃ counts, decodeRankSourceCounts prefillTp decodeTp l m total false = .ok counts ∧
      ∀ b d, (counts.lookup b).getD d =
        if Tiles.sources prefillTp l m total b = 0 then d
        else Tiles.sources prefillTp l m total b := by
  let plan : Nat → PushLayoutPlan := fun rank =>
    (ofRank prefillTp l m total rank).headPlan (placeholderHandshakes decodeTp)
  refine ⟨tally ∅ ((range prefillTp).flatMap fun rank => (plan rank).ranks), ?_, ?_⟩
  · rw [← foldl_tally]
    refine foldlM_eq_ok_foldl _ fun rank hr counts => ?_
    have heven : (ofRank prefillTp l m total rank).Even decodeTp :=
      ⟨mem_range.mp hr, htot, hpre, hdecode⟩
    have := heven.buildPushLayoutPlan_eq rfl (onePerRank_placeholderHandshakes decodeTp) htp hdvd
    rw [ofRank] at this
    rw [this]
    rfl
  · intro b d
    have hct : ((range prefillTp).flatMap fun rank => (plan rank).ranks).count b =
        Tiles.sources prefillTp l m total b := by
      rw [count_flatMap_eq_countP fun rank _ => nodup_ranks_headPlan,
        ← countP_ranks (placeholderHandshakes decodeTp), countP_map]
      rfl
    rw [getD_lookup_tally, ← hct]
    simp only [count_eq_zero, ite_not, AList.lookup_empty, getD_none, Nat.zero_add]

end LayoutArgs

end PegaFlow.Pd
