import PegaFlow.Pd.LayerPush

/-!
# What is pushed when a request is finalized

A block is pushed when it is allocated, and again in the steps that follow until the next blocks are
allocated.  So the last push of a block carries all of its tokens only if the block is full by then,
and the request is finalized when its last block is allocated, not when its last token is computed.

`outcome` says which tokens are computed, and how many were at the last push of each block, when the
request is finalized; it looks at token counts only.  That is all a prompt's push needs
(`Complete`) exactly if the schedule is `Aligned`: a step that allocates blocks starts on a block
boundary, and the step that allocates the last block ends the prompt.  The machine of `LayerPush`
follows `outcome`, for every layer and target.
-/

namespace PegaFlow.Pd

open PushRequest (blocksFor)
open List Option AList

/-! ## Counting tokens -/

/-- The first block of the plan after a step. -/
def replan (B computed after planned : Nat) : Nat :=
  if blocksFor B computed < blocksFor B after then blocksFor B computed else planned

/-- The tokens that were computed at the last push of each block, after a step. -/
def repush (B after planned : Nat) (last : Nat → Nat) (i : Nat) : Nat :=
  if planned ≤ i ∧ i < blocksFor B after then after else last i

/-- What was computed and pushed when the request is finalized, from the tokens computed, the first
block of the plan and the last pushes. -/
def outcome (B numBlocks : Nat) :
    Nat → Nat → (Nat → Nat) → List Nat → Option (Nat × (Nat → Nat))
  | _, _, _, [] => none
  | computed, planned, last, tokens :: schedule =>
    let after := computed + tokens
    let planned := replan B computed after planned
    let last := repush B after planned last
    if blocksFor B after = numBlocks then some (after, last)
    else outcome B numBlocks after planned last schedule

/-- A step that allocates blocks starts on a block boundary, and the step that allocates the last
block of the prompt ends it. -/
def Aligned (B length : Nat) : Nat → List Nat → Prop
  | _, [] => True
  | computed, tokens :: schedule =>
    (blocksFor B computed < blocksFor B (computed + tokens) → B ∣ computed) ∧
    (blocksFor B (computed + tokens) = blocksFor B length → computed + tokens = length) ∧
    Aligned B length (computed + tokens) schedule

instance decidableAligned (B length : Nat) :
    ∀ computed schedule, Decidable (Aligned B length computed schedule)
  | _, [] => isTrue trivial
  | computed, tokens :: schedule =>
    have := decidableAligned B length (computed + tokens) schedule
    inferInstanceAs (Decidable (_ ∧ _ ∧ _))

section Count

variable {B L : Nat}

theorem blocksFor_zero (hB : 0 < B) : blocksFor B 0 = 0 := by
  exact Nat.div_eq_of_lt (by omega)

variable {a : Nat}

theorem blocksFor_mono {b : Nat} (h : a ≤ b) : blocksFor B a ≤ blocksFor B b :=
  Nat.div_le_div_right (by omega)

/-- A block is touched exactly if a token before its end was computed. -/
theorem lt_blocksFor_iff (hB : 0 < B) {i : Nat} : i < blocksFor B a ↔ i * B < a := by
  rw [blocksFor, Nat.lt_iff_add_one_le, Nat.le_div_iff_mul_le hB, Nat.add_one_mul]
  omega

theorem le_blocksFor_mul (hB : 0 < B) (a : Nat) : a ≤ blocksFor B a * B := by
  by_contra hlt
  exact absurd ((lt_blocksFor_iff hB).mpr (Nat.lt_of_not_le hlt)) (Nat.lt_irrefl _)

theorem blocksFor_mul_le_iff (hB : 0 < B) : blocksFor B a * B ≤ a ↔ B ∣ a := by
  constructor
  · intro h
    exact ⟨blocksFor B a, by rw [Nat.mul_comm]; exact Nat.le_antisymm (le_blocksFor_mul hB a) h⟩
  · rintro ⟨k, rfl⟩
    by_contra hlt
    have hk : k < blocksFor B (B * k) := by
      by_contra hle
      have hmul := Nat.mul_le_mul_right B (Nat.le_of_not_lt hle)
      rw [Nat.mul_comm k B] at hmul
      omega
    rw [lt_blocksFor_iff hB, Nat.mul_comm] at hk
    exact Nat.lt_irrefl _ hk

/-- The plan of a state: the blocks from `planned` on were pushed last. -/
structure Planned (B computed planned : Nat) (last : Nat → Nat) : Prop where
  lt : planned < blocksFor B computed ∨ computed = 0 ∧ planned = 0
  last : ∀ i, planned ≤ i → i < blocksFor B computed → last i = computed

theorem planned_init (B : Nat) : Planned B 0 0 fun _ => 0 :=
  ⟨Or.inr ⟨rfl, rfl⟩, fun _ _ _ => rfl⟩

/-- The blocks before `n` were full at their last push. -/
def Full (B n : Nat) (last : Nat → Nat) : Prop := ∀ i < n, (i + 1) * B ≤ last i

variable {computed planned : Nat} {last : Nat → Nat}

/-- When new blocks replace the plan, all blocks before them are full exactly if those before the
plan are and the computed tokens end on a block boundary. -/
theorem full_iff_of_planned (hB : 0 < B) (h : Planned B computed planned last) :
    Full B (blocksFor B computed) last ↔ Full B planned last ∧ B ∣ computed := by
  rw [← blocksFor_mul_le_iff hB]
  rcases h.lt with hlt | ⟨rfl, rfl⟩
  · constructor
    · intro hfull
      refine ⟨fun i hi => hfull i (by omega), ?_⟩
      have hl := hfull (blocksFor B computed - 1) (by omega)
      rw [h.last _ (by omega) (by omega), Nat.sub_add_cancel (by omega)] at hl
      exact hl
    · rintro ⟨hfull, hend⟩ i hi
      rcases Nat.lt_or_ge i planned with hi' | hi'
      · exact hfull i hi'
      · rw [h.last i hi' hi]
        exact Nat.le_trans (Nat.mul_le_mul_right B hi) hend
  · rw [blocksFor_zero hB]
    simp [Full]

variable {after : Nat}

theorem replan_le (h : Planned B computed planned last) :
    replan B computed after planned ≤ blocksFor B computed := by
  rw [replan]
  rcases h.lt with hlt | ⟨-, rfl⟩ <;> split <;> omega

theorem planned_step (hB : 0 < B) (h : Planned B computed planned last) (haft : computed < after) :
    Planned B after (replan B computed after planned)
      (repush B after (replan B computed after planned) last) := by
  have hmono : blocksFor B computed ≤ blocksFor B after := blocksFor_mono (Nat.le_of_lt haft)
  have hpos : 0 < blocksFor B after := (lt_blocksFor_iff hB).mpr (by omega)
  refine ⟨Or.inl ?_, fun i hi hi' => if_pos ⟨hi, hi'⟩⟩
  rw [replan]
  rcases h.lt with hlt | ⟨rfl, rfl⟩ <;> split <;> omega

/-- The blocks before the new plan are full exactly if those before the old one are and new blocks
start on a block boundary. -/
theorem full_step (hB : 0 < B) (h : Planned B computed planned last) (after : Nat) :
    Full B (replan B computed after planned)
        (repush B after (replan B computed after planned) last) ↔
      Full B planned last ∧ (blocksFor B computed < blocksFor B after → B ∣ computed) := by
  have hsm : Full B (replan B computed after planned)
      (repush B after (replan B computed after planned) last) ↔
        Full B (replan B computed after planned) last := by
    refine forall₂_congr fun i hi => ?_
    rw [repush, if_neg fun hin => Nat.not_le_of_lt hi hin.1]
  rw [hsm, replan]
  split
  next hnew => rw [full_iff_of_planned hB h, imp_iff_right hnew]
  next hnew => rw [and_iff_left fun hnew' => absurd hnew' hnew]

/-- At the step that allocates the last block. -/
theorem complete_iff_of_last (hB : 0 < B) (hl : blocksFor B after = blocksFor B L)
    (hplanned : planned < blocksFor B L) :
    (after = L ∧ ∀ i < blocksFor B L, min ((i + 1) * B) L ≤ repush B after planned last i) ↔
      after = L ∧ Full B planned (repush B after planned last) := by
  refine and_congr_right fun heq => ⟨fun h i hi => ?_, fun h i hi => ?_⟩
  · have hend : (i + 1) * B < L := (lt_blocksFor_iff hB).mp (by omega)
    have hi := h i (by omega)
    omega
  · rcases Nat.lt_or_ge i planned with hi' | hi'
    · exact Nat.le_trans (Nat.min_le_left _ _) (h i hi')
    · rw [repush, if_pos ⟨hi', hl ▸ hi⟩, heq]
      exact Nat.min_le_right _ _

/-- A prompt of `L` tokens is finalized, and then everything is computed and every block was
pushed with all of its tokens, exactly if the blocks before the plan are full and the rest of the
schedule is aligned. -/
theorem outcome_complete_iff (hB : 0 < B) {schedule : List Nat} (hpos : ∀ n ∈ schedule, 0 < n)
    (hsum : computed + schedule.sum = L) (hlt : blocksFor B computed < blocksFor B L)
    (hplan : Planned B computed planned last) :
    ∃ final last', outcome B (blocksFor B L) computed planned last schedule = some (final, last') ∧
      ((final = L ∧ ∀ i < blocksFor B L, min ((i + 1) * B) L ≤ last' i) ↔
        Full B planned last ∧ Aligned B L computed schedule) := by
  induction schedule generalizing computed planned last with
  | nil =>
    rw [sum_nil, Nat.add_zero] at hsum
    rw [hsum] at hlt
    exact absurd hlt (Nat.lt_irrefl _)
  | cons tokens schedule ih =>
    rw [forall_mem_cons] at hpos
    rw [sum_cons, ← Nat.add_assoc] at hsum
    have hle : blocksFor B (computed + tokens) ≤ blocksFor B L := blocksFor_mono (by omega)
    have hplanned : replan B computed (computed + tokens) planned < blocksFor B L :=
      Nat.lt_of_le_of_lt (replan_le hplan) hlt
    have hn := planned_step hB hplan (Nat.lt_add_of_pos_right hpos.1)
    have hfull := full_step hB hplan (computed + tokens)
    rw [Aligned, ← and_assoc, ← hfull]
    simp only [outcome]
    split
    next hl =>
      refine ⟨_, _, rfl, ?_⟩
      rw [complete_iff_of_last hB hl hplanned, and_comm, imp_iff_right hl]
      refine and_congr_right fun _ => (and_iff_left_of_imp fun heq => ?_).symm
      -- nothing is left of the schedule
      have hnil : schedule = [] := by
        cases schedule with
        | nil => rfl
        | cons next rest =>
          have hn := hpos.2 next mem_cons_self
          rw [sum_cons] at hsum
          omega
      rw [hnil]
      trivial
    next hne =>
      rw [and_iff_right fun heq => absurd heq hne]
      exact ih hpos.2 hsum (Nat.lt_of_le_of_ne hle hne) hn

end Count

/-! ## The blocks of a prompt -/

/-- The prefill blocks of a layer, in prompt order. -/
def layerIds (w : PdWorker) (prefill : BlockIds) (layerIdx : Nat) : List BlockId :=
  match w.layerNames[layerIdx]? with
  | none => []
  | some layerName =>
    match w.groupIdxForLayer layerName with
    | .ok groupIdx => prefill.getD groupIdx []
    | .error _ => []

/-- Both sides have `numBlocks` blocks for the prompt in every layer, and the push has targets. -/
structure Prompt (w : PdWorker) (targets : List PushTarget) (prefill : BlockIds)
    (numBlocks : Nat) : Prop where
  layers : 0 < w.layerNames.length
  distinct : ∀ l < w.layerNames.length, (layerIds w prefill l).Nodup
  length : ∀ l < w.layerNames.length, (layerIds w prefill l).length = numBlocks
  nonempty : targets ≠ []
  ids : (targets.map PushTarget.physicalReqId).Nodup
  offers : ∀ l < w.layerNames.length, ∃ remote, Offer targets l remote ∧ remote.length = numBlocks

namespace PushRequest

variable {w : PdWorker} {targets : List PushTarget} {prefill : BlockIds} {B L numBlocks : Nat}
variable {s s' : PushRequest}

/-- The plan of a layer pushes the blocks from `first` to `last` of the prompt to all targets. -/
structure PlanFor (targets : List PushTarget) (ids : List BlockId) (first last : Nat) (seen : Bool)
    (plan : PreparedLayerPush) : Prop where
  seen : plan.allChunksSeen = seen
  pushes : ∀ id block, plan.Pushes id block ↔
    id ∈ targets.map PushTarget.physicalReqId ∧ ∃ i, first ≤ i ∧ i < last ∧ ids[i]? = some block

variable {ids : List BlockId} {a b : Nat}

theorem mem_slice {block : BlockId} :
    block ∈ (ids.drop a).take (b - a) ↔ ∃ i, a ≤ i ∧ i < b ∧ ids[i]? = some block := by
  rw [mem_iff_getElem?]
  constructor
  · rintro ⟨k, hk⟩
    rw [getElem?_take, getElem?_drop] at hk
    obtain ⟨hlt, hk⟩ := ite_none_right_eq_some.mp hk
    exact ⟨a + k, by omega, by omega, hk⟩
  · rintro ⟨i, hai, hib, hi⟩
    refine ⟨i - a, ?_⟩
    rw [getElem?_take, if_pos (by omega), getElem?_drop, Nat.add_sub_cancel' hai]
    exact hi

/-- The new blocks of a layer in a step. -/
theorem blockIdsForLayer_newBlockIds (hprompt : Prompt w targets prefill numBlocks)
    (hpos : 0 < numBlocks) {layerIdx : Nat} {layerName : String}
    (hn : w.layerNames[layerIdx]? = some layerName) (a b : Nat) :
    w.blockIdsForLayer (newBlockIds prefill B a b) layerName =
      .ok (((layerIds w prefill layerIdx).drop (blocksFor B a)).take
        (blocksFor B b - blocksFor B a)) := by
  have hlt : layerIdx < w.layerNames.length := (List.getElem?_eq_some_iff.mp hn).1
  have hlen := hprompt.length layerIdx hlt
  have hnd := hprompt.distinct layerIdx hlt
  simp only [layerIds, hn] at hlen hnd ⊢
  rw [PdWorker.blockIdsForLayer]
  cases hgrp : w.groupIdxForLayer layerName with
  | error message =>
    simp only [hgrp, length_nil] at hlen
    omega
  | ok groupIdx =>
    simp only [hgrp] at hnd ⊢
    change Except.ok ((newBlockIds prefill B a b).getD groupIdx []).dedup = _
    have hslice : (newBlockIds prefill B a b).getD groupIdx [] =
        ((prefill.getD groupIdx []).drop (blocksFor B a)).take (blocksFor B b - blocksFor B a) := by
      simp only [newBlockIds, getD_eq_getElem?_getD, getElem?_map]
      cases prefill[groupIdx]? with
      | none => simp
      | some ids => rfl
    have hsub := ((take_sublist (blocksFor B b - blocksFor B a) _).trans
      (drop_sublist (blocksFor B a) (prefill.getD groupIdx [])))
    rw [hslice, (hnd.sublist hsub).dedup]

/-- The maps that the targets get for a chunk push its blocks to all of them. -/
theorem planFor_ofMaps {chunk remote : List BlockId} (hch : (ids.drop a).take (b - a) = chunk)
    (hne : chunk ≠ []) (hnd : chunk.Nodup) (hlen : chunk.length ≤ remote.length) (seen : Bool) :
    PlanFor targets ids a b seen (.ofMaps chunk
      (targets.map fun t => (t.physicalReqId, (Pairing.sorted chunk).zip remote)) seen) := by
  have hfst : ((Pairing.sorted chunk).zip remote).map Prod.fst = Pairing.sorted chunk := by
    refine map_fst_zip ?_
    rw [Pairing.length_sorted hnd]
    exact hlen
  have hsm : (Pairing.sorted chunk).zip remote ≠ [] := by
    intro hnil
    rw [hnil] at hfst
    have hz := Pairing.length_sorted hnd
    rw [← hfst] at hz
    exact hne (eq_nil_of_length_eq_zero hz.symm)
  refine ⟨rfl, fun id block => ?_⟩
  have hmem : block ∈ chunk ↔ block ∈ ((Pairing.sorted chunk).zip remote).map Prod.fst := by
    rw [hfst, Pairing.mem_sorted]
  rw [← mem_slice, hch, hmem]
  constructor
  · rintro ⟨m, hm, rfl, hb⟩
    obtain ⟨t, ht, rfl⟩ := mem_map.mp (mem_filter.mp hm).1
    exact ⟨mem_map_of_mem ht, hb⟩
  · rintro ⟨hid, hb⟩
    obtain ⟨t, ht, rfl⟩ := mem_map.mp hid
    refine ⟨(t.physicalReqId, (Pairing.sorted chunk).zip remote), ?_, rfl, hb⟩
    exact mem_filter.mpr ⟨mem_map_of_mem ht, decide_eq_true hsm⟩

variable {before after k : Nat}

/-- The plans of a step with new blocks. -/
theorem prepareLayers_eq (hprompt : Prompt w targets prefill numBlocks)
    (hnew : blocksFor B before < blocksFor B after) (hle : blocksFor B after ≤ numBlocks)
    {names : List String} (hnms : w.layerNames.drop k = names) {offsets : Table String Nat}
    (hat : ∀ l, k ≤ l → l < w.layerNames.length → At targets l offsets (blocksFor B before)) :
    ∃ layers offsets',
      prepareLayers w targets (newBlockIds prefill B before after) k names offsets =
        .ok ((layers, names.all fun _ => decide (blocksFor B after = numBlocks)), offsets') ∧
      (∀ l, k ≤ l → l < w.layerNames.length → ∃ plan, layers.lookup l = some plan ∧
        PlanFor targets (layerIds w prefill l) (blocksFor B before) (blocksFor B after)
          (decide (blocksFor B after = numBlocks)) plan) ∧
      (∀ l, k ≤ l → l < w.layerNames.length → At targets l offsets' (blocksFor B after)) ∧
      ∀ l < k, ∀ t ∈ targets, offsets'.lookup (offsetKey t.physicalReqId l) =
        offsets.lookup (offsetKey t.physicalReqId l) := by
  induction names generalizing k offsets with
  | nil =>
    have hend := drop_eq_nil_iff.mp hnms
    exact ⟨∅, offsets, rfl, fun l hl hlt => by omega, fun l hl hlt => by omega, fun _ _ _ _ => rfl⟩
  | cons name names ih =>
    have hn : w.layerNames[k]? = some name := by
      rw [← head?_drop, hnms, head?_cons]
    have hk : k < w.layerNames.length := (List.getElem?_eq_some_iff.mp hn).1
    have hr : w.layerNames.drop (k + 1) = names := by
      rw [← tail_drop, hnms, tail_cons]
    have hlen := hprompt.length k hk
    have hch := blockIdsForLayer_newBlockIds (B := B) hprompt (by omega) hn before after
    generalize hslice : ((layerIds w prefill k).drop (blocksFor B before)).take
      (blocksFor B after - blocksFor B before) = chunk at hch
    have hchunkLen : chunk.length = blocksFor B after - blocksFor B before := by
      rw [← hslice, length_take, length_drop]
      omega
    have hchunkNe : chunk ≠ [] := ne_nil_of_length_pos (by omega)
    have hchunkNodup : chunk.Nodup := by
      rw [← hslice]
      exact (hprompt.distinct k hk).sublist ((take_sublist _ _).trans (drop_sublist _ _))
    obtain ⟨remote, hoffer, hrem⟩ := hprompt.offers k hk
    have hadd : blocksFor B before + chunk.length = blocksFor B after := by omega
    obtain ⟨offsets₁, hm, hset, hkept⟩ :=
      remoteBlockIdMaps_eq hoffer (hat k (Nat.le_refl k) hk)
      hprompt.ids hchunkNodup hchunkNe (by omega)
    rw [hadd, hrem, all_const hprompt.nonempty] at hm
    have hfrm : ∀ l, l ≠ k → ∀ t ∈ targets, offsets₁.lookup (offsetKey t.physicalReqId l) =
        offsets.lookup (offsetKey t.physicalReqId l) := by
      intro l hl t ht
      exact hkept _ fun t' ht' h => hl (offsetKey_inj h).2
    have hat₁ : ∀ l, k + 1 ≤ l → l < w.layerNames.length →
        At targets l offsets₁ (blocksFor B before) := by
      intro l hl hlt t ht
      rw [hfrm l (by omega) t ht]
      exact hat l (by omega) hlt t ht
    obtain ⟨layers, offsets', hprep, hpls, hat', hk'⟩ := ih hr hat₁
    have htk :
        chunk.length ≤ ((remote.drop (blocksFor B before)).take chunk.length).length := by
      rw [length_take, length_drop]
      omega
    refine ⟨layers.insert k (.ofMaps chunk (targets.map fun t => (t.physicalReqId,
      (Pairing.sorted chunk).zip ((remote.drop (blocksFor B before)).take chunk.length)))
      (decide (blocksFor B after = numBlocks))), offsets', ?_, ?_, ?_, ?_⟩
    · simp only [prepareLayers, hch, hm, hprep, bind, Except.bind, if_neg hchunkNe]
      rfl
    · intro l hl hlt
      rcases Nat.eq_or_lt_of_le hl with rfl | hl
      · exact ⟨_, lookup_insert _, planFor_ofMaps hslice hchunkNe hchunkNodup htk _⟩
      · rw [lookup_insert_ne (Nat.ne_of_gt hl)]
        exact hpls l hl hlt
    · intro l hl hlt
      rcases Nat.eq_or_lt_of_le hl with rfl | hl
      · intro t ht
        rw [hk' k (Nat.lt_succ_self k) t ht, hset t ht, getD_some, hadd]
      · exact hat' l hl hlt
    · intro l hl t ht
      rw [hk' l (by omega) t ht, hfrm l (by omega) t ht]

/-! ## The forward pass -/

/-- The first `k` layers have computed and pushed what `s` had planned. -/
structure Passed (s : PushRequest) (tokens k : Nat) (h : PushSnapshot) : Prop where
  computed : ∀ l < k, h.computed l = tokens
  pushed : ∀ l < k, ∀ plan ∈ s.layerPlans.lookup l, ∀ id block, h.lastPush l id block =
    if plan.Pushes id block then some tokens else s.history.lastPush l id block
  kept : ∀ l, k ≤ l → ∀ id block, h.lastPush l id block = s.history.lastPush l id block

/-- The fields that a layer before the last one leaves alone. -/
structure SamePlans (s s' : PushRequest) : Prop where
  offsets : s'.offsets = s.offsets
  layerPlans : s'.layerPlans = s.layerPlans
  allLayersSeen : s'.allLayersSeen = s.allLayersSeen
  done : s'.done = s.done
  finalized : s'.finalized = s.finalized

theorem SamePlans.trans {s'' : PushRequest} (h : SamePlans s s') (h' : SamePlans s' s'') :
    SamePlans s s'' where
  offsets := h'.offsets.trans h.offsets
  layerPlans := h'.layerPlans.trans h.layerPlans
  allLayersSeen := h'.allLayersSeen.trans h.allLayersSeen
  done := h'.done.trans h.done
  finalized := h'.finalized.trans h.finalized

theorem SamePlans.lookup (h : SamePlans s s') {plan : PreparedLayerPush}
    (hplan : s.layerPlans.lookup k = some plan) : s'.layerPlans.lookup k = some plan :=
  h.layerPlans ▸ hplan

/-- The history after layer `k` has computed and pushed. -/
def layerHistory (s : PushRequest) (tokens k : Nat) (plan : PreparedLayerPush) : PushSnapshot where
  computed := Function.update s.history.computed k tokens
  lastPush := fun l id block =>
    if l = k ∧ plan.Pushes id block then some tokens else s.history.lastPush l id block

variable {plan : PreparedLayerPush}

theorem Passed.layer {tokens : Nat} (h : Passed s tokens k s'.history)
    (hplan : s.layerPlans.lookup k = some plan) :
    Passed s tokens (k + 1) (s'.layerHistory tokens k plan) where
  computed := by
    intro l hl
    rcases Nat.eq_or_lt_of_le (Nat.le_of_lt_succ hl) with rfl | hl
    · exact Function.update_self ..
    · exact (Function.update_of_ne (Nat.ne_of_lt hl) ..).trans (h.computed l hl)
  pushed := by
    intro l hl plan' hp' id block
    rcases Nat.eq_or_lt_of_le (Nat.le_of_lt_succ hl) with rfl | hl
    · cases hplan.symm.trans hp'
      simp only [layerHistory, true_and, h.kept l (Nat.le_refl l)]
    · simp only [layerHistory, Nat.ne_of_lt hl, false_and, if_false, h.pushed l hl plan' hp']
  kept := by
    intro l hl id block
    simp only [layerHistory, Nat.ne_of_gt hl, false_and, if_false, h.kept l (Nat.le_of_lt hl)]

section

variable (tokens : Nat) (hdone : s.done = false) (hplan : s.layerPlans.lookup k = some plan)
include tokens hdone hplan

/-- A layer before the last one. -/
theorem saveKvLayer_of_lt (hk : k + 1 ≠ w.layerNames.length) :
    SamePlans s (s.saveKvLayer w tokens k) ∧
      (s.saveKvLayer w tokens k).history = s.layerHistory tokens k plan := by
  simp only [saveKvLayer, pushPendingBlocks, hdone, hplan, hk, push, if_false, Bool.false_eq_true,
    Function.update_self]
  split
  next => exact ⟨⟨rfl, rfl, rfl, hdone.symm, rfl⟩, rfl⟩
  next => exact ⟨⟨rfl, rfl, rfl, hdone.symm, rfl⟩, rfl⟩

/-- The last layer of a step in which not all chunks are seen. -/
theorem saveKvLayer_of_last (hk : k + 1 = w.layerNames.length) (hse : s.allLayersSeen = false)
    (hch : plan.allChunksSeen = false) :
    SamePlans s (s.saveKvLayer w tokens k) ∧
      (s.saveKvLayer w tokens k).history = s.layerHistory tokens k plan := by
  -- the layer itself has not seen all chunks
  have hall : ∀ chunkSeen : Table Nat Bool, ((range w.layerNames.length).all fun l =>
      (((chunkSeen.insert k false).insert k false).lookup l).getD false) = false := by
    intro chunkSeen
    refine all_eq_false.mpr ⟨k, mem_range.mpr (by omega), ?_⟩
    rw [lookup_insert]
    simp
  simp only [saveKvLayer, pushPendingBlocks, hdone, hplan, hk, push, hse, hch, endChunk,
    allLayerChunksSeen, hall, if_false, if_true, Bool.false_eq_true, Bool.and_false,
    Function.update_self]
  exact ⟨⟨rfl, rfl, hse.symm, hdone.symm, rfl⟩, rfl⟩

/-- The last layer of the step in which all chunks are seen. -/
theorem saveKvLayer_finalizes (hk : k + 1 = w.layerNames.length) (hse : s.allLayersSeen) :
    (s.saveKvLayer w tokens k).done ∧
      (s.saveKvLayer w tokens k).finalized = some (s.layerHistory tokens k plan) := by
  simp only [saveKvLayer, pushPendingBlocks, hdone, hplan, hk, push, hse, endChunk, finalize,
    if_true, if_false, Bool.false_eq_true, Function.update_self, true_and]
  rfl

end

variable (tokens : Nat)

/-- The layers before `k`, none of them the last. -/
theorem forward_of_lt (hdone : s.done = false)
    (hpls : ∀ l < w.layerNames.length, ∃ plan, s.layerPlans.lookup l = some plan)
    (hk : k < w.layerNames.length) : SamePlans s ((List.range k).foldl (saveKvLayer w tokens) s) ∧
      Passed s tokens k ((List.range k).foldl (saveKvLayer w tokens) s).history := by
  induction k with
  | zero =>
    exact ⟨⟨rfl, rfl, rfl, rfl, rfl⟩, fun l hl => by omega, fun l hl => by omega,
      fun _ _ _ _ => rfl⟩
  | succ k ih =>
    obtain ⟨hsm, hps⟩ := ih (by omega)
    obtain ⟨plan, hplan⟩ := hpls k (by omega)
    rw [range_succ, foldl_append, foldl_cons, foldl_nil]
    generalize (range k).foldl (saveKvLayer w tokens) s = s₁ at hsm hps ⊢
    have hp₁ := hsm.lookup hplan
    obtain ⟨hsm₁, hhist⟩ :=
      saveKvLayer_of_lt tokens (hsm.done.trans hdone) hp₁ (Nat.ne_of_lt hk)
    rw [hhist]
    exact ⟨hsm.trans hsm₁, hps.layer hplan⟩

/-- A forward pass before all chunks are seen. -/
theorem forward_of_not_seen (hlen : 0 < w.layerNames.length) (hdone : s.done = false)
    (hse : s.allLayersSeen = false) (hpls : ∀ l < w.layerNames.length,
      ∃ plan, s.layerPlans.lookup l = some plan ∧ plan.allChunksSeen = false) :
    SamePlans s (s.forward w tokens) ∧
      Passed s tokens w.layerNames.length (s.forward w tokens).history := by
  obtain ⟨k, hk⟩ := Nat.exists_eq_succ_of_ne_zero (Nat.ne_of_gt hlen)
  obtain ⟨hsm, hps⟩ := forward_of_lt tokens hdone
    (fun l hl => (hpls l hl).imp fun _ h => h.1) (hk ▸ Nat.lt_succ_self k)
  obtain ⟨plan, hplan, hch⟩ := hpls k (by omega)
  rw [forward, hk, range_succ, foldl_append, foldl_cons, foldl_nil]
  generalize (range k).foldl (saveKvLayer w tokens) s = s₁ at hsm hps ⊢
  have hp₁ := hsm.lookup hplan
  obtain ⟨hsm₁, hhist⟩ := saveKvLayer_of_last tokens (hsm.done.trans hdone) hp₁ hk.symm
    (hsm.allLayersSeen.trans hse) hch
  rw [hhist]
  exact ⟨hsm.trans hsm₁, hps.layer hplan⟩

/-- The forward pass in which all chunks are seen. -/
theorem forward_of_seen (hlen : 0 < w.layerNames.length) (hdone : s.done = false)
    (hse : s.allLayersSeen) (hpls : ∀ l < w.layerNames.length,
      ∃ plan, s.layerPlans.lookup l = some plan) :
    (s.forward w tokens).done ∧ ∃ h, (s.forward w tokens).finalized = some h ∧
      Passed s tokens w.layerNames.length h := by
  obtain ⟨k, hk⟩ := Nat.exists_eq_succ_of_ne_zero (Nat.ne_of_gt hlen)
  obtain ⟨hsm, hps⟩ := forward_of_lt tokens hdone hpls (hk ▸ Nat.lt_succ_self k)
  obtain ⟨plan, hplan⟩ := hpls k (by omega)
  rw [forward, hk, range_succ, foldl_append]
  generalize (range k).foldl (saveKvLayer w tokens) s = s₁ at hsm hps ⊢
  have hp₁ := hsm.lookup hplan
  obtain ⟨hd₁, hfnl⟩ := saveKvLayer_finalizes tokens (hsm.done.trans hdone) hp₁ hk.symm
    (hsm.allLayersSeen.trans hse)
  exact ⟨hd₁, _, hfnl, hps.layer hplan⟩

/-- Nothing is pushed for a request that is done. -/
theorem forward_of_done (hdone : s.done) :
    (s.forward w tokens).done ∧ (s.forward w tokens).finalized = s.finalized := by
  rw [forward]
  induction w.layerNames.length with
  | zero => exact ⟨hdone, rfl⟩
  | succ k ih =>
    rw [range_succ, foldl_append, foldl_cons, foldl_nil]
    simp only [saveKvLayer, pushPendingBlocks, ih.1, if_true]
    exact ⟨trivial, ih.2⟩

/-! ## The machine follows the counts -/

variable (w) (targets) (prefill)

/-- All layers have plans for the blocks from `planned` to `last`, and those push them to all
targets. -/
def PlansFor (planned last : Nat) (seen : Bool) (s : PushRequest) : Prop :=
  s.allLayersSeen = seen ∧ ∀ l < w.layerNames.length, ∃ plan, s.layerPlans.lookup l = some plan ∧
    PlanFor targets (layerIds w prefill l) planned last seen plan

/-- The last push of the first `n` blocks of the prompt, in every layer and to every target. -/
def LastPushes (n : Nat) (last : Nat → Nat) (h : PushSnapshot) : Prop :=
  ∀ l < w.layerNames.length, ∀ t ∈ targets, ∀ i < n, ∀ block,
    (layerIds w prefill l)[i]? = some block →
      h.lastPush l t.physicalReqId block = some (last i)

variable {w} {targets} {prefill}

/-- The state after some steps, before all chunks are seen. -/
structure Follows (w : PdWorker) (targets : List PushTarget) (prefill : BlockIds) (B : Nat)
    (computed planned : Nat) (last : Nat → Nat) (s : PushRequest) : Prop where
  count : Planned B computed planned last
  done : s.done = false
  offsets : ∀ l < w.layerNames.length, At targets l s.offsets (blocksFor B computed)
  plans : 0 < computed →
    PlansFor w targets prefill planned (blocksFor B computed) false s
  pushes : LastPushes w targets prefill (blocksFor B computed) last s.history

variable {planned : Nat} {last : Nat → Nat}

section

variable (hprompt : Prompt w targets prefill numBlocks)
include hprompt

/-- A forward pass over plans updates the last pushes. -/
theorem lastPushes_of_passed {seen : Bool} {h : PushSnapshot}
    (hpls : PlansFor w targets prefill planned (blocksFor B after) seen s)
    (hplanned : planned ≤ blocksFor B before)
    (hpu : LastPushes w targets prefill (blocksFor B before) last s.history)
    (hps : Passed s after w.layerNames.length h) :
    LastPushes w targets prefill (blocksFor B after) (repush B after planned last) h := by
  intro l hl t ht i hi block hb
  obtain ⟨plan, hplan, hfor⟩ := hpls.2 l hl
  rw [hps.pushed l hl plan hplan, repush]
  have hp : plan.Pushes t.physicalReqId block ↔ planned ≤ i := by
    rw [hfor.pushes, and_iff_right (mem_map_of_mem ht)]
    constructor
    · rintro ⟨j, hj, -, hb'⟩
      obtain ⟨hi', hget⟩ := List.getElem?_eq_some_iff.mp hb
      obtain ⟨hj', hget'⟩ := List.getElem?_eq_some_iff.mp hb'
      have hij := (hprompt.distinct l hl).getElem_inj_iff.mp (hget.trans hget'.symm)
      omega
    · intro hle
      exact ⟨i, hle, hi, hb⟩
  rw [if_congr hp rfl rfl]
  split
  next hle => rw [if_pos ⟨hle, hi⟩]
  next hnot =>
    rw [if_neg fun h => hnot h.1]
    exact hpu l hl t ht i (by omega) block hb

/-- The scheduler sends a push request exactly if a step allocates blocks. -/
theorem sends_iff (hB : 0 < B) (haft : before < after) (hle : blocksFor B after ≤ numBlocks) :
    (before = 0 ∨ hasBlocks (newBlockIds prefill B before after)) ↔
      blocksFor B before < blocksFor B after := by
  constructor
  · rintro (rfl | hhas)
    · rw [blocksFor_zero hB]
      exact (lt_blocksFor_iff hB).mpr (by omega)
    · obtain ⟨group, hgrp, hpos⟩ := any_eq_true.mp hhas
      obtain ⟨ids, -, rfl⟩ := mem_map.mp hgrp
      have hpos := of_decide_eq_true hpos
      rw [length_take] at hpos
      omega
  · intro hlt
    right
    have hlen := hprompt.length 0 hprompt.layers
    rw [layerIds] at hlen
    split at hlen
    next => simp only [length_nil] at hlen; omega
    next layerName _ =>
      split at hlen
      next groupIdx _ =>
        rw [getD_eq_getElem?_getD] at hlen
        cases hids : prefill[groupIdx]? with
        | none =>
          rw [hids, getD_none, length_nil] at hlen
          omega
        | some ids =>
          rw [hids, getD_some] at hlen
          refine any_eq_true.mpr ⟨_, mem_map_of_mem (mem_of_getElem? hids), ?_⟩
          refine decide_eq_true ?_
          rw [length_take, length_drop]
          omega
      next => simp only [length_nil] at hlen; omega

variable {computed : Nat}

section

variable (hB : 0 < B) (hs : Follows w targets prefill B computed planned last s)
  (haft : computed < after) (hlt : blocksFor B computed < numBlocks)
include hB hs haft hlt

/-- The plans of a step, from new blocks or left over. -/
theorem plans_step (hle : blocksFor B after ≤ numBlocks) :
    ∃ s₁, s.sendPush w targets prefill B computed after = .ok s₁ ∧
      s₁.done = false ∧ s₁.history = s.history ∧
      (∀ l < w.layerNames.length, At targets l s₁.offsets (blocksFor B after)) ∧
      PlansFor w targets prefill (replan B computed after planned) (blocksFor B after)
        (decide (blocksFor B after = numBlocks)) s₁ := by
  have hmono : blocksFor B computed ≤ blocksFor B after := blocksFor_mono (Nat.le_of_lt haft)
  simp only [sendPush, sends_iff hprompt hB haft hle, replan]
  split
  next hnew =>
    obtain ⟨layers, offsets, hprep, hpls, hat, -⟩ :=
      prepareLayers_eq hprompt hnew hle (drop_zero) fun l _ hl => hs.offsets l hl
    rw [all_const (ne_nil_of_length_pos hprompt.layers)] at hprep
    have hproc : s.processPushReq w targets (newBlockIds prefill B computed after) = .ok { s with
          localBlockIds := newBlockIds prefill B computed after
          offsets := offsets
          layerPlans := layers
          allLayersSeen := decide (blocksFor B after = numBlocks)
          chunkSeen := ∅ } := by
      simp only [processPushReq, hprep, bind, Except.bind]
      rfl
    exact ⟨_, hproc, hs.done, rfl, fun l hl => hat l (Nat.zero_le l) hl, rfl,
      fun l hl => hpls l (Nat.zero_le l) hl⟩
  next ho =>
    have heq : blocksFor B after = blocksFor B computed := by omega
    have hpos : 0 < computed := by
      by_contra hz
      have hz : computed = 0 := by omega
      subst hz
      rw [blocksFor_zero hB] at heq
      have := (lt_blocksFor_iff hB).mpr (by omega : 0 * B < after)
      omega
    refine ⟨s, rfl, hs.done, rfl, ?_, ?_⟩
    · rw [heq]
      exact hs.offsets
    · rw [heq, decide_eq_false (Nat.ne_of_lt hlt)]
      exact hs.plans hpos

/-- A step after which not all chunks are seen. -/
theorem step_follows (hlt' : blocksFor B after < numBlocks) :
    ∃ s', s.step w targets prefill B computed after = .ok s' ∧
      Follows w targets prefill B after (replan B computed after planned)
        (repush B after (replan B computed after planned) last) s' := by
  obtain ⟨s₁, hproc, hdone, hhist, hat, hpls⟩ :=
    plans_step hprompt hB hs haft hlt (Nat.le_of_lt hlt')
  rw [decide_eq_false (Nat.ne_of_lt hlt')] at hpls
  obtain ⟨hsm, hps⟩ := forward_of_not_seen after hprompt.layers hdone hpls.1
    fun l hl => (hpls.2 l hl).imp fun plan h => ⟨h.1, h.2.seen⟩
  refine ⟨s₁.forward w after, ?_, planned_step hB hs.count haft, hsm.done.trans hdone, ?_, ?_, ?_⟩
  · rw [step, hproc]
    rfl
  · rw [hsm.offsets]
    exact hat
  · intro _
    rw [PlansFor, hsm.allLayersSeen, hsm.layerPlans]
    exact hpls
  · refine lastPushes_of_passed hprompt hpls (replan_le hs.count) ?_ hps
    rw [hhist]
    exact hs.pushes

/-- The step in which all chunks are seen. -/
theorem step_finalizes (hlast : blocksFor B after = numBlocks) :
    ∃ s' h, s.step w targets prefill B computed after = .ok s' ∧ s'.done ∧
      s'.finalized = some h ∧ (∀ l < w.layerNames.length, h.computed l = after) ∧
      LastPushes w targets prefill numBlocks
        (repush B after (replan B computed after planned) last) h := by
  obtain ⟨s₁, hproc, hdone, hhist, hat, hpls⟩ :=
    plans_step hprompt hB hs haft hlt (Nat.le_of_eq hlast)
  rw [decide_eq_true hlast] at hpls
  obtain ⟨hd', h, hfnl, hps⟩ := forward_of_seen after hprompt.layers hdone hpls.1
    fun l hl => (hpls.2 l hl).imp fun plan h => h.1
  refine ⟨s₁.forward w after, h, ?_, hd', hfnl, hps.computed, ?_⟩
  · rw [step, hproc]
    rfl
  · rw [← hlast]
    refine lastPushes_of_passed hprompt hpls (replan_le hs.count) ?_ hps
    rw [hhist]
    exact hs.pushes

end

end

variable {schedule : List Nat}

/-- The steps after the request is done change nothing. -/
theorem run_of_done (hprompt : Prompt w targets prefill (blocksFor B L)) (hB : 0 < B)
    (hpos : ∀ n ∈ schedule, 0 < n) (hsum : computed + schedule.sum = L)
    (hall : blocksFor B computed = blocksFor B L) (hdone : s.done) :
    ∃ s', run w targets prefill B s computed schedule = .ok s' ∧ s'.finalized = s.finalized := by
  induction schedule generalizing s computed with
  | nil => exact ⟨s, rfl, rfl⟩
  | cons tokens schedule ih =>
    rw [forall_mem_cons] at hpos
    rw [sum_cons, ← Nat.add_assoc] at hsum
    have hmono : blocksFor B computed ≤ blocksFor B (computed + tokens) :=
      blocksFor_mono (Nat.le_add_right _ _)
    have hle : blocksFor B (computed + tokens) ≤ blocksFor B L := blocksFor_mono (by omega)
    have hn : ¬ (computed = 0 ∨
        hasBlocks (newBlockIds prefill B computed (computed + tokens))) := by
      rw [sends_iff hprompt hB (Nat.lt_add_of_pos_right hpos.1) hle]
      omega
    obtain ⟨hd', hfnl⟩ := forward_of_done (w := w) (computed + tokens) hdone
    obtain ⟨s', hrun, hsm⟩ := ih hpos.2 hsum (by omega) hd'
    refine ⟨s', ?_, hsm.trans hfnl⟩
    rw [run, step, sendPush, if_neg hn]
    exact hrun

/-- The machine finalizes the request where the counts do, with what they say. -/
theorem run_follows (hprompt : Prompt w targets prefill (blocksFor B L)) (hB : 0 < B) {final : Nat}
    {last' : Nat → Nat} (hs : Follows w targets prefill B computed planned last s)
    (hpos : ∀ n ∈ schedule, 0 < n) (hsum : computed + schedule.sum = L)
    (hlt : blocksFor B computed < blocksFor B L)
    (hout : outcome B (blocksFor B L) computed planned last schedule = some (final, last')) :
    ∃ s' h, run w targets prefill B s computed schedule = .ok s' ∧ s'.finalized = some h ∧
      (∀ l < w.layerNames.length, h.computed l = final) ∧
      LastPushes w targets prefill (blocksFor B L) last' h := by
  induction schedule generalizing s computed planned last with
  | nil => cases hout
  | cons tokens schedule ih =>
    rw [forall_mem_cons] at hpos
    rw [sum_cons, ← Nat.add_assoc] at hsum
    have haft : computed < computed + tokens := Nat.lt_add_of_pos_right hpos.1
    have hle : blocksFor B (computed + tokens) ≤ blocksFor B L := blocksFor_mono (by omega)
    simp only [outcome] at hout
    split at hout
    next hl =>
      cases hout
      obtain ⟨s₁, h, hst, hdone, hfnl, hcmp, hpu⟩ :=
        step_finalizes hprompt hB hs haft hlt hl
      obtain ⟨s', hrun, hsm⟩ := run_of_done hprompt hB hpos.2 hsum hl hdone
      refine ⟨s', h, ?_, hsm.trans hfnl, hcmp, hpu⟩
      rw [run, hst]
      exact hrun
    next hne =>
      have hlt' : blocksFor B (computed + tokens) < blocksFor B L := Nat.lt_of_le_of_ne hle hne
      obtain ⟨s₁, hst, hs₁⟩ := step_follows hprompt hB hs haft hlt hlt'
      obtain ⟨s', h, hrun, hr⟩ := ih hs₁ hpos.2 hsum hlt' hout
      refine ⟨s', h, ?_, hr⟩
      rw [run, hst]
      exact hrun

theorem follows_init (hB : 0 < B) : Follows w targets prefill B 0 0 (fun _ => 0) init where
  count := planned_init B
  done := rfl
  offsets := by
    intro l _ t _
    rw [blocksFor_zero hB]
    rfl
  plans := fun h => absurd h (Nat.lt_irrefl 0)
  pushes := by
    intro l _ t _ i hi
    rw [blocksFor_zero hB] at hi
    exact absurd hi (Nat.not_lt_zero i)

end PushRequest

/-- Every layer has computed all tokens of the prompt, and the last push of every block to every
target was made with all of its tokens computed. -/
def PushSnapshot.Complete (w : PdWorker) (targets : List PushTarget) (prefill : BlockIds)
    (B L : Nat) (h : PushSnapshot) : Prop :=
  ∀ l < w.layerNames.length, h.computed l = L ∧
    ∀ t ∈ targets, ∀ i < blocksFor B L, ∀ block, (layerIds w prefill l)[i]? = some block →
      ∃ n, h.lastPush l t.physicalReqId block = some n ∧ min ((i + 1) * B) L ≤ n

namespace PushRequest

variable {w : PdWorker} {targets : List PushTarget} {prefill : BlockIds} {B L : Nat}

theorem complete_iff_of_lastPushes (hprompt : Prompt w targets prefill (blocksFor B L))
    {h : PushSnapshot} {final : Nat} {last : Nat → Nat}
    (hcmp : ∀ l < w.layerNames.length, h.computed l = final)
    (hpu : LastPushes w targets prefill (blocksFor B L) last h) :
    h.Complete w targets prefill B L ↔
      final = L ∧ ∀ i < blocksFor B L, min ((i + 1) * B) L ≤ last i := by
  constructor
  · intro hcompl
    obtain ⟨hfnl, hbs⟩ := hcompl 0 hprompt.layers
    obtain ⟨t, ht⟩ := exists_mem_of_ne_nil targets hprompt.nonempty
    refine ⟨(hcmp 0 hprompt.layers).symm.trans hfnl, fun i hi => ?_⟩
    have hlt : i < (layerIds w prefill 0).length := by
      rw [hprompt.length 0 hprompt.layers]
      exact hi
    have hb := getElem?_eq_getElem hlt
    obtain ⟨n, hn, hle⟩ := hbs t ht i hi _ hb
    cases (hpu 0 hprompt.layers t ht i hi _ hb).symm.trans hn
    exact hle
  · rintro ⟨rfl, hlast⟩ l hl
    refine ⟨hcmp l hl, fun t ht i hi block hb => ?_⟩
    exact ⟨last i, hpu l hl t ht i hi block hb, hlast i hi⟩

/-- The finalize task of a prompt is submitted, and at that point all its tokens are computed and
the last push of every block carried all of its tokens, exactly if every step that allocates
blocks starts on a block boundary and the one that allocates the last block ends the prompt. -/
theorem push_complete_iff_aligned (hprompt : Prompt w targets prefill (blocksFor B L)) (hB : 0 < B)
    {schedule : List Nat} (hpos : ∀ n ∈ schedule, 0 < n) (hsum : schedule.sum = L) (hL : 0 < L) :
    ∃ s h, run w targets prefill B init 0 schedule = .ok s ∧ s.finalized = some h ∧
      (h.Complete w targets prefill B L ↔ Aligned B L 0 schedule) := by
  have hsum' : 0 + schedule.sum = L := by rw [Nat.zero_add, hsum]
  have hlt : blocksFor B 0 < blocksFor B L := by
    rw [blocksFor_zero hB]
    exact (lt_blocksFor_iff hB).mpr (by rw [Nat.zero_mul]; exact hL)
  obtain ⟨final, last, houtcome, hiff⟩ :=
    outcome_complete_iff hB hpos hsum' hlt (planned_init B)
  obtain ⟨s, h, hrun, hfinal, hcomputed, hpushes⟩ :=
    run_follows hprompt hB (follows_init hB) hpos hsum' hlt houtcome
  refine ⟨s, h, hrun, hfinal, ?_⟩
  rw [complete_iff_of_lastPushes hprompt hcomputed hpushes, hiff]
  exact and_iff_right fun i hi => absurd hi (Nat.not_lt_zero i)

/-- Two layers of one KV cache group. -/
def twoLayers : PdWorker := ⟨["first", "second"], ∅⟩

/-- A target that offers the decode blocks `remote` for both layers. -/
def offering (remote : List BlockId) : PushTarget :=
  ⟨"req", ⟨0, 1, 1, [⟨0, remote, [64]⟩, ⟨1, remote, [64]⟩]⟩⟩

theorem offer_offering (remote : List BlockId) :
    ∀ l < twoLayers.layerNames.length, ∃ remote', Offer [offering remote] l remote' ∧
      remote'.length = remote.length := by
  intro l hl
  refine ⟨remote, fun t ht => ?_, rfl⟩
  rw [mem_singleton.mp ht]
  match l, hl with
  | 0, _ | 1, _ => exact ⟨_, rfl, rfl⟩

/-- Ten tokens in blocks of four, computed a block at a time. -/
theorem push_complete_block_steps :
    ∃ s h, run twoLayers [offering [1, 3, 4]] [[7, 2, 5]] 4 init 0 [4, 4, 2] = .ok s ∧
      s.finalized = some h ∧ h.Complete twoLayers [offering [1, 3, 4]] [[7, 2, 5]] 4 10 := by
  have hprompt : Prompt twoLayers [offering [1, 3, 4]] [[7, 2, 5]] (blocksFor 4 10) :=
    ⟨by decide, by decide, by decide, by decide, by decide, offer_offering [1, 3, 4]⟩
  obtain ⟨s, h, hrun, hfinal, hiff⟩ := push_complete_iff_aligned hprompt (by decide)
    (by decide : ∀ n ∈ [4, 4, 2], 0 < n) rfl (by decide)
  exact ⟨s, h, hrun, hfinal, hiff.mpr (by decide)⟩

/-- Five tokens touch both blocks of a prompt of six: it is finalized before the last token is
computed. -/
theorem finalized_before_last_token :
    ∃ s h, run twoLayers [offering [1, 3]] [[7, 2]] 4 init 0 [5, 1] = .ok s ∧
      s.finalized = some h ∧ h.computed 0 = 5 ∧ h.lastPush 0 "req" 2 = some 5 ∧
      ¬ h.Complete twoLayers [offering [1, 3]] [[7, 2]] 4 6 := by
  refine ⟨_, _, rfl, rfl, rfl, rfl, fun hcomplete => ?_⟩
  have hcomputed : 5 = 6 := (hcomplete 0 (by decide)).1
  exact absurd hcomputed (by decide)

-- The first block is not pushed again when the tokens that fill it come with new blocks.
example :
    ∃ s h, run twoLayers [offering [1, 3]] [[7, 2]] 4 init 0 [2, 6] = .ok s ∧
      s.finalized = some h ∧ h.computed 0 = 8 ∧ h.lastPush 0 "req" 7 = some 2 :=
  ⟨_, _, rfl, rfl, rfl, rfl⟩

end PushRequest

end PegaFlow.Pd
