import PegaFlow.Storage.WritePath

/-!
# What the insert worker makes of a batch

One key is followed through a batch: the entries hold exactly the blocks of the batch
(`mem_buildInsertEntries`), an entry of the key fills its slots, and an entry of another key
leaves it alone.  So a statement `P` about the slots of a key that holds of what is in flight,
what is resident and what a batch brings holds after the batch (`KeyHolds`), and no slot gets
lost unless the cache rejects the key (`Present`).

The worker does not panic if the slots of a batch are in range: a block is sealed when its
last empty slot is filled, and only then.
-/

namespace PegaFlow.Storage

open List AList

/-! ## What the entries hold -/

/-- The batch holds the block `raw` for a slot of the key. -/
def RawSaveBatch.Has (batch : RawSaveBatch) (key : BlockKey) (slot : Nat) (raw : RawBlock) : Prop :=
  key.nameSpace = batch.nameSpace ∧
    ∃ layer ∈ batch.layers, layer.slotId = slot ∧ (key.hash, raw) ∈ layer.blocks

variable {batch : RawSaveBatch} {key key' : BlockKey} {slot : Nat} {raw : RawBlock}
variable {slots : List (Nat × RawBlock)}

variable {layers : List RawSaveLayer} {hash : BlockHash}

theorem mem_saveItems :
    (hash, slot, raw) ∈ saveItems layers ↔
      ∃ layer ∈ layers, layer.slotId = slot ∧ (hash, raw) ∈ layer.blocks := by
  simp only [saveItems, mem_flatMap, mem_map, Prod.mk.injEq]
  constructor
  · rintro ⟨layer, hl, ⟨_, _⟩, hb, rfl, rfl, rfl⟩
    exact ⟨layer, hl, rfl, hb⟩
  · rintro ⟨layer, hl, rfl, hb⟩
    exact ⟨layer, hl, (hash, raw), hb, rfl, rfl, rfl⟩

variable {items : List (BlockHash × Nat × RawBlock)}
variable {groups : Table BlockHash (List (Nat × RawBlock))}

theorem mem_groupItems {x : Nat × RawBlock} :
    x ∈ ((groupItems items groups).lookup hash).getD [] ↔
      x ∈ (groups.lookup hash).getD [] ∨ (hash, x) ∈ items := by
  induction items generalizing groups with
  | nil => simp [groupItems]
  | cons item items ih =>
    obtain ⟨h, y⟩ := item
    rw [groupItems, ih]
    by_cases heq : hash = h
    · subst heq
      simp [AList.lookup_insert, or_assoc]
    · simp [AList.lookup_insert_ne heq, heq]

variable {nameSpace : String}

theorem mem_hashedEntries :
    (∃ slots, (key, slots) ∈ buildHashedInsertEntries nameSpace layers ∧ (slot, raw) ∈ slots) ↔
      key.nameSpace = nameSpace ∧ (key.hash, slot, raw) ∈ saveItems layers := by
  constructor
  · rintro ⟨slots, hm, hs⟩
    obtain ⟨⟨hash, group⟩, hgrp, heq⟩ := mem_map.mp hm
    cases heq
    have hlk : (groupItems (saveItems layers) ∅).lookup hash = some group :=
      mem_lookup_iff.mpr hgrp
    have hi : (slot, raw) ∈ ((groupItems (saveItems layers) ∅).lookup hash).getD [] := by
      rw [hlk]
      exact hs
    rw [mem_groupItems] at hi
    exact ⟨rfl, by simpa using hi⟩
  · rintro ⟨rfl, hi⟩
    have hm : (slot, raw) ∈ ((groupItems (saveItems layers) ∅).lookup key.hash).getD [] :=
      mem_groupItems.mpr (Or.inr hi)
    cases hlk : (groupItems (saveItems layers) ∅).lookup key.hash with
    | none =>
      rw [hlk] at hm
      cases hm
    | some group =>
      rw [hlk] at hm
      exact ⟨group, mem_map.mpr ⟨⟨key.hash, group⟩, mem_lookup_iff.mp hlk, rfl⟩, hm⟩

theorem mem_orderedEntries
    (hsm : ∀ layer ∈ layers, ∀ layer' ∈ layers, layer.blockHashes = layer'.blockHashes) :
    (∃ slots, (key, slots) ∈ buildOrderedInsertEntries nameSpace layers ∧ (slot, raw) ∈ slots) ↔
      key.nameSpace = nameSpace ∧ (key.hash, slot, raw) ∈ saveItems layers := by
  rw [mem_saveItems]
  cases layers with
  | nil => simp [buildOrderedInsertEntries]
  | cons first rest =>
    have hh : ∀ layer ∈ first :: rest, ∀ i : Nat,
        first.blockHashes[i]? = (layer.blocks[i]?).map Prod.fst := by
      intro layer hl i
      rw [hsm first mem_cons_self layer hl, RawSaveLayer.blockHashes, List.getElem?_map]
    constructor
    · rintro ⟨slots, hm, hs⟩
      obtain ⟨⟨hash, i⟩, hent, heq⟩ := mem_map.mp hm
      cases heq
      obtain ⟨layer, hl, hb⟩ := mem_filterMap.mp hs
      obtain ⟨block, hi, heq⟩ := Option.map_eq_some_iff.mp hb
      cases heq
      have hfst : first.blockHashes[i]? = some hash := mem_zipIdx_iff_getElem?.mp hent
      rw [hh layer hl i, hi] at hfst
      cases hfst
      exact ⟨rfl, layer, hl, rfl, mem_of_getElem? hi⟩
    · rintro ⟨rfl, layer, hl, rfl, hb⟩
      obtain ⟨i, hi⟩ := mem_iff_getElem?.mp hb
      have hfst : first.blockHashes[i]? = some key.hash := by rw [hh layer hl i, hi]; rfl
      refine ⟨_, mem_map.mpr ⟨(key.hash, i), mem_zipIdx_iff_getElem?.mpr hfst, rfl⟩, ?_⟩
      exact mem_filterMap.mpr ⟨layer, hl, by rw [hi]; rfl⟩

/-- The entries hold exactly the blocks of the batch. -/
theorem mem_buildInsertEntries :
    (∃ slots, (key, slots) ∈ buildInsertEntries batch ∧ (slot, raw) ∈ slots) ↔
      batch.Has key slot raw := by
  rw [RawSaveBatch.Has, ← mem_saveItems]
  unfold buildInsertEntries
  split
  next hfast =>
    refine mem_orderedEntries ?_
    cases hls : batch.layers with
    | nil => simp
    | cons first rest =>
      rw [hls] at hfast
      have hall : ∀ layer ∈ first :: rest, layer.blockHashes = first.blockHashes := by
        simpa [canUseOrderedFastPath] using hfast
      intro layer hl layer' hl'
      exact (hall layer hl).trans (hall layer' hl').symm
  · exact mem_hashedEntries

theorem isSome_lookup_groupItems (h : ((groupItems items groups).lookup hash).isSome) :
    (groups.lookup hash).isSome ∨ ∃ x, (hash, x) ∈ items := by
  induction items generalizing groups with
  | nil => exact Or.inl h
  | cons item items ih =>
    obtain ⟨hash', x⟩ := item
    rcases ih h with hgrp | ⟨y, hy⟩
    · by_cases heq : hash = hash'
      · exact Or.inr ⟨x, by simp [heq]⟩
      · rw [AList.lookup_insert_ne heq] at hgrp
        exact Or.inl hgrp
    · exact Or.inr ⟨y, mem_cons_of_mem _ hy⟩

/-- The batch names the key of every entry. -/
theorem named_of_mem_buildInsertEntries (h : (key, slots) ∈ buildInsertEntries batch) :
    key.nameSpace = batch.nameSpace ∧ ∃ layer ∈ batch.layers, key.hash ∈ layer.blockHashes := by
  unfold buildInsertEntries at h
  split at h
  · obtain ⟨⟨hash, i⟩, hent, heq⟩ := mem_map.mp h
    cases heq
    refine ⟨rfl, ?_⟩
    have hh := mem_of_getElem? (mem_zipIdx_iff_getElem?.mp hent)
    cases hls : batch.layers with
    | nil =>
      rw [hls] at hh
      cases hh
    | cons first rest =>
      rw [hls] at hh
      exact ⟨first, mem_cons_self, hh⟩
  · obtain ⟨⟨hash, group⟩, hgrp, heq⟩ := mem_map.mp h
    cases heq
    have hs : ((groupItems (saveItems batch.layers) ∅).lookup hash).isSome := by
      rw [mem_lookup_iff.mpr hgrp]
      rfl
    rcases isSome_lookup_groupItems hs with hn | ⟨⟨slot, raw⟩, hi⟩
    · cases hn
    · obtain ⟨layer, hl, -, hb⟩ := mem_saveItems.mp hi
      exact ⟨rfl, layer, hl, mem_map_of_mem hb⟩

/-! ## Slots of a block in flight -/

namespace InflightBlock

variable {b b' : InflightBlock} {slotId : Nat} {numaNode : NumaNode}

def Filled (b : InflightBlock) (slot : Nat) : Prop := ∃ raw, b.slots[slot]? = some (some raw)

theorem insertSlot_cases (block : RawBlock) (numaNode : NumaNode) (hslot : slotId < b.totalSlots) :
    (b.Filled slotId ∧ b.insertSlot slotId block numaNode = some (.duplicate, b)) ∨
      b.slots[slotId]? = some none ∧
        ∃ b', b'.slots = b.slots.set slotId (some block) ∧
          b'.slotNumas = b.slotNumas.set slotId numaNode ∧ b'.remaining = b.remaining - 1 ∧
          b'.footprint = b.footprint + block.memoryFootprint ∧
          b.insertSlot slotId block numaNode
            = some (.inserted (b.remaining - 1 = 0) block.memoryFootprint, b') := by
  have hs := getElem?_eq_getElem hslot
  unfold insertSlot
  split
  next hn =>
    rw [hs] at hn
    cases hn
  next raw hr => exact Or.inl ⟨⟨raw, hr⟩, rfl⟩
  next hemp => exact Or.inr ⟨hemp, _, rfl, rfl, rfl, rfl, rfl⟩

theorem sealBlock_of_remaining (h : b.remaining = 0) :
    ∃ block, b.sealBlock = some block ∧ b.slots = block.slots.map some ∧
      block.footprint = b.footprint ∧ block.slotNumas = b.slotNumas := by
  have hfil : ∃ raws : List RawBlock, b.slots = raws.map some := by
    have hct := b.remaining_eq.symm.trans h
    rw [countP_eq_zero] at hct
    generalize b.slots = slots at hct
    induction slots with
    | nil => exact ⟨[], rfl⟩
    | cons slot slots ih =>
      rw [forall_mem_cons] at hct
      obtain ⟨raws, rfl⟩ := ih hct.2
      cases slot with
      | none => exact absurd rfl hct.1
      | some raw => exact ⟨raw :: raws, rfl⟩
  obtain ⟨raws, hrs⟩ := hfil
  unfold sealBlock
  split
  next hn =>
    rw [filledSlots_eq_some.mpr hrs] at hn
    cases hn
  next slots hsl => exact ⟨_, rfl, filledSlots_eq_some.mp hsl, rfl, rfl⟩

end InflightBlock

section

variable {P : Nat → RawBlock → Prop} {totalSlots : Nat} {b : InflightBlock}

/-- A block in flight for which every filled slot satisfies `P`. -/
structure InflightBlock.Holds (P : Nat → RawBlock → Prop) (totalSlots : Nat) (b : InflightBlock) :
    Prop where
  totalSlots_eq : b.totalSlots = totalSlots
  slots : ∀ slot raw, b.slots[slot]? = some (some raw) → P slot raw

/-- A sealed block with a slot that satisfies `P` for every slot number. -/
structure SealedBlock.Holds (P : Nat → RawBlock → Prop) (totalSlots : Nat) (block : SealedBlock) :
    Prop where
  length_eq : block.slots.length = totalSlots
  slots : ∀ slot raw, block.getSlot slot = some raw → P slot raw

theorem InflightBlock.new_holds : (InflightBlock.new totalSlots).Holds P totalSlots := by
  refine ⟨length_replicate, ?_⟩
  intro slot raw h
  cases eq_of_mem_replicate (mem_of_getElem? h)

variable {b' : InflightBlock} {slotId : Nat}

theorem InflightBlock.Holds.set (h : b.Holds P totalSlots) {block : RawBlock}
    (hb : P slotId block) (hset : b'.slots = b.slots.set slotId (some block)) :
    b'.Holds P totalSlots := by
  refine ⟨?_, ?_⟩
  · rw [← h.totalSlots_eq, InflightBlock.totalSlots, InflightBlock.totalSlots, hset, length_set]
  · intro slot raw hr
    rw [hset, getElem?_set] at hr
    split at hr
    next heq =>
      subst heq
      split at hr
      · cases hr
        exact hb
      · cases hr
    · exact h.slots slot raw hr

theorem InflightBlock.Filled.set {slot : Nat} {block : RawBlock} (h : b.Filled slot)
    (hset : b'.slots = b.slots.set slotId (some block)) : b'.Filled slot := by
  obtain ⟨raw, hr⟩ := h
  obtain ⟨hlt, -⟩ := List.getElem?_eq_some_iff.mp hr
  unfold Filled
  rw [hset, getElem?_set]
  split
  next heq => exact ⟨block, by rw [if_pos (heq ▸ hlt)]⟩
  · exact ⟨raw, hr⟩

/-- What the loop over the slots of an entry does to a block. -/
theorem insertSlots_spec (numaNode : NumaNode) (hb : b.Holds P totalSlots)
    (hsl : ∀ s ∈ slots, s.1 < totalSlots ∧ P s.1 s.2) :
    ∃ done b', insertSlots numaNode slots b = some (done, b') ∧ b'.Holds P totalSlots ∧
      (∀ slot, b.Filled slot → b'.Filled slot) ∧ (done → b'.remaining = 0) ∧
      (done = false →
        (0 < b.remaining → 0 < b'.remaining) ∧ ∀ s ∈ slots, b'.Filled s.1) := by
  induction slots generalizing b with
  | nil => exact ⟨false, b, rfl, hb, fun _ h => h, nofun, fun _ => ⟨fun h => h, by simp⟩⟩
  | cons s slots ih =>
    obtain ⟨slotId, block⟩ := s
    rw [forall_mem_cons] at hsl
    obtain ⟨⟨hlt, hblk⟩, hr⟩ := hsl
    rw [← hb.totalSlots_eq] at hlt
    unfold insertSlots
    rcases b.insertSlot_cases block numaNode hlt with
      ⟨hfil, hinsert⟩ | ⟨-, b₁, hset, -, hrem, -, hinsert⟩
    · obtain ⟨done, b', hl, hhd, hk, hd, hmr⟩ := ih hb hr
      rw [hinsert]
      refine ⟨done, b', hl, hhd, hk, hd, fun h => ⟨(hmr h).1, ?_⟩⟩
      exact forall_mem_cons.mpr ⟨hk slotId hfil, (hmr h).2⟩
    · have hfil : b₁.Filled slotId :=
        ⟨block, by rw [hset, getElem?_set_self hlt]⟩
      rw [hinsert]
      by_cases hz : b.remaining - 1 = 0
      · rw [decide_eq_true hz]
        exact ⟨true, b₁, rfl, hb.set hblk hset, fun _ h => h.set hset, fun _ => hrem.trans hz,
          nofun⟩
      · obtain ⟨done, b', hl, hhd, hk, hd, hmr⟩ := ih (hb.set hblk hset) hr
        rw [decide_eq_false hz]
        refine ⟨done, b', hl, hhd, fun _ h => hk _ (h.set hset), hd, fun h => ⟨?_, ?_⟩⟩
        · intro _
          exact (hmr h).1 (by omega)
        · exact forall_mem_cons.mpr ⟨hk slotId hfil, (hmr h).2⟩

/-! ## One key of the worker's state -/

variable {w w' : InsertState} {cache : Table BlockKey SealedBlock} {numaNode : NumaNode}

/-- What is in flight or sealed for a key satisfies `P`, and what is in flight is not
complete. -/
structure InsertState.Holds (P : Nat → RawBlock → Prop) (totalSlots : Nat) (key : BlockKey)
    (w : InsertState) : Prop where
  inflight : ∀ b, w.inflight.lookup key = some b → b.Holds P totalSlots ∧ 0 < b.remaining
  sealedBlocks : ∀ block, (key, block) ∈ w.sealedBlocks → SealedBlock.Holds P totalSlots block

/-- The slot of the key is in flight, or the key is sealed. -/
def InsertState.Has (w : InsertState) (key : BlockKey) (slot : Nat) : Prop :=
  (∃ block, (key, block) ∈ w.sealedBlocks) ∨ ∃ b, w.inflight.lookup key = some b ∧ b.Filled slot

theorem InsertState.Holds.addSealed (h : w.Holds P totalSlots key) {block : SealedBlock}
    (hblk : SealedBlock.Holds P totalSlots block) {inflight : Table BlockKey InflightBlock}
    (hinf : ∀ b, inflight.lookup key = some b → w.inflight.lookup key = some b) :
    (⟨inflight, w.sealedBlocks ++ [(key, block)]⟩ : InsertState).Holds P totalSlots key := by
  refine ⟨fun b hb => h.inflight b (hinf b hb), ?_⟩
  intro block' hm
  rcases mem_append.mp hm with ho | hnew
  · exact h.sealedBlocks block' ho
  · cases mem_singleton.mp hnew
    exact hblk

theorem fromOrderedSlotInserts_slots {block : SealedBlock}
    (h : fromOrderedSlotInserts slots totalSlots numaNode = some block) :
    block.slots.length = totalSlots ∧
      block.footprint = (block.slots.map RawBlock.memoryFootprint).sum ∧
      ∀ i raw, block.slots[i]? = some raw → (i, raw) ∈ slots ∧ block.slotNumas[i]? = some numaNode := by
  unfold fromOrderedSlotInserts at h
  split at h
  · cases h
  next hordd =>
    cases h
    rw [not_or, not_not, not_not] at hordd
    obtain ⟨hlen, hids⟩ := hordd
    refine ⟨by simpa [SealedBlock.fromSlots] using hlen, ?_, ?_⟩
    · simp only [SealedBlock.fromSlots, List.map_map]
      rfl
    · intro i raw hr
      simp only [SealedBlock.fromSlots, List.map_map, List.getElem?_map,
        Option.map_eq_some_iff] at hr ⊢
      obtain ⟨s, hs, rfl⟩ := hr
      have hid := congrArg (fun l => l[i]?) hids
      simp only [List.getElem?_map, hs, Option.map_some] at hid
      rw [List.getElem?_range (List.getElem?_eq_some_iff.mp hs).1] at hid
      cases hid
      exact ⟨mem_of_getElem? hs, s, hs, rfl⟩

variable (numaNode)

theorem insertPartialSlots_spec (hpos : 0 < totalSlots)
    (hw : w.Holds P totalSlots key) (hsl : ∀ s ∈ slots, s.1 < totalSlots ∧ P s.1 s.2) :
    ∃ w', insertPartialSlots totalSlots numaNode w key slots = some w' ∧
      w'.Holds P totalSlots key ∧ (∀ slot, w.Has key slot → w'.Has key slot) ∧
      ∀ s ∈ slots, w'.Has key s.1 := by
  have hsta : ((w.inflight.lookup key).getD (.new totalSlots)).Holds P totalSlots ∧
      0 < ((w.inflight.lookup key).getD (.new totalSlots)).remaining := by
    cases hlk : w.inflight.lookup key with
    | none => exact ⟨InflightBlock.new_holds, hpos⟩
    | some b => exact hw.inflight b hlk
  obtain ⟨hhd, hrmg⟩ := hsta
  obtain ⟨done, b', hl, hhd', hk, hd, hmr⟩ := insertSlots_spec numaNode hhd hsl
  unfold insertPartialSlots
  rw [if_neg (not_not.mpr hhd.totalSlots_eq), hl]
  cases done with
  | false =>
    obtain ⟨hpositive, hfil⟩ := hmr rfl
    refine ⟨_, rfl, ⟨?_, hw.sealedBlocks⟩, ?_, ?_⟩
    · intro b hb
      rw [AList.lookup_insert] at hb
      cases hb
      exact ⟨hhd', hpositive hrmg⟩
    · rintro slot (hsealed | ⟨b, hb, hslot⟩)
      · exact Or.inl hsealed
      · rw [hb] at hk
        exact Or.inr ⟨b', AList.lookup_insert _, hk slot hslot⟩
    · intro s hs
      exact Or.inr ⟨b', AList.lookup_insert _, hfil s hs⟩
  | true =>
    obtain ⟨block, hseal, hblk, -⟩ := InflightBlock.sealBlock_of_remaining (hd rfl)
    have hsealed : SealedBlock.Holds P totalSlots block := by
      refine ⟨?_, ?_⟩
      · rw [← hhd'.totalSlots_eq, InflightBlock.totalSlots, hblk, length_map]
      · intro slot raw hr
        refine hhd'.slots slot raw ?_
        rw [hblk, List.getElem?_map]
        exact congrArg (Option.map some) hr
    simp only [hseal]
    refine ⟨_, rfl, hw.addSealed hsealed ?_, ?_, ?_⟩
    · intro b hb
      rw [lookup_erase] at hb
      cases hb
    · exact fun slot _ => Or.inl ⟨block, by simp⟩
    · exact fun s _ => Or.inl ⟨block, by simp⟩

/-- An entry for the key puts its slots in flight or seals the block. -/
theorem insertEntry_spec (hpos : 0 < totalSlots)
    (hw : w.Holds P totalSlots key) (hsl : ∀ s ∈ slots, s.1 < totalSlots ∧ P s.1 s.2) :
    ∃ w', insertEntry cache totalSlots numaNode w key slots = some w' ∧
      w'.Holds P totalSlots key ∧ (∀ slot, w.Has key slot → w'.Has key slot) ∧
      (cache.lookup key = none → ∀ s ∈ slots, w'.Has key s.1) := by
  obtain ⟨w', hpartial, hhd, hk, hhas⟩ := insertPartialSlots_spec numaNode hpos hw hsl
  unfold insertEntry
  split
  next hres =>
    refine ⟨w, rfl, hw, fun _ h => h, ?_⟩
    intro hn
    rw [hn] at hres
    cases hres
  · split
    · exact ⟨w', hpartial, hhd, hk, fun _ => hhas⟩
    · split
      next block hordd =>
        obtain ⟨hlen, -, hr⟩ := fromOrderedSlotInserts_slots hordd
        have hb : SealedBlock.Holds P totalSlots block :=
          ⟨hlen, fun i raw h => (hsl _ (hr i raw h).1).2⟩
        refine ⟨_, rfl, hw.addSealed hb fun _ h => h, ?_, ?_⟩
        · exact fun slot _ => Or.inl ⟨block, by simp⟩
        · exact fun _ s _ => Or.inl ⟨block, by simp⟩
      · exact ⟨w', hpartial, hhd, hk, fun _ => hhas⟩

/-- Two states agree on a key. -/
def InsertState.SameAt (key : BlockKey) (w w' : InsertState) : Prop :=
  w'.inflight.lookup key = w.inflight.lookup key ∧
    ∀ block, (key, block) ∈ w'.sealedBlocks ↔ (key, block) ∈ w.sealedBlocks

theorem InsertState.SameAt.holds (hsm : SameAt key w w') (h : w.Holds P totalSlots key) :
    w'.Holds P totalSlots key where
  inflight b hb := h.inflight b (hsm.1 ▸ hb)
  sealedBlocks block hm := h.sealedBlocks block ((hsm.2 block).mp hm)

theorem InsertState.SameAt.has (hsm : SameAt key w w') (h : w.Has key slot) : w'.Has key slot := by
  rcases h with ⟨block, hm⟩ | ⟨b, hb, hs⟩
  · exact Or.inl ⟨block, (hsm.2 block).mpr hm⟩
  · exact Or.inr ⟨b, hsm.1.trans hb, hs⟩

theorem sameAt_addSealed (hne : key ≠ key') (block : SealedBlock)
    {inflight : Table BlockKey InflightBlock}
    (hinf : inflight.lookup key = w.inflight.lookup key) :
    InsertState.SameAt key w ⟨inflight, w.sealedBlocks ++ [(key', block)]⟩ :=
  ⟨hinf, fun block' => by simp [hne]⟩

theorem insertPartialSlots_other (hne : key ≠ key') (hsl : ∀ s ∈ slots, s.1 < totalSlots) :
    ∃ w', insertPartialSlots totalSlots numaNode w key' slots = some w' ∧
      InsertState.SameAt key w w' := by
  unfold insertPartialSlots
  dsimp only
  split
  · exact ⟨w, rfl, rfl, fun _ => Iff.rfl⟩
  next htot =>
    obtain ⟨done, b', hl, -, -, hd, -⟩ := insertSlots_spec
      (P := fun _ _ => True) numaNode ⟨not_not.mp htot, fun _ _ _ => trivial⟩
      (fun s hs => ⟨hsl s hs, trivial⟩)
    rw [hl]
    cases done with
    | false => exact ⟨_, rfl, AList.lookup_insert_ne hne, fun _ => Iff.rfl⟩
    | true =>
      obtain ⟨block, hseal, -⟩ := InflightBlock.sealBlock_of_remaining (hd rfl)
      simp only [hseal]
      exact ⟨_, rfl, sameAt_addSealed hne block (lookup_erase_ne hne)⟩

/-- An entry for another key leaves the key alone. -/
theorem insertEntry_other (hne : key ≠ key') (hsl : ∀ s ∈ slots, s.1 < totalSlots) :
    ∃ w', insertEntry cache totalSlots numaNode w key' slots = some w' ∧
      InsertState.SameAt key w w' := by
  unfold insertEntry
  split
  · exact ⟨w, rfl, rfl, fun _ => Iff.rfl⟩
  split
  · exact insertPartialSlots_other numaNode hne hsl
  split
  next block _ => exact ⟨_, rfl, sameAt_addSealed hne block rfl⟩
  · exact insertPartialSlots_other numaNode hne hsl

theorem insertEntries_spec (cache : Table BlockKey SealedBlock) {entries : InsertEntries}
    (numaNode : NumaNode) (hpos : 0 < totalSlots) (hw : w.Holds P totalSlots key)
    (hsl : ∀ e ∈ entries, ∀ s ∈ e.2, s.1 < totalSlots ∧ (e.1 = key → P s.1 s.2)) :
    ∃ w', insertEntries cache totalSlots numaNode entries w = some w' ∧
      w'.Holds P totalSlots key ∧ (∀ slot, w.Has key slot → w'.Has key slot) ∧
      (cache.lookup key = none → ∀ e ∈ entries, e.1 = key → ∀ s ∈ e.2, w'.Has key s.1) := by
  induction entries generalizing w with
  | nil => exact ⟨w, rfl, hw, fun _ h => h, by simp⟩
  | cons e entries ih =>
    obtain ⟨key', slots⟩ := e
    rw [forall_mem_cons] at hsl
    obtain ⟨hfst, hr⟩ := hsl
    have hst : ∃ w₁, insertEntry cache totalSlots numaNode w key' slots = some w₁ ∧
        w₁.Holds P totalSlots key ∧ (∀ slot, w.Has key slot → w₁.Has key slot) ∧
        (cache.lookup key = none → key' = key → ∀ s ∈ slots, w₁.Has key s.1) := by
      by_cases hkey : key' = key
      · subst hkey
        obtain ⟨w₁, hw₁, hhd, hk, hhas⟩ := insertEntry_spec numaNode hpos hw
          fun s hs => ⟨(hfst s hs).1, (hfst s hs).2 rfl⟩
        exact ⟨w₁, hw₁, hhd, hk, fun hn _ => hhas hn⟩
      · obtain ⟨w₁, hw₁, hsm⟩ := insertEntry_other numaNode (Ne.symm hkey) fun s hs => (hfst s hs).1
        exact ⟨w₁, hw₁, hsm.holds hw, fun _ h => hsm.has h, fun _ h => absurd h hkey⟩
    obtain ⟨w₁, hw₁, hhd₁, hk₁, hhas₁⟩ := hst
    obtain ⟨w', hw', hhd, hk, hhas⟩ := ih hhd₁ hr
    refine ⟨w', ?_, hhd, fun slot h => hk slot (hk₁ slot h), ?_⟩
    · rw [insertEntries, hw₁]
      exact hw'
    · intro hn
      rw [forall_mem_cons]
      exact ⟨fun hkey s hs => hk s.1 (hhas₁ hn hkey s hs), hhas hn⟩

/-! ## One key of the cache -/

section

variable {rejected : List BlockKey} {blocks : List (BlockKey × SealedBlock)} {block : SealedBlock}

theorem batchInsertRefs_of_resident (h : cache.lookup key = some block) :
    (batchInsertRefs rejected blocks cache).lookup key = some block := by
  induction blocks generalizing cache with
  | nil => exact h
  | cons entry blocks ih =>
    refine ih ?_
    split
    · exact h
    next hnew =>
      rw [AList.lookup_insert_ne, h]
      rintro rfl
      rw [h] at hnew
      exact hnew (Or.inl rfl)

theorem of_batchInsertRefs (h : (batchInsertRefs rejected blocks cache).lookup key = some block) :
    cache.lookup key = some block ∨ (key, block) ∈ blocks := by
  induction blocks generalizing cache with
  | nil => exact Or.inl h
  | cons entry blocks ih =>
    rcases ih h with hcch | hm
    · split at hcch
      · exact Or.inl hcch
      · rcases Table.lookup_of_insert hcch with ⟨rfl, rfl⟩ | ⟨-, ho⟩
        · exact Or.inr mem_cons_self
        · exact Or.inl ho
    · exact Or.inr (mem_cons_of_mem _ hm)

theorem batchInsertRefs_isSome (hadmitted : key ∉ rejected) (h : (key, block) ∈ blocks) :
    ((batchInsertRefs rejected blocks cache).lookup key).isSome := by
  induction blocks generalizing cache with
  | nil => cases h
  | cons entry blocks ih =>
    rcases mem_cons.mp h with heq | hm
    · cases heq
      have hres : ∃ found, (if (cache.lookup key).isSome ∨ key ∈ rejected then cache
          else cache.insert key block).lookup key = some found := by
        split
        next hor => exact Option.isSome_iff_exists.mp (hor.resolve_right hadmitted)
        · exact ⟨block, AList.lookup_insert _⟩
      obtain ⟨found, hfd⟩ := hres
      rw [batchInsertRefs, batchInsertRefs_of_resident hfd]
      rfl
    · exact ih hm

end

/-! ## Batches -/

variable {inflight inflight' : Table BlockKey InflightBlock} {cache' : Table BlockKey SealedBlock}

/-- What is in flight or resident for a key satisfies `P`, and what is in flight is not
complete. -/
structure KeyHolds (P : Nat → RawBlock → Prop) (totalSlots : Nat) (key : BlockKey)
    (inflight : Table BlockKey InflightBlock) (cache : Table BlockKey SealedBlock) : Prop where
  inflight : ∀ b, inflight.lookup key = some b → b.Holds P totalSlots ∧ 0 < b.remaining
  cache : ∀ block, cache.lookup key = some block → SealedBlock.Holds P totalSlots block

theorem KeyHolds.mono {Q : Nat → RawBlock → Prop} (h : KeyHolds P totalSlots key inflight cache)
    (himp : ∀ slot raw, P slot raw → Q slot raw)
    (hinf : ∀ b, inflight'.lookup key = some b → inflight.lookup key = some b)
    (hcch : ∀ block, cache'.lookup key = some block → cache.lookup key = some block) :
    KeyHolds Q totalSlots key inflight' cache' where
  inflight b hb :=
    have ⟨hhd, hrmg⟩ := h.inflight b (hinf b hb)
    ⟨⟨hhd.totalSlots_eq, fun slot raw hr => himp slot raw (hhd.slots slot raw hr)⟩,
      hrmg⟩
  cache block hblk :=
    have hhd := h.cache block (hcch block hblk)
    ⟨hhd.length_eq, fun slot raw hr => himp slot raw (hhd.slots slot raw hr)⟩

/-- The slot of the key is in flight, or the key is resident. -/
def Present (key : BlockKey) (slot : Nat) (inflight : Table BlockKey InflightBlock)
    (cache : Table BlockKey SealedBlock) : Prop :=
  (cache.lookup key).isSome ∨ ∃ b, inflight.lookup key = some b ∧ b.Filled slot

/-- A batch is processed without a panic.  It keeps what is known of a key, and brings in
its slots unless the cache rejects the key. -/
theorem processRawSaveBatch_spec (rejected : List BlockKey) (hpos : 0 < totalSlots)
    (htot : batch.totalSlots = totalSlots)
    (hsl : ∀ key' slot raw, batch.Has key' slot raw → slot < totalSlots)
    (hbt : ∀ slot raw, batch.Has key slot raw → P slot raw)
    (h : KeyHolds P totalSlots key inflight cache) :
    ∃ inflight' cache',
      processRawSaveBatch rejected batch inflight cache = some (inflight', cache') ∧
        KeyHolds P totalSlots key inflight' cache' ∧
        (key ∉ rejected → ∀ slot,
          Present key slot inflight cache ∨ (∃ raw, batch.Has key slot raw) →
            Present key slot inflight' cache') := by
  subst htot
  have hw : (⟨inflight, []⟩ : InsertState).Holds P batch.totalSlots key :=
    ⟨h.inflight, by simp⟩
  have hes : ∀ e ∈ buildInsertEntries batch, ∀ s ∈ e.2,
      s.1 < batch.totalSlots ∧ (e.1 = key → P s.1 s.2) := by
    rintro ⟨key', slots⟩ he ⟨slot, raw⟩ hs
    have hm : batch.Has key' slot raw := mem_buildInsertEntries.mp ⟨slots, he, hs⟩
    exact ⟨hsl key' slot raw hm, fun hkey => hbt slot raw (hkey ▸ hm)⟩
  obtain ⟨w, hw', hhd, hk, hhas⟩ := insertEntries_spec cache batch.numaNode hpos hw hes
  refine ⟨w.inflight, batchInsertRefs rejected w.sealedBlocks cache, ?_, ⟨hhd.inflight, ?_⟩, ?_⟩
  · rw [processRawSaveBatch, hw']
    rfl
  · intro block hb
    rcases of_batchInsertRefs hb with ho | hnew
    · exact h.cache block ho
    · exact hhd.sealedBlocks block hnew
  · intro hadmitted slot hps
    cases hcch : cache.lookup key with
    | some block =>
      refine Or.inl ?_
      rw [batchInsertRefs_of_resident hcch]
      rfl
    | none =>
      have hin : w.Has key slot := by
        rcases hps with (hres | hfil) | ⟨raw, hr⟩
        · rw [hcch] at hres
          cases hres
        · exact hk slot (Or.inr hfil)
        · obtain ⟨slots, he, hs⟩ := mem_buildInsertEntries.mpr hr
          exact hhas hcch (key, slots) he rfl (slot, raw) hs
      rcases hin with ⟨block, hm⟩ | hfil
      · exact Or.inl (batchInsertRefs_isSome hadmitted hm)
      · exact Or.inr hfil

/-- A key all of whose slots are present is resident. -/
theorem KeyHolds.resident (h : KeyHolds P totalSlots key inflight cache) (hpos : 0 < totalSlots)
    (hall : ∀ slot, slot < totalSlots → Present key slot inflight cache) :
    (cache.lookup key).isSome := by
  rcases hall 0 hpos with hres | ⟨b, hb, -⟩
  · exact hres
  obtain ⟨hhd, hrmg⟩ := h.inflight b hb
  rw [b.remaining_eq, countP_pos_iff] at hrmg
  obtain ⟨empty, hm, hn⟩ := hrmg
  obtain ⟨slot, hlt, rfl⟩ := getElem_of_mem hm
  rcases hall slot (hhd.totalSlots_eq ▸ hlt) with hres | ⟨b', hb', raw, hr⟩
  · exact hres
  cases hb.symm.trans hb'
  rw [getElem?_eq_getElem hlt] at hr
  rw [Option.some.inj hr] at hn
  cases hn

end

end PegaFlow.Storage
