import PegaFlow.Engine.Offload

/-!
# What a save copies and what it stores

A save copies every block to a host block of its own and stores the slots that the insert
worker gets.  `SavePlan.Sound` says how the two belong together: the host blocks are in fresh
allocations and share no byte, and a stored slot, read at the offset of a layer, is the host
block that this layer was copied to.  It holds layer-first, with an allocation per block or
for many (`planLayerFirst_sound`).  Whatever plan is sound, after the copies a stored slot
holds what was on the device (`SavePlan.Sound.image`).
-/

namespace PegaFlow.Engine

open PegaFlow.Storage
open List Option Loop

/-! ## Host blocks in fresh allocations -/

/-- The host blocks share no byte. -/
def RawApart (raw raw' : RawBlock) : Prop :=
  ∀ s ∈ raw.segments, ∀ s' ∈ raw'.segments, SegmentsApart s s'

/-- The host block is in the allocations from `lo` to `hi`. -/
def RawWithin (lo hi : Nat) (raw : RawBlock) : Prop :=
  ∀ s ∈ raw.segments, lo ≤ s.ptr.alloc ∧ s.ptr.alloc < hi

/-- The host block has the segments that a block of the layer is copied to. -/
structure Suits (l : KVCacheLayout) (raw : RawBlock) : Prop where
  holds : SlotHolds raw 0 l.toAddressing
  segments : ∀ i, segmentsFor raw (l.copiesOf i) = raw.segments
  apart : raw.segments.Pairwise SegmentsApart

theorem RawWithin.mono {lo lo' hi hi' : Nat} {raw : RawBlock} (h : RawWithin lo hi raw)
    (hlo : lo' ≤ lo) (hhi : hi ≤ hi') : RawWithin lo' hi' raw :=
  fun s hs => ⟨Nat.le_trans hlo (h s hs).1, Nat.lt_of_lt_of_le (h s hs).2 hhi⟩

theorem RawWithin.apart {lo mid hi : Nat} {raw raw' : RawBlock} (h : RawWithin lo mid raw)
    (h' : RawWithin mid hi raw') : RawApart raw raw' := by
  intro s hs s' hs'
  have hlt := (h s hs).2
  have hle := (h' s' hs').1
  exact Or.inl (by omega)

/-- Host blocks for a layer, in fresh allocations and without a shared byte. -/
structure Allocated (l : KVCacheLayout) (lo hi : Nat) (raws : List RawBlock) : Prop where
  le : lo ≤ hi
  within : ∀ raw ∈ raws, RawWithin lo hi raw
  suits : ∀ raw ∈ raws, Suits l raw
  apart : raws.Pairwise RawApart

section

variable {l : KVCacheLayout} {lo mid hi : Nat} {raws raws' : List RawBlock}
variable {pool pool' : PinnedPool} {n : Nat}

theorem Allocated.nil (l : KVCacheLayout) (lo : Nat) : Allocated l lo lo [] :=
  ⟨Nat.le_refl lo, by simp, by simp, .nil⟩

theorem Allocated.append (h : Allocated l lo mid raws) (h' : Allocated l mid hi raws') :
    Allocated l lo hi (raws ++ raws') := by
  refine ⟨Nat.le_trans h.le h'.le, ?_, ?_, ?_⟩
  · intro raw hr
    rcases mem_append.mp hr with hr | hr
    · exact (h.within raw hr).mono (Nat.le_refl lo) h'.le
    · exact (h'.within raw hr).mono h.le (Nat.le_refl hi)
  · intro raw hr
    exact (mem_append.mp hr).elim (h.suits raw) (h'.suits raw)
  · rw [pairwise_append]
    exact ⟨h.apart, h'.apart, fun raw hr raw' hr' =>
      (h.within raw hr).apart (h'.within raw' hr')⟩

theorem allocPinned_ok {stride alloc : Nat} {what : String}
    (h : allocPinned pool n stride what = .ok (alloc, pool')) :
    alloc = pool.next ∧ pool'.next = pool.next + 1 := by
  unfold allocPinned at h
  split at h
  · cases h
  split at h
  · cases h
  next result hrs =>
    cases h
    unfold PinnedPool.allocate at hrs
    split at hrs
    · cases hrs
    · cases hrs
      exact ⟨rfl, rfl⟩

/-- Places at multiples of their size share no byte. -/
theorem segmentsApart_stride {i j : Nat} (alloc stride : Nat) (hij : i < j) :
    SegmentsApart ⟨⟨alloc, i * stride⟩, stride⟩ ⟨⟨alloc, j * stride⟩, stride⟩ := by
  refine Or.inr (ByteRange.disjoint_of_le ?_)
  have hmul := Nat.mul_le_mul_right stride (Nat.succ_le_of_lt hij)
  rw [Nat.succ_mul] at hmul
  exact hmul

theorem suits_split (hspl : l.isSplit) {k v : Segment} (hk : k.size = l.paddedSegmentBytes)
    (hv : v.size = l.paddedSegmentBytes) (hne : k.ptr.alloc ≠ v.ptr.alloc) :
    Suits l (.twoSegments k v) := by
  have hle := l.segmentBytes_le_padded
  obtain ⟨kv, hseg⟩ : ∃ kv, l.seg = .split kv := by
    unfold Addressing.isSplit at hspl
    split at hspl
    · cases hspl
    next kv hseg => exact ⟨kv, hseg⟩
  refine ⟨?_, ?_, ?_⟩
  · simp only [SlotHolds, hseg, RawBlock.twoSegments, hk, hv]
    omega
  · intro i
    simp only [Addressing.copiesOf, hseg, segmentsFor, RawBlock.twoSegments]
  · exact pairwise_pair.mpr (Or.inl hne)

theorem suits_contiguous (hspl : ¬ l.isSplit) {segment : Segment}
    (hs : l.paddedBlockBytes ≤ segment.size) : Suits l (.singleSegment segment) := by
  have hseg : l.seg = .contiguous := by
    unfold Addressing.isSplit at hspl
    split at hspl
    · assumption
    · exact absurd rfl hspl
  have hle : l.blockBytes ≤ l.paddedBlockBytes :=
    Nat.mul_le_mul_right l.segments l.segmentBytes_le_padded
  refine ⟨?_, ?_, ?_⟩
  · simp only [SlotHolds, hseg, RawBlock.singleSegment]
    omega
  · intro i
    simp [Addressing.copiesOf, hseg, segmentsFor, RawBlock.singleSegment]
  · exact pairwise_singleton _ _

theorem allocRound_ok (h : allocRound l n pool = .ok (raws, pool')) :
    raws.length = n ∧ Allocated l pool.next pool'.next raws := by
  unfold allocRound at h
  split at h
  next hspl =>
    obtain ⟨⟨kAlloc, pool₁⟩, hk, h⟩ := bind_eq_ok.mp h
    obtain ⟨⟨vAlloc, pool₂⟩, hv, h⟩ := bind_eq_ok.mp h
    cases h
    obtain ⟨rfl, hk⟩ := allocPinned_ok hk
    obtain ⟨rfl, hv⟩ := allocPinned_ok hv
    refine ⟨by simp, by omega, ?_, ?_, ?_⟩
    · intro raw hr
      obtain ⟨i, -, rfl⟩ := mem_map.mp hr
      simp only [RawWithin, RawBlock.twoSegments, forall_mem_cons, not_mem_nil,
        IsEmpty.forall_iff, implies_true, and_true]
      omega
    · intro raw hr
      obtain ⟨i, -, rfl⟩ := mem_map.mp hr
      exact suits_split hspl rfl rfl (by simp only; omega)
    · rw [pairwise_map]
      refine pairwise_lt_range.imp ?_
      intro i j hij
      have hne : pool.next ≠ pool₁.next := by omega
      simp only [RawApart, RawBlock.twoSegments, forall_mem_cons, not_mem_nil,
        IsEmpty.forall_iff, implies_true, and_true]
      exact ⟨⟨segmentsApart_stride _ _ hij, Or.inl hne⟩,
        Or.inl hne.symm, segmentsApart_stride _ _ hij⟩
  next hspl =>
    obtain ⟨⟨alloc, pool₁⟩, ha, h⟩ := bind_eq_ok.mp h
    cases h
    obtain ⟨rfl, ha⟩ := allocPinned_ok ha
    refine ⟨by simp, by omega, ?_, ?_, ?_⟩
    · intro raw hr
      obtain ⟨i, -, rfl⟩ := mem_map.mp hr
      simp only [RawWithin, RawBlock.singleSegment, mem_singleton, forall_eq]
      omega
    · intro raw hr
      obtain ⟨i, -, rfl⟩ := mem_map.mp hr
      exact suits_contiguous hspl (Nat.le_refl _)
    · rw [pairwise_map]
      refine pairwise_lt_range.imp ?_
      intro i j hij
      simp only [RawApart, RawBlock.singleSegment, mem_singleton, forall_eq]
      exact segmentsApart_stride _ _ hij

theorem allocRounds_ok {count : Nat} (h : allocRounds l n count pool = .ok (raws, pool')) :
    raws.length = count * n ∧ Allocated l pool.next pool'.next raws := by
  induction count generalizing pool raws with
  | zero =>
    cases h
    exact ⟨(Nat.zero_mul n).symm, .nil l _⟩
  | succ count ih =>
    obtain ⟨⟨blocks, pool₁⟩, hround, h⟩ := bind_eq_ok.mp h
    obtain ⟨⟨rest, pool₂⟩, hr, h⟩ := bind_eq_ok.mp h
    cases h
    obtain ⟨hlen, hbs⟩ := allocRound_ok hround
    obtain ⟨hlen', hr⟩ := ih hr
    refine ⟨?_, hbs.append hr⟩
    rw [length_append, hlen, hlen', Nat.succ_mul, Nat.add_comm]

theorem allocLayer_ok {blockwise : Bool} {ctx : LayerContext}
    (h : allocLayer blockwise ctx pool = .ok (raws, pool')) :
    raws.length = ctx.blocksToSave.length ∧ Allocated ctx.layout pool.next pool'.next raws := by
  unfold allocLayer at h
  split at h
  · obtain ⟨hlen, hrs⟩ := allocRounds_ok h
    exact ⟨hlen.trans (Nat.mul_one _), hrs⟩
  · obtain ⟨hlen, hrs⟩ := allocRounds_ok h
    exact ⟨hlen.trans (Nat.one_mul _), hrs⟩

end

/-! ## Plans -/

/-- A block of a layer that is copied to the host block `raw`, in fresh allocations. -/
structure Placed (lo hi : Nat) (item : LayerTransferData × TransferBlock) (raw : RawBlock) :
    Prop where
  block_eq : item.2.block = .owned raw
  inRange : item.2.blockIdx < item.1.layout.numBlocks
  suits : Suits item.1.layout raw
  within : RawWithin lo hi raw

/-- Two blocks are copied to host blocks that share no byte. -/
def ItemsApart (x y : LayerTransferData × TransferBlock) : Prop :=
  ∀ raw raw', x.2.block = .owned raw → y.2.block = .owned raw' → RawApart raw raw'

/-- A block of `ctx` with its hash, and the transfer that copies it. -/
structure Copies (plan : SavePlan) (ctx : LayerContext) (hash : BlockHash)
    (item : LayerTransferData × TransferBlock) : Prop where
  mem : item ∈ transfers plan.layers
  layout_eq : item.1.layout = ctx.layout
  block : (item.2.blockIdx, hash) ∈ ctx.blocksToSave

/-- How the copies and the stored slots of a save belong together. -/
structure SavePlan.Sound (t : LayerTopology) (contexts : List LayerContext) (lo hi : Nat)
    (plan : SavePlan) : Prop where
  le : lo ≤ hi
  placed : ∀ item ∈ transfers plan.layers, ∃ raw, Placed lo hi item raw
  apart : ∀ x ∈ transfers plan.layers, ∀ y ∈ transfers plan.layers, x = y ∨ ItemsApart x y
  slots : ∀ layer ∈ plan.rawLayers, ∃ ctx ∈ contexts, layer.slotId = ctx.slotId
  stored : ∀ layer ∈ plan.rawLayers, ∀ entry ∈ layer.blocks,
    ∀ name ∈ t.names, ∀ tpRank, tpRank < t.tpSize →
      t.slotOf (t.names.idxOf name) tpRank = layer.slotId →
        ∃ ctx ∈ contexts, ctx.layerName = name ∧ ∃ item, Copies plan ctx entry.1 item ∧
          ∀ raw, item.2.block = .owned raw → ∀ copies,
            rawDescs entry.2 (t.hostOffset (t.names.idxOf name)) copies = rawDescs raw 0 copies
  covers : ∀ ctx ∈ contexts, ∀ block ∈ ctx.blocksToSave,
    ∃ layer ∈ plan.rawLayers, layer.slotId = ctx.slotId ∧ ∃ raw, (block.2, raw) ∈ layer.blocks

section

variable {ctx : LayerContext} {contexts : List LayerContext} {raws : List RawBlock}
variable {lo mid hi : Nat} {item : LayerTransferData × TransferBlock} {plan : SavePlan}

theorem transfers_cons (layer : LayerTransferData) (layers : List LayerTransferData) :
    transfers (layer :: layers) =
      (layer.blocks.map fun block => (layer, block)) ++ transfers layers := rfl

variable (ctx) (raws)

/-- The transfer of one block of a layer. -/
def ownedItem (pair : (Nat × BlockHash) × RawBlock) : LayerTransferData × TransferBlock :=
  (ownedLayer ctx raws, ⟨pair.1.1, .owned pair.2⟩)

theorem ownedLayer_items :
    ((ownedLayer ctx raws).blocks.map fun block => (ownedLayer ctx raws, block)) =
      (ctx.blocksToSave.zip raws).map (ownedItem ctx raws) := by
  rw [ownedLayer, List.map_map]
  rfl

variable {ctx} {raws}

/-- What `planLayerFirst` makes of the layers. -/
structure LayerFirst (contexts : List LayerContext) (lo hi : Nat) (plan : SavePlan) : Prop where
  le : lo ≤ hi
  placed : ∀ item ∈ transfers plan.layers, ∃ raw, Placed lo hi item raw
  apart : (transfers plan.layers).Pairwise ItemsApart
  stored : ∀ layer ∈ plan.rawLayers, ∃ ctx ∈ contexts, layer.slotId = ctx.slotId ∧
    ∀ entry ∈ layer.blocks, ∃ item, Copies plan ctx entry.1 item ∧ item.2.block = .owned entry.2
  covers : ∀ ctx ∈ contexts, ∀ block ∈ ctx.blocksToSave,
    ∃ layer ∈ plan.rawLayers, layer.slotId = ctx.slotId ∧ ∃ raw, (block.2, raw) ∈ layer.blocks

theorem Allocated.placed (h : Allocated ctx.layout lo hi raws)
    (hrg : ∀ block ∈ ctx.blocksToSave, block.1 < ctx.layout.numBlocks)
    (hit : item ∈ (ctx.blocksToSave.zip raws).map (ownedItem ctx raws)) :
    ∃ raw, Placed lo hi item raw := by
  obtain ⟨⟨block, raw⟩, hp, rfl⟩ := mem_map.mp hit
  obtain ⟨hb, hr⟩ := of_mem_zip hp
  exact ⟨raw, rfl, hrg block hb, h.suits raw hr, h.within raw hr⟩

theorem Allocated.pairwise_items (h : Allocated ctx.layout lo hi raws)
    (hlen : raws.length = ctx.blocksToSave.length) :
    ((ctx.blocksToSave.zip raws).map (ownedItem ctx raws)).Pairwise ItemsApart := by
  have hap := h.apart
  rw [← map_snd_zip (Nat.le_of_eq hlen), pairwise_map] at hap
  rw [pairwise_map]
  refine hap.imp ?_
  rintro pair pair' hrs _ _ ⟨⟩ ⟨⟩
  exact hrs

variable {raw raw' : RawBlock}

theorem Placed.apart {x y : LayerTransferData × TransferBlock} (hx : Placed lo mid x raw)
    (hy : Placed mid hi y raw') : ItemsApart x y := by
  intro r r' hr hr'
  cases hx.block_eq.symm.trans hr
  cases hy.block_eq.symm.trans hr'
  exact hx.within.apart hy.within

theorem Placed.mono {lo' hi' : Nat} (h : Placed lo hi item raw) (hlo : lo' ≤ lo) (hhi : hi ≤ hi') :
    Placed lo' hi' item raw :=
  { h with within := h.within.mono hlo hhi }

theorem LayerFirst.cons (hrg : ∀ block ∈ ctx.blocksToSave, block.1 < ctx.layout.numBlocks)
    (hlen : raws.length = ctx.blocksToSave.length) (hrs : Allocated ctx.layout lo mid raws)
    (h : LayerFirst contexts mid hi plan) :
    LayerFirst (ctx :: contexts) lo hi
      ⟨ownedLayer ctx raws :: plan.layers,
        savedLayer ctx.slotId ctx.blocksToSave raws :: plan.rawLayers⟩ := by
  have htransfers : transfers (ownedLayer ctx raws :: plan.layers) =
      (ctx.blocksToSave.zip raws).map (ownedItem ctx raws) ++ transfers plan.layers := by
    rw [transfers_cons, ownedLayer_items]
  refine ⟨Nat.le_trans hrs.le h.le, ?_, ?_, ?_, ?_⟩
  · intro item hit
    rw [htransfers] at hit
    rcases mem_append.mp hit with hfst | hr
    · obtain ⟨raw, hplc⟩ := hrs.placed hrg hfst
      exact ⟨raw, hplc.mono (Nat.le_refl lo) h.le⟩
    · obtain ⟨raw, hplc⟩ := h.placed item hr
      exact ⟨raw, hplc.mono hrs.le (Nat.le_refl hi)⟩
  · rw [htransfers, pairwise_append]
    refine ⟨hrs.pairwise_items hlen, h.apart, ?_⟩
    intro x hx y hy
    obtain ⟨raw, hplc⟩ := hrs.placed hrg hx
    obtain ⟨raw', hplc'⟩ := h.placed y hy
    exact hplc.apart hplc'
  · intro layer hl
    rcases mem_cons.mp hl with rfl | hr
    · refine ⟨ctx, mem_cons_self, rfl, ?_⟩
      intro entry hent
      obtain ⟨⟨block, raw⟩, hp, rfl⟩ := mem_map.mp hent
      refine ⟨ownedItem ctx raws (block, raw), ⟨?_, rfl, (of_mem_zip hp).1⟩, rfl⟩
      rw [htransfers]
      exact mem_append_left _ (mem_map_of_mem hp)
    · obtain ⟨ctx', hc', hs, hbs⟩ := h.stored layer hr
      refine ⟨ctx', mem_cons_of_mem ctx hc', hs, ?_⟩
      intro entry hent
      obtain ⟨item, hcps, hb⟩ := hbs entry hent
      refine ⟨item, { hcps with mem := ?_ }, hb⟩
      exact mem_append_right _ hcps.mem
  · intro ctx' hc' block hb
    rcases mem_cons.mp hc' with rfl | hr
    · obtain ⟨raw, hp⟩ := exists_zip_right hlen.symm hb
      exact ⟨_, mem_cons_self, rfl, raw, mem_map.mpr ⟨(block, raw), hp, rfl⟩⟩
    · obtain ⟨layer, hl, hs, hraw⟩ := h.covers ctx' hr block hb
      exact ⟨layer, mem_cons_of_mem _ hl, hs, hraw⟩

variable {blockwise : Bool} {pool pool' : PinnedPool}

theorem planLayerFirst_ok
    (hrg : ∀ ctx ∈ contexts, ∀ block ∈ ctx.blocksToSave, block.1 < ctx.layout.numBlocks)
    (h : planLayerFirst blockwise contexts pool = .ok (plan, pool')) :
    LayerFirst contexts pool.next pool'.next plan := by
  induction contexts generalizing pool plan with
  | nil =>
    cases h
    exact ⟨Nat.le_refl _, by simp [transfers], by simp [transfers], by simp, by simp⟩
  | cons ctx contexts ih =>
    rw [forall_mem_cons] at hrg
    obtain ⟨⟨raws, pool₁⟩, ha, h⟩ := bind_eq_ok.mp h
    obtain ⟨⟨rest, pool₂⟩, hr, h⟩ := bind_eq_ok.mp h
    cases h
    obtain ⟨hlen, hrs⟩ := allocLayer_ok ha
    exact .cons hrg.1 hlen hrs (ih hrg.2 hr)

theorem RawApart.symm (h : RawApart raw raw') : RawApart raw' raw :=
  fun s hs s' hs' => (h s' hs' s hs).imp Ne.symm ByteRange.Disjoint.symm

instance : Std.Symm ItemsApart where
  symm _ _ h raw raw' hraw hraw' := (h raw' raw hraw' hraw).symm

/-- Layer-first, a stored slot is the host block of its layer. -/
theorem planLayerFirst_sound {t : LayerTopology} {gpu : GpuContext} {call : SaveCall}
    (hpg : t.pageLayout = none) (hcs : ∀ ctx ∈ contexts, ContextOf t gpu call ctx)
    (h : planLayerFirst blockwise contexts pool = .ok (plan, pool')) :
    plan.Sound t contexts pool.next pool'.next := by
  have hp := planLayerFirst_ok (fun ctx hctx block hb => ((hcs ctx hctx).blocks block hb).1) h
  refine ⟨hp.le, hp.placed, ?_, ?_, ?_, hp.covers⟩
  · intro x hx y hy
    exact or_iff_not_imp_left.mpr (hp.apart.forall hx hy)
  · intro layer hl
    obtain ⟨ctx, hctx, hs, -⟩ := hp.stored layer hl
    exact ⟨ctx, hctx, hs⟩
  · intro layer hl entry hent name hn tpRank hr hs'
    obtain ⟨ctx, hctx, hs, hbs⟩ := hp.stored layer hl
    have hc := hcs ctx hctx
    rw [hs, hc.slotId_eq] at hs'
    obtain ⟨hid, -⟩ := LayerTopology.slotOf_inj hpg hr hc.tpRank_lt hs'
    obtain ⟨item, hcps, hb⟩ := hbs entry hent
    refine ⟨ctx, hctx, ((idxOf_inj hn).mp hid).symm, item, hcps, ?_⟩
    intro raw hraw copies
    cases hb.symm.trans hraw
    simp only [LayerTopology.hostOffset, LayerTopology.pagePlacement, hpg, map_none, elim_none]

end

/-! ## After the copies -/

/-- The host block, read at `offset`, holds the bytes of a block, in allocations below
`hi`. -/
def Image {β : Type} (host : Memory Nat β) (hi : Nat) (raw : RawBlock) (offset : Nat)
    (copies : BlockCopies) (bytes : List (List β)) : Prop :=
  ∃ descs, rawDescs raw offset copies = some descs ∧ hostContents host descs = bytes ∧
    ∀ d ∈ descs, d.host.alloc < hi

instance : Std.Symm HostApart where
  symm _ _ h := h.imp Ne.symm ByteRange.Disjoint.symm

section

variable {lo hi : Nat} {item x y : LayerTransferData × TransferBlock} {raw : RawBlock}
variable {part part' descs : List CopyDesc} {t : LayerTopology} {contexts : List LayerContext}
variable {plan : SavePlan}

theorem pairwise_hostApart {segments : List Segment}
    (h : List.Forall₂ CopyDesc.Inside descs segments) (hap : segments.Pairwise SegmentsApart) :
    descs.Pairwise HostApart := by
  induction h with
  | nil => exact .nil
  | @cons d s descs segments hd hr ih =>
    rw [pairwise_cons] at hap ⊢
    refine ⟨?_, ih hap.2⟩
    intro d' hd'
    obtain ⟨s', hs', hins⟩ := exists_result hr hd'
    exact hostApart_of_inside (hap.1 s' hs') hd hins

/-- The descriptors of a block that is placed, one for each segment of its host block. -/
theorem Placed.exists_part (h : Placed lo hi item raw) :
    ∃ part, blockDescs item.1 item.2 = .ok part ∧
      rawDescs raw 0 (item.1.layout.copiesOf item.2.blockIdx) = some part ∧
      List.Forall₂ CopyDesc.Inside part raw.segments := by
  obtain ⟨part, hp, hins⟩ := (slotHolds_iff item.2.blockIdx).mp h.suits.holds
  rw [h.suits.segments] at hins
  refine ⟨part, blockDescs_eq_ok.mpr ⟨h.inRange, raw, ?_, ?_⟩, hp, hins⟩
  · rw [h.block_eq]
    rfl
  · rw [h.block_eq]
    exact hp

variable {d : CopyDesc}

section

variable (h : plan.Sound t contexts lo hi)
include h

theorem SavePlan.Sound.hostApart (hx : x ∈ transfers plan.layers) (hy : y ∈ transfers plan.layers)
    (hp : blockDescs x.1 x.2 = .ok part) (hp' : blockDescs y.1 y.2 = .ok part')
    {d' : CopyDesc} (hd : d ∈ part) (hd' : d' ∈ part') : d' = d ∨ HostApart d d' := by
  obtain ⟨raw, hplc⟩ := h.placed x hx
  obtain ⟨raw', hplc'⟩ := h.placed y hy
  obtain ⟨built, hblt, -, hins⟩ := hplc.exists_part
  obtain ⟨built', hblt', -, hins'⟩ := hplc'.exists_part
  cases hp.symm.trans hblt
  cases hp'.symm.trans hblt'
  rcases h.apart x hx y hy with rfl | hap
  · cases hp.symm.trans hp'
    refine or_iff_not_imp_left.mpr fun hne => ?_
    exact (pairwise_hostApart hins hplc.suits.apart).forall hd hd' (Ne.symm hne)
  · obtain ⟨s, hs, hds⟩ := exists_result hins hd
    obtain ⟨s', hs', hds'⟩ := exists_result hins' hd'
    exact Or.inr (hostApart_of_inside (hap raw raw' hplc.block_eq hplc'.block_eq s hs s' hs')
      hds hds')

variable {total : Nat}

/-- Every descriptor of a save writes to a fresh allocation. -/
theorem SavePlan.Sound.fresh (hblt : buildCopyDescs plan.layers = .ok (descs, total))
    (hd : d ∈ descs) : lo ≤ d.host.alloc := by
  obtain ⟨parts, hparts, rfl, -⟩ := buildCopyDescs_eq_ok.mp hblt
  obtain ⟨part, hp, hd⟩ := mem_flatten.mp hd
  obtain ⟨item, hit, hok⟩ := exists_item hparts hp
  obtain ⟨raw, hplc⟩ := h.placed item hit
  obtain ⟨built, hblt, -, hins⟩ := hplc.exists_part
  cases hok.symm.trans hblt
  obtain ⟨s, hs, hds⟩ := exists_result hins hd
  rw [hds.1]
  exact (hplc.within s hs).1

/-- After the copies, a host block holds what was on the device. -/
theorem SavePlan.Sound.image {β : Type} (mem : Memory Int β) (host : Memory Nat β) (deviceId : Int)
    (hblt : buildCopyDescs plan.layers = .ok (descs, total))
    (hit : item ∈ transfers plan.layers) (hr : item.2.block = .owned raw) :
    Image (d2h deviceId mem host descs) hi raw 0 (item.1.layout.copiesOf item.2.blockIdx)
      (contents mem deviceId (item.1.layout.copiesOf item.2.blockIdx)) := by
  obtain ⟨parts, hparts, rfl, -⟩ := buildCopyDescs_eq_ok.mp hblt
  obtain ⟨raw', hplc⟩ := h.placed item hit
  cases hr.symm.trans hplc.block_eq
  obtain ⟨part, hp, hdescs, hins⟩ := hplc.exists_part
  obtain ⟨built, hm, hok⟩ := exists_result hparts hit
  cases hok.symm.trans hp
  refine ⟨part, hdescs, ?_, ?_⟩
  · rw [contents_eq hdescs]
    refine map_congr_left ?_
    intro d hd
    refine d2h_read (mem_flatten.mpr ⟨part, hm, hd⟩) ?_
    intro d' hd'
    obtain ⟨part', hm', hd'⟩ := mem_flatten.mp hd'
    obtain ⟨item', hi', hok'⟩ := exists_item hparts hm'
    exact h.hostApart hit hi' hp hok' hd hd'
  · intro d hd
    obtain ⟨s, hs, hds⟩ := exists_result hins hd
    rw [hds.1]
    exact (hplc.within s hs).2

end

end

end PegaFlow.Engine
