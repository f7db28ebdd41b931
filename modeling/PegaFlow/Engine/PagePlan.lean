import PegaFlow.Engine.SavePlan

/-!
# Page-first saves

A page-first save copies the layers of one shard to a page per block, and the page becomes
the stored slot.  What the checks of `alloc_page_first_targets` are for: all layers save the
same blocks, so a page belongs to one block; and as many distinct layers as the shard has are
all of them, so no part of the page is left as it was.
-/

namespace PegaFlow.Engine

open PegaFlow.Storage
open List Option Loop

section

variable {t : LayerTopology} {page : PageLayout} {ctx ctx' : LayerContext} {shard : Nat}
variable {reference : List (Nat × BlockHash)} {contexts : List LayerContext} {plan : SavePlan}
variable {pool pool' : PinnedPool} {pages : List Nat}

theorem allocPages_ok {n : Nat} (h : allocPages n pool = .ok (pages, pool')) :
    pages = List.range' pool.next n ∧ pool'.next = pool.next + n := by
  induction n generalizing pool pages with
  | zero =>
    cases h
    exact ⟨rfl, rfl⟩
  | succ n ih =>
    unfold allocPages at h
    split at h
    · cases h
    next first pool₁ ha =>
      obtain ⟨⟨rest, pool₂⟩, hr, h⟩ := bind_eq_ok.mp h
      cases h
      unfold PinnedPool.allocate at ha
      split at ha
      · cases ha
      cases ha
      obtain ⟨rfl, hn⟩ := ih hr
      exact ⟨range'_succ.symm, by simp only at hn; omega⟩

/-- A layer that is copied to a page of the shard. -/
structure PageContext (t : LayerTopology) (page : PageLayout) (shard : Nat)
    (reference : List (Nat × BlockHash)) (ctx : LayerContext) : Prop where
  contiguous : ¬ ctx.layout.isSplit
  blocks_eq : ctx.blocksToSave = reference
  layerShard : page.layerShard[t.names.idxOf ctx.layerName]? = some shard
  layerBytes : page.layerBytes[t.names.idxOf ctx.layerName]? = some ctx.layout.paddedBlockBytes
  layerOffset : page.layerOffsets[t.names.idxOf ctx.layerName]?
    = some (t.hostOffset (t.names.idxOf ctx.layerName))

theorem pageLayerError_eq_none :
    pageLayerError shard reference ctx = none ↔
      ¬ ctx.layout.isSplit ∧ ctx.slotId = shard ∧ ctx.blocksToSave = reference := by
  unfold pageLayerError
  split
  · simp_all
  · split
    · simp_all
    · split <;> simp_all

theorem pageTarget_eq (hpage : t.pageLayout = some page)
    (h : PageContext t page shard reference ctx) (alloc : Nat) :
    pageTarget t ctx alloc = .singleSegment
      ⟨⟨alloc, t.hostOffset (t.names.idxOf ctx.layerName)⟩, ctx.layout.paddedBlockBytes⟩ := by
  simp only [pageTarget, LayerTopology.pagePlacement, hpage, map_some, getD_some,
    getD_eq_getElem?_getD, h.layerBytes, h.layerOffset]

variable (t)

/-- The transfer of one block to a page. -/
def pageItem (pages : List Nat) (ctx : LayerContext)
    (pair : (Nat × BlockHash) × Nat) : LayerTransferData × TransferBlock :=
  (ownedLayer ctx (pages.map (pageTarget t ctx)), ⟨pair.1.1, .owned (pageTarget t ctx pair.2)⟩)

/-- A page, as the slot of its shard. -/
def pageSlot (shard alloc : Nat) : RawBlock :=
  .singleSegment ⟨⟨alloc, 0⟩, (t.shardPageSize shard).getD 0⟩

/-- The copies to the pages, and the one slot that they become. -/
def pagePlan (contexts : List LayerContext) (shard : Nat)
    (reference : List (Nat × BlockHash)) (pages : List Nat) : SavePlan :=
  ⟨contexts.map fun ctx => ownedLayer ctx (pages.map (pageTarget t ctx)),
    [savedLayer shard reference (pages.map (pageSlot t shard))]⟩

variable {t}

variable {item : LayerTransferData × TransferBlock}

theorem mem_pageTransfers (hctxs : ∀ ctx ∈ contexts, PageContext t page shard reference ctx) :
    item ∈ transfers (pagePlan t contexts shard reference pages).layers ↔
      ∃ ctx ∈ contexts, ∃ pair ∈ reference.zip pages, item = pageItem t pages ctx pair := by
  simp only [pagePlan, transfers, flatMap_map, mem_flatMap, ownedLayer_items, zip_map_right,
    List.map_map, List.mem_map]
  constructor
  · rintro ⟨ctx, hc, pair, hp, rfl⟩
    rw [(hctxs ctx hc).blocks_eq] at hp
    exact ⟨ctx, hc, pair, hp, rfl⟩
  · rintro ⟨ctx, hc, pair, hp, rfl⟩
    rw [← (hctxs ctx hc).blocks_eq] at hp
    exact ⟨ctx, hc, pair, hp, rfl⟩

/-- Two blocks of a save are copied to different pages, or to different layers of a page. -/
theorem pageItem_apart (hpage : t.pageLayout = some page)
    (h : PageContext t page shard reference ctx) (h' : PageContext t page shard reference ctx')
    (hn : ctx.layerName ∈ t.names)
    (hlo : ctx.layerName = ctx'.layerName → ctx.layout = ctx'.layout)
    (hnd : pages.Nodup) {pair pair' : (Nat × BlockHash) × Nat}
    (hp : pair ∈ reference.zip pages) (hp' : pair' ∈ reference.zip pages) :
    pageItem t pages ctx pair = pageItem t pages ctx' pair' ∨
      ItemsApart (pageItem t pages ctx pair) (pageItem t pages ctx' pair') := by
  have hsegs : SegmentsApart
      ⟨⟨pair.2, t.hostOffset (t.names.idxOf ctx.layerName)⟩, ctx.layout.paddedBlockBytes⟩
      ⟨⟨pair'.2, t.hostOffset (t.names.idxOf ctx'.layerName)⟩, ctx'.layout.paddedBlockBytes⟩ →
      ItemsApart (pageItem t pages ctx pair) (pageItem t pages ctx' pair') := by
    rintro hap _ _ ⟨⟩ ⟨⟩
    rw [pageTarget_eq hpage h, pageTarget_eq hpage h']
    simpa only [RawApart, RawBlock.singleSegment, mem_singleton, forall_eq] using hap
  by_cases ha : pair.2 = pair'.2
  · cases eq_of_mem_zip_right hnd hp hp' ha
    by_cases hsm : ctx.layerName = ctx'.layerName
    · have htgt : pageTarget t ctx = pageTarget t ctx' := by
        funext alloc
        simp only [pageTarget, hsm]
      left
      simp only [pageItem, ownedLayer, htgt, hsm, hlo hsm, h.blocks_eq, h'.blocks_eq]
    · right
      have hne : t.names.idxOf ctx.layerName ≠ t.names.idxOf ctx'.layerName :=
        fun hid => hsm ((idxOf_inj hn).mp hid)
      exact hsegs (Or.inr (PageLayout.disjoint hne h.layerShard h'.layerShard h.layerBytes
        h'.layerBytes h.layerOffset h'.layerOffset))
  · exact Or.inr (hsegs (Or.inl ha))

theorem planPageFirst_ok {first : LayerContext} {rest : List LayerContext}
    (h : planPageFirst t (first :: rest) pool = .ok (plan, pool')) :
    (∀ ctx ∈ first :: rest, pageLayerError first.slotId first.blocksToSave ctx = none) ∧
      ((first :: rest).map fun ctx => t.names.idxOf ctx.layerName).dedup.length
        = (t.shardLayerCount first.slotId).getD 0 ∧
      ∃ pages, allocPages first.blocksToSave.length pool = .ok (pages, pool') ∧
        plan = pagePlan t (first :: rest) first.slotId first.blocksToSave pages := by
  unfold planPageFirst at h
  dsimp only at h
  split at h
  · cases h
  next hchecks =>
    split at h
    · cases h
    next hls =>
      split at h
      · cases h
      obtain ⟨⟨pages, pool₁⟩, hpages, h⟩ := bind_eq_ok.mp h
      cases h
      exact ⟨findSome?_eq_none_iff.mp hchecks, not_not.mp hls, pages, hpages, rfl⟩

variable {gpu : GpuContext} {call : SaveCall} {gpus : List GpuContext}

/-- The layers of a save that is accepted are layers of one page. -/
theorem pageContext_of_ok (hpage : t.pageLayout = some page)
    (hsl : InstanceContext.Sealed t gpus) (hg : gpu ∈ gpus) (hc : ContextOf t gpu call ctx)
    (hchk : pageLayerError shard reference ctx = none) :
    PageContext t page shard reference ctx := by
  obtain ⟨hspl, hs, hbs⟩ := pageLayerError_eq_none.mp hchk
  have hlt : t.names.idxOf ctx.layerName < t.numLayers :=
    idxOf_lt_length_of_mem hc.mem_names
  refine ⟨hspl, hbs, ?_, ?_, LayerTopology.layerOffsets_eq hpage hlt⟩
  · rw [LayerTopology.layerShard_eq hpage hlt call.tpRank, ← hc.slotId_eq, hs]
  · exact hsl.page_bytes gpu hg ctx.layerName ctx.layout hc.getLayout page hpage

/-- A page read at the offset of a layer is the place of the layer. -/
theorem rawDescs_page (alloc offset size bytes : Nat) (copies : BlockCopies) :
    rawDescs (.singleSegment ⟨⟨alloc, 0⟩, size⟩) offset copies
      = rawDescs (.singleSegment ⟨⟨alloc, offset⟩, bytes⟩) 0 copies := by
  cases copies <;>
    simp [rawDescs, RawBlock.segmentMappedPtr, RawBlock.singleSegment, HostPtr.add]

section

variable (hpage : t.pageLayout = some page)
  (hctxs : ∀ ctx ∈ contexts, PageContext t page shard reference ctx)
include hpage hctxs

/-- A save that is accepted has every layer of the shard. -/
theorem exists_context {name : String}
    (hls : (contexts.map fun ctx => t.names.idxOf ctx.layerName).dedup.length = (t.shardLayerCount shard).getD 0)
    (hn : name ∈ t.names) (hsh : page.layerShard[t.names.idxOf name]? = some shard) :
    ∃ ctx ∈ contexts, ctx.layerName = name := by
  simp only [LayerTopology.shardLayerCount, hpage, map_some, getD_some] at hls
  have hm := Packing.mem_of_dedup_length (by
    intro j hj
    obtain ⟨ctx, hc, rfl⟩ := List.mem_map.mp hj
    exact (hctxs ctx hc).layerShard) hls hsh
  obtain ⟨ctx, hc, hid⟩ := List.mem_map.mp hm
  exact ⟨ctx, hc, ((idxOf_inj hn).mp hid.symm).symm⟩

theorem pagePlan_placed {lo hi : Nat} (hof : ∀ ctx ∈ contexts, ContextOf t gpu call ctx)
    (hpages : ∀ alloc ∈ pages, lo ≤ alloc ∧ alloc < hi)
    (hit : item ∈ transfers (pagePlan t contexts shard reference pages).layers) :
    ∃ raw, Placed lo hi item raw := by
  obtain ⟨ctx, hc, pair, hp, rfl⟩ := (mem_pageTransfers hctxs).mp hit
  obtain ⟨hb, ha⟩ := of_mem_zip hp
  have hpc := hctxs ctx hc
  have htgt := pageTarget_eq hpage hpc pair.2
  refine ⟨pageTarget t ctx pair.2, rfl, ?_, ?_, ?_⟩
  · exact ((hof ctx hc).blocks pair.1 (hpc.blocks_eq ▸ hb)).1
  · rw [htgt]
    exact suits_contiguous hpc.contiguous (Nat.le_refl _)
  · rw [htgt]
    simpa only [RawWithin, RawBlock.singleSegment, mem_singleton, forall_eq] using hpages pair.2 ha

theorem pagePlan_stored (hc : ctx ∈ contexts) {entry : BlockHash × RawBlock}
    (hent : entry ∈ (savedLayer shard reference (pages.map (pageSlot t shard))).blocks) :
    ∃ item, Copies (pagePlan t contexts shard reference pages) ctx entry.1 item ∧
      ∀ raw, item.2.block = .owned raw → ∀ copies,
        rawDescs entry.2 (t.hostOffset (t.names.idxOf ctx.layerName)) copies
          = rawDescs raw 0 copies := by
  obtain ⟨_, hzip, rfl⟩ := List.mem_map.mp hent
  rw [zip_map_right] at hzip
  obtain ⟨⟨block, alloc⟩, hp, rfl⟩ := List.mem_map.mp hzip
  have hpc := hctxs ctx hc
  refine ⟨pageItem t pages ctx (block, alloc), ⟨?_, rfl, ?_⟩, ?_⟩
  · exact (mem_pageTransfers hctxs).mpr ⟨ctx, hc, (block, alloc), hp, rfl⟩
  · rw [hpc.blocks_eq]
    exact (of_mem_zip hp).1
  · rintro _ ⟨⟩ copies
    rw [pageTarget_eq hpage hpc]
    exact rawDescs_page alloc _ _ _ copies

end

/-- Page-first, a stored slot is a page, and at the offset of a layer it is what the layer
was copied to. -/
theorem planPageFirst_sound (hpage : t.pageLayout = some page)
    (hsl : InstanceContext.Sealed t gpus) (hg : gpu ∈ gpus)
    (hctxs : ∀ ctx ∈ contexts, ContextOf t gpu call ctx)
    (h : planPageFirst t contexts pool = .ok (plan, pool')) :
    plan.Sound t contexts pool.next pool'.next := by
  cases contexts with
  | nil =>
    cases h
    exact ⟨Nat.le_refl _, by simp [transfers], by simp [transfers], by simp, by simp, by simp⟩
  | cons first rest =>
    obtain ⟨hchecks, hls, pages, hpages, rfl⟩ := planPageFirst_ok h
    obtain ⟨hrg, hnx⟩ := allocPages_ok hpages
    have hpageContexts : ∀ ctx ∈ first :: rest,
        PageContext t page first.slotId first.blocksToSave ctx := fun ctx hc =>
      pageContext_of_ok hpage hsl hg (hctxs ctx hc) (hchecks ctx hc)
    refine ⟨by omega, ?_, ?_, ?_, ?_, ?_⟩
    · intro item hi
      refine pagePlan_placed hpage hpageContexts hctxs ?_ hi
      intro alloc ha
      rwa [hrg, mem_range'_1, ← hnx] at ha
    · intro x hx y hy
      obtain ⟨ctx, hc, pair, hp, rfl⟩ := (mem_pageTransfers hpageContexts).mp hx
      obtain ⟨ctx', hc', pair', hp', rfl⟩ := (mem_pageTransfers hpageContexts).mp hy
      refine pageItem_apart hpage (hpageContexts ctx hc) (hpageContexts ctx' hc')
        (hctxs ctx hc).mem_names ?_ (hrg ▸ nodup_range') hp hp'
      intro hn
      have hlo := (hctxs ctx hc).getLayout
      rw [hn, (hctxs ctx' hc').getLayout] at hlo
      exact (some.inj hlo).symm
    · intro layer hl
      cases mem_singleton.mp hl
      exact ⟨first, mem_cons_self, rfl⟩
    · intro layer hl entry hent name hn tpRank _ hs
      cases mem_singleton.mp hl
      have hsh := LayerTopology.layerShard_eq hpage (idxOf_lt_length_of_mem hn) tpRank
      rw [hs] at hsh
      obtain ⟨ctx, hc, rfl⟩ := exists_context hpage hpageContexts hls hn hsh
      exact ⟨ctx, hc, rfl, pagePlan_stored hpage hpageContexts hc hent⟩
    · intro ctx hc block hb
      have hs := (pageLayerError_eq_none.mp (hchecks ctx hc)).2.1
      rw [(hpageContexts ctx hc).blocks_eq] at hb
      have hzip : ∃ raw, (block, raw) ∈
          first.blocksToSave.zip (pages.map (pageSlot t first.slotId)) :=
        exists_zip_right (by simp [hrg]) hb
      obtain ⟨raw, hp⟩ := hzip
      exact ⟨_, mem_singleton.mpr rfl, hs.symm, raw, List.mem_map.mpr ⟨(block, raw), hp, rfl⟩⟩

end

end PegaFlow.Engine
