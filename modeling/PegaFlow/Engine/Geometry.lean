import PegaFlow.Engine.Layout

/-!
# Which layouts are accepted

The checks of a layout are sound: what `new` accepts, and `with_block_stride` after it, addresses
only the registered region, no byte twice, and without overflow (`newStrided_safe`).

They are not complete.  The stride of a split layout is given to `with_block_stride`, but `new` has
checked the layout before with dense blocks, that is, with the stride of one segment.  With this
stride every V segment less than `num_blocks` segments away overlaps a K segment.  So layouts whose K
and V segments lie in turn are rejected, whatever their stride is, and so is a stride below a segment,
even if there is one block only.  All other split layouts are accepted (`newStrided_ok_iff`).
-/

namespace PegaFlow.Engine

namespace Addressing

/-- The results of the operations of `block_copies`. -/
def addressSteps (a : Addressing) (blockIdx : Nat) : List Nat :=
  let offset := blockIdx * a.blockStrideBytes
  let base := a.dataPtr + offset
  match a.seg with
  | .contiguous => [offset, base, a.blockBytes]
  | .split kvStrideBytes => [offset, base, base + kvStrideBytes]

/-- The ranges of the blocks are in the region and do not overlap, and their addresses are exact. -/
structure Safe (a : Addressing) (dataPtr sizeBytes numBlocks : Nat) : Prop where
  copies : ∀ i < numBlocks, a.blockCopies i = .ok (a.copiesOf i)
  inside : ∀ i < numBlocks, ∀ c ∈ (a.copiesOf i).toList, c.range.Inside ⟨dataPtr, sizeBytes⟩
  blocks : ∀ i < numBlocks, ∀ j < numBlocks, i ≠ j →
    ∀ c ∈ (a.copiesOf i).toList, ∀ c' ∈ (a.copiesOf j).toList, c.range.Disjoint c'.range
  segments : ∀ i < numBlocks, (a.copiesOf i).toList.Pairwise fun c c' => c.range.Disjoint c'.range
  exact : ∀ i < numBlocks, ∀ x ∈ a.addressSteps i, x < 2 ^ 64

variable {a : Addressing}

theorem Accepted.addressSteps_le (h : a.Accepted) {i : Nat} (hi : i < a.numBlocks) {x : Nat}
    (hx : x ∈ a.addressSteps i) : x ≤ a.dataPtr + a.sizeBytes := by
  have hxt := h.extent_le
  have hmul := Nat.mul_le_mul_right a.blockStrideBytes (Nat.le_pred_of_lt hi)
  rw [Nat.pred_eq_sub_one] at hmul
  cases hseg : a.seg with
  | contiguous | split kvStrideBytes =>
    simp only [addressSteps, hseg, List.mem_cons, List.not_mem_nil, or_false] at hx
    simp only [extent, hseg] at hxt
    omega

theorem Accepted.safe (h : a.Accepted) (hrgn : a.dataPtr + a.sizeBytes < 2 ^ 64) :
    a.Safe a.dataPtr a.sizeBytes a.numBlocks where
  copies := fun _ hi => if_neg (Nat.not_le.mpr hi)
  inside := fun _ hi _ => h.copiesOf_inside hi
  blocks := fun _ hi _ hj hne _ hc _ hc' => h.copiesOf_disjoint hi hj hne hc hc'
  segments := fun i _ => h.copiesOf_pairwise i
  exact := fun _ hi _ hx => (h.addressSteps_le hi hx).trans_lt hrgn

end Addressing

namespace KVCacheLayout

variable {dataPtr sizeBytes numBlocks segmentBytes kvStrideBytes segments stride : Nat}

variable {blockStrideBytes : Option Nat} {l : KVCacheLayout}

/-- The region of an accepted layout is the one it was made with. -/
theorem newStrided_region
    (h : newStrided dataPtr sizeBytes numBlocks segmentBytes kvStrideBytes segments
      blockStrideBytes = .ok l) :
    l.dataPtr = dataPtr ∧ l.sizeBytes = sizeBytes ∧ l.numBlocks = numBlocks ∧
      dataPtr + sizeBytes < 2 ^ 64 := by
  unfold newStrided at h
  split at h
  · cases h
  next made hnew =>
    have hm := madeBy_of_new hnew
    have hrgn : made.dataPtr = dataPtr ∧ made.sizeBytes = sizeBytes ∧
        made.numBlocks = numBlocks := by
      rw [hm.addressing]
      exact ⟨rfl, rfl, rfl⟩
    split at h
    · cases h
      exact ⟨hrgn.1, hrgn.2.1, hrgn.2.2, hm.region⟩
    · obtain ⟨hadr, -⟩ := of_withBlockStride h
      rw [hadr]
      exact ⟨hrgn.1, hrgn.2.1, hrgn.2.2, hm.region⟩

/-- Every accepted layout is safe. -/
theorem newStrided_safe {blockStrideBytes : Option Nat} {l : KVCacheLayout}
    (h : newStrided dataPtr sizeBytes numBlocks segmentBytes kvStrideBytes segments
      blockStrideBytes = .ok l) : l.Safe dataPtr sizeBytes numBlocks := by
  obtain ⟨rfl, rfl, rfl, hregion⟩ := newStrided_region h
  exact l.accepted.safe hregion

theorem newStrided_safe_interleaved :
    ∃ l, newStrided 4096 128 3 16 48 2 (some 32) = .ok l ∧ l.Safe 4096 128 3 := by
  have hnew : newStrided 4096 128 3 16 48 2 (some 32) = .ok _ := rfl
  exact ⟨_, hnew, newStrided_safe hnew⟩

/-! ## Split layouts -/

/-- The K segment of a block, from the start of the region. -/
def kRange (segmentBytes stride i : Nat) : ByteRange := ⟨i * stride, segmentBytes⟩

/-- The V segment of a block. -/
def vRange (segmentBytes kvStrideBytes stride i : Nat) : ByteRange :=
  ⟨kvStrideBytes + i * stride, segmentBytes⟩

/-- The segments of a split layout are in the region and do not overlap. -/
structure SplitGeometry (dataPtr sizeBytes numBlocks segmentBytes kvStrideBytes stride : Nat) :
    Prop where
  dataPtr_ne : dataPtr ≠ 0
  numBlocks_pos : 1 ≤ numBlocks
  segmentBytes_pos : 1 ≤ segmentBytes
  kvStride : segmentBytes < kvStrideBytes
  region : dataPtr + sizeBytes < 2 ^ 64
  ks : ∀ i < numBlocks, ∀ j < numBlocks, i ≠ j →
    (kRange segmentBytes stride i).Disjoint (kRange segmentBytes stride j)
  vs : ∀ i < numBlocks, ∀ j < numBlocks, i ≠ j →
    (vRange segmentBytes kvStrideBytes stride i).Disjoint
      (vRange segmentBytes kvStrideBytes stride j)
  kvs : ∀ i < numBlocks, ∀ j < numBlocks,
    (kRange segmentBytes stride i).Disjoint (vRange segmentBytes kvStrideBytes stride j)
  kInside : ∀ i < numBlocks, (kRange segmentBytes stride i).Inside ⟨0, sizeBytes⟩
  vInside : ∀ i < numBlocks, (vRange segmentBytes kvStrideBytes stride i).Inside ⟨0, sizeBytes⟩

theorem SplitGeometry.extent_le
    (h : SplitGeometry dataPtr sizeBytes numBlocks segmentBytes kvStrideBytes stride) :
    kvStrideBytes + ((numBlocks - 1) * stride + segmentBytes) ≤ sizeBytes := by
  have hl := (h.vInside (numBlocks - 1) (Nat.sub_one_lt_of_lt h.numBlocks_pos)).2
  simp only [vRange] at hl
  omega

theorem chooseSegments_two (h : segmentBytes < kvStrideBytes) :
    chooseSegments segmentBytes kvStrideBytes 2 = .ok (.split kvStrideBytes) := by
  unfold chooseSegments
  rw [if_neg (by decide), if_neg (by omega), if_neg (by omega), if_neg (by omega), if_pos rfl]

/-- The checks of a split layout that is in the region, for a stride of a segment or more. -/
theorem boundsError_split {a : Addressing} (hseg : a.seg = .split kvStrideBytes)
    (hstr : a.segmentBytes ≤ a.blockStrideBytes) (hxt : a.extent ≤ a.sizeBytes)
    (hs : a.sizeBytes < 2 ^ 64)
    (happart : ∀ d, 0 < d → d ≤ a.numBlocks - 1 →
      d = kvStrideBytes / a.blockStrideBytes ∨ d = kvStrideBytes / a.blockStrideBytes + 1 →
      d * a.blockStrideBytes + a.segmentBytes ≤ kvStrideBytes ∨
        kvStrideBytes + a.segmentBytes ≤ d * a.blockStrideBytes) : a.boundsError = none := by
  have hspl : a.splitSegmentsError kvStrideBytes = none := by
    refine List.findSome?_eq_none_iff.mpr fun d hd => ?_
    split
    · rfl
    next hrg =>
      have hmul := Nat.mul_le_mul_right a.blockStrideBytes (show d ≤ a.numBlocks - 1 by omega)
      simp only [Addressing.extent, hseg] at hxt
      have hgap := happart d (by omega) (by omega) (by simpa using hd)
      rw [if_neg (by omega), if_neg (by omega)]
  unfold Addressing.boundsError
  rw [hseg]
  dsimp only
  rw [if_neg (Nat.not_lt.mpr hstr), hspl, Option.none_or, Addressing.extentError,
    if_neg (Nat.not_le.mpr (hxt.trans_lt hs)), if_neg (Nat.not_lt.mpr hxt)]

/-- A split layout is accepted if its V segments come after `num_blocks` dense segments and its stride
is a segment or more. -/
theorem newStrided_of_geometry
    (h : SplitGeometry dataPtr sizeBytes numBlocks segmentBytes kvStrideBytes stride)
    (hstr : segmentBytes ≤ stride) (hdense : numBlocks * segmentBytes ≤ kvStrideBytes) :
    ∃ l, newStrided dataPtr sizeBytes numBlocks segmentBytes kvStrideBytes 2 (some stride) =
      .ok l := by
  obtain ⟨hptr, hbs, hsegment, hkv, hrgn, -, -, hkvs, -, -⟩ := id h
  have hxt := h.extent_le
  have hdenseExtent : (numBlocks - 1) * segmentBytes ≤ (numBlocks - 1) * stride :=
    Nat.mul_le_mul_left _ hstr
  obtain ⟨l, hnew⟩ : ∃ l, new dataPtr sizeBytes numBlocks segmentBytes kvStrideBytes 2 = .ok l := by
    refine exists_new hptr (by omega) (by omega) hrgn (by omega) (chooseSegments_two hkv) ?_
    refine boundsError_split rfl le_rfl ?_ (by simp only [denseAddressing]; omega) ?_
    · simp only [Addressing.extent, denseAddressing]
      omega
    · -- the nearest distance is already past the last block
      intro d _ hl hnear
      simp only [denseAddressing] at hl hnear
      have hps := (Nat.le_div_iff_mul_le (Nat.lt_of_lt_of_le Nat.zero_lt_one hsegment)).mpr hdense
      omega
  have hm := madeBy_of_new hnew
  have hseg : l.seg = .split kvStrideBytes :=
    Except.ok.inj (hm.seg.symm.trans (chooseSegments_two hkv))
  have hadr := hm.addressing
  rw [hseg] at hadr
  obtain ⟨l', hwith⟩ : ∃ l', l.withBlockStride stride = .ok l' := by
    refine exists_withBlockStride ?_ ?_
    · rw [hadr]
      exact hstr
    · rw [hadr]
      refine boundsError_split rfl hstr ?_ (by simp only [denseAddressing]; omega) ?_
      · simpa only [Addressing.extent, denseAddressing] using hxt
      · intro d hpos hl _
        simp only [denseAddressing] at hl ⊢
        have hd := ByteRange.disjoint_iff.mp (hkvs d (by omega) 0 (by omega))
        simp only [kRange, vRange] at hd
        omega
  refine ⟨l', ?_⟩
  unfold newStrided
  rw [hnew]
  exact hwith

/-- The segments of an accepted split layout lie apart with dense blocks, whatever its stride is. -/
theorem dense_of_newStrided (hkv : segmentBytes < kvStrideBytes)
    (h : newStrided dataPtr sizeBytes numBlocks segmentBytes kvStrideBytes 2 blockStrideBytes =
      .ok l) : numBlocks * segmentBytes ≤ kvStrideBytes := by
  obtain ⟨made, hnew⟩ : ∃ made,
      new dataPtr sizeBytes numBlocks segmentBytes kvStrideBytes 2 = .ok made := by
    unfold newStrided at h
    split at h
    · cases h
    · exact ⟨_, ‹_›⟩
  have hm := madeBy_of_new hnew
  have hseg : made.seg = .split kvStrideBytes :=
    Except.ok.inj (hm.seg.symm.trans (chooseSegments_two hkv))
  have hacc := made.accepted
  rw [hm.addressing, hseg] at hacc
  have hpos : 0 < segmentBytes := hacc.segmentBytes_pos
  have hlow := Nat.div_mul_le_self kvStrideBytes segmentBytes
  have hhigh := Nat.lt_div_mul_add (a := kvStrideBytes) hpos
  have hnear : 0 < kvStrideBytes / segmentBytes := Nat.div_pos hkv.le hpos
  -- the block nearest to the V segment of the first one overlaps it
  have hps : numBlocks ≤ kvStrideBytes / segmentBytes := by
    by_contra hlt
    have hl : kvStrideBytes / segmentBytes ≤ numBlocks - 1 := by omega
    rcases hacc.segments_apart rfl hnear hl with hgap | hgap
    · simp only [denseAddressing] at hgap
      omega
    · simp only [denseAddressing] at hgap
      omega
  exact (Nat.mul_le_mul_right segmentBytes hps).trans hlow

theorem stride_of_newStrided (hkv : segmentBytes < kvStrideBytes)
    (h : newStrided dataPtr sizeBytes numBlocks segmentBytes kvStrideBytes 2 (some stride) =
      .ok l) : segmentBytes ≤ stride := by
  unfold newStrided at h
  split at h
  · cases h
  next made hnew =>
    have hm := madeBy_of_new hnew
    have hseg : made.seg = .split kvStrideBytes :=
      Except.ok.inj (hm.seg.symm.trans (chooseSegments_two hkv))
    obtain ⟨hadr, -⟩ := of_withBlockStride h
    have hmin := l.accepted.minStride_le
    rw [hadr, hm.addressing, hseg] at hmin
    exact hmin

/-- The split layouts that are accepted. -/
theorem newStrided_ok_iff
    (h : SplitGeometry dataPtr sizeBytes numBlocks segmentBytes kvStrideBytes stride) :
    (∃ l, newStrided dataPtr sizeBytes numBlocks segmentBytes kvStrideBytes 2 (some stride) =
      .ok l) ↔ segmentBytes ≤ stride ∧ numBlocks * segmentBytes ≤ kvStrideBytes := by
  constructor
  · rintro ⟨l, hnew⟩
    exact ⟨stride_of_newStrided h.kvStride hnew, dense_of_newStrided h.kvStride hnew⟩
  · rintro ⟨hstride, hdense⟩
    exact newStrided_of_geometry h hstride hdense

theorem newStrided_ok_iff_three_blocks :
    SplitGeometry 4096 128 3 16 48 32 ∧ ∃ l, newStrided 4096 128 3 16 48 2 (some 32) = .ok l := by
  have hgeometry : SplitGeometry 4096 128 3 16 48 32 := by
    constructor <;> decide
  exact ⟨hgeometry, (newStrided_ok_iff hgeometry).mpr ⟨by decide, by decide⟩⟩

/-- K and V segments in turn are rejected by `new`, and so is any stride below a segment. -/
theorem geometry_rejected :
    SplitGeometry 4096 176 3 16 32 64 ∧
      newStrided 4096 176 3 16 32 2 (some 64) = .error "kv_stride_bytes 32 overlaps blocks 2 apart" ∧
      SplitGeometry 4096 48 1 16 32 0 ∧
      newStrided 4096 48 1 16 32 2 (some 0) =
        .error "block_stride 0 must be >= 16: blocks would overlap" := by
  refine ⟨?_, rfl, ?_, rfl⟩
  · constructor <;> decide
  · constructor <;> decide

end KVCacheLayout

end PegaFlow.Engine
