import PegaFlow.Lib.Range

/-!
# Layouts of a layer's KV cache

`pegaflow-core/src/layout.rs`.  The blocks of a layer are laid out on the device by one
affine formula: block `i` starts at `data_ptr + i * block_stride`, and a split layout has
its V segment `kv_stride` after its K segment.  Everything is checked when a layout is
made, so a `KVCacheLayout` carries the checks as fields and a layout that fails them
cannot be built.

What the checks are for: distinct blocks share no byte (`copiesOf_disjoint`), and every
block is inside the registered region (`copiesOf_inside`).  For a split layout the code
compares only the two block distances nearest to `kv_stride`; they stand for all
(`segments_apart`).

Sizes are 64-bit; where the source checks a sum or a product for overflow the model
compares it with `2 ^ 64`.
-/

namespace PegaFlow.Engine

/-- How the segments of a block are addressed. -/
inductive SegmentLayout where
  | contiguous
  | split (kvStrideBytes : Nat)
deriving DecidableEq

/-- One contiguous range of device addresses. -/
structure BlockCopy where
  addr : Nat
  bytes : Nat
deriving DecidableEq

/-- The device ranges that make up a block. -/
inductive BlockCopies where
  | contiguous (c : BlockCopy)
  | split (k v : BlockCopy)
deriving DecidableEq

def BlockCopy.range (c : BlockCopy) : ByteRange := ⟨c.addr, c.bytes⟩

def BlockCopies.toList : BlockCopies → List BlockCopy
  | .contiguous c => [c]
  | .split k v => [k, v]

/-- The device addressing of a layer. -/
structure Addressing where
  dataPtr : Nat
  sizeBytes : Nat
  numBlocks : Nat
  blockStrideBytes : Nat
  segmentBytes : Nat
  segments : Nat
  seg : SegmentLayout

namespace Addressing

variable (a : Addressing)

def isSplit : Bool :=
  match a.seg with
  | .contiguous => false
  | .split _ => true

/-- The size of a block on the device. -/
def blockBytes : Nat := a.segmentBytes * a.segments

/-- The smallest stride at which consecutive blocks do not overlap. -/
def minStride : Nat :=
  match a.seg with
  | .contiguous => a.blockBytes
  | .split _ => a.segmentBytes

/-- The error of `check_split_segments_disjoint`. -/
def splitSegmentsError (kvStrideBytes : Nat) : Option String :=
  let nearest := kvStrideBytes / a.blockStrideBytes
  [nearest, nearest + 1].findSome? fun distance =>
    if distance = 0 ∨ a.numBlocks - 1 < distance then none
    else if 2 ^ 64 ≤ distance * a.blockStrideBytes then some "memory layout overflow"
    else if (kvStrideBytes - distance * a.blockStrideBytes)
        + (distance * a.blockStrideBytes - kvStrideBytes) < a.segmentBytes then
      some s!"kv_stride_bytes {kvStrideBytes} overlaps blocks {distance} apart"
    else none

/-- The end of the last block, from the start of the region. -/
def extent : Nat :=
  match a.seg with
  | .contiguous => (a.numBlocks - 1) * a.blockStrideBytes + a.blockBytes
  | .split kvStrideBytes => kvStrideBytes + ((a.numBlocks - 1) * a.blockStrideBytes + a.segmentBytes)

/-- The end of `check_bounds`. -/
def extentError : Option String :=
  if 2 ^ 64 ≤ a.extent then some "memory layout overflow"
  else if a.sizeBytes < a.extent then
    some s!"registered memory too small: need {a.extent} bytes, got {a.sizeBytes}"
  else none

/-- The error of `check_bounds`. -/
def boundsError : Option String :=
  match a.seg with
  | .contiguous =>
    if a.blockStrideBytes < a.blockBytes then
      some s!"block_stride {a.blockStrideBytes} must be >= block_bytes {a.blockBytes}: blocks would overlap"
    else a.extentError
  | .split kvStrideBytes =>
    if a.blockStrideBytes < a.segmentBytes then
      some s!"block_stride {a.blockStrideBytes} must be >= segment_bytes {a.segmentBytes}: blocks would overlap"
    else (a.splitSegmentsError kvStrideBytes).or a.extentError

/-- What the construction of a layout checks. -/
structure Accepted (a : Addressing) : Prop where
  numBlocks_pos : 0 < a.numBlocks
  segmentBytes_pos : 0 < a.segmentBytes
  segments_pos : 0 < a.segments
  split : ∀ kvStrideBytes, a.seg = .split kvStrideBytes →
    a.segments = 2 ∧ a.segmentBytes < kvStrideBytes
  bounds : a.boundsError = none

/-- `block_copies`, for an index in range. -/
def copiesOf (a : Addressing) (blockIdx : Nat) : BlockCopies :=
  let base := a.dataPtr + blockIdx * a.blockStrideBytes
  match a.seg with
  | .contiguous => .contiguous ⟨base, a.blockBytes⟩
  | .split kvStrideBytes =>
    .split ⟨base, a.segmentBytes⟩ ⟨base + kvStrideBytes, a.segmentBytes⟩

def blockCopies (a : Addressing) (blockIdx : Nat) : Except String BlockCopies :=
  if a.numBlocks ≤ blockIdx then
    .error s!"block {blockIdx} out of range ({a.numBlocks} blocks)"
  else .ok (a.copiesOf blockIdx)

/-! ## Blocks do not overlap -/

variable {a : Addressing} {kv i j d : Nat}

theorem Accepted.minStride_le (h : a.Accepted) : a.minStride ≤ a.blockStrideBytes := by
  have hbds := h.bounds
  unfold boundsError at hbds
  unfold minStride
  split at hbds
  · split at hbds
    · cases hbds
    · exact Nat.not_lt.mp ‹_›
  · split at hbds
    · cases hbds
    · exact Nat.not_lt.mp ‹_›

theorem Accepted.extent_le (h : a.Accepted) : a.extent ≤ a.sizeBytes := by
  have herr : a.extentError = none := by
    have hbds := h.bounds
    unfold boundsError at hbds
    split at hbds
    · split at hbds
      · cases hbds
      · exact hbds
    · split at hbds
      · cases hbds
      · exact (Option.or_eq_none_iff.mp hbds).2
  unfold extentError at herr
  split at herr
  · cases herr
  split at herr
  · cases herr
  · exact Nat.not_lt.mp ‹_›

section

variable (h : a.Accepted) (hseg : a.seg = .split kv) (hd : 0 < d) (hlast : d ≤ a.numBlocks - 1)
include h hseg hd hlast

/-- The two distances the code looks at. -/
theorem Accepted.checked_apart
    (hnear : d = kv / a.blockStrideBytes ∨ d = kv / a.blockStrideBytes + 1) :
    d * a.blockStrideBytes + a.segmentBytes ≤ kv ∨ kv + a.segmentBytes ≤ d * a.blockStrideBytes := by
  have hn : a.splitSegmentsError kv = none := by
    have hbds := h.bounds
    unfold boundsError at hbds
    simp only [hseg] at hbds
    split at hbds
    · cases hbds
    · exact (Option.or_eq_none_iff.mp hbds).1
  have hm : d ∈ [kv / a.blockStrideBytes, kv / a.blockStrideBytes + 1] := by
    simpa using hnear
  have hps := List.findSome?_eq_none_iff.mp hn d hm
  rw [if_neg (by omega)] at hps
  split at hps
  · cases hps
  split at hps
  · cases hps
  · omega

/-- K and V segments of blocks that are `d` apart do not overlap. -/
theorem Accepted.segments_apart :
    d * a.blockStrideBytes + a.segmentBytes ≤ kv ∨ kv + a.segmentBytes ≤ d * a.blockStrideBytes := by
  have hstr : a.segmentBytes ≤ a.blockStrideBytes := by
    have hle := h.minStride_le
    simpa only [minStride, hseg] using hle
  have hpos : 0 < a.blockStrideBytes := h.segmentBytes_pos.trans_le hstr
  have hlow := Nat.div_mul_le_self kv a.blockStrideBytes
  have hhigh := Nat.lt_div_mul_add (a := kv) hpos
  by_cases hnear : d = kv / a.blockStrideBytes ∨ d = kv / a.blockStrideBytes + 1
  · exact h.checked_apart hseg hd hlast hnear
  -- Any other distance is a whole stride further away from `kv`.
  · rcases Nat.lt_or_ge d (kv / a.blockStrideBytes) with hlt | hge
    · have hmul := Nat.mul_le_mul_right a.blockStrideBytes (Nat.succ_le_of_lt hlt)
      rw [Nat.succ_mul] at hmul
      omega
    · have hmul := Nat.mul_le_mul_right a.blockStrideBytes
        (show kv / a.blockStrideBytes + 2 ≤ d by omega)
      rw [Nat.add_mul] at hmul
      omega

end

theorem mem_copiesOf {r : BlockCopy} :
    r ∈ (a.copiesOf i).toList ↔
      (a.seg = .contiguous ∧ r = ⟨a.dataPtr + i * a.blockStrideBytes, a.blockBytes⟩) ∨
      ∃ kv, a.seg = .split kv ∧
        (r = ⟨a.dataPtr + i * a.blockStrideBytes, a.segmentBytes⟩ ∨
          r = ⟨a.dataPtr + i * a.blockStrideBytes + kv, a.segmentBytes⟩) := by
  unfold copiesOf
  cases a.seg <;> simp [BlockCopies.toList]

theorem Accepted.copiesOf_before (h : a.Accepted) (hij : i < j) (hj : j < a.numBlocks)
    {r r' : BlockCopy} (hr : r ∈ (a.copiesOf i).toList) (hr' : r' ∈ (a.copiesOf j).toList) :
    r.range.Disjoint r'.range := by
  obtain ⟨d, rfl⟩ : ∃ d, j = i + d := ⟨j - i, by omega⟩
  have hmin := h.minStride_le
  have hd : a.blockStrideBytes ≤ d * a.blockStrideBytes :=
    Nat.le_mul_of_pos_left _ (by omega)
  have hspl : (i + d) * a.blockStrideBytes = i * a.blockStrideBytes + d * a.blockStrideBytes :=
    Nat.add_mul _ _ _
  rw [ByteRange.disjoint_iff]
  rcases mem_copiesOf.mp hr with ⟨hseg, rfl⟩ | ⟨kv, hseg, hk⟩
  · rcases mem_copiesOf.mp hr' with ⟨-, rfl⟩ | ⟨kv', hseg', -⟩
    · simp only [BlockCopy.range, minStride, hseg] at hmin ⊢
      omega
    · rw [hseg] at hseg'
      cases hseg'
  · rcases mem_copiesOf.mp hr' with ⟨hseg', -⟩ | ⟨kv', hseg', hk'⟩
    · rw [hseg] at hseg'
      cases hseg'
    · obtain rfl : kv = kv' := by
        rw [hseg] at hseg'
        exact SegmentLayout.split.inj hseg'
      have hap := h.segments_apart hseg (show 0 < d by omega) (by omega)
      simp only [minStride, hseg] at hmin
      rcases hk with rfl | rfl <;> rcases hk' with rfl | rfl <;>
        simp only [BlockCopy.range] <;> omega

/-- Distinct blocks share no byte. -/
theorem Accepted.copiesOf_disjoint (h : a.Accepted) (hi : i < a.numBlocks) (hj : j < a.numBlocks)
    (hne : i ≠ j) {r r' : BlockCopy} (hr : r ∈ (a.copiesOf i).toList)
    (hr' : r' ∈ (a.copiesOf j).toList) : r.range.Disjoint r'.range := by
  rcases Nat.lt_or_gt_of_ne hne with hlt | hgt
  · exact h.copiesOf_before hlt hj hr hr'
  · exact (h.copiesOf_before hgt hi hr' hr).symm

/-- The ranges of one block share no byte. -/
theorem Accepted.copiesOf_pairwise (h : a.Accepted) (i : Nat) :
    (a.copiesOf i).toList.Pairwise fun c c' => c.range.Disjoint c'.range := by
  unfold copiesOf
  cases hseg : a.seg with
  | contiguous => exact List.pairwise_singleton _ _
  | split kv =>
    have hkv := (h.split kv hseg).2
    refine List.pairwise_pair.mpr (ByteRange.disjoint_of_le ?_)
    simp only [BlockCopy.range]
    omega

/-- Every block is inside the registered region. -/
theorem Accepted.copiesOf_inside (h : a.Accepted) (hi : i < a.numBlocks) {r : BlockCopy}
    (hr : r ∈ (a.copiesOf i).toList) : r.range.Inside ⟨a.dataPtr, a.sizeBytes⟩ := by
  have hxt := h.extent_le
  have hmul := Nat.mul_le_mul_right a.blockStrideBytes (show i ≤ a.numBlocks - 1 by omega)
  rcases mem_copiesOf.mp hr with ⟨hseg, rfl⟩ | ⟨kv, hseg, hk⟩
  · simp only [extent, hseg] at hxt
    simp only [ByteRange.Inside, BlockCopy.range]
    omega
  · simp only [extent, hseg] at hxt
    rcases hk with rfl | rfl <;> simp only [ByteRange.Inside, BlockCopy.range] <;> omega

end Addressing

/-- The layout of a layer: device addressing, and the segment size on the host. -/
structure KVCacheLayout extends Addressing where
  paddedSegmentBytes : Nat
  accepted : toAddressing.Accepted
  segmentBytes_le_padded : segmentBytes ≤ paddedSegmentBytes

/-- `usize::next_multiple_of`. -/
def nextMultipleOf (n alignment : Nat) : Nat := (n + (alignment - 1)) / alignment * alignment

theorem le_nextMultipleOf (n : Nat) {alignment : Nat} (h : 0 < alignment) :
    n ≤ nextMultipleOf n alignment := by
  unfold nextMultipleOf
  have hmod := Nat.mod_lt (n + (alignment - 1)) h
  have hdiv := Nat.div_add_mod (n + (alignment - 1)) alignment
  rw [Nat.mul_comm] at hdiv
  omega

namespace KVCacheLayout

/-- The segment layout that `new` chooses. -/
def chooseSegments (segmentBytes kvStrideBytes segments : Nat) : Except String SegmentLayout :=
  if segments = 1 then .ok .contiguous
  else if kvStrideBytes = 0 then .error "kv_stride_bytes must be > 0 when segments > 1"
  else if kvStrideBytes < segmentBytes then
    .error s!"kv_stride_bytes {kvStrideBytes} < segment_bytes {segmentBytes}: segments would overlap"
  else if kvStrideBytes = segmentBytes then .ok .contiguous
  else if segments = 2 then .ok (.split kvStrideBytes)
  else
    .error s!"split layout (kv_stride_bytes {kvStrideBytes} > segment_bytes {segmentBytes}) supports exactly 2 segments, got {segments}"

theorem chooseSegments_split {segmentBytes kvStrideBytes segments kv : Nat}
    (h : chooseSegments segmentBytes kvStrideBytes segments = .ok (.split kv)) :
    segments = 2 ∧ segmentBytes < kv := by
  unfold chooseSegments at h
  split at h
  · cases h
  split at h
  · cases h
  split at h
  · cases h
  split at h
  · cases h
  split at h
  · cases h
    omega
  · cases h

/-- The addressing that `new` checks: dense blocks. -/
def denseAddressing (dataPtr sizeBytes numBlocks segmentBytes segments : Nat)
    (seg : SegmentLayout) : Addressing where
  dataPtr := dataPtr
  sizeBytes := sizeBytes
  numBlocks := numBlocks
  blockStrideBytes :=
    match seg with
    | .contiguous => segmentBytes * segments
    | .split _ => segmentBytes
  segmentBytes := segmentBytes
  segments := segments
  seg := seg

variable (dataPtr sizeBytes numBlocks segmentBytes kvStrideBytes segments : Nat)

def new : Except String KVCacheLayout :=
  if dataPtr = 0 then .error "data_ptr must not be null"
  else if sizeBytes = 0 then .error "size_bytes must be > 0"
  else if hzero : segmentBytes = 0 ∨ numBlocks = 0 ∨ segments = 0 then
    .error "segment_bytes, num_blocks, and segments must be non-zero"
  else if 2 ^ 64 ≤ dataPtr + sizeBytes then
    .error "data_ptr + size_bytes overflows the address space"
  else if 2 ^ 64 ≤ segmentBytes * segments then .error "block size overflow"
  else
    match hseg : chooseSegments segmentBytes kvStrideBytes segments with
    | .error e => .error e
    | .ok seg =>
      let addressing := denseAddressing dataPtr sizeBytes numBlocks segmentBytes segments seg
      match hbounds : addressing.boundsError with
      | some e => .error e
      | none =>
        .ok
          { toAddressing := addressing
            paddedSegmentBytes := segmentBytes
            accepted :=
              { numBlocks_pos := Nat.pos_of_ne_zero fun h => hzero (Or.inr (Or.inl h))
                segmentBytes_pos := Nat.pos_of_ne_zero fun h => hzero (Or.inl h)
                segments_pos := Nat.pos_of_ne_zero fun h => hzero (Or.inr (Or.inr h))
                split := fun _ h => chooseSegments_split (hseg.trans (congrArg Except.ok h))
                bounds := hbounds }
            segmentBytes_le_padded := Nat.le_refl segmentBytes }

/-- `with_block_stride`. -/
def withBlockStride (l : KVCacheLayout) (stride : Nat) : Except String KVCacheLayout :=
  if stride < l.minStride then
    .error s!"block_stride {stride} must be >= {l.minStride}: blocks would overlap"
  else
    let addressing : Addressing := { l.toAddressing with blockStrideBytes := stride }
    match hbounds : addressing.boundsError with
    | some e => .error e
    | none =>
      .ok
        { toAddressing := addressing
          paddedSegmentBytes := l.paddedSegmentBytes
          accepted := { l.accepted with bounds := hbounds }
          segmentBytes_le_padded := l.segmentBytes_le_padded }

/-- `new`, and `with_block_stride` if there is a stride. -/
def newStrided (blockStrideBytes : Option Nat) : Except String KVCacheLayout :=
  match new dataPtr sizeBytes numBlocks segmentBytes kvStrideBytes segments with
  | .error e => .error e
  | .ok l =>
    match blockStrideBytes with
    | none => .ok l
    | some stride => l.withBlockStride stride

/-- `with_ssd_padding`, for an alignment that is not zero. -/
def withSsdPadding (l : KVCacheLayout) (alignment : Nat) (h : 0 < alignment) : KVCacheLayout :=
  { l with
    paddedSegmentBytes := nextMultipleOf l.segmentBytes alignment
    segmentBytes_le_padded := le_nextMultipleOf l.segmentBytes h }

section

variable {dataPtr sizeBytes numBlocks segmentBytes kvStrideBytes segments stride : Nat}
variable {l l' : KVCacheLayout}

/-- What `new` has checked, and what it makes. -/
structure MadeBy (dataPtr sizeBytes numBlocks segmentBytes kvStrideBytes segments : Nat)
    (l : KVCacheLayout) : Prop where
  dataPtr_ne : dataPtr ≠ 0
  region : dataPtr + sizeBytes < 2 ^ 64
  block : segmentBytes * segments < 2 ^ 64
  seg : chooseSegments segmentBytes kvStrideBytes segments = .ok l.seg
  addressing : l.toAddressing =
    denseAddressing dataPtr sizeBytes numBlocks segmentBytes segments l.seg
  padded : l.paddedSegmentBytes = segmentBytes

theorem madeBy_of_new
    (h : new dataPtr sizeBytes numBlocks segmentBytes kvStrideBytes segments = .ok l) :
    l.MadeBy dataPtr sizeBytes numBlocks segmentBytes kvStrideBytes segments := by
  unfold new at h
  split at h
  · cases h
  next hptr =>
    split at h
    · cases h
    split at h
    · cases h
    split at h
    · cases h
    next hrgn =>
      split at h
      · cases h
      next hb =>
        split at h
        · cases h
        next hseg =>
          dsimp only at h
          split at h
          · cases h
          · cases h
            exact ⟨hptr, Nat.not_le.mp hrgn, Nat.not_le.mp hb, hseg, rfl, rfl⟩

/-- The checks of `new` are all that is needed. -/
theorem exists_new {seg : SegmentLayout} (hptr : dataPtr ≠ 0) (hs : sizeBytes ≠ 0)
    (hz : ¬ (segmentBytes = 0 ∨ numBlocks = 0 ∨ segments = 0))
    (hrgn : dataPtr + sizeBytes < 2 ^ 64) (hb : segmentBytes * segments < 2 ^ 64)
    (hseg : chooseSegments segmentBytes kvStrideBytes segments = .ok seg)
    (hbds : (denseAddressing dataPtr sizeBytes numBlocks segmentBytes segments seg).boundsError =
      none) :
    ∃ l, new dataPtr sizeBytes numBlocks segmentBytes kvStrideBytes segments = .ok l := by
  unfold new
  rw [if_neg hptr, if_neg hs, dif_neg hz, if_neg (Nat.not_le.mpr hrgn), if_neg (Nat.not_le.mpr hb)]
  split
  next heq => cases heq.symm.trans hseg
  next heq =>
    cases heq.symm.trans hseg
    dsimp only
    split
    next herr => cases herr.symm.trans hbds
    · exact ⟨_, rfl⟩

/-- A stride is all that `with_block_stride` changes. -/
theorem of_withBlockStride (h : l.withBlockStride stride = .ok l') :
    l'.toAddressing = { l.toAddressing with blockStrideBytes := stride } ∧
      l'.paddedSegmentBytes = l.paddedSegmentBytes := by
  unfold withBlockStride at h
  split at h
  · cases h
  dsimp only at h
  split at h
  · cases h
  · cases h
    exact ⟨rfl, rfl⟩

theorem exists_withBlockStride (hmin : l.minStride ≤ stride)
    (hbds : { l.toAddressing with blockStrideBytes := stride }.boundsError = none) :
    ∃ l', l.withBlockStride stride = .ok l' := by
  unfold withBlockStride
  rw [if_neg (Nat.not_lt.mpr hmin)]
  dsimp only
  split
  next herr => cases herr.symm.trans hbds
  · exact ⟨_, rfl⟩

end

/-- The size of a block on the host. -/
def paddedBlockBytes (l : KVCacheLayout) : Nat := l.paddedSegmentBytes * l.segments

end KVCacheLayout

end PegaFlow.Engine
