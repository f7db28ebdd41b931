import Mathlib.Algebra.Ring.Nat
import PegaFlow.Lib.Range

/-!
# A log in a circular file

An append-only log is kept in a file of `cap` bytes.  Its offsets are logical
and only grow; offset `x` is stored at `x % cap`.  An append of `size` bytes
starts at the head, or at the next multiple of `cap` when it would otherwise
wrap around the end of the file.  The tail follows the head at a distance of
`cap` at most: what lies below it may have been overwritten.

`CircularLog` keeps the two cursors and the ranges ever appended, oldest first.
`WF` is the invariant of a log, and `WF.append` that an append keeps it.  The
two results a user of the log wants are `WF.inside_file`, for every range, and
`WF.disjoint_of_live`: what was appended after a range that the tail has not
passed is stored elsewhere in the file.  `Tight.live_of_small` says when the tail
cannot have passed a range yet.
-/

/-- A log with its cursors and its history. -/
structure CircularLog where
  cap : Nat
  head : Nat
  tail : Nat
  ranges : List ByteRange

namespace CircularLog

open ByteRange
open List

/-- Where an append of `size` bytes starts. -/
def nextStart (cap head size : Nat) : Nat :=
  if cap - head % cap < size then head + (cap - head % cap) else head

def append (l : CircularLog) (size : Nat) : CircularLog where
  cap := l.cap
  head := nextStart l.cap l.head size + size
  tail := max l.tail (nextStart l.cap l.head size + size - l.cap)
  ranges := l.ranges ++ [⟨nextStart l.cap l.head size, size⟩]

/-- The invariant of a log. -/
structure WF (l : CircularLog) : Prop where
  cap_pos : 0 < l.cap
  tail_le_head : l.tail ≤ l.head
  head_le : l.head ≤ l.tail + l.cap
  /-- The head is past everything appended. -/
  below_head : ∀ r ∈ l.ranges, r.start + r.len ≤ l.head
  unbroken : ∀ r ∈ l.ranges, Unbroken l.cap r
  /-- Later ranges start where earlier ones have ended. -/
  ordered : l.ranges.Pairwise fun r s => r.start + r.len ≤ s.start

variable {l : CircularLog} {size : Nat}

theorem head_le_nextStart (cap head size : Nat) : head ≤ nextStart cap head size := by
  unfold nextStart
  split <;> omega

theorem unbroken_nextStart {cap head size : Nat} (hpos : 0 < cap) (h : size ≤ cap) :
    Unbroken cap ⟨nextStart cap head size, size⟩ := by
  have hlt : head % cap < cap := Nat.mod_lt _ hpos
  unfold Unbroken nextStart
  dsimp only
  split
  · have hwrap : (head + (cap - head % cap)) % cap = 0 := by
      have hdiv := Nat.div_add_mod head cap
      have hsum : head + (cap - head % cap) = cap * (head / cap + 1) := by
        rw [Nat.mul_add]
        omega
      rw [hsum, Nat.mul_mod_right]
    omega
  · omega

/-- A log nothing was appended to. -/
theorem wf_empty {cap : Nat} (h : 0 < cap) : WF ⟨cap, 0, 0, []⟩ where
  cap_pos := h
  tail_le_head := Nat.le_refl 0
  head_le := Nat.zero_le _
  below_head := by simp
  unbroken := by simp
  ordered := List.Pairwise.nil

theorem WF.append (h : l.WF) (hsz : size ≤ l.cap) : (l.append size).WF := by
  have hsta := head_le_nextStart l.cap l.head size
  have ht := h.tail_le_head
  refine ⟨h.cap_pos, ?_, ?_, ?_, ?_, ?_⟩
  · simp only [CircularLog.append]
    omega
  · simp only [CircularLog.append]
    omega
  · intro r hr
    simp only [CircularLog.append, mem_append, mem_singleton] at hr ⊢
    rcases hr with hr | rfl
    · have := h.below_head r hr
      omega
    · exact Nat.le_refl _
  · intro r hr
    simp only [CircularLog.append, mem_append, mem_singleton] at hr ⊢
    rcases hr with hr | rfl
    · exact h.unbroken r hr
    · exact unbroken_nextStart h.cap_pos hsz
  · simp only [CircularLog.append]
    rw [pairwise_append]
    refine ⟨h.ordered, pairwise_singleton _ _, ?_⟩
    intro r hr s hs
    rw [mem_singleton] at hs
    subst hs
    exact (h.below_head r hr).trans hsta

theorem head_le_append (l : CircularLog) (size : Nat) : l.head ≤ (l.append size).head :=
  (head_le_nextStart l.cap l.head size).trans (Nat.le_add_right _ _)

theorem tail_le_append (l : CircularLog) (size : Nat) : l.tail ≤ (l.append size).tail :=
  Nat.le_max_left _ _

/-! ## What is stored where -/

theorem WF.inside_file (h : l.WF) {r : ByteRange} (hr : r ∈ l.ranges) :
    (place l.cap r).Inside ⟨0, l.cap⟩ :=
  place_subset_file (h.unbroken r hr)

/-- A range the tail has not passed is in the window the file stores. -/
theorem WF.inside_window (h : l.WF) {r : ByteRange} (hr : r ∈ l.ranges)
    (hl : l.tail ≤ r.start) : r.Inside ⟨l.tail, l.cap⟩ :=
  ⟨hl, (h.below_head r hr).trans h.head_le⟩

/-- What was appended after a range the tail has not passed does not overlap it
in the file. -/
theorem WF.disjoint_of_live (h : l.WF) :
    l.ranges.Pairwise fun r s =>
      l.tail ≤ r.start → (place l.cap r).Disjoint (place l.cap s) := by
  refine h.ordered.imp_of_mem ?_
  intro r s hr hs hle hl
  have hlat : l.tail ≤ s.start := by omega
  exact place_disjoint (h.unbroken r hr) (h.unbroken s hs) (h.inside_window hr hl)
    (h.inside_window hs hlat) (disjoint_of_le hle)

/-! ## How far a log reaches -/

/-- The tail is no further than the file forces it.  What an append skips at the
end of the file is less than it appends, so the head is at most twice the bytes
of the last ranges past the first of them. -/
structure Tight (l : CircularLog) : Prop where
  tail_eq : l.tail = l.head - l.cap
  reach : ∀ r rs, r :: rs <:+ l.ranges →
    l.head ≤ r.start + 2 * ((r :: rs).map ByteRange.len).sum

theorem nextStart_le (cap head size : Nat) : nextStart cap head size ≤ head + size := by
  unfold nextStart
  split <;> omega

theorem tight_empty (cap : Nat) : Tight ⟨cap, 0, 0, []⟩ where
  tail_eq := (Nat.zero_sub cap).symm
  reach := by simp

theorem Tight.append (h : l.Tight) (size : Nat) : (l.append size).Tight := by
  have hlo := head_le_nextStart l.cap l.head size
  have hhi := nextStart_le l.cap l.head size
  refine ⟨?_, ?_⟩
  · simp only [CircularLog.append, h.tail_eq]
    omega
  · intro r rs hsuffix
    rcases suffix_concat_iff.mp hsuffix with hnil | ⟨t, ht, ho⟩
    · cases hnil
    simp only [CircularLog.append, ht, map_append, sum_append, map_cons,
      map_nil, sum_cons, sum_nil]
    cases t with
    | nil =>
      cases ht
      simp only [map_nil, sum_nil]
      omega
    | cons r' t =>
      cases ht
      have := h.reach r t ho
      omega

/-- The tail has not passed a range when twice the bytes appended from it on fit
into the file. -/
theorem Tight.live_of_small (h : l.Tight) {r : ByteRange} {rs : List ByteRange}
    (hsuffix : r :: rs <:+ l.ranges) (hsm : 2 * ((r :: rs).map ByteRange.len).sum ≤ l.cap) :
    l.tail ≤ r.start := by
  have := h.reach r rs hsuffix
  rw [h.tail_eq]
  omega

/-! ## Alignment -/

/-- Every offset of the log is a multiple of `a`. -/
structure Aligned (a : Nat) (l : CircularLog) : Prop where
  cap : a ∣ l.cap
  head : a ∣ l.head
  start : ∀ r ∈ l.ranges, a ∣ r.start

variable {a : Nat}

theorem Aligned.nextStart (h : l.Aligned a) (size : Nat) :
    a ∣ CircularLog.nextStart l.cap l.head size := by
  have hmod : a ∣ l.head % l.cap := (Nat.dvd_mod_iff h.cap).mpr h.head
  unfold CircularLog.nextStart
  split
  · exact Nat.dvd_add h.head (Nat.dvd_sub h.cap hmod)
  · exact h.head

theorem Aligned.append (h : l.Aligned a) (hs : a ∣ size) : (l.append size).Aligned a := by
  refine ⟨h.cap, Nat.dvd_add (h.nextStart size) hs, ?_⟩
  intro r hr
  simp only [CircularLog.append, mem_append, mem_singleton] at hr
  rcases hr with hr | rfl
  · exact h.start r hr
  · exact h.nextStart size

theorem Aligned.place (h : l.Aligned a) {r : ByteRange} (hr : r ∈ l.ranges) :
    a ∣ (place l.cap r).start :=
  (Nat.dvd_mod_iff h.cap).mpr (h.start r hr)

end CircularLog
