import Mathlib.Data.Nat.ModEq
import Mathlib.Tactic.ByContra
import Mathlib.Tactic.WLOG

/-!
# Byte ranges and circular files

A `ByteRange` is a start and a length.  Two ranges are disjoint when no byte is
in both, so an empty range is disjoint from every range.

The second half is about a line of logical offsets laid around a circular file
of `cap` bytes: logical offset `x` is stored at `x % cap`.  A range is
*unbroken* when its image does not wrap around the end of the file.  Unbroken
ranges that are disjoint on the line and lie inside one window of `cap` bytes
have disjoint images (`place_disjoint`), and an image is inside the file
(`place_subset_file`).
-/

/-- The bytes `start, …, start + len - 1`. -/
structure ByteRange where
  /-- The first byte. -/
  start : Nat
  /-- The number of bytes. -/
  len : Nat
deriving DecidableEq, Repr

namespace ByteRange

instance : Membership Nat ByteRange where
  mem r x := r.start ≤ x ∧ x < r.start + r.len

variable {r : ByteRange} {x : Nat}

theorem mem_iff : x ∈ r ↔ r.start ≤ x ∧ x < r.start + r.len :=
  Iff.rfl

instance (r : ByteRange) (x : Nat) : Decidable (x ∈ r) :=
  inferInstanceAs (Decidable (r.start ≤ x ∧ x < r.start + r.len))

/-- No byte is in both ranges. -/
def Disjoint (r s : ByteRange) : Prop := ∀ x, x ∈ r → x ∉ s

/-- Every byte of the first range is in the second. -/
def Inside (r s : ByteRange) : Prop := s.start ≤ r.start ∧ r.start + r.len ≤ s.start + s.len

instance (r s : ByteRange) : Decidable (r.Inside s) :=
  inferInstanceAs (Decidable (_ ∧ _))

variable {s : ByteRange}

theorem Disjoint.symm (h : r.Disjoint s) : s.Disjoint r :=
  fun x hs hr => h x hr hs

theorem disjoint_iff :
    r.Disjoint s ↔
      r.len = 0 ∨ s.len = 0 ∨ r.start + r.len ≤ s.start ∨ s.start + s.len ≤ r.start := by
  constructor
  · intro h
    by_contra hne
    have hr := h (max r.start s.start)
    rw [mem_iff, mem_iff] at hr
    omega
  · intro h x hr hs
    rw [mem_iff] at hr hs
    omega

instance (r s : ByteRange) : Decidable (r.Disjoint s) :=
  decidable_of_iff _ disjoint_iff.symm

theorem disjoint_of_le (h : r.start + r.len ≤ s.start) : r.Disjoint s :=
  disjoint_iff.mpr (Or.inr (Or.inr (Or.inl h)))

theorem Inside.mem (h : r.Inside s) (hx : x ∈ r) : x ∈ s := by
  rw [mem_iff] at hx ⊢
  obtain ⟨hl, hr⟩ := h
  omega

theorem Disjoint.mono {r' s' : ByteRange} (h : r.Disjoint s) (hr : r'.Inside r) (hs : s'.Inside s) :
    r'.Disjoint s' :=
  fun x hx hx' => h x (hr.mem hx) (hs.mem hx')

/-! ## Circular files -/

/-- Where a range of logical offsets is stored in a circular file of `cap` bytes. -/
def place (cap : Nat) (r : ByteRange) : ByteRange := ⟨r.start % cap, r.len⟩

/-- The image of the range does not wrap around the end of the file. -/
def Unbroken (cap : Nat) (r : ByteRange) : Prop := r.start % cap + r.len ≤ cap

variable {cap : Nat}

theorem place_subset_file (h : Unbroken cap r) : (place cap r).Inside ⟨0, cap⟩ := by
  refine ⟨Nat.zero_le _, ?_⟩
  rw [Nat.zero_add]
  exact h

/-- A stored byte of an unbroken range is the image of a logical byte of it. -/
theorem exists_logical (h : Unbroken cap r) (hx : x ∈ place cap r) : ∃ y ∈ r, y % cap = x := by
  obtain ⟨hlo, hhi⟩ := hx
  simp only [place] at hlo hhi
  have hdiv := Nat.div_add_mod r.start cap
  refine ⟨r.start + (x - r.start % cap), ⟨by omega, by omega⟩, ?_⟩
  have hsum : r.start + (x - r.start % cap) = x + cap * (r.start / cap) := by omega
  have hcap : x < cap := Nat.lt_of_lt_of_le hhi h
  rw [hsum, Nat.add_mul_mod_self_left, Nat.mod_eq_of_lt hcap]

variable {t : Nat}

/-- Inside one window of `cap` offsets the stored byte determines the offset. -/
theorem eq_of_mod_eq_of_window {y : Nat} (hx : t ≤ x ∧ x < t + cap) (hy : t ≤ y ∧ y < t + cap)
    (h : x % cap = y % cap) : x = y := by
  wlog hle : x ≤ y generalizing x y
  · exact (this hy hx h.symm (Nat.le_of_not_le hle)).symm
  have hdvd : cap ∣ y - x := (Nat.modEq_iff_dvd' hle).mp h
  have hlt : y - x < cap := by omega
  have hz : y - x = 0 := Nat.eq_zero_of_dvd_of_lt hdvd hlt
  omega

/-- Unbroken ranges that are disjoint on the line and lie in one window of
`cap` offsets are stored in disjoint ranges. -/
theorem place_disjoint (hr : Unbroken cap r) (hs : Unbroken cap s) (hrw : r.Inside ⟨t, cap⟩)
    (hsw : s.Inside ⟨t, cap⟩) (h : r.Disjoint s) : (place cap r).Disjoint (place cap s) := by
  intro x hxr hxs
  obtain ⟨y, hy, hyx⟩ := exists_logical hr hxr
  obtain ⟨z, hz, hzx⟩ := exists_logical hs hxs
  have hyz : y = z :=
    eq_of_mod_eq_of_window (hrw.mem hy) (hsw.mem hz) (hyx.trans hzx.symm)
  exact h y hy (hyz ▸ hz)

end ByteRange
