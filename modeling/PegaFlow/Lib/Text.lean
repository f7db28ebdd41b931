import Mathlib.Data.List.Infix

/-!
# Texts with separators and numbers

A text that is put together from parts with a separator between them can be taken apart again from
its end, as far as the parts have no separator of their own (`append_cons_inj`).  A number is
written in one way, and with nothing but digits and a sign.
-/

namespace Text

open List

variable {α : Type} {c : α} {a b x y : List α}

/-- A text is split in one way at its last separator. -/
theorem append_cons_inj (hx : c ∉ x) (hy : c ∉ y) (h : a ++ c :: x = b ++ c :: y) :
    a = b ∧ x = y := by
  rcases append_eq_append_iff.mp h with ⟨r, rfl, hr⟩ | ⟨r, rfl, hr⟩
  · cases r with
    | nil => simpa using hr
    | cons d r =>
      obtain ⟨rfl, rfl⟩ := cons.inj hr
      simp at hx
  · cases r with
    | nil => simpa using hr.symm
    | cons d r =>
      obtain ⟨rfl, rfl⟩ := cons.inj hr
      simp at hy

theorem concat_prefix_append_cons (hx : c ∉ x) :
    a ++ [c] <+: b ++ c :: x ↔ a ++ [c] <+: b ∨ a = b := by
  constructor
  · rintro ⟨t, ht⟩
    rw [append_assoc, singleton_append] at ht
    rcases append_eq_append_iff.mp ht with ⟨r, rfl, hr⟩ | ⟨r, rfl, hr⟩
    · cases r with
      | nil => exact Or.inr (append_nil a).symm
      | cons d r =>
        obtain ⟨rfl, -⟩ := cons.inj hr
        exact Or.inl ⟨r, by simp⟩
    · cases r with
      | nil => exact Or.inr (append_nil b)
      | cons d r =>
        obtain ⟨rfl, rfl⟩ := cons.inj hr
        simp at hx
  · rintro (h | rfl)
    · exact h.trans (prefix_append b _)
    · exact ⟨x, by simp⟩

theorem toDigits_inj {m n : Nat} (h : Nat.toDigits 10 m = Nat.toDigits 10 n) : m = n := by
  rw [← Nat.ofDigitChars_ten_toDigits (n := m), h, Nat.ofDigitChars_ten_toDigits]

theorem not_mem_toDigits {n : Nat} {d : Char} (hd : d.isDigit = false) : d ∉ Nat.toDigits 10 n := by
  intro h
  rw [Nat.isDigit_of_mem_toDigits (by decide) (by decide) h] at hd
  cases hd

theorem repr_inj {m n : Int} (h : m.repr.toList = n.repr.toList) : m = n := by
  have hsign : ∀ n, '-' ∉ Nat.toDigits 10 n := fun _ => not_mem_toDigits rfl
  rw [Int.repr_eq_if, Int.repr_eq_if] at h
  split at h
  · split at h
    · have hdigits := toDigits_inj (by simpa using h)
      omega
    · have hm := hsign m.toNat
      simp [show Nat.toDigits 10 m.toNat = _ by simpa using h] at hm
  · split at h
    · have hn := hsign n.toNat
      simp [show Nat.toDigits 10 n.toNat = _ by simpa using h.symm] at hn
    · have hdigits := toDigits_inj (by simpa using h)
      omega

end Text
