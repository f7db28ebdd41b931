import Mathlib.Data.List.Dedup
import Mathlib.Data.List.Perm.Subperm
import Mathlib.Logic.Function.Basic

/-!
# Packing items into bins

Items are put into bins in order, each at the end of what its bin holds already.  An
item is inside the final extent of its bin (`pack_inside`), and two items of one bin do
not overlap (`pack_ordered`).  Whether a list of items is a whole bin can be told by counting
(`mem_of_dedup_length`).
-/

namespace Packing

open List

variable {κ : Type} [DecidableEq κ]

/-- The offset of every item, given the bin and the size of each, and the extent of
every bin after the last item. -/
def pack : List (κ × Nat) → (κ → Nat) → List Nat × (κ → Nat)
  | [], extent => ([], extent)
  | (bin, size) :: items, extent =>
    let rest := pack items (Function.update extent bin (extent bin + size))
    (extent bin :: rest.1, rest.2)

variable {items : List (κ × Nat)} {extent : κ → Nat} {bin : κ} {i j size size' offset offset' : Nat}

theorem pack_cons (item : κ × Nat) (items : List (κ × Nat)) (extent : κ → Nat) :
    pack (item :: items) extent =
      (extent item.1 :: (pack items (Function.update extent item.1 (extent item.1 + item.2))).1,
        (pack items (Function.update extent item.1 (extent item.1 + item.2))).2) := rfl

variable (items) (extent)

theorem length_pack : (pack items extent).1.length = items.length := by
  induction items generalizing extent with
  | nil => rfl
  | cons item items ih => simp [pack_cons, ih]

theorem update_le (bin bin' : κ) (extent : κ → Nat) (size : Nat) :
    extent bin ≤ Function.update extent bin' (extent bin' + size) bin := by
  by_cases h : bin = bin'
  · subst h
    simp
  · exact Nat.le_of_eq (Function.update_of_ne h _ _).symm

/-- Bins only grow. -/
theorem le_pack (bin : κ) : extent bin ≤ (pack items extent).2 bin := by
  induction items generalizing extent with
  | nil => exact Nat.le_refl _
  | cons item items ih => exact Nat.le_trans (update_le bin item.1 extent item.2) (ih _)

variable {items} {extent}

theorem pack_inside (hi : items[i]? = some (bin, size))
    (hoff : (pack items extent).1[i]? = some offset) :
    extent bin ≤ offset ∧ offset + size ≤ (pack items extent).2 bin := by
  induction items generalizing extent i with
  | nil => simp at hi
  | cons item items ih =>
    cases i with
    | zero =>
      cases hi
      cases hoff
      refine ⟨Nat.le_refl _, ?_⟩
      have hle := le_pack items (Function.update extent bin (extent bin + size)) bin
      rwa [Function.update_self] at hle
    | succ i =>
      obtain ⟨hge, hle⟩ := ih (i := i) hi hoff
      exact ⟨Nat.le_trans (update_le bin item.1 extent item.2) hge, hle⟩

theorem pack_ordered (hij : i < j) (hi : items[i]? = some (bin, size))
    (hj : items[j]? = some (bin, size')) (hoff : (pack items extent).1[i]? = some offset)
    (hoff' : (pack items extent).1[j]? = some offset') : offset + size ≤ offset' := by
  induction items generalizing extent i j with
  | nil => simp at hi
  | cons item items ih =>
    obtain ⟨j, rfl⟩ : ∃ j', j = j' + 1 := ⟨j - 1, by omega⟩
    cases i with
    | zero =>
      cases hi
      cases hoff
      have hge := (pack_inside (i := j) hj hoff').1
      rwa [Function.update_self] at hge
    | succ i => exact ih (i := i) (j := j) (by omega) hi hj hoff hoff'

/-- As many distinct items of a bin as it has are all of them. -/
theorem mem_of_dedup_length {items : List Nat} {bins : List κ}
    (hitems : ∀ j ∈ items, bins[j]? = some bin)
    (hlen : items.dedup.length = (bins.filter fun b => b = bin).length)
    (hi : bins[i]? = some bin) : i ∈ items := by
  have hbins : bins.map some = (range bins.length).map fun j => bins[j]? := by
    refine ext_getElem (by simp) ?_
    intro j _ _
    simp
  have hct : (bins.filter fun b => b = bin).length
      = ((range bins.length).filter fun j => bins[j]? = some bin).length := by
    have hs : (bins.filter fun b => b = bin).length
        = ((bins.map some).filter fun b => b = some bin).length := by
      rw [filter_map, length_map]
      simp only [Function.comp_def, Option.some.injEq]
    rw [hs, hbins, filter_map, length_map]
    rfl
  have hsub : items.dedup ⊆ (range bins.length).filter fun j => bins[j]? = some bin := by
    intro j hj
    have hbin := hitems j (mem_dedup.mp hj)
    exact List.mem_filter.mpr ⟨List.mem_range.mpr (List.getElem?_eq_some_iff.mp hbin).1,
      decide_eq_true hbin⟩
  have hp := (subperm_of_subset (nodup_dedup items) hsub).perm_of_length_le
    (Nat.le_of_eq (hlen.trans hct).symm)
  refine mem_dedup.mp (hp.mem_iff.mpr (List.mem_filter.mpr ⟨?_, decide_eq_true hi⟩))
  exact List.mem_range.mpr (List.getElem?_eq_some_iff.mp hi).1

end Packing
