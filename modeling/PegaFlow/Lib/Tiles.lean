import Mathlib.Data.List.Nodup
import Mathlib.Data.List.Range

/-!
# Numbers in tiles

The numbers below a bound are cut into tiles of equal size: `x` is at place `x % l` of the tile
`x / l`.  Tile after tile gives back the numbers in order (`flatMap_range`), and each place of each
tile is one number (`countP_tile`).

Two parties tile the same numbers, with tiles of two sizes.  `sources` counts the tiles of one that
meet a tile of the other.
-/

namespace Tiles

open List

variable {n l m x total tile place : Nat} {α : Type*}

theorem zipIdx_map_range (f : Nat → α) (n : Nat) :
    ((List.range n).map f).zipIdx = (List.range n).map fun i => (f i, i) :=
  ext_getElem (by simp) fun i _ _ => by simp

theorem flatMap_range (n l : Nat) :
    (List.range n).flatMap (fun a => (List.range l).map (a * l + ·)) = List.range (n * l) := by
  induction n with
  | zero => rw [Nat.zero_mul]; rfl
  | succ n ih =>
    rw [range_succ, flatMap_append, ih, flatMap_singleton, Nat.succ_mul, range_add]

/-- The numbers below a bound, out of those below a larger one. -/
theorem filterMap_range_lt (h : total ≤ n) (f : Nat → α) :
    (List.range n).filterMap (fun x => if x < total then some (f x) else none) =
      (List.range total).map f := by
  obtain ⟨k, rfl⟩ := Nat.exists_eq_add_of_le h
  rw [range_add, filterMap_append, filterMap_map]
  have hlow : (range total).filterMap (fun x => if x < total then some (f x) else none) =
      (range total).map f := by
    rw [← filterMap_eq_map]
    exact filterMap_congr fun x hx => if_pos (mem_range.mp hx)
  have hhigh : (range k).filterMap
      ((fun x => if x < total then some (f x) else none) ∘ (total + ·)) = [] := by
    refine filterMap_eq_nil_iff.mpr fun x _ => if_neg ?_
    exact Nat.not_lt.mpr (Nat.le_add_right total x)
  rw [hlow, hhigh, append_nil]

theorem countP_range_eq_one {P : Nat → Bool} (hx : x < n) (hP : ∀ a < n, P a ↔ a = x) :
    (List.range n).countP P = 1 := by
  have hcongr : (range n).countP P = (range n).count x :=
    countP_congr fun a ha => (hP a (mem_range.mp ha)).trans beq_iff_eq.symm
  rw [hcongr]
  exact count_eq_one_of_mem nodup_range (mem_range.mpr hx)

theorem eq_iff (tile : Nat) (hplace : place < l) :
    (x / l, x % l) = (tile, place) ↔ x = tile * l + place := by
  rw [Prod.mk.injEq]
  constructor
  · rintro ⟨rfl, rfl⟩
    exact (Nat.div_add_mod' x l).symm
  · rintro rfl
    have hl : 0 < l := Nat.zero_lt_of_lt hplace
    rw [Nat.add_comm, Nat.add_mul_div_right _ _ hl, Nat.div_eq_of_lt hplace, Nat.zero_add,
      Nat.add_mul_mod_self_right, Nat.mod_eq_of_lt hplace]
    exact ⟨rfl, rfl⟩

theorem countP_tile (hplace : place < l) (total tile : Nat) :
    (List.range total).countP (fun x => (x / l, x % l) = (tile, place)) =
      if tile * l + place < total then 1 else 0 := by
  split
  next hlt =>
    exact countP_range_eq_one hlt fun x _ => decide_eq_true_iff.trans (eq_iff tile hplace)
  next hge =>
    refine countP_eq_zero.mpr fun x hx => ?_
    rw [decide_eq_true_iff, eq_iff tile hplace]
    rintro rfl
    exact hge (mem_range.mp hx)

/-! ## Two tilings -/

/-- Some number of a tile of size `l` is in a tile of size `m`. -/
def Meets (l m total a b : Nat) : Prop := ∃ i < l, a * l + i < total ∧ (a * l + i) / m = b

instance (l m total a b : Nat) : Decidable (Meets l m total a b) :=
  inferInstanceAs (Decidable (∃ i < l, _ ∧ _))

/-- The tiles of size `l` that meet a tile of size `m`. -/
def sources (n l m total b : Nat) : Nat := (List.range n).countP fun a => Meets l m total a b

variable {b : Nat}

theorem meets_div (hl : 0 < l) (hx : x < total) (hb : x / m = b) : Meets l m total (x / l) b :=
  ⟨x % l, Nat.mod_lt x hl, by rw [Nat.div_add_mod']; exact ⟨hx, hb⟩⟩

theorem meets_first (hl : 0 < l) (hm : 0 < m) (hb : b * m < total) :
    Meets l m total (b * m / l) b :=
  meets_div hl hb (Nat.mul_div_cancel b hm)

/-- A tile that is cut from one larger tile. -/
theorem sources_eq_one (hl : 0 < l) (hm : 0 < m) (hdvd : m ∣ l) (hn : total ≤ n * l)
    (hb : b * m < total) : sources n l m total b = 1 := by
  obtain ⟨k, rfl⟩ := hdvd
  refine countP_range_eq_one (x := b * m / (m * k)) ?_ fun a _ => ?_
  · exact Nat.div_lt_of_lt_mul ((hb.trans_le hn).trans_eq (Nat.mul_comm ..))
  · rw [decide_eq_true_iff]
    constructor
    · rintro ⟨i, hi, -, rfl⟩
      rw [← Nat.div_div_eq_div_mul, Nat.mul_div_cancel _ hm, Nat.div_div_eq_div_mul, Nat.add_comm,
        Nat.add_mul_div_right _ _ hl, Nat.div_eq_of_lt hi, Nat.zero_add]
    · rintro rfl
      exact meets_first hl hm hb

theorem sources_eq_zero (hb : total ≤ b * m) : sources n l m total b = 0 := by
  refine countP_eq_zero.mpr fun a _ => ?_
  rw [decide_eq_true_iff]
  rintro ⟨i, -, hlt, rfl⟩
  exact absurd (hlt.trans_le hb) (Nat.not_lt.mpr (Nat.div_mul_le_self _ m))

theorem sources_pos (hl : 0 < l) (hm : 0 < m) (hn : total ≤ n * l) (hb : b * m < total) :
    0 < sources n l m total b := by
  refine countP_pos_iff.mpr ⟨b * m / l, mem_range.mpr ?_, ?_⟩
  · exact Nat.div_lt_of_lt_mul ((hb.trans_le hn).trans_eq (Nat.mul_comm ..))
  · exact decide_eq_true (meets_first hl hm hb)

/-- A tile with room for two smaller ones meets at least two. -/
theorem one_lt_sources (hl : 0 < l) (hlm : l < m) (hn : total ≤ n * l) (htot : m ≤ total) :
    1 < sources n l m total 0 := by
  have hm : 0 < m := hl.trans hlm
  have hz : Meets l m total 0 0 := by
    have h := meets_div (x := 0) hl (hm.trans_le htot) (Nat.zero_div m)
    rwa [Nat.zero_div] at h
  have hone : Meets l m total 1 0 := by
    have h := meets_div hl (hlm.trans_le htot) (Nat.div_eq_of_lt hlm)
    rwa [Nat.div_self hl] at h
  have htwo : 2 ≤ n := by
    by_contra hlt
    have : n * l ≤ 1 * l := Nat.mul_le_mul_right l (by omega)
    omega
  obtain ⟨k, rfl⟩ := Nat.exists_eq_add_of_le htwo
  rw [sources, range_add, countP_append]
  have : (range 2).countP (fun a => Meets l m total a 0) = 2 := by
    simp [range_succ, hz, hone]
  omega

end Tiles
