import Mathlib.Data.List.Forall2
import Mathlib.Data.List.Zip
import Mathlib.Data.Prod.Basic

/-!
# Programs that stop at the first error

A program in `Except` returns a result if each of its parts does (`bind_eq_ok`).  A loop that
makes a result of every item and returns at the first error is `List.mapM'` in
`Except`.  It succeeds with the results of all items (`mapM_eq_ok`), and fails with the
error of one (`mapM_eq_error`).
-/

namespace Loop

open List

variable {α β ε : Type} {f : α → Except ε β} {xs : List α} {ys : List β} {e : ε}

theorem eq_ok_of_mem_toOption {x : Except ε β} {y : β} (h : y ∈ x.toOption) : x = .ok y := by
  cases x with
  | error e => cases h
  | ok z =>
    cases h
    rfl

theorem bind_eq_ok {x : Except ε α} {y : β} : (x >>= f) = .ok y ↔ ∃ a, x = .ok a ∧ f a = .ok y := by
  cases x with
  | error e | ok a => simp [bind, Except.bind]

theorem map_eq_ok {x : Except ε α} {g : α → β} {y : β} :
    x.map g = .ok y ↔ ∃ a, x = .ok a ∧ g a = y := by
  cases x with
  | error e | ok a => simp [Except.map]

theorem mapM_cons (f : α → Except ε β) (x : α) (xs : List α) :
    (x :: xs).mapM' f =
      match f x with
      | .error e => .error e
      | .ok y => (xs.mapM' f).map (y :: ·) := by
  rw [mapM'_cons]
  cases f x with
  | error e => rfl
  | ok y => cases xs.mapM' f <;> rfl

theorem mapM_eq_ok : xs.mapM' f = .ok ys ↔ List.Forall₂ (fun x y => f x = .ok y) xs ys := by
  induction xs generalizing ys with
  | nil =>
    rw [forall₂_nil_left_iff]
    exact ⟨fun h => (Except.ok.inj h).symm, fun h => congrArg Except.ok h.symm⟩
  | cons x xs ih =>
    rw [mapM_cons, forall₂_cons_left_iff]
    cases hx : f x with
    | error e => simp
    | ok y =>
      cases hxs : xs.mapM' f with
      | error e =>
        have hn : ∀ zs, ¬ List.Forall₂ (fun x y => f x = .ok y) xs zs := by
          intro zs hzs
          rw [← ih, hxs] at hzs
          cases hzs
        simp [Except.map, hn]
      | ok zs =>
        have hall : ∀ us, List.Forall₂ (fun x y => f x = .ok y) xs us ↔ zs = us := by
          intro us
          rw [← ih, hxs, Except.ok.injEq]
        simp [Except.map, hall, eq_comm]

theorem mapM_eq_error (h : xs.mapM' f = .error e) : ∃ x ∈ xs, f x = .error e := by
  induction xs with
  | nil => cases h
  | cons x xs ih =>
    rw [mapM_cons] at h
    cases hx : f x with
    | error e' =>
      rw [hx] at h
      cases h
      exact ⟨x, mem_cons_self, hx⟩
    | ok y =>
      rw [hx] at h
      cases hxs : xs.mapM' f with
      | error e' =>
        rw [hxs] at h
        cases h
        obtain ⟨x', hm, hx'⟩ := ih hxs
        exact ⟨x', mem_cons_of_mem x hm, hx'⟩
      | ok zs =>
        rw [hxs] at h
        cases h

theorem mapM_eq_ok_map {g : α → β} (h : ∀ x ∈ xs, f x = .ok (g x)) : xs.mapM' f = .ok (xs.map g) :=
  mapM_eq_ok.mpr (forall₂_map_right_iff.mpr (forall₂_same.mpr h))

/-- A loop over a state, none of whose rounds fails. -/
theorem foldlM_eq_ok_foldl {σ : Type} {f : σ → α → Except ε σ} {g : σ → α → σ} (s : σ)
    (h : ∀ x ∈ xs, ∀ s, f s x = .ok (g s x)) : xs.foldlM f s = .ok (xs.foldl g s) := by
  induction xs generalizing s with
  | nil => rfl
  | cons x xs ih =>
    rw [foldlM_cons, h x mem_cons_self]
    exact ih _ fun y hy => h y (mem_cons_of_mem x hy)

/-! ## Items and results -/

variable {R : α → β → Prop}

theorem exists_result (h : List.Forall₂ R xs ys) {x : α} (hx : x ∈ xs) : ∃ y ∈ ys, R x y := by
  induction h with
  | nil => cases hx
  | @cons _ y _ _ hr _ ih =>
    rcases mem_cons.mp hx with rfl | hm
    · exact ⟨y, mem_cons_self, hr⟩
    · obtain ⟨y', hy', hr'⟩ := ih hm
      exact ⟨y', mem_cons_of_mem y hy', hr'⟩

theorem exists_item (h : List.Forall₂ R xs ys) {y : β} (hy : y ∈ ys) : ∃ x ∈ xs, R x y :=
  exists_result h.flip hy

theorem exists_zip_right (h : xs.length = ys.length) {x : α} (hx : x ∈ xs) :
    ∃ y, (x, y) ∈ xs.zip ys := by
  obtain ⟨i, hi, rfl⟩ := getElem_of_mem hx
  have hi' : i < ys.length := h ▸ hi
  exact ⟨ys[i], mem_of_getElem? (getElem?_zip_eq_some.mpr
    ⟨getElem?_eq_getElem hi, getElem?_eq_getElem hi'⟩)⟩

/-- An item of a list without repetition is paired once. -/
theorem eq_of_mem_zip_left (hnd : xs.Nodup) {p p' : α × β} (hp : p ∈ xs.zip ys)
    (hp' : p' ∈ xs.zip ys) (h : p.1 = p'.1) : p = p' := by
  obtain ⟨i, hi⟩ := mem_iff_getElem?.mp hp
  obtain ⟨j, hj⟩ := mem_iff_getElem?.mp hp'
  have hx := (getElem?_zip_eq_some.mp hi).1
  have hx' := (getElem?_zip_eq_some.mp hj).1
  have hij : i = j := (List.getElem?_inj (List.getElem?_eq_some_iff.mp hx).1 hnd).mp
    (by rw [hx, hx', h])
  subst hij
  exact Option.some.inj (hi.symm.trans hj)

theorem eq_of_mem_zip_right (hnd : ys.Nodup) {p p' : α × β} (hp : p ∈ xs.zip ys)
    (hp' : p' ∈ xs.zip ys) (h : p.2 = p'.2) : p = p' := by
  have hswap : ∀ q ∈ xs.zip ys, q.swap ∈ ys.zip xs := by
    intro q hq
    rw [← zip_swap]
    exact mem_map_of_mem hq
  exact Prod.swap_injective (eq_of_mem_zip_left hnd (hswap p hp) (hswap p' hp') h)

end Loop
