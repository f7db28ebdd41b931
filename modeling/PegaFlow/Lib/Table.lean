import Mathlib.Algebra.Ring.Nat
import Mathlib.Data.List.AList

/-!
# Tables

A hash map is a `Table`, an association list without repeated keys.  The lemmas say
what a lookup in an updated table can have found, and what an update does to a sum over
the values.
-/

/-- A finite map from keys to values. -/
abbrev Table (κ ν : Type) := AList (fun _ : κ => ν)

namespace Table

open List AList

variable {κ ν μ : Type} [DecidableEq κ] {t : Table κ ν} {key k : κ} {v v' : ν}

theorem lookup_of_insert (h : (t.insert key v).lookup k = some v') :
    k = key ∧ v' = v ∨ k ≠ key ∧ t.lookup k = some v' := by
  by_cases hk : k = key
  · subst hk
    rw [lookup_insert] at h
    exact Or.inl ⟨rfl, (Option.some.inj h).symm⟩
  · rw [lookup_insert_ne hk] at h
    exact Or.inr ⟨hk, h⟩

/-- What the new value has and the old ones had, the values of the new table have. -/
theorem forall_lookup_insert {P : κ → ν → Prop} (hnew : P key v)
    (ho : ∀ k w, t.lookup k = some w → P k w) :
    ∀ k w, (t.insert key v).lookup k = some w → P k w := by
  intro k w h
  rcases lookup_of_insert h with ⟨rfl, rfl⟩ | ⟨-, h⟩
  · exact hnew
  · exact ho k w h

theorem lookup_of_erase (h : (t.erase key).lookup k = some v) : k ≠ key ∧ t.lookup k = some v := by
  by_cases hk : k = key
  · subst hk
    rw [lookup_erase] at h
    cases h
  · rw [lookup_erase_ne hk] at h
    exact ⟨hk, h⟩

theorem getD_lookup_insert (d : ν) :
    ((t.insert key v).lookup k).getD d = if k = key then v else (t.lookup k).getD d := by
  split
  next hk =>
    subst hk
    rw [lookup_insert, Option.getD_some]
  next hk => rw [lookup_insert_ne hk]

theorem getD_lookup_erase (d : ν) :
    ((t.erase key).lookup k).getD d = if k = key then d else (t.lookup k).getD d := by
  split
  next hk =>
    subst hk
    rw [lookup_erase, Option.getD_none]
  next hk => rw [lookup_erase_ne hk]

theorem lookup_foldl_erase (ks : List κ) :
    (ks.foldl (fun t k => t.erase k) t).lookup k = if k ∈ ks then none else t.lookup k := by
  induction ks generalizing t with
  | nil => simp
  | cons k' ks ih =>
    rw [List.foldl_cons, ih]
    by_cases hk : k = k'
    · subst hk
      simp [lookup_erase]
    · simp [hk, lookup_erase_ne hk]

theorem lookup_foldl_insert (ks : List κ) (v : ν) :
    (ks.foldl (fun t k => t.insert k v) t).lookup k = if k ∈ ks then some v else t.lookup k := by
  induction ks generalizing t with
  | nil => simp
  | cons k' ks ih =>
    rw [List.foldl_cons, ih]
    by_cases hk : k = k'
    · subst hk
      simp [lookup_insert]
    · simp [hk, lookup_insert_ne hk]

/-- The entries whose values meet a condition. -/
def retain (t : Table κ ν) (p : ν → Bool) : Table κ ν :=
  ⟨t.entries.filter fun e => p e.2, t.nodupKeys.sublist List.filter_sublist⟩

theorem lookup_retain (t : Table κ ν) (p : ν → Bool) (k : κ) :
    (t.retain p).lookup k = (t.lookup k).filter p := by
  ext v
  rw [Option.filter_eq_some_iff, ← Option.mem_def, mem_lookup_iff, ← Option.mem_def, mem_lookup_iff]
  exact mem_filter

omit [DecidableEq κ] in
theorem keys_filterMap_sublist (f : κ → ν → Option μ) (l : List (Sigma fun _ : κ => ν)) :
    (l.filterMap fun e => (f e.1 e.2).map (Sigma.mk (β := fun _ => μ) e.1)).keys.Sublist
      l.keys := by
  induction l with
  | nil => exact .slnil
  | cons e l ih =>
    rw [filterMap_cons]
    cases f e.1 e.2 with
    | none => exact ih.cons _
    | some v => exact ih.cons_cons _

/-- The table of the values `f` keeps, each replaced by what `f` makes of it. -/
def filterMap (t : Table κ ν) (f : κ → ν → Option μ) : Table κ μ :=
  ⟨t.entries.filterMap fun e => (f e.1 e.2).map (Sigma.mk e.1),
    List.Nodup.sublist (keys_filterMap_sublist f t.entries) t.nodupKeys⟩

theorem lookup_filterMap (t : Table κ ν) (f : κ → ν → Option μ) (k : κ) :
    (t.filterMap f).lookup k = (t.lookup k).bind (f k) := by
  ext v
  rw [Option.bind_eq_some_iff, ← Option.mem_def, mem_lookup_iff]
  constructor
  · intro h
    obtain ⟨⟨k', v'⟩, he, hv⟩ := mem_filterMap.mp h
    obtain ⟨w, hw, heq⟩ := Option.map_eq_some_iff.mp hv
    cases heq
    exact ⟨v', mem_lookup_iff.mpr he, hw⟩
  · rintro ⟨v', hl, hv⟩
    refine mem_filterMap.mpr ⟨⟨k, v'⟩, mem_lookup_iff.mp hl, ?_⟩
    rw [hv]
    rfl

theorem keys_perm {t' : Table κ ν} (h : ∀ k, t.lookup k = t'.lookup k) : t.keys.Perm t'.keys := by
  rw [perm_ext_iff_of_nodup t.keys_nodup t'.keys_nodup]
  intro k
  rw [← AList.mem_keys, ← AList.mem_keys, ← AList.lookup_isSome, ← AList.lookup_isSome, h k]

/-! ## Sums over the values -/

variable {α : Type} (f : ν → Nat) (l : List (κ × ν))

/-- The sum of `f` over the values of a table. -/
def total (t : Table κ ν) : Nat := (t.entries.map fun e => f e.2).sum

theorem sum_kerase (key : κ) (l : List (Sigma fun _ : κ => ν)) :
    ((l.kerase key).map fun e => f e.2).sum + (l.dlookup key).elim 0 f =
      (l.map fun e => f e.2).sum := by
  induction l with
  | nil => rfl
  | cons e l ih =>
    by_cases hk : key = e.1
    · rw [kerase_cons_eq hk]
      cases hk
      rw [dlookup_cons_eq]
      exact Nat.add_comm _ _
    · rw [kerase_cons_ne hk, dlookup_cons_ne _ _ hk, List.map_cons, List.map_cons,
        sum_cons, sum_cons, Nat.add_assoc, ih]

theorem total_erase (t : Table κ ν) (key : κ) :
    total f (t.erase key) + (t.lookup key).elim 0 f = total f t :=
  sum_kerase f key t.entries

theorem total_insert (t : Table κ ν) (key : κ) (v : ν) :
    total f (t.insert key v) + (t.lookup key).elim 0 f = total f t + f v := by
  have h := sum_kerase f key t.entries
  rw [total, total, entries_insert, List.map_cons, sum_cons]
  rw [Nat.add_assoc, AList.lookup, h, Nat.add_comm]

/-! ## Collecting -/

/-- The values of each key, in order. -/
def group : Table κ (List ν) :=
  l.foldl (fun t e => t.insert e.1 ((t.lookup e.1).getD [] ++ [e.2])) ∅

theorem getD_lookup_foldl_group (t : Table κ (List ν)) (k : κ) :
    ((l.foldl (fun t e => t.insert e.1 ((t.lookup e.1).getD [] ++ [e.2])) t).lookup k).getD [] =
      (t.lookup k).getD [] ++ (l.filter (·.1 = k)).map Prod.snd := by
  induction l generalizing t with
  | nil => simp
  | cons e l ih =>
    rw [List.foldl_cons, ih]
    by_cases hk : k = e.1
    · subst hk
      simp
    · simp [hk, Ne.symm hk]

theorem getD_lookup_group (k : κ) :
    ((group l).lookup k).getD [] = (l.filter (·.1 = k)).map Prod.snd :=
  getD_lookup_foldl_group l ∅ k

theorem mem_foldl_group (t : Table κ (List ν)) (k : κ) :
    k ∈ l.foldl (fun t e => t.insert e.1 ((t.lookup e.1).getD [] ++ [e.2])) t ↔
      k ∈ t ∨ k ∈ l.map Prod.fst := by
  induction l generalizing t with
  | nil => simp
  | cons e l ih =>
    rw [List.foldl_cons, ih, AList.mem_insert, List.map_cons, List.mem_cons, or_assoc, or_left_comm]

theorem mem_group {l : List (κ × ν)} {k : κ} : k ∈ group l ↔ k ∈ l.map Prod.fst :=
  (mem_foldl_group l ∅ k).trans (or_iff_right (notMem_empty k))

/-- Key by key, the entries of a list. -/
theorem flatMap_filter_perm {ks : List κ} (hks : ks.Nodup) (l : List (κ × ν))
    (hl : ∀ e ∈ l, e.1 ∈ ks) : (ks.flatMap fun k => l.filter (·.1 = k)).Perm l := by
  induction ks generalizing l with
  | nil =>
    cases l with
    | nil => exact .refl _
    | cons e l => exact absurd (hl e mem_cons_self) not_mem_nil
  | cons k ks ih =>
    obtain ⟨hk, hks⟩ := nodup_cons.mp hks
    refine (List.Perm.append_left _ ?_).trans (filter_append_perm (·.1 = k) l)
    refine (List.Perm.of_eq ?_).trans (ih hks (l.filter fun e => !decide (e.1 = k)) ?_)
    · refine flatMap_congr fun k' hk' => ?_
      rw [List.filter_filter]
      refine filter_congr fun e _ => ?_
      have hne : k' ≠ k := fun heq => hk (heq ▸ hk')
      by_cases he : e.1 = k'
      · simp [he, hne]
      · simp [he]
    · intro e he
      obtain ⟨he, hne⟩ := mem_filter.mp he
      exact (List.mem_cons.mp (hl e he)).resolve_left (by simpa using hne)

/-- How often each key comes. -/
def tally (t : Table κ Nat) (ks : List κ) : Table κ Nat :=
  ks.foldl (fun t k => t.insert k ((t.lookup k).getD 0 + 1)) t

theorem getD_lookup_tally (t : Table κ Nat) (ks : List κ) (k : κ) (d : Nat) :
    ((t.tally ks).lookup k).getD d =
      if k ∈ ks then (t.lookup k).getD 0 + ks.count k else (t.lookup k).getD d := by
  induction ks generalizing t with
  | nil => simp [tally]
  | cons k' ks ih =>
    change ((tally _ ks).lookup k).getD d = _
    rw [ih, getD_lookup_insert]
    by_cases hk : k = k'
    · subst hk
      by_cases hm : k ∈ ks
      · rw [if_pos hm, if_pos rfl, if_pos mem_cons_self, count_cons_self]
        omega
      · simp [hm, count_eq_zero.mpr hm]
    · simp [hk, Ne.symm hk]

theorem foldl_tally (t : Table κ Nat) (f : α → List κ) (l : List α) :
    l.foldl (fun t a => t.tally (f a)) t = t.tally (l.flatMap f) := by
  rw [tally, foldl_flatMap]
  rfl

theorem count_flatMap_eq_countP {f : α → List κ} {l : List α}
    (hf : ∀ a ∈ l, (f a).Nodup) (k : κ) : (l.flatMap f).count k = l.countP fun a => k ∈ f a := by
  induction l with
  | nil => rfl
  | cons a l ih =>
    rw [flatMap_cons, count_append, ih fun b hb => hf b (mem_cons_of_mem a hb),
      (hf a mem_cons_self).count, countP_cons, Nat.add_comm]
    simp only [decide_eq_true_eq]

end Table
