import Mathlib.Data.List.Dedup
import Mathlib.Data.List.Sort

/-!
# Pairing two lists by rank

Two parties list the members of two sets, each in an order of its own, and pair them by rank: the
smallest with the smallest, and so on.  The result is the pairing of the two lists, position by
position, exactly if the two lists are ordered alike (`zip_subset_sorted_iff`).

One of the lists may come in chunks, each of which is paired with the next members of the other
set (`chunkPairs`).  The result is the pairing of the two lists exactly if each chunk is ordered
like its part of the other list and the parts are in increasing order
(`zip_subset_chunkPairs_iff`).
-/

namespace Pairing

open List

variable {α β : Type*} [LinearOrder α] [LinearOrder β]

/-- The members of a list in increasing order. -/
def sorted (l : List α) : List α := l.dedup.insertionSort (· ≤ ·)

variable {l : List α}

theorem mem_sorted {a : α} : a ∈ sorted l ↔ a ∈ l := by
  rw [sorted, mem_insertionSort, mem_dedup]

theorem sorted_perm (h : l.Nodup) : (sorted l).Perm l := by
  rw [sorted, h.dedup]
  exact perm_insertionSort _ l

theorem length_sorted (h : l.Nodup) : (sorted l).length = l.length :=
  (sorted_perm h).length_eq

theorem pairwise_sorted (l : List α) : (sorted l).Pairwise (· < ·) := by
  have hle : (sorted l).Pairwise (· ≤ ·) := pairwise_insertionSort _ _
  have hne : (sorted l).Pairwise (· ≠ ·) :=
    ((perm_insertionSort _ l.dedup).nodup_iff).mpr (nodup_dedup l)
  exact (hle.and hne).imp fun ⟨hle, hne⟩ => lt_of_le_of_ne hle hne

theorem nodup_sorted (l : List α) : (sorted l).Nodup :=
  (pairwise_sorted l).imp fun h => h.ne

/-- A list in increasing order is determined by its members. -/
theorem eq_of_perm_of_pairwise {l' : List α} (h : l.Perm l') (hl : l.Pairwise (· < ·))
    (hl' : l'.Pairwise (· < ·)) : l = l' :=
  h.eq_of_pairwise (fun _ _ _ _ hab hba => absurd hab hba.not_gt) hl hl'

/-- Both coordinates order two pairs alike. -/
def Agree (a b : α × β) : Prop := (a.1 < b.1 ↔ a.2 < b.2) ∧ (b.1 < a.1 ↔ b.2 < a.2)

instance (a b : α × β) : Decidable (Agree a b) := inferInstanceAs (Decidable (_ ∧ _))

variable {b : α × β}

theorem Agree.symm {a : α × β} (h : Agree a b) : Agree b a := ⟨h.2, h.1⟩

theorem agree_of_lt {a : α × β} (h : a.1 < b.1) (h' : a.2 < b.2) : Agree a b :=
  ⟨iff_of_true h h', iff_of_false h.not_gt h'.not_gt⟩

/-- Pairs of increasing lists are ordered by both coordinates. -/
theorem pairwise_zip_lt {l' : List β} (hl : l.Pairwise (· < ·)) (hl' : l'.Pairwise (· < ·)) :
    (l.zip l').Pairwise fun a b => a.1 < b.1 ∧ a.2 < b.2 := by
  induction l generalizing l' with
  | nil => exact List.Pairwise.nil
  | cons a l ih =>
    cases l' with
    | nil => exact List.Pairwise.nil
    | cons b l' =>
      rw [pairwise_cons] at hl hl'
      refine List.Pairwise.cons ?_ (ih hl.2 hl'.2)
      intro p hp
      have hm := of_mem_zip hp
      exact ⟨hl.1 p.1 hm.1, hl'.1 p.2 hm.2⟩

variable {s : List β}

/-- The pairs of two lists that are ordered alike, sorted, are the pairs of the sorted lists. -/
theorem perm_zip_of_agree {l' : List β} (hl : l.Nodup) (hs : s.Pairwise (· < ·))
    (hlen : l.length = l'.length) (hagree : (l.zip l').Pairwise Agree) (hp : l'.Perm s) :
    (l.zip l').Perm ((sorted l).zip s) := by
  let r : α × β → α × β → Prop := fun a b => a.1 ≤ b.1
  have hfst : (l.zip l').map Prod.fst = l := map_fst_zip hlen.le
  have hsnd : (l.zip l').map Prod.snd = l' := map_snd_zip hlen.ge
  have hq : ((l.zip l').insertionSort r).Perm (l.zip l') := perm_insertionSort r _
  -- no two pairs have the same first coordinate, so the sorted pairs increase in it
  have hne : ((l.zip l').insertionSort r).Pairwise fun a b => a.1 ≠ b.1 := by
    refine pairwise_map.mp (?_ : (((l.zip l').insertionSort r).map Prod.fst).Nodup)
    rw [(hq.map Prod.fst).nodup_iff, hfst]
    exact hl
  have hlt : ((l.zip l').insertionSort r).Pairwise fun a b => a.1 < b.1 :=
    ((pairwise_insertionSort r _).and hne).imp fun ⟨hle, hne⟩ => lt_of_le_of_ne hle hne
  have hboth : ((l.zip l').insertionSort r).Pairwise fun a b => a.2 < b.2 :=
    (hlt.and (hq.symm.pairwise hagree fun h => h.symm)).imp fun ⟨hlt, hagree⟩ => hagree.1.mp hlt
  have hlf : ((l.zip l').insertionSort r).map Prod.fst = sorted l := by
    refine eq_of_perm_of_pairwise ?_ (pairwise_map.mpr hlt) (pairwise_sorted l)
    refine (hq.map Prod.fst).trans ?_
    rw [hfst]
    exact (sorted_perm hl).symm
  have hr : ((l.zip l').insertionSort r).map Prod.snd = s := by
    refine eq_of_perm_of_pairwise ?_ (pairwise_map.mpr hboth) hs
    refine (hq.map Prod.snd).trans ?_
    rw [hsnd]
    exact hp
  rw [← hlf, ← hr, ← zip_of_prod rfl rfl]
  exact hq.symm

/-- Pairing by rank gives every pair of the two lists exactly if they are ordered alike. -/
theorem zip_subset_sorted_iff {l' : List β} (hl : l.Nodup) (hs : s.Pairwise (· < ·))
    (hlen : l.length = l'.length) (hlen' : l.length = s.length) :
    l.zip l' ⊆ (sorted l).zip s ↔ (l.zip l').Pairwise Agree ∧ l'.Perm s := by
  constructor
  · intro hsub
    have hnd : (l.zip l').Nodup := by
      refine List.Nodup.of_map Prod.fst ?_
      rw [map_fst_zip hlen.le]
      exact hl
    have hp : (l.zip l').Perm ((sorted l).zip s) := by
      refine (subperm_of_subset hnd hsub).perm_of_length_le ?_
      rw [length_zip, length_zip]
      omega
    constructor
    · refine hp.symm.pairwise ?_ fun h => h.symm
      exact (pairwise_zip_lt (pairwise_sorted l) hs).imp fun h => agree_of_lt h.1 h.2
    · have hsnd := hp.map Prod.snd
      rw [map_snd_zip hlen.ge, map_snd_zip] at hsnd
      · exact hsnd
      · rw [length_sorted hl]
        exact hlen'.ge
  · rintro ⟨hagree, hp⟩
    exact (perm_zip_of_agree hl hs hlen hagree hp).subset

/-! ## Chunks -/

/-- Pair the members of each chunk, in increasing order, with the next members of `s`. -/
def chunkPairs : List (List α) → List β → List (α × β)
  | [], _ => []
  | c :: cs, s => (sorted c).zip (s.take c.length) ++ chunkPairs cs (s.drop c.length)

/-- Each chunk is ordered like its part of `d`, and the parts are in increasing order. -/
def InOrder : List (List α) → List β → Prop
  | [], _ => True
  | c :: cs, d =>
    (c.zip (d.take c.length)).Pairwise Agree ∧
      (∀ x ∈ d.take c.length, ∀ y ∈ d.drop c.length, x < y) ∧ InOrder cs (d.drop c.length)

instance decidableInOrder : ∀ (cs : List (List α)) (d : List β), Decidable (InOrder cs d)
  | [], _ => isTrue trivial
  | c :: cs, d =>
    have := decidableInOrder cs (d.drop c.length)
    inferInstanceAs (Decidable (_ ∧ _ ∧ _))

variable {cs : List (List α)}

omit [LinearOrder β] in
theorem fst_mem_of_mem_chunkPairs {p : α × β} (h : p ∈ chunkPairs cs s) : p.1 ∈ cs.flatten := by
  induction cs generalizing s with
  | nil => cases h
  | cons c cs ih =>
    rw [flatten_cons, mem_append]
    rcases mem_append.mp h with h | h
    · exact Or.inl (mem_sorted.mp (of_mem_zip h).1)
    · exact Or.inr (ih h)

omit [LinearOrder β] in
/-- The second coordinates are the members of `s`, in order. -/
theorem map_snd_chunkPairs (hnd : ∀ c ∈ cs, c.Nodup) (hlen : cs.flatten.length = s.length) :
    (chunkPairs cs s).map Prod.snd = s := by
  induction cs generalizing s with
  | nil => exact (eq_nil_of_length_eq_zero hlen.symm).symm
  | cons c cs ih =>
    rw [forall_mem_cons] at hnd
    rw [flatten_cons, length_append] at hlen
    have hr : cs.flatten.length = (s.drop c.length).length := by
      rw [length_drop]
      omega
    have hh : ((sorted c).zip (s.take c.length)).map Prod.snd = s.take c.length := by
      refine map_snd_zip ?_
      rw [length_sorted hnd.1, length_take]
      exact Nat.min_le_left _ _
    rw [chunkPairs, map_append, hh, ih hnd.2 hr, take_append_drop]

variable {d : List β}

/-- A part of a list is a part of the sorted list exactly if it is below the rest. -/
theorem take_perm_take_iff (hs : s.Pairwise (· < ·)) (hp : d.Perm s) (n : Nat) :
    (d.take n).Perm (s.take n) ↔ ∀ x ∈ d.take n, ∀ y ∈ d.drop n, x < y := by
  have hd : d.Nodup := hp.nodup_iff.mpr (hs.imp fun h => h.ne)
  constructor
  · intro htk x hx y hy
    have hdrop := hp.drop htk
    rw [← take_append_drop n s, pairwise_append] at hs
    exact hs.2.2 x (htk.mem_iff.mp hx) y (hdrop.mem_iff.mp hy)
  · intro hlt
    have htk := sorted_perm (hd.sublist (take_sublist n d))
    have hdrop := sorted_perm (hd.sublist (drop_sublist n d))
    have heq : sorted (d.take n) ++ sorted (d.drop n) = s := by
      refine eq_of_perm_of_pairwise ?_ ?_ hs
      · refine (htk.append hdrop).trans ?_
        rw [take_append_drop]
        exact hp
      · rw [pairwise_append]
        exact ⟨pairwise_sorted _, pairwise_sorted _,
          fun x hx y hy => hlt x (mem_sorted.mp hx) y (mem_sorted.mp hy)⟩
    have hlen := htk.length_eq
    rw [length_take] at hlen
    have hr : (sorted (d.drop n)).take (n - (sorted (d.take n)).length) = [] := by
      rcases Nat.le_total n d.length with hle | hle
      · rw [hlen, Nat.min_eq_left hle, Nat.sub_self, take_zero]
      · rw [drop_of_length_le hle]
        simp [sorted]
    have hwhole : (sorted (d.take n)).take n = sorted (d.take n) :=
      take_of_length_le (by omega)
    rw [← heq, take_append, hr, append_nil, hwhole]
    exact htk.symm

/-- Pairing chunk by chunk gives every pair of the two lists exactly if they are in order. -/
theorem zip_subset_chunkPairs_iff (hcs : cs.flatten.Nodup) (hs : s.Pairwise (· < ·))
    (hperm : d.Perm s) (hlen : cs.flatten.length = d.length) :
    cs.flatten.zip d ⊆ chunkPairs cs s ↔ InOrder cs d := by
  induction cs generalizing d s with
  | nil => exact iff_of_true (nil_subset _) trivial
  | cons c cs ih =>
    rw [flatten_cons, length_append] at hlen
    rw [flatten_cons, nodup_append] at hcs
    obtain ⟨hc, hr, hd⟩ := hcs
    have hsd := hperm.length_eq
    have htk : c.length = (d.take c.length).length := by
      rw [length_take]
      omega
    have hzip : (c ++ cs.flatten).zip d =
        c.zip (d.take c.length) ++ cs.flatten.zip (d.drop c.length) := by
      nth_rewrite 1 [← take_append_drop c.length d]
      exact zip_append htk
    -- a pair can only come from its own chunk
    have hf : c.zip (d.take c.length) ⊆ chunkPairs (c :: cs) s ↔
        c.zip (d.take c.length) ⊆ (sorted c).zip (s.take c.length) := by
      refine ⟨fun h p hp => ?_, fun h p hp => mem_append_left _ (h hp)⟩
      refine (mem_append.mp (h hp)).resolve_right fun hlat => ?_
      exact hd _ (of_mem_zip hp).1 _ (fst_mem_of_mem_chunkPairs hlat) rfl
    have hlat : cs.flatten.zip (d.drop c.length) ⊆ chunkPairs (c :: cs) s ↔
        cs.flatten.zip (d.drop c.length) ⊆ chunkPairs cs (s.drop c.length) := by
      refine ⟨fun h p hp => ?_, fun h p hp => mem_append_right _ (h hp)⟩
      refine (mem_append.mp (h hp)).resolve_left fun hf => ?_
      exact hd _ (mem_sorted.mp (of_mem_zip hf).1) _ (of_mem_zip hp).1 rfl
    rw [flatten_cons, hzip, append_subset, hf, hlat,
      zip_subset_sorted_iff hc (hs.sublist (take_sublist _ _)) htk (by rw [length_take]; omega),
      take_perm_take_iff hs hperm, and_assoc]
    refine and_congr_right fun _ => and_congr_right fun hbelow => ?_
    have hdrop := hperm.drop ((take_perm_take_iff hs hperm c.length).mpr hbelow)
    refine ih hr (hs.sublist (drop_sublist _ _)) hdrop ?_
    rw [length_drop]
    omega

end Pairing
