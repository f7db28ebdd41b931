import Mathlib.Logic.Function.Basic
import PegaFlow.Lib.Run

/-!
# Claims

A claim gives a key a value.  It is refused if the key has another value already, and it is
accepted if the key has none or has that value.  A list of claims that are all accepted makes
the partial map whose graph is what was there before and the claims
(`exec_claim_eq_some`), so neither the order of the claims nor their repetition matters
(`exec_claim_congr`).
-/

namespace Claims

variable {κ ν : Type*} [DecidableEq κ] [DecidableEq ν]

/-- Enter a claim in a partial map. -/
def claim (m : κ → Option ν) (c : κ × ν) : Option (κ → Option ν) :=
  if ∀ v ∈ m c.1, v = c.2 then some (Function.update m c.1 (some c.2)) else none

variable {m m' : κ → Option ν} {c : κ × ν} {cs cs' : List (κ × ν)} {k : κ} {v : ν}

theorem claim_eq_some :
    claim m c = some m' ↔ (∀ v, m c.1 = some v → v = c.2) ∧ Function.update m c.1 (some c.2) = m' :=
  Run.guarded_eq_some

omit [DecidableEq ν] in
/-- A claim that does not conflict adds one pair to the graph. -/
theorem update_eq_some (h : ∀ v, m c.1 = some v → v = c.2) :
    Function.update m c.1 (some c.2) k = some v ↔ m k = some v ∨ (k, v) = c := by
  obtain ⟨k', v'⟩ := c
  by_cases hk : k = k'
  · subst hk
    rw [Function.update_self, Option.some.injEq, Prod.mk.injEq]
    constructor
    · rintro rfl
      exact Or.inr ⟨rfl, rfl⟩
    · rintro (hv | ⟨-, rfl⟩)
      · exact (h v hv).symm
      · rfl
  · rw [Function.update_of_ne hk, Prod.mk.injEq]
    simp only [hk, false_and, or_false]

theorem exec_claim_eq_some :
    Run.exec claim m cs = some m' ↔
      ∀ k v, m' k = some v ↔ m k = some v ∨ (k, v) ∈ cs := by
  induction cs generalizing m with
  | nil =>
    rw [Run.exec_nil, Option.some.injEq]
    constructor
    · rintro rfl
      simp
    · intro h
      funext k
      ext v
      simpa using (h k v).symm
  | cons c cs ih =>
    rw [Run.exec_cons_eq_some]
    constructor
    · rintro ⟨m₁, hclm, hr⟩ k v
      obtain ⟨hf, rfl⟩ := claim_eq_some.mp hclm
      rw [ih.mp hr k v, update_eq_some hf, List.mem_cons, or_assoc]
    · intro h
      -- The map at the end is a function, so what it has at the key is the claim.
      have hf : ∀ v, m c.1 = some v → v = c.2 := by
        intro v hv
        have ho := (h c.1 v).mpr (Or.inl hv)
        rw [(h c.1 c.2).mpr (Or.inr List.mem_cons_self)] at ho
        exact (Option.some.inj ho).symm
      refine ⟨_, claim_eq_some.mpr ⟨hf, rfl⟩, ih.mpr ?_⟩
      intro k v
      rw [h k v, update_eq_some hf, List.mem_cons, or_assoc]

/-- Only the set of the claims matters. -/
theorem exec_claim_congr (h : ∀ c, c ∈ cs ↔ c ∈ cs') :
    Run.exec claim m cs = some m' ↔ Run.exec claim m cs' = some m' := by
  simp only [exec_claim_eq_some, h]

end Claims
