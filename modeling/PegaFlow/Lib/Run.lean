import Mathlib.Data.List.Basic

/-!
# Runs of a partial step function

A component that takes step after step is a function
`step : σ → α → Option σ`: the state it is in, the event that happens, and the
state after it.  `none` says the event is not enabled in that state.  Every
interleaving of the parties of a system is one list of events, so a statement
over all lists of events is a statement over all interleavings.

`Run.exec` runs a list of events.  `Run.Meets` says that each event of a list
meets a condition in the state it is taken in.  The rules below turn a
statement about one step into one about a whole run.

* `exec_invariant`: what every step keeps holds at the end of every run.
* `exec_invariant_of_meets`: the same, for steps that meet a condition.
* `meets_of_invariant`: a condition on the steps of a run that gives a second
  condition wherever an invariant holds.
* `exec_iff_meets`: a statement that a step keeps exactly if it meets a
  condition.

Every state of a run is the last state of a shorter one, so a statement about
the last state of every run is a statement about every state of every run.
-/

namespace Run

variable {σ : Type*} {α : Type*}

/-- The state after a list of events, if all of them are enabled. -/
def exec (step : σ → α → Option σ) : σ → List α → Option σ
  | s, [] => some s
  | s, a :: as => (step s a).bind fun s' => exec step s' as

/-- Every event of the list meets `C` in the state it is taken in. -/
def Meets (step : σ → α → Option σ) (C : σ → α → Prop) : σ → List α → Prop
  | _, [] => True
  | s, a :: as => C s a ∧ ∀ s', step s a = some s' → Meets step C s' as

instance decidableMeets (step : σ → α → Option σ) (C : σ → α → Prop)
    [∀ s a, Decidable (C s a)] : ∀ s as, Decidable (Meets step C s as)
  | _, [] => isTrue trivial
  | s, a :: as =>
    match h : step s a with
    | none => decidable_of_iff (C s a) (by simp [Meets, h])
    | some s' =>
      have := decidableMeets step C s' as
      decidable_of_iff (C s a ∧ Meets step C s' as) (by simp [Meets, h])

variable {step : σ → α → Option σ} {s s' : σ} {a : α} {as bs : List α}
variable {C D : σ → α → Prop} {I : σ → Prop}

@[simp] theorem exec_nil : exec step s [] = some s := rfl

@[simp] theorem exec_cons :
    exec step s (a :: as) = (step s a).bind fun s' => exec step s' as := rfl

@[simp] theorem meets_nil : Meets step C s [] ↔ True := Iff.rfl

@[simp] theorem meets_cons :
    Meets step C s (a :: as) ↔ C s a ∧ ∀ s', step s a = some s' → Meets step C s' as :=
  Iff.rfl

/-- A guarded step is taken exactly when its guard holds. -/
theorem guarded_eq_some {p : Prop} [Decidable p] {t : σ} :
    (if p then some s else none) = some t ↔ p ∧ s = t := by
  rw [Option.ite_none_right_eq_some, Option.some.injEq]

/-- What the end of a run has, shown with the run at hand. -/
theorem exists_mem_of_eq {o : Option σ} {P : σ → Prop} (h : o = some s)
    (hP : o = some s → P s) : ∃ s ∈ o, P s :=
  ⟨s, h, hP h⟩

theorem exists_mem_imp {o : Option σ} {P Q : σ → Prop} (hQ : ∃ s ∈ o, Q s)
    (h : ∀ s ∈ o, Q s → P s) : ∃ s ∈ o, P s := by
  obtain ⟨s, hs, hq⟩ := hQ
  exact ⟨s, hs, h s hs hq⟩

theorem exec_cons_eq_some {t : σ} :
    exec step s (a :: as) = some t ↔
      ∃ s', step s a = some s' ∧ exec step s' as = some t := by
  rw [exec_cons, Option.bind_eq_some_iff]

theorem exec_append : exec step s (as ++ bs) = (exec step s as).bind fun s' => exec step s' bs := by
  induction as generalizing s with
  | nil => rfl
  | cons a as ih => simp only [List.cons_append, exec_cons, ih, Option.bind_assoc]

/-- A condition on the events alone. -/
theorem meets_of_forall {P : α → Prop} (h : ∀ a ∈ as, P a) : Meets step (fun _ a => P a) s as := by
  induction as generalizing s with
  | nil => trivial
  | cons a as ih =>
    rw [List.forall_mem_cons] at h
    exact ⟨h.1, fun _ _ => ih h.2⟩

/-- What every step that meets `C` keeps holds at the end of every run whose
steps all meet `C`. -/
theorem exec_invariant_of_meets (hst : ∀ s a s', I s → C s a → step s a = some s' → I s')
    (hinit : I s) (hmt : Meets step C s as) (hrun : exec step s as = some s') : I s' := by
  induction as generalizing s with
  | nil =>
    cases hrun
    exact hinit
  | cons a as ih =>
    obtain ⟨u, hu, hr⟩ := exec_cons_eq_some.mp hrun
    exact ih (hst s a u hinit hmt.1 hu) (hmt.2 u hu) hr

/-- What every step keeps holds at the end of every run. -/
theorem exec_invariant (hst : ∀ s a s', I s → step s a = some s' → I s')
    (hinit : I s) (hrun : exec step s as = some s') : I s' := by
  have hmt : Meets step (fun _ _ => True) s as := meets_of_forall fun _ _ => trivial
  exact exec_invariant_of_meets (fun s a s' h _ => hst s a s' h) hinit hmt hrun

/-- A run whose steps meet `C`, and so keep an invariant, meets whatever `C`
gives under the invariant. -/
theorem meets_of_invariant (hst : ∀ s a s', I s → C s a → step s a = some s' → I s')
    (hc : ∀ s a, I s → C s a → D s a)
    (hinit : I s) (hmt : Meets step C s as) : Meets step D s as := by
  induction as generalizing s with
  | nil => trivial
  | cons a as ih =>
    refine ⟨hc s a hinit hmt.1, ?_⟩
    intro u hu
    exact ih (hst s a u hinit hmt.1 hu) (hmt.2 u hu)

/-- When a step keeps a statement exactly if it meets `C`, a run does exactly if
all its steps meet `C`. -/
theorem exec_iff_meets (hst : ∀ s a s', step s a = some s' → (I s' ↔ I s ∧ C s a))
    (hrun : exec step s as = some s') : I s' ↔ I s ∧ Meets step C s as := by
  induction as generalizing s with
  | nil =>
    cases hrun
    exact (and_iff_left trivial).symm
  | cons a as ih =>
    obtain ⟨u, hu, hr⟩ := exec_cons_eq_some.mp hrun
    rw [ih hr, hst s a u hu, and_assoc]
    refine and_congr_right fun _ => and_congr_right fun _ => ?_
    constructor
    · intro h u' hu'
      cases hu.symm.trans hu'
      exact h
    · intro h
      exact h u hu

theorem Meets.of_append_left (h : Meets step C s (as ++ bs)) : Meets step C s as := by
  induction as generalizing s with
  | nil => trivial
  | cons a as ih => exact ⟨h.1, fun u hu => ih (h.2 u hu)⟩

/-- The rest of a run meets what the whole run meets. -/
theorem Meets.of_append (h : Meets step C s (as ++ bs)) (hrun : exec step s as = some s') :
    Meets step C s' bs := by
  induction as generalizing s with
  | nil =>
    cases hrun
    exact h
  | cons a as ih =>
    obtain ⟨u, hu, hr⟩ := exec_cons_eq_some.mp hrun
    exact ih (h.2 u hu) hr

theorem Meets.and (hC : Meets step C s as) (hD : Meets step D s as) :
    Meets step (fun s a => C s a ∧ D s a) s as := by
  induction as generalizing s with
  | nil => trivial
  | cons a as ih => exact ⟨⟨hC.1, hD.1⟩, fun u hu => ih (hC.2 u hu) (hD.2 u hu)⟩

/-! ## Queues and records, which grow at their end -/

variable {l : List α} {b : α} {P : α → Prop}

theorem forall_mem_concat : (∀ a ∈ l ++ [b], P a) ↔ (∀ a ∈ l, P a) ∧ P b := by
  rw [List.forall_mem_append, List.forall_mem_singleton]

end Run
