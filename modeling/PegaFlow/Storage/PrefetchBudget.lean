import Mathlib.Algebra.Order.BigOperators.Group.List
import Mathlib.Algebra.Order.Group.Nat
import PegaFlow.Storage.PrefetchShape

/-!
# The budget of SSD prefetches

`reserve_ssd_prefetch_slots` and `SsdPrefetchReservation` of
`pegaflow-core/src/storage/prefetch.rs`.  All tasks share one counter of reserved blocks.  A task
that finds blocks on the SSD adds to it what the limit leaves, holds that much while it reads, and
takes it off when it ends, however it ends.  The subtraction saturates at zero.

The counter is the sum over the tasks and not over the active entries: a task whose entry was
collected still holds what it reserved.
-/

namespace PegaFlow.Storage

open List Option Run

namespace PrefetchTask

variable {cfg : SchedulerConfig} {ssd : Finset BlockKey} {budget budget' : Nat}
variable {t : PrefetchTask} {ev : TaskEvent} {stage : TaskStage t.input}

/-- The reads that the task waits for, and the blocks it reserved for them. -/
def ReadsReserved {input : PrefetchTaskInput} : TaskStage input → Prop
  | .read reserved found => found ≤ reserved
  | _ => True

theorem readsReserved_afterRdma (deps : BackingStores) (input : PrefetchTaskInput) :
    ReadsReserved (afterRdma deps input) ∧ (afterRdma deps input).reserved = 0 := by
  unfold afterRdma
  split <;> exact ⟨trivial, rfl⟩

/-- What a step does to the counter. -/
structure Accounts (cfg : SchedulerConfig) (budget budget' held held' : Nat) : Prop where
  exact : budget' + held = budget + held'
  limit : budget ≤ cfg.maxPrefetchBlocks → budget' ≤ cfg.maxPrefetchBlocks

theorem Accounts.same {held : Nat} : Accounts cfg budget budget held held := ⟨rfl, id⟩

/-- A reservation is given back whole. -/
theorem Accounts.giveBack {held : Nat} (h : held ≤ budget) :
    Accounts cfg budget (budget - held) held 0 :=
  ⟨Nat.sub_add_cancel h, (Nat.sub_le _ _).trans⟩

theorem Accounts.reserve (found : Nat) :
    Accounts cfg budget (budget + min found (cfg.maxPrefetchBlocks - budget)) 0
      (min found (cfg.maxPrefetchBlocks - budget)) := by
  refine ⟨rfl, fun h => ?_⟩
  omega

theorem step_accounts (hh : t.stage.reserved ≤ budget)
    (h : t.step cfg ssd budget ev = some (stage, budget')) :
    Accounts cfg budget budget' t.stage.reserved stage.reserved ∧ ReadsReserved stage := by
  unfold step at h
  split at h
  next nodes hst =>
    rw [hst]
    split at h
    · cases h
      obtain ⟨hreads, hz⟩ := readsReserved_afterRdma t.deps t.input
      rw [hz]
      exact ⟨.same, hreads⟩
    · split at h <;> cases h <;> exact ⟨.same, trivial⟩
  next blocks found hst =>
    cases h
    rw [hst]
    exact ⟨.same, trivial⟩
  next hst =>
    rw [hst]
    split at h <;> cases h <;> exact ⟨.same, trivial⟩
  next found hst =>
    rw [hst]
    split at h
    · cases h
      exact ⟨.same, trivial⟩
    · cases h
      exact ⟨.reserve found, trivial⟩
  next reserved hst =>
    rw [hst] at hh ⊢
    dsimp only at h
    split at h
    · cases h
      exact ⟨.giveBack hh, trivial⟩
    · cases h
      exact ⟨.same, (ssdPrefixLen_le ..).trans (length_take_le _ _)⟩
  next blocks reserved found hst =>
    obtain ⟨-, h⟩ := guarded_eq_some.mp h
    cases h
    rw [hst] at hh ⊢
    exact ⟨.giveBack hh, trivial⟩
  next => cases h
  next =>
    cases h
    exact ⟨.giveBack hh, trivial⟩
  next => cases h

end PrefetchTask

namespace PrefetchSystem

variable {cfg : SchedulerConfig} {s s' : PrefetchSystem} {ev : PrefetchEvent}

/-- The sizes of the reservations that the tasks hold. -/
def reservations (s : PrefetchSystem) : List Nat := s.tasks.map fun t => t.stage.reserved

structure Budgeted (cfg : SchedulerConfig) (s : PrefetchSystem) : Prop where
  sum : s.budget = s.reservations.sum
  limit : s.budget ≤ cfg.maxPrefetchBlocks
  reads : ∀ t ∈ s.tasks, PrefetchTask.ReadsReserved t.stage

/-- What a task holds is part of the counter, so taking it off does not saturate. -/
theorem Budgeted.held_le (hs : s.Budgeted cfg) {t : PrefetchTask} (ht : t ∈ s.tasks) :
    t.stage.reserved ≤ s.budget := by
  rw [hs.sum]
  exact le_sum_of_mem (mem_map_of_mem ht)

theorem Budgeted.step_task {n : Nat} {t : PrefetchTask} {ev : TaskEvent}
    {stage : TaskStage t.input} {budget : Nat} {stored : List FoundBlock} (hs : s.Budgeted cfg)
    (ht : s.tasks[n]? = some t) (h : t.step cfg s.ssd s.budget ev = some (stage, budget)) :
    Budgeted cfg { s.setTask n { t with stage := stage } with
      budget := budget, stored := stored } := by
  have hm := mem_of_getElem? ht
  obtain ⟨haccounts, hreads⟩ := PrefetchTask.step_accounts (hs.held_le hm) h
  refine ⟨?_, haccounts.limit hs.limit, fun u hu => ?_⟩
  · obtain ⟨hn, rfl⟩ := List.getElem?_eq_some_iff.mp ht
    -- The other tasks ho what they held.
    have hbef : s.reservations.sum = s.tasks[n].stage.reserved +
        ((s.tasks.eraseIdx n).map fun u => u.stage.reserved).sum :=
      ((getElem_cons_eraseIdx_perm hn).map _).sum_eq.symm
    have haft : ((s.tasks.set n { s.tasks[n] with stage := stage }).map
          fun u => u.stage.reserved).sum =
        stage.reserved + ((s.tasks.eraseIdx n).map fun u => u.stage.reserved).sum :=
      ((set_perm_cons_eraseIdx hn _).map _).sum_eq
    have hexact := haccounts.exact
    rw [hs.sum] at hexact
    refine Eq.trans ?_ haft.symm
    change budget = _
    omega
  · rcases mem_or_eq_of_mem_set hu with hu | rfl
    · exact hs.reads u hu
    · exact hreads

theorem Budgeted.step (hs : s.Budgeted cfg) (h : s.step cfg ev = some s') : s'.Budgeted cfg := by
  cases step_cases h with
  | task =>
    obtain ⟨t, ht, h⟩ := bind_eq_some_iff.mp h
    obtain ⟨⟨stage, budget⟩, hst, heq⟩ := map_eq_some_iff.mp h
    rw [← heq]
    exact hs.step_task ht hst
  | start =>
    refine ⟨?_, hs.limit, fun t ht => ?_⟩
    · rw [reservations, map_append, sum_append]
      exact hs.sum
    · rcases mem_append.mp ht with ht | ht
      · exact hs.reads t ht
      · cases mem_singleton.mp ht
        trivial
  | _ => exact ⟨hs.sum, hs.limit, hs.reads⟩

theorem Budgeted.init : init.Budgeted cfg := ⟨rfl, Nat.zero_le _, nofun⟩

/-- In every state the counter is the sum of the live reservations and within the limit, no task
reads more than it reserved, and a step of a task changes the counter by exactly what it reserves
or gives back. -/
theorem budget_eq_live_reservations (cfg : SchedulerConfig) (events : List PrefetchEvent)
    (hrun : Run.exec (PrefetchSystem.step cfg) PrefetchSystem.init events = some s) :
    s.budget = s.reservations.sum ∧ s.budget ≤ cfg.maxPrefetchBlocks ∧
      (∀ t ∈ s.tasks, ∀ reserved found, t.stage = .read reserved found → found ≤ reserved) ∧
      ∀ (n : Nat) (t : PrefetchTask) (ev : TaskEvent) (stage : TaskStage t.input) (budget : Nat),
        s.tasks[n]? = some t → t.step cfg s.ssd s.budget ev = some (stage, budget) →
          budget + t.stage.reserved = s.budget + stage.reserved := by
  have hs : s.Budgeted cfg :=
    exec_invariant (I := Budgeted cfg) (fun _ _ _ hs h => hs.step h) .init hrun
  refine ⟨hs.sum, hs.limit, fun t ht reserved found hstage => ?_, ?_⟩
  · have hreads := hs.reads t ht
    rw [hstage] at hreads
    exact hreads
  · intro n t ev stage budget ht h
    exact (PrefetchTask.step_accounts (hs.held_le (mem_of_getElem? ht)) h).1.exact

/-- Two tasks share a budget of three blocks; the entry of the first is collected while it reads. -/
def collectReader : List PrefetchEvent :=
  [.ssd {⟨"x", [1]⟩, ⟨"x", [2]⟩}, .check 0 ⟨"r", "x", [[1], [2]]⟩, .advance 0, .advance 0,
    .check 1 ⟨"q", "x", [[2], [1]]⟩, .advance 1, .advance 1, .task 0 (.queryPrefix none),
    .task 0 .prefixLen, .task 0 .reserve, .task 0 .submitPrefix, .gc ["r"] [],
    .task 1 (.queryPrefix none), .task 1 .prefixLen, .task 1 .reserve]

theorem budget_eq_live_reservations_collectReader :
    ∃ s ∈ Run.exec (PrefetchSystem.step ⟨⟨false, true⟩, "a", 3⟩) PrefetchSystem.init collectReader,
      s.reservations = [2, 1] ∧ s.server.active.keys = ["q"] ∧ s.budget = s.reservations.sum := by
  refine ⟨_, rfl, by decide, by decide, ?_⟩
  exact (budget_eq_live_reservations ⟨⟨false, true⟩, "a", 3⟩ collectReader rfl).1

end PrefetchSystem

end PegaFlow.Storage
