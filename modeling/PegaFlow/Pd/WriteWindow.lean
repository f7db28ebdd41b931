import PegaFlow.Lib.Run

/-!
# The write window

`wait_write_window` and `push_layer` of `python/src/pd_rdma.rs`: a call waits until fewer than 64
writes are submitted and not completed, counts its own write as submitted and hands it to the engine.
The counters are two atomics, read one after the other and incremented later, so several calls may
pass the check before the first of them counts its write.

A call is known by where it is: between the two reads (`loaded`), past the check (`passed`, both
with the count it read), or about to submit (`counting`).  A call that waits is before its next
reads, and one that times out never makes them.  The engine calls back once for each write that it
accepted; a write that it refuses is counted as completed at once.
-/

namespace PegaFlow.Pd

open List Run

/-- `PD_RDMA_WRITE_WINDOW`. -/
def writeWindow : Nat := 64

structure WriteWindow where
  submitted : Nat := 0
  completed : Nat := 0
  loaded : List Nat := []
  passed : List Nat := []
  counting : Nat := 0
  /-- The writes that the engine has accepted and not called back for. -/
  inFlight : Nat := 0

namespace WriteWindow

inductive Event where
  | loadSubmitted
  | loadCompleted (call : Nat)
  | countSubmitted (call : Nat)
  | submit
  | submitFails
  | callback

variable (s : WriteWindow)

def step : Event → Option WriteWindow
  | .loadSubmitted => some { s with loaded := s.loaded ++ [s.submitted] }
  | .loadCompleted call => s.loaded[call]?.map fun submitted =>
    { s with
      loaded := s.loaded.eraseIdx call
      passed := if writeWindow ≤ submitted - s.completed then s.passed else s.passed ++ [submitted] }
  | .countSubmitted call => s.passed[call]?.map fun _ =>
    { s with
      submitted := s.submitted + 1
      passed := s.passed.eraseIdx call
      counting := s.counting + 1 }
  | .submit =>
    if 0 < s.counting then
      some { s with counting := s.counting - 1, inFlight := s.inFlight + 1 }
    else none
  | .submitFails =>
    if 0 < s.counting then
      some { s with counting := s.counting - 1, completed := s.completed + 1 }
    else none
  | .callback =>
    if 0 < s.inFlight then
      some { s with inFlight := s.inFlight - 1, completed := s.completed + 1 }
    else none

/-- No other call has counted its write since the call read the count. -/
def Alone : Event → Prop
  | .countSubmitted call => ∀ submitted ∈ s.passed[call]?, submitted = s.submitted
  | _ => True

instance : ∀ ev, Decidable (s.Alone ev)
  | .countSubmitted _ => inferInstanceAs (Decidable (∀ _ ∈ _, _))
  | .loadSubmitted | .loadCompleted _ | .submit | .submitFails | .callback => isTrue trivial

structure Inv : Prop where
  balanced : s.submitted = s.completed + s.inFlight + s.counting
  passed : ∀ submitted ∈ s.passed, submitted < s.completed + writeWindow

variable {s} {s' : WriteWindow} {ev : Event} {events : List Event}

theorem Inv.step (hs : s.Inv) (h : s.step ev = some s') : s'.Inv := by
  obtain ⟨hbal, hpassed⟩ := hs
  have hlater : ∀ submitted ∈ s.passed, submitted < s.completed + 1 + writeWindow := by
    intro submitted hm
    have hlt := hpassed submitted hm
    omega
  cases ev with dsimp only [WriteWindow.step] at h
  | loadSubmitted =>
    cases h
    exact ⟨hbal, hpassed⟩
  | loadCompleted call =>
    obtain ⟨submitted, -, rfl⟩ := Option.map_eq_some_iff.mp h
    refine ⟨hbal, ?_⟩
    dsimp only
    split
    · exact hpassed
    · exact forall_mem_append.mpr ⟨hpassed, forall_mem_singleton.mpr (by omega)⟩
  | countSubmitted call =>
    obtain ⟨submitted, -, rfl⟩ := Option.map_eq_some_iff.mp h
    exact ⟨by dsimp only; omega, fun submitted hm => hpassed submitted (mem_of_mem_eraseIdx hm)⟩
  | submit =>
    obtain ⟨hpos, rfl⟩ := guarded_eq_some.mp h
    exact ⟨by dsimp only; omega, hpassed⟩
  | submitFails | callback =>
    obtain ⟨hpos, rfl⟩ := guarded_eq_some.mp h
    exact ⟨by dsimp only; omega, hlater⟩

/-- A call that is alone keeps to the window. -/
theorem Inv.window_step (hs : s.Inv) (hle : s.submitted ≤ s.completed + writeWindow)
    (ha : s.Alone ev) (h : s.step ev = some s') : s'.submitted ≤ s'.completed + writeWindow := by
  cases ev with dsimp only [WriteWindow.step] at h
  | loadSubmitted =>
    cases h
    exact hle
  | loadCompleted call =>
    obtain ⟨submitted, -, rfl⟩ := Option.map_eq_some_iff.mp h
    exact hle
  | countSubmitted call =>
    obtain ⟨submitted, hcall, rfl⟩ := Option.map_eq_some_iff.mp h
    have hlt := hs.passed submitted (mem_of_getElem? hcall)
    rw [ha submitted hcall] at hlt
    exact hlt
  | submit | submitFails | callback =>
    obtain ⟨-, rfl⟩ := guarded_eq_some.mp h
    dsimp only
    omega

/-- For any number of calls and every interleaving of their reads, counts and submissions with the
callbacks: no more writes are counted as completed than as submitted; and if no call counts its write
between another one's read of the count and its own count, the writes in flight are within the
window. -/
theorem writes_within_window (hrun : Run.exec step {} events = some s) :
    s.completed ≤ s.submitted ∧
      (Run.Meets step Alone {} events → s.inFlight ≤ writeWindow) := by
  have hinit : Inv {} := ⟨rfl, nofun⟩
  have hs : s.Inv := exec_invariant (fun s ev s' hs => hs.step) hinit hrun
  have hbal := hs.balanced
  refine ⟨by omega, fun halone => ?_⟩
  have hle : s.Inv ∧ s.submitted ≤ s.completed + writeWindow := by
    refine exec_invariant_of_meets (I := fun s => s.Inv ∧ s.submitted ≤ s.completed + writeWindow)
      ?_ ⟨hinit, Nat.zero_le _⟩ halone hrun
    exact fun s ev s' hs ha h => ⟨hs.1.step h, hs.1.window_step hs.2 ha h⟩
  omega

/-- Two calls one after another, the second one refused by the engine. -/
theorem writes_within_window_two_calls :
    ∃ s ∈ Run.exec step {} [.loadSubmitted, .loadCompleted 0, .countSubmitted 0, .submit,
        .loadSubmitted, .loadCompleted 0, .countSubmitted 0, .submitFails],
      s.submitted = 2 ∧ s.completed = 1 ∧ s.inFlight ≤ writeWindow := by
  refine exists_mem_of_eq rfl fun hrun => ?_
  exact ⟨rfl, rfl, (writes_within_window hrun).2 (by decide)⟩

/-- Calls that all check before the first one counts its write. -/
theorem calls_exceed_window :
    ∃ s ∈ Run.exec step {} (replicate 65 .loadSubmitted ++ replicate 65 (.loadCompleted 0) ++
        replicate 65 (.countSubmitted 0) ++ replicate 65 .submit),
      s.inFlight = 65 ∧ writeWindow < s.inFlight := by
  decide +kernel

end WriteWindow

end PegaFlow.Pd
