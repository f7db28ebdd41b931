import PegaFlow.Pd.DecodeWaiter

/-!
# How a wait comes to an end

A wait of the decode worker ends in one of three ways: `wait_done` returns for it, `wait_done` raises
for it, or its prefill request fails.  Whatever is known of its registration at that point (`P` below)
is known from when the request is in one of the sets of `get_finished` to when it is reported.

The callbacks name no registration, so this needs that a request id comes again only when nothing is
left of its last wait (`NothingLeft`).
-/

namespace PegaFlow.Pd

open AList Table

/-- The execution is past `wait_done`, and has an outcome. -/
def WaitStage.ended : WaitStage → Bool
  | .returned | .checked | .raised => true
  | _ => false

namespace DecodeWaiter

variable {s s' : DecodeWaiter} {ev : WaiterEvent} {P Q : Nat → Prop}

/-- No execution of the request id and no outcome for `get_finished` is left. -/
structure NothingLeft (s : DecodeWaiter) (reqId : ReqId) : Prop where
  tasks : ∀ e ∈ s.tasks.entries, e.1.1 ≠ reqId
  finished : s.finishedRecving.lookup reqId = none
  reportable : ¬ s.waits.Reportable reqId

instance (reqId : ReqId) : Decidable (s.NothingLeft reqId) :=
  decidable_of_iff
    ((∀ e ∈ s.tasks.entries, e.1.1 ≠ reqId) ∧ s.finishedRecving.lookup reqId = none ∧
      ¬ s.waits.Reportable reqId)
    ⟨fun h => ⟨h.1, h.2.1, h.2.2⟩, fun h => ⟨h.tasks, h.finished, h.reportable⟩⟩

/-- The step ends waits only of registrations with `P`. -/
def EndsWith (P : Nat → Prop) (s : DecodeWaiter) : WaiterEvent → Prop
  | .returns id => ∀ task ∈ s.tasks.lookup id, task.stage = .waiting → P task.registration
  | .raises id => ∀ task ∈ s.tasks.lookup id, P task.registration
  | .prefillFails remoteRequestId =>
    ∀ wait ∈ s.waits.waitOfRemote remoteRequestId, ∀ n ∈ s.registered.lookup wait.1, P n
  | _ => True

/-- The waits that are over are those of registrations with `P`. -/
structure Settled (P : Nat → Prop) (s : DecodeWaiter) : Prop where
  submitting : ∀ reqId n, s.submitting = some (reqId, n) → s.registered.lookup reqId = some n
  tasks : ∀ id task, s.tasks.lookup id = some task →
    s.registered.lookup id.1 = some task.registration
  ended : ∀ id task, s.tasks.lookup id = some task → task.stage.ended → P task.registration
  waits : ∀ reqId n, s.registered.lookup reqId = some n → s.waits.hasWait reqId ∨ P n
  finishing : ∀ reqId, s.Finishing reqId → ∀ n, s.registered.lookup reqId = some n → P n

theorem Settled.mono (hs : s.Settled P) (h : ∀ n, P n → Q n) : s.Settled Q where
  submitting := hs.submitting
  tasks := hs.tasks
  ended := fun id task ht hst => h _ (hs.ended id task ht hst)
  waits := fun reqId n hn => (hs.waits reqId n hn).imp_right (h n)
  finishing := fun reqId hreq n hn => h n (hs.finishing reqId hreq n hn)

theorem new_settled : new.Settled P where
  submitting := nofun
  tasks := nofun
  ended := nofun
  waits := nofun
  finishing := nofun

/-! ## What a step settles -/

variable {id : TaskId} {task : WaitTask} {reqId : ReqId}

section

variable (hs : s.Settled P)
include hs

theorem Settled.setStage {stage : WaitStage} (ht : s.tasks.lookup id = some task)
    (hst : stage.ended → P task.registration) : (s.setStage id task stage).Settled P where
  submitting := hs.submitting
  tasks := by
    intro k task' h
    rcases lookup_of_insert h with ⟨rfl, rfl⟩ | ⟨-, h⟩
    · exact hs.tasks k task ht
    · exact hs.tasks k task' h
  ended := by
    exact forall_lookup_insert hst hs.ended
  waits := hs.waits
  finishing := hs.finishing

/-- The waits change under the lock of `_DecodeWaitState`. -/
theorem Settled.setWaits {waits : DecodeWaitState}
    (hws : ∀ k n, s.registered.lookup k = some n → s.waits.hasWait k → waits.hasWait k ∨ P n)
    (hrpt : ∀ k n, s.registered.lookup k = some n → waits.Reportable k → P n ∨ s.waits.Reportable k) :
    (s.setWaits waits).Settled P where
  submitting := hs.submitting
  tasks := hs.tasks
  ended := hs.ended
  waits := fun k n hn => (hs.waits k n hn).elim (hws k n hn) Or.inr
  finishing := by
    rintro k (h | h | h) n hn
    · exact hs.finishing k (Or.inl h) n hn
    · refine (hrpt k n hn h).elim (fun h => h) fun ho => ?_
      exact hs.finishing k (Or.inr (Or.inl ho)) n hn
    · exact hs.finishing k (Or.inr (Or.inr h)) n hn

theorem Settled.registerWait {req : WaitReqMeta} (hid : s.Idle) (hl : s.NothingLeft reqId) :
    Settled P
      { s with
        waits := s.waits.registerWait reqId req
        submitting := some (reqId, s.registrations)
        registrations := s.registrations + 1
        registered := s.registered.insert reqId s.registrations } where
  submitting := by
    intro k n h
    cases h
    exact lookup_insert ..
  tasks := by
    intro k task ht
    have hne : k.1 ≠ reqId := hl.tasks ⟨k, task⟩ (mem_lookup_iff.mp ht)
    exact (lookup_insert_ne hne).trans (hs.tasks k task ht)
  ended := hs.ended
  waits := by
    intro k n h
    rcases lookup_of_insert h with ⟨rfl, -⟩ | ⟨hne, h⟩
    · exact Or.inl (DecodeWaitState.hasWait_iff.mpr ⟨req, lookup_insert ..⟩)
    refine (hs.waits k n h).imp_left fun hw => ?_
    obtain ⟨req', hreq'⟩ := DecodeWaitState.hasWait_iff.mp hw
    exact DecodeWaitState.hasWait_iff.mpr ⟨req', (lookup_insert_ne hne).trans hreq'⟩
  finishing := by
    intro k hk n h
    rcases lookup_of_insert h with ⟨rfl, -⟩ | ⟨-, h⟩
    · rcases hk with ⟨m, hm⟩ | hrpt | ⟨e, he, -⟩
      · cases hl.finished.symm.trans hm
      · exact absurd hrpt hl.reportable
      · cases hid.2.symm.trans he
    · exact hs.finishing k hk n h

theorem Settled.step (hl : ∀ reqId req, ev = .registerWait reqId req → s.NothingLeft reqId)
    (hes : s.EndsWith P ev) (h : s.Step ev s') : s'.Settled P := by
  have hown : ∀ {id task n}, s.tasks.lookup id = some task → s.registered.lookup id.1 = some n →
      task.registration = n := by
    intro id task n ht hn
    exact Option.some.inj ((hs.tasks id task ht).symm.trans hn)
  cases h with
  | registerWait hid => exact hs.registerWait hid (hl _ _ rfl)
  | dropped => exact ⟨nofun, hs.tasks, hs.ended, hs.waits, hs.finishing⟩
  | submitted hsubg =>
    refine ⟨nofun, fun k task h => ?_, fun k task h hend => ?_, hs.waits, hs.finishing⟩
    · rcases lookup_of_insert h with ⟨rfl, rfl⟩ | ⟨-, h⟩
      · exact hs.submitting _ _ hsubg
      · exact hs.tasks k task h
    · rcases lookup_of_insert h with ⟨rfl, rfl⟩ | ⟨-, h⟩
      · cases hend
      · exact hs.ended k task h hend
  | started ht | gaveUp _ ht => exact hs.setStage ht nofun
  | @returned id task ht hwaiting =>
    have hP := hes _ ht hwaiting
    have hst : (s.setStage id task .returned).Settled P := hs.setStage ht fun _ => hP
    refine ⟨hs.submitting, hst.tasks, hst.ended, hs.waits, ?_⟩
    rintro k (⟨m, hm⟩ | h) n hn
    · dsimp only [markReturned] at hm
      split at hm
      · exact hs.finishing k (Or.inl ⟨m, hm⟩) n hn
      rcases lookup_of_insert hm with ⟨rfl, -⟩ | ⟨-, hm⟩
      · exact hown ht hn ▸ hP
      · exact hs.finishing k (Or.inl ⟨m, hm⟩) n hn
    · exact hs.finishing k (Or.inr h) n hn
  | checked ht hst =>
    exact hs.setStage ht fun _ => hs.ended _ _ ht (hst ▸ rfl)
  | @succeeded id task ht hst =>
    have hP : P task.registration := hs.ended _ _ ht (hst ▸ rfl)
    refine Settled.setStage (hs.setWaits (fun k n _ hw => ?_) fun k n hn hrpt => ?_) ht nofun
    · exact Or.inl (DecodeWaitState.hasWait_of_recordRdmaDone hw)
    · refine (DecodeWaitState.reportable_recordRdmaDone hrpt).imp_left ?_
      rintro rfl
      exact hown ht hn ▸ hP
  | raised ht => exact hs.setStage ht fun _ => hes _ ht
  | @failed id task stage ht hrsd hst =>
    have hP : P task.registration := hs.ended _ _ ht (hrsd ▸ rfl)
    have hcs : ∀ k n, s.registered.lookup k = some n → k = id.1 → P n := by
      rintro k n hn rfl
      exact hown ht hn ▸ hP
    refine Settled.setStage (hs.setWaits (fun k n hn hw => ?_) fun k n hn hrpt => ?_) ht ?_
    · exact (DecodeWaitState.hasWait_of_markWaitFailed hw).symm.imp_right (hcs k n hn)
    · exact (DecodeWaitState.reportable_markWaitFailed hrpt).imp_left (hcs k n hn)
    · rcases hst with rfl | rfl
      · exact nofun
      · exact nofun
  | @cancelledOwn id task ht =>
    obtain ⟨_, _, heq⟩ := s.cancelReq_eq id.1
    rw [heq]
    have hset : (s.setStage id task .finishing).Settled P := hs.setStage ht nofun
    exact ⟨hset.submitting, hset.tasks, hset.ended, hset.waits, hset.finishing⟩
  | finished =>
    refine ⟨hs.submitting, fun k task h => ?_, fun k task h => ?_, hs.waits, hs.finishing⟩
    · exact hs.tasks k task (lookup_of_erase h).2
    · exact hs.ended k task (lookup_of_erase h).2
  | @prefillFails remoteRequestId cancels =>
    have hcs : ∀ k n, s.registered.lookup k = some n →
        (∃ req, s.waits.waitOfRemote remoteRequestId = some (k, req)) → P n := by
      rintro k n hn ⟨req, hw⟩
      exact hes _ hw n hn
    have hws : (s.setWaits (s.waits.markPrefillFailed remoteRequestId).1).Settled P := by
      refine hs.setWaits (fun k n hn hw => ?_) fun k n hn hrpt => ?_
      · exact (DecodeWaitState.hasWait_of_markPrefillFailed hw).symm.imp_right (hcs k n hn)
      · exact (DecodeWaitState.reportable_markPrefillFailed hrpt).imp_left (hcs k n hn)
    exact ⟨hs.submitting, hs.tasks, hs.ended, hws.waits, hws.finishing⟩
  | @cancelled i reqId cancels =>
    obtain ⟨_, _, heq⟩ := s.cancelReq_eq reqId
    rw [heq]
    exact ⟨hs.submitting, hs.tasks, hs.ended, hs.waits, hs.finishing⟩
  | other _ _ hgath =>
    refine ⟨hs.submitting, hs.tasks, hs.ended, fun k n hn => ?_, fun k hk => ?_⟩
    · refine (hs.waits k n hn).elim (fun hw => ?_) Or.inr
      exact (hgath.kept k hw).imp_right fun hk => hs.finishing k hk n hn
    · exact hs.finishing k (hgath.finishing k hk)

end

/-- An execution comes to `wait_done` by its own start. -/
theorem waiting_of_step (h : s.Step ev s') (ht : s'.tasks.lookup id = some task)
    (hst : task.stage = .waiting) : s.tasks.lookup id = some task ∨ ev = .start id := by
  have hset : ∀ {tasks : Table TaskId WaitTask} {k : TaskId} {n : Nat} {stage : WaitStage},
      (tasks.insert k ⟨stage, n⟩).lookup id = some task → stage ≠ .waiting →
      tasks.lookup id = some task := by
    intro tasks k n stage h hne
    rcases lookup_of_insert h with ⟨-, rfl⟩ | ⟨-, h⟩
    · exact absurd hst hne
    · exact h
  cases h with
  | registerWait | dropped | prefillFails | other => exact Or.inl ht
  | started =>
    rcases lookup_of_insert ht with ⟨rfl, -⟩ | ⟨-, h⟩
    · exact Or.inr rfl
    · exact Or.inl h
  | submitted | gaveUp | returned | checked | succeeded | raised => exact Or.inl (hset ht nofun)
  | failed _ _ hf =>
    refine Or.inl (hset ht ?_)
    rcases hf with rfl | rfl
    · exact nofun
    · exact nofun
  | @cancelledOwn id' =>
    obtain ⟨_, _, heq⟩ := s.cancelReq_eq id'.1
    rw [heq] at ht
    exact Or.inl (hset ht nofun)
  | finished => exact Or.inl (lookup_of_erase ht).2
  | @cancelled i reqId =>
    obtain ⟨_, _, heq⟩ := s.cancelReq_eq reqId
    rw [heq] at ht
    exact Or.inl ht

theorem registered_of_step (h : s.Step ev s') (hev : ∀ reqId req, ev ≠ .registerWait reqId req) :
    s'.registered = s.registered ∧ s'.registrations = s.registrations := by
  cases h with
  | registerWait => exact absurd rfl (hev _ _)
  | @cancelledOwn id =>
    obtain ⟨_, _, heq⟩ := s.cancelReq_eq id.1
    rw [heq]
    exact ⟨rfl, rfl⟩
  | @cancelled i reqId =>
    obtain ⟨_, _, heq⟩ := s.cancelReq_eq reqId
    rw [heq]
    exact ⟨rfl, rfl⟩
  | dropped | submitted | started | gaveUp | returned | checked | succeeded | raised | failed | finished
  | prefillFails | other => exact ⟨rfl, rfl⟩

end DecodeWaiter

end PegaFlow.Pd
