import PegaFlow.Pd.SingleSignal

/-!
# What a signal promises

Whichever of the three signals is sent for a physical request, its pushes are over: no push task of it
is left and none of its writes is outstanding (`Quiet`).  The finalize task promises it with done by
`PushDone`; a release promises it with an abort or a failure, as it has waited for the push tasks and
the writes before.  From then on the request gets no push tasks until it is closed, so the promise is
kept for good.

The conditions are those of `PushDone` and `SingleSignal`, for every step of the handler (`Careful`).
-/

namespace PegaFlow.Pd

open PushSystem

namespace PrefillHandler

variable {push push' : PushSystem} {key : RequestLife} {r : PhysicalReqId}

variable (s : PrefillHandler)

/-- The step of the forward thread is orderly for the push threads. -/
def OrderlyForward : ForwardStage → Prop
  | .draining _ _ (r :: _) .waitTasks => s.push.Orderly (.drain r)
  | .closing (r :: _) => s.push.Orderly (.closeRequest r)
  | _ => True

instance : ∀ stage, Decidable (s.OrderlyForward stage)
  | .draining _ _ (r :: _) .waitTasks => inferInstanceAs (Decidable (s.push.Orderly (.drain r)))
  | .closing (r :: _) => inferInstanceAs (Decidable (s.push.Orderly (.closeRequest r)))
  | .draining _ _ (_ :: _) .tasksOver | .draining _ _ (_ :: _) (.waitWrites _)
  | .draining _ _ (_ :: _) .signal | .draining _ _ [] _ | .closing [] | .idle | .opening _
  | .cancelFinalizers _ _ => isTrue trivial

/-- The step is orderly for the push threads. -/
def OrderlyPush : PrefillEvent → Prop
  | .thread ev => s.push.Orderly ev
  | .forward => s.OrderlyForward s.forward
  | _ => True

instance : ∀ ev, Decidable (s.OrderlyPush ev)
  | .thread ev => inferInstanceAs (Decidable (s.push.Orderly ev))
  | .forward => inferInstanceAs (Decidable (OrderlyForward _ _))
  | .push _ _ | .submit _ _ | .finalize _ | .preempt _ | .release _ _ | .getFinishedSending _
  | .forwardRaises => isTrue trivial

def Careful (ev : PrefillEvent) : Prop := s.Exclusive ev ∧ s.OrderlyPush ev

instance (ev : PrefillEvent) : Decidable (s.Careful ev) :=
  inferInstanceAs (Decidable (_ ∧ _))

/-- The pushes of the request are over. -/
structure Quiet (push : PushSystem) (key : RequestLife) : Prop where
  writes : key ∉ push.writes
  tasks : key.2 = push.life key.1 → push.tasksOf key.1 = 0

/-! ## What the threads leave alone -/

/-- A step that gives a request neither push tasks, nor writes unless it has push tasks. -/
structure Calm (push push' : PushSystem) : Prop where
  life : push'.life = push.life
  tasks : ∀ r, push'.tasksOf r ≤ push.tasksOf r
  writes : ∀ key ∈ push'.writes,
    key ∈ push.writes ∨ key.2 = push.life key.1 ∧ 0 < push.tasksOf key.1
  target : ∀ r, push.tasksOf r = 0 → push'.writeTarget r = push.writeTarget r

theorem Calm.of_eq (hl : push'.life = push.life) (htks : push'.tasks = push.tasks)
    (hwrites : push'.writes = push.writes) (hcts : push'.writeCounts = push.writeCounts) :
    Calm push push' where
  life := hl
  tasks := by
    intro r
    rw [tasksOf, htks]
    exact le_rfl
  writes := by
    intro key hk
    exact Or.inl (hwrites ▸ hk)
  target := by
    intro r _
    refine writeTarget_of_submitted_eq (congrFun hl r) ?_
    rw [countsOf, hcts, countsOf]

theorem Calm.of_step {ev : PushEvent} (hev : ev.ofThreads) (h : push.step ev = some push') :
    Calm push push' := by
  cases PushSystem.step_cases h with
  | idle | moved | tookError | ended => exact .of_eq rfl rfl rfl rfl
  | started ht | skipped ht | pushed ht | raised ht =>
    refine ⟨rfl, fun q => (tasksOf_setStage ht q).le, fun _ => Or.inl, fun _ _ => ?_⟩
    exact writeTarget_of_submitted_eq rfl rfl
  | @wrote i r ht =>
    refine ⟨rfl, fun q => (tasksOf_setStage ht q).le, fun key hk => ?_, fun q hq => ?_⟩
    · refine (List.mem_append.mp hk).imp_right fun hnew => ?_
      cases List.mem_singleton.mp hnew
      exact ⟨rfl, tasksOf_pos_of_getElem? ht⟩
    · have hne : q ≠ r := by
        rintro rfl
        exact (tasksOf_pos_of_getElem? ht).ne' hq
      refine writeTarget_of_submitted_eq rfl ?_
      exact congrArg WriteCounts.submitted (countsOf_insert_of_ne rfl hne _)
  | @failedWrite i r ht =>
    refine ⟨rfl, fun q => (tasksOf_setStage ht q).le, fun _ => Or.inl, fun q hq => ?_⟩
    have hne : q ≠ r := by
      rintro rfl
      exact (tasksOf_pos_of_getElem? ht).ne' hq
    refine writeTarget_of_submitted_eq rfl ?_
    exact congrArg WriteCounts.submitted (countsOf_insert_of_ne rfl hne _)
  | finished ht =>
    refine ⟨rfl, fun q => ?_, fun _ => Or.inl, fun _ _ =>
      writeTarget_of_submitted_eq rfl rfl⟩
    rw [tasksOf_eq_eraseIdx ht]
    exact Nat.le_add_right ..
  | completed =>
    refine ⟨rfl, fun _ => le_rfl, fun _ hk => Or.inl (List.mem_of_mem_eraseIdx hk), fun q _ => ?_⟩
    exact writeTarget_of_submitted_eq rfl (submitted_insert rfl _)
  | opened | submitted | marked | finalized | cancelledPushes | cancelledFinalizers | drained
  | closed => cases hev

theorem Quiet.calm (hqt : Quiet push key) (h : Calm push push') : Quiet push' key where
  writes := by
    intro hk
    rcases h.writes key hk with ho | ⟨hl, htks⟩
    · exact hqt.writes ho
    · exact htks.ne' (hqt.tasks hl)
  tasks := by
    rw [h.life]
    intro hl
    exact Nat.eq_zero_of_le_zero (hqt.tasks hl ▸ h.tasks key.1)

/-! ## The signal of a release -/

/-- What a release knows of the request that it drains. -/
def DrainSound (push : PushSystem) : ForwardStage → Prop
  | .draining _ _ (r :: _) .tasksOver => push.tasksOf r = 0
  | .draining _ _ (r :: _) (.waitWrites target) =>
    push.tasksOf r = 0 ∧ target = push.writeTarget r
  | .draining _ _ (r :: _) .signal => Quiet push (r, push.life r)
  | _ => True

variable {rest : List PhysicalReqId}

theorem drainSound_waitTasks {signal : Signal} {ids : List PhysicalReqId} :
    DrainSound push (.draining signal ids rest .waitTasks) := by
  cases rest <;> trivial

variable {stage : ForwardStage}

theorem DrainSound.calm (hsd : DrainSound push stage) (h : Calm push push') :
    DrainSound push' stage := by
  unfold DrainSound at hsd ⊢
  split
  next signal ids r rest => exact Nat.eq_zero_of_le_zero (hsd ▸ h.tasks r)
  next signal ids r rest target =>
    obtain ⟨htks, htgt⟩ := hsd
    exact ⟨Nat.eq_zero_of_le_zero (htks ▸ h.tasks r), htgt.trans (h.target r htks).symm⟩
  · rw [h.life]
    exact Quiet.calm hsd h
  · trivial

/-- The signals that were sent are kept, and so will the next one be. -/
structure Quieted (s : PrefillHandler) : Prop where
  signalled : ∀ key, Signalled s.signals key → Quiet s.push key
  forward : DrainSound s.push s.forward

variable {s : PrefillHandler}

section

variable (hs : s.Quieted)
include hs

/-- The forward thread goes on and the push threads do not. -/
theorem Quieted.setForward (h : DrainSound s.push stage) : Quieted { s with forward := stage } :=
  ⟨hs.signalled, h⟩

variable {s' : PrefillHandler}

theorem Quieted.calm (hsg : s'.signals = s.signals) (h : Calm s.push s'.push)
    (hfwd : DrainSound s'.push s'.forward) : s'.Quieted := by
  refine ⟨fun key hk => ?_, hfwd⟩
  rw [hsg] at hk
  exact (hs.signalled key hk).calm h

/-- A signal is sent for a request whose pushes are over. -/
theorem Quieted.append (signal : Signal) (hsg : s'.signals = s.signals ++ [(key, signal)])
    (h : Calm s.push s'.push) (hqt : Quiet s.push key) (hfwd : DrainSound s'.push s'.forward) :
    s'.Quieted := by
  refine ⟨fun key' hk' => ?_, hfwd⟩
  rw [hsg] at hk'
  rcases signalled_append.mp hk' with ho | rfl
  · exact (hs.signalled key' ho).calm h
  · exact hqt.calm h

theorem Quieted.thread {ev : PushEvent} (hi : s.push.Inv) (hev : ev.ofThreads)
    (h : s.push.step ev = some push') : Quieted { s.note ev with push := push' } := by
  have hcalm := Calm.of_step hev h
  cases hsn : s.push.sends ev with
  | none =>
    refine hs.calm ?_ hcalm (hs.forward.calm hcalm)
    simp only [note, hsn]
  | some r =>
    have hpushed := hi.pushed hsn
    refine hs.append .done ?_ hcalm ⟨hpushed.writes, fun _ => hpushed.tasks⟩ (hs.forward.calm hcalm)
    simp only [note, hsn]

/-- A request gets a push task only before it is signalled. -/
theorem Quieted.submitted (hsd : s.Sound) (hid : s.forward = .idle)
    (h : s.push.step (.submit r) = some push') : Quieted { s with push := push' } := by
  have hfwd : DrainSound push' s.forward := by
    rw [hid]
    trivial
  cases PushSystem.step_cases h with
  | idle => exact ⟨hs.signalled, hfwd⟩
  | submitted hd hrel =>
    refine ⟨fun key hk => ⟨(hs.signalled key hk).writes, fun hl => ?_⟩, hfwd⟩
    have hne : r ≠ key.1 := by
      rintro rfl
      exact ((hsd.signals key hk).2 hl).elim hd hrel
    have htks := (hs.signalled key hk).tasks hl
    simpa [tasksOf, hne] using htks
  | ended hev => rcases hev with hev | hev <;> cases hev

/-- What is signalled of a life that is over stays so in the next one. -/
theorem Quieted.closed {finishedSending : Finset PhysicalReqId} (hsd : s.Sound)
    (h : s.push.step (.closeRequest r) = some push') :
    Quieted { s with push := push', finishedSending, forward := .closing rest } := by
  cases h
  refine ⟨fun key hk => ⟨(hs.signalled key hk).writes, fun hl => ?_⟩, trivial⟩
  dsimp only at hl
  have hle := (hsd.signals key hk).1
  have hne : key.1 ≠ r := by
    rintro rfl
    rw [Function.update_self] at hl
    omega
  rw [Function.update_of_ne hne] at hl
  exact (hs.signalled key hk).tasks hl

variable {ev : PrefillEvent}

theorem Quieted.step (hsd : s.Sound) (hi : s.push.Inv) (h : s.Step ev s') : s'.Quieted := by
  have hsm : Calm s.push s.push := .of_eq rfl rfl rfl rfl
  cases h with
  | idle => exact hs
  | thread hev h => exact hs.thread hi hev h
  | skipped => exact ⟨hs.signalled, hs.forward⟩
  | planned | closesUnknown | reported | returned | releaseReturned =>
    exact hs.calm rfl hsm trivial
  | gaveUp => exact hs.calm rfl hsm drainSound_waitTasks
  | submitted hid h => exact hs.submitted hsd hid h
  | finalized hid _ h =>
    have hfwd : ∀ push', DrainSound push' s.forward := by
      intro push'
      rw [hid]
      trivial
    cases PushSystem.step_cases h with
    | idle => exact hs
    | marked | finalized => exact hs.calm rfl (.of_eq rfl rfl rfl rfl) (hfwd _)
    | ended hev => rcases hev with hev | hev <;> cases hev
  | releases _ _ _ h | opened _ h =>
    cases h
    exact hs.calm rfl (.of_eq rfl rfl rfl rfl) trivial
  | cancelled _ _ h | drainFailed _ h =>
    obtain ⟨-, rfl⟩ := Run.guarded_eq_some.mp h
    exact hs.calm rfl (.of_eq rfl rfl rfl rfl) drainSound_waitTasks
  | cancelledFinished _ h =>
    obtain ⟨-, rfl⟩ := Run.guarded_eq_some.mp h
    exact hs.calm rfl (.of_eq rfl rfl rfl rfl) trivial
  | @drained _ _ _ r _ _ herr h =>
    obtain ⟨⟨-, hw⟩, rfl⟩ := Run.guarded_eq_some.mp h
    refine hs.calm rfl (.of_eq rfl rfl rfl rfl) ?_
    have hinf : s.push.inflight r = 0 := by
      refine hw.resolve_right ?_
      rw [herr]
      exact Bool.false_ne_true
    exact (hi.books.inflight r).symm.trans hinf
  | waits hfwd =>
    have htks := hs.forward
    rw [hfwd] at htks
    exact hs.setForward ⟨htks, rfl⟩
  | @writesOver _ _ _ r target hfwd ho =>
    have hw := hs.forward
    rw [hfwd] at hw
    obtain ⟨htks, rfl⟩ := hw
    exact hs.setForward ⟨(hi.counted.of_writesOver ho).2.2, fun _ => htks⟩
  | @signalled signal _ _ _ hfwd =>
    have hqt := hs.forward
    rw [hfwd] at hqt
    exact hs.append signal rfl hsm hqt drainSound_waitTasks
  | closed _ h => exact hs.closed hsd h

end

/-! ## A rank -/

theorem inv_step (hi : s.push.Inv) (hc : s.OrderlyPush ev) (h : s.Step ev s') :
    s'.push.Inv := by
  cases h with
  | idle | skipped | planned | closesUnknown | reported | returned | waits | writesOver | gaveUp
  | signalled | releaseReturned => exact hi
  | thread _ h => exact hi.step hc h
  | submitted _ h | finalized _ _ h | releases _ _ _ h | opened _ h | cancelled _ _ h
  | cancelledFinished _ h =>
    refine hi.step ?_ h
    trivial
  | drained hfwd _ h | drainFailed hfwd h | closed hfwd h =>
    unfold OrderlyPush at hc
    rw [hfwd] at hc
    refine hi.step ?_ h
    exact hc

/-- What holds of a rank whose steps are careful. -/
structure RankSound (s : PrefillHandler) : Prop where
  sound : s.Sound
  inv : s.push.Inv
  quieted : s.Quieted

theorem new_rankSound : new.RankSound where
  sound := new_sound
  inv := PushSystem.Inv.init
  quieted := ⟨fun _ hk => absurd hk List.not_mem_nil, trivial⟩

theorem RankSound.step (hs : s.RankSound) (hc : s.Careful ev) (h : s.step ev = some s') :
    s'.RankSound where
  sound := hs.sound.step hc.1 (step_cases h)
  inv := inv_step hs.inv hc.2 (step_cases h)
  quieted := hs.quieted.step hs.sound hs.inv (step_cases h)

/-- A step sends one signal at most. -/
theorem signals_step (h : s.Step ev s') :
    s'.signals = s.signals ∨ ∃ e, s'.signals = s.signals ++ [e] := by
  cases h with
  | @thread ev _ _ _ =>
    dsimp only [note]
    split
    · exact Or.inr ⟨_, rfl⟩
    · exact Or.inl rfl
  | signalled => exact Or.inr ⟨_, rfl⟩
  | idle | skipped | planned | submitted | finalized | releases | closesUnknown | reported | returned
  | opened | cancelled | cancelledFinished | drained | drainFailed | waits | writesOver | gaveUp
  | releaseReturned | closed => exact Or.inl rfl

end PrefillHandler

end PegaFlow.Pd
