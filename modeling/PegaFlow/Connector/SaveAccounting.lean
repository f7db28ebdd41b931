import PegaFlow.Connector.SaveLoop

/-!
# What the save accounting promises

vLLM takes the blocks of a request back when `get_finished` returns it, or when the wait of
`handle_preemptions` for it is over.  Both go by the request: it is pending or it is not, it has one
completion event.  But a request may have several tasks outstanding, and the batch that holds the
first of them completes the request.  A completed save that was not reported yet also answers for a
newer one.  So the two release a request only when no task of it is left if a task is made only for
requests without a save outstanding or unreported (`LoopEvent.Fresh`).

The other way round, a request that is pending has a task that is not through, and the save thread
runs until it takes the marker, if nothing raises in the save thread (`LoopEvent.Sound`).
-/

namespace PegaFlow.Connector

open List Option Run

namespace SaveBook

variable {b : SaveBook}

theorem completed_track (b : SaveBook) (reqs : List ReqId) :
    (b.track reqs).completed = b.completed := by
  refine foldlRecOn reqs _ (motive := fun b' : SaveBook => b'.completed = b.completed) rfl ?_
  intro b' hb' r _
  rw [trackOne]
  split
  · exact hb'
  · exact hb'

theorem mem_completed_complete {reqs : List ReqId} {r : ReqId}
    (h : r ∈ (b.complete reqs).completed) : r ∈ b.completed ∨ r ∈ reqs := by
  refine foldlRecOn (motive := fun b => r ∈ SaveBook.completed b → _) reqs _ Or.inl ?_ h
  intro b ih q hq h
  rw [completeOne] at h
  split at h
  · rcases Finset.mem_insert.mp h with rfl | ho
    · exact Or.inr hq
    · exact ih ho
  · exact ih h

end SaveBook

namespace SaveMode

/-- The blocks are striped over the ranks, and so ids and hashes are zipped. -/
def Striped (m : SaveMode) : Prop :=
  m.crossLayerKey = none ∧ m.pageFirst ∧ m.layerSplit = false ∧ 1 < m.tpSize

instance decidableStriped (m : SaveMode) : Decidable m.Striped :=
  inferInstanceAs (Decidable (_ ∧ _ ∧ _ ∧ _))

variable {m : SaveMode}

theorem ownPart_ne_none {intent : SaveIntent}
    (h : m.Striped → intent.blockIds.length = intent.blockHashes.length) :
    m.ownPart intent ≠ none := by
  rw [ownPart]
  split
  next hzip =>
    rw [blockShard]
    split
    next => exact some_ne_none _
    next htp =>
      simp only [Bool.and_eq_true, isNone_iff_eq_none, Bool.not_eq_true'] at hzip
      obtain ⟨⟨hk, hp⟩, hspl⟩ := hzip
      rw [if_pos (h ⟨hk, hp, hspl, Nat.lt_of_not_le htp⟩)]
      exact some_ne_none _
  next => exact some_ne_none _

theorem gather_ne_none {intents : List (ReqId × SaveIntent)}
    (h : ∀ p ∈ intents, p.2.blockIds ≠ [] → m.Striped →
      p.2.blockIds.length = p.2.blockHashes.length) : m.gather intents ≠ none := by
  induction intents with
  | nil => exact some_ne_none _
  | cons p rest ih =>
    rw [forall_mem_cons] at h
    have hr := ih h.2
    rw [gather]
    split
    next => exact hr
    next hids =>
      split
      next hown => exact absurd hown (ownPart_ne_none (h.1 hids))
      next =>
        split
        next => exact hr
        next =>
          rw [Ne, map_eq_none_iff]
          exact hr

end SaveMode

namespace SaveLoop

variable {m : SaveMode} {s s' : SaveLoop} {ev : LoopEvent} {events : List LoopEvent} {r : ReqId}

/-- How many outstanding tasks are saves of the request. -/
def saves (s : SaveLoop) (r : ReqId) : Nat := s.outstanding.countP (QueuedTask.names r)

theorem saves_eq :
    s.saves r = (s.queue.filterMap id).countP (QueuedTask.names r) +
      s.stage.batch.countP (QueuedTask.names r) +
      s.putting.toList.countP (QueuedTask.names r) := by
  rw [saves, outstanding, countP_append, countP_append]

theorem saves_pos : 0 < s.saves r ↔ ∃ t ∈ s.outstanding, r ∈ t.task.requestIds := by
  rw [saves, countP_pos_iff]
  simp only [QueuedTask.names_iff]

/-- The requests of the batch the thread holds. -/
def batchRequests (s : SaveLoop) : List ReqId := s.stage.batch.flatMap fun t => t.task.requestIds

theorem mem_batchRequests :
    r ∈ s.batchRequests ↔ 0 < s.stage.batch.countP (QueuedTask.names r) := by
  rw [batchRequests, mem_flatMap, countP_pos_iff]
  simp only [QueuedTask.names_iff]

/-- What a step does to the book, to a waiting `handle_preemptions` and to the number of tasks
outstanding for each request. -/
inductive Effect (m : SaveMode) (s s' : SaveLoop) : LoopEvent → Prop where
  | made {forward : Nat} {task : SaveTask} : s.preempting = none → s'.preempting = none →
      s'.book = s.book.track task.requestIds →
      (∀ r, s'.saves r = s.saves r + if r ∈ task.requestIds then 1 else 0) →
      Effect m s s' (.waitForSave forward task)
  | moved {ev : LoopEvent} : s'.preempting = s.preempting → s'.book = s.book →
      (∀ r, s'.saves r = s.saves r) → Effect m s s' ev
  | dropped {ev : LoopEvent} : Raises m s ev → s'.preempting = s.preempting → s'.book = s.book →
      (∀ r, s'.saves r ≤ s.saves r) → Effect m s s' ev
  | finished {finishedReqIds : Finset ReqId} : s'.preempting = s.preempting →
      s'.book = (s.book.getFinished finishedReqIds).1 →
      (∀ r, s'.saves r = s.saves r) → Effect m s s' (.getFinished finishedReqIds)
  | waits {reqs : List ReqId} : s'.preempting = some (reqs, s.book.eventsOf reqs) →
      s'.book = s.book → (∀ r, s'.saves r = s.saves r) → Effect m s s' (.handlePreemptions reqs)
  | returned : s'.preempting = none → s'.book = s.book → (∀ r, s'.saves r = s.saves r) →
      Effect m s s' .preemptionsReturn
  | completed : s'.preempting = s.preempting → s'.book = s.book.complete s.batchRequests →
      (∀ r, s'.saves r + s.stage.batch.countP (QueuedTask.names r) = s.saves r) →
      Effect m s s' .complete

theorem Step.effect (h : Step m s ev s') : Effect m s s' ev := by
  cases h with
  | waitForSave hput hpre =>
    refine .made hpre hpre rfl fun r => ?_
    simp [saves_eq, hput, countP_cons, QueuedTask.names]
  | put hput =>
    refine .moved rfl rfl fun r => ?_
    simp [saves_eq, hput, countP_cons]
    omega
  | unregisterContext => exact .moved rfl rfl fun r => rfl
  | shutdown =>
    refine .moved rfl rfl fun r => ?_
    simp [saves_eq]
  | getFinished => exact .finished rfl rfl fun r => rfl
  | handlePreemptions => exact .waits rfl rfl fun r => rfl
  | preemptionsReturn => exact .returned rfl rfl fun r => rfl
  | take hq =>
    refine .moved rfl rfl fun r => ?_
    simp [saves_eq, hq, countP_cons]
    omega
  | marker hq hbt =>
    refine .moved rfl rfl fun r => ?_
    simp [saves_eq, hq, hbt]
  | stage hbt =>
    refine .moved rfl rfl fun r => ?_
    simp [saves_eq, hbt]
  | raise hraises =>
    refine .dropped hraises rfl rfl fun r => ?_
    simp [saves_eq]
  | complete hs =>
    refine .completed rfl (by rw [batchRequests, hs]; rfl) fun r => ?_
    simp [saves_eq, hs]
    omega

/-! ## A release is late enough -/

/-- No request of a new task has a save that is outstanding or was not reported yet. -/
def Fresh (s : SaveLoop) : LoopEvent → Prop
  | .waitForSave _ task => ∀ r ∈ task.requestIds, r ∉ s.book.pending ∧ r ∉ s.book.completed
  | _ => True

instance decidableFresh (s : SaveLoop) : ∀ ev, Decidable (s.Fresh ev)
  | .waitForSave _ _ => inferInstanceAs (Decidable (∀ _ ∈ _, _))
  | .put | .unregisterContext | .shutdown | .getFinished _ | .handlePreemptions _
  | .preemptionsReturn | .take | .drain | .build _ | .synchronize _ | .send | .reply _ | .complete =>
    isTrue trivial

/-- Every request has one outstanding task at most, and is then pending and not completed.  A
`handle_preemptions` that waits holds the events of its requests. -/
structure Accounted (s : SaveLoop) : Prop where
  wf : s.book.WF
  once : ∀ r, s.saves r ≤ 1
  pending : ∀ r, 0 < s.saves r → r ∈ s.book.pending ∧ r ∉ s.book.completed
  waiting : ∀ reqs ids, s.preempting = some (reqs, ids) → ∀ r ∈ reqs, ∀ i,
    s.book.events.lookup r = some i → i ∈ ids

theorem accounted_init : init.Accounted where
  wf := SaveBook.wf_empty
  once := fun r => by rw [saves_eq]; exact Nat.zero_le 1
  pending := fun r h => by rw [saves_eq] at h; cases h
  waiting := fun reqs ids h => by cases h

/-- A step that keeps the book and drops at most tasks keeps the accounts. -/
theorem Accounted.of_saves_le (hs : s.Accounted) (hb : s'.book = s.book)
    (hpre : ∀ reqs ids, s'.preempting = some (reqs, ids) → ∀ r ∈ reqs, ∀ i,
      s.book.events.lookup r = some i → i ∈ ids)
    (hle : ∀ r, s'.saves r ≤ s.saves r) : s'.Accounted where
  wf := hb ▸ hs.wf
  once := fun r => Nat.le_trans (hle r) (hs.once r)
  pending := fun r h => hb ▸ hs.pending r (Nat.lt_of_lt_of_le h (hle r))
  waiting := hb ▸ hpre

theorem accounted_step (hs : s.Accounted) (hfr : s.Fresh ev) (h : s.step m ev = some s') :
    s'.Accounted := by
  cases (step_cases h).effect with
  | @made forward task hpre hpre' hb hsvs =>
    refine ⟨hb ▸ hs.wf.track _, ?_, ?_, fun reqs ids heq => by rw [hpre'] at heq; cases heq⟩
    · intro r
      rw [hsvs]
      split
      next hr =>
        have hn : s.saves r = 0 := by
          by_contra hne
          exact (hfr r hr).1 (hs.pending r (Nat.pos_of_ne_zero hne)).1
        rw [hn]
      next => exact hs.once r
    · intro r hpos
      rw [hb, SaveBook.mem_pending_track, SaveBook.completed_track]
      rw [hsvs] at hpos
      split at hpos
      next hr => exact ⟨Or.inr hr, (hfr r hr).2⟩
      next => exact ⟨Or.inl (hs.pending r hpos).1, (hs.pending r hpos).2⟩
  | moved hpre hb hsvs =>
    exact hs.of_saves_le hb (hpre ▸ hs.waiting) fun r => (hsvs r).le
  | dropped _ hpre hb hle => exact hs.of_saves_le hb (hpre ▸ hs.waiting) hle
  | @finished F hpre hb hsvs =>
    have hpd : s'.book.pending = s.book.pending := by rw [hb]; rfl
    have hevents : s'.book.events = s.book.events := by rw [hb]; rfl
    refine ⟨⟨?_, ?_, ?_, ?_⟩, fun r => hsvs r ▸ hs.once r, ?_, ?_⟩
    · rw [hb]; exact hs.wf.event_of_pending
    · rw [hb]; exact hs.wf.event_lt
    · rw [hb]; exact hs.wf.fired_lt
    · rw [hb]; exact hs.wf.event_inj
    · intro r hpos
      obtain ⟨hp, hc⟩ := hs.pending r (hsvs r ▸ hpos)
      refine ⟨hpd ▸ hp, fun hm => hc ?_⟩
      rw [hb] at hm
      exact (Finset.mem_sdiff.mp hm).1
    · rw [hpre, hevents]
      exact hs.waiting
  | @waits reqs hpre hb hsvs =>
    refine hs.of_saves_le hb ?_ fun r => (hsvs r).le
    intro reqs' ids heq r hr i hi
    rw [hpre] at heq
    cases heq
    exact mem_filterMap.mpr ⟨r, hr, hi⟩
  | returned hpre hb hsvs =>
    refine hs.of_saves_le hb ?_ fun r => (hsvs r).le
    intro reqs ids heq
    rw [hpre] at heq
    cases heq
  | completed hpre hb hsvs =>
    refine ⟨hb ▸ hs.wf.complete _, ?_, ?_, ?_⟩
    · intro r
      have := hsvs r
      have := hs.once r
      omega
    · intro r hpos
      have hsum := hsvs r
      have hone := hs.once r
      -- the one task of the request is still outstanding, so it is not in the batch
      have hbt : r ∉ s.batchRequests := by
        rw [mem_batchRequests]
        omega
      obtain ⟨hp, hc⟩ := hs.pending r (by omega)
      rw [hb, SaveBook.mem_pending_complete]
      refine ⟨⟨hp, hbt⟩, fun hm => ?_⟩
      rcases SaveBook.mem_completed_complete hm with hm | hm
      · exact hc hm
      · exact hbt hm
    · rw [hpre, hb]
      intro reqs ids heq r hr i hi
      exact hs.waiting reqs ids heq r hr i (SaveBook.lookup_of_lookup_complete hi)

/-- In every run in which tasks are made only for requests without an outstanding or unreported
save, `get_finished` returns a request, and the wait of `handle_preemptions` for it is over, only
when no task of it is queued or being processed. -/
theorem released_without_tasks (hmeets : Run.Meets (step m) Fresh init events)
    (hrun : Run.exec (step m) init events = some s) :
    (∀ finishedReqIds, ∀ r ∈ (s.book.getFinished finishedReqIds).2,
        ∀ t ∈ s.outstanding, r ∉ t.task.requestIds) ∧
      ∀ reqs ids, s.preempting = some (reqs, ids) → (∀ i ∈ ids, i ∈ s.book.fired) →
        ∀ r ∈ reqs, ∀ t ∈ s.outstanding, r ∉ t.task.requestIds := by
  have hs : s.Accounted :=
    exec_invariant_of_meets (fun _ _ _ => accounted_step) accounted_init hmeets hrun
  constructor
  · intro finishedReqIds r hr t ht hnames
    obtain ⟨-, hcompleted⟩ := hs.pending r (saves_pos.mpr ⟨t, ht, hnames⟩)
    rcases Finset.mem_union.mp hr with hr | hr
    · exact hcompleted (Finset.mem_inter.mp hr).1
    · exact hcompleted (Finset.mem_inter.mp hr).1
  · intro reqs ids hpre hfired r hr t ht hnames
    obtain ⟨hpending, -⟩ := hs.pending r (saves_pos.mpr ⟨t, ht, hnames⟩)
    obtain ⟨i, hi, hunset⟩ := hs.wf.event_of_pending r hpending
    exact hunset (hfired i (hs.waiting reqs ids hpre r hr i hi))

/-- One layer, saved as it is. -/
def oneLayer : SaveMode := ⟨none, false, false, ["layer"], 1, 0, by decide⟩

/-- A task that saves one block of the request. -/
def oneBlock (r : ReqId) : SaveTask := ⟨[(r, ⟨[0], [[0]]⟩)]⟩

/-- Request `a` is saved, reported and saved again; meanwhile `b` waits to be preempted. -/
theorem released_without_tasks_twice :
    ∃ s, Run.exec (step oneLayer) init
        [.waitForSave 0 (oneBlock "a"), .put, .take, .drain, .build true, .synchronize true, .send,
          .reply true, .complete, .getFinished {"a"}, .waitForSave 1 (oneBlock "a"), .put,
          .waitForSave 2 (oneBlock "b"), .put, .handlePreemptions ["b"]] = some s ∧
      s.outstanding.length = 2 ∧
      ∀ r ∈ (s.book.getFinished {"a", "b"}).2, ∀ t ∈ s.outstanding, r ∉ t.task.requestIds := by
  refine exists_mem_of_eq rfl fun hrun => ?_
  exact ⟨rfl, (released_without_tasks (by decide) hrun).1 {"a", "b"}⟩

/-- The second task of `a` is queued while the first is processed.  The first batch completes `a`:
the wait for it is over and `get_finished` returns it, with the second task in the queue. -/
theorem released_with_task_queued :
    ∃ s ∈ Run.exec (step oneLayer) init
        [.waitForSave 0 (oneBlock "a"), .put, .take, .drain, .build true, .synchronize true, .send,
          .waitForSave 1 (oneBlock "a"), .put, .handlePreemptions ["a"], .reply true, .complete],
      (∃ ids, s.preempting = some (["a"], ids) ∧ ∀ i ∈ ids, i ∈ s.book.fired) ∧
        "a" ∈ (s.book.getFinished {"a"}).2 ∧ ∃ t ∈ s.outstanding, "a" ∈ t.task.requestIds := by
  refine ⟨_, rfl, ⟨_, rfl, by decide⟩, by decide, ?_⟩
  exact ⟨_, mem_cons_self, by decide⟩

/-- A waiting `handle_preemptions` has the events of its requests. -/
def Watches (s : SaveLoop) : Prop :=
  s.book.WF ∧ ∀ reqs ids, s.preempting = some (reqs, ids) → ∀ r ∈ reqs, ∀ i,
    s.book.events.lookup r = some i → i ∈ ids

theorem Watches.step (hs : s.Watches) (h : s.step m ev = some s') : s'.Watches := by
  obtain ⟨hwf, hw⟩ := hs
  unfold Watches
  cases (step_cases h).effect with
  | made _ hpre hb => exact ⟨hb ▸ hwf.track _, by simp [hpre]⟩
  | moved hpre hb | dropped _ hpre hb =>
    rw [hpre, hb]
    exact ⟨hwf, hw⟩
  | finished hpre hb =>
    rw [hpre, hb]
    exact ⟨⟨hwf.1, hwf.2, hwf.3, hwf.4⟩, hw⟩
  | waits hpre hb =>
    rw [hpre, hb]
    refine ⟨hwf, ?_⟩
    rintro reqs ids ⟨⟩ r hr i hi
    exact mem_filterMap.mpr ⟨r, hr, hi⟩
  | returned hpre hb => exact ⟨hb ▸ hwf, by simp [hpre]⟩
  | completed hpre hb =>
    rw [hpre, hb]
    exact ⟨hwf.complete _, fun reqs ids heq r hr i hi =>
      hw reqs ids heq r hr i (SaveBook.lookup_of_lookup_complete hi)⟩

/-- Nothing raises in the save thread: the device can be set and synchronised, the layers a batch is
saved under are registered, and ids and hashes pair up where they are zipped. -/
def Sound (m : SaveMode) (s : SaveLoop) : LoopEvent → Prop
  | .build deviceSet => deviceSet ∧
      ∀ t ∈ s.stage.batch, ∀ p ∈ t.task.saveIntents, p.2.blockIds ≠ [] →
        (s.registered ∨ m.crossLayerKey ≠ none) ∧
          (m.Striped → p.2.blockIds.length = p.2.blockHashes.length)
  | .synchronize ok => ok
  | _ => True

instance decidableSound (m : SaveMode) (s : SaveLoop) : ∀ ev, Decidable (s.Sound m ev)
  | .build _ => inferInstanceAs (Decidable (_ ∧ ∀ _ ∈ _, ∀ _ ∈ _, _))
  | .synchronize ok => inferInstanceAs (Decidable (ok))
  | .waitForSave _ _ | .put | .unregisterContext | .shutdown | .getFinished _ | .handlePreemptions _
  | .preemptionsReturn | .take | .drain | .send | .reply _ | .complete => isTrue trivial

theorem not_raises_of_sound (h : s.Sound m ev) : ¬ Raises m s ev := by
  cases ev with
  | build deviceSet =>
    rintro (hdev | hn)
    · rw [h.1] at hdev
      cases hdev
    · have hintent : ∀ p ∈ (s.stage.batch.map QueuedTask.task).flatMap SaveTask.saveIntents,
          p.2.blockIds ≠ [] → (s.registered ∨ m.crossLayerKey ≠ none) ∧
            (m.Striped → p.2.blockIds.length = p.2.blockHashes.length) := by
        intro p hp
        obtain ⟨task, htask, hp⟩ := mem_flatMap.mp hp
        obtain ⟨t, ht, rfl⟩ := mem_map.mp htask
        exact h.2 t ht p hp
      rw [savesByLayer] at hn
      split at hn
      next hbad =>
        simp only [Bool.and_eq_true, Bool.not_eq_true', isNone_iff_eq_none,
          List.any_eq_true, decide_eq_true_iff] at hbad
        obtain ⟨⟨hreg, hk⟩, p, hp, hids⟩ := hbad
        rcases (hintent p hp hids).1 with hreg' | hk'
        · rw [hreg] at hreg'
          cases hreg'
        · exact hk' hk
      next =>
        rw [SaveMode.savesByLayer, map_eq_none_iff] at hn
        exact SaveMode.gather_ne_none (fun p hp hids => (hintent p hp hids).2) hn
  | synchronize ok =>
    intro hf
    rw [h] at hf
    cases hf
  | _ => exact id

/-- A pending request has an outstanding task. -/
def Awaited (s : SaveLoop) : Prop := ∀ r ∈ s.book.pending, 0 < s.saves r

theorem awaited_step (hs : s.Awaited) (hsd : s.Sound m ev) (h : s.step m ev = some s') :
    s'.Awaited := by
  intro r hr
  cases (step_cases h).effect with
  | made _ _ hb hsvs =>
    rw [hb, SaveBook.mem_pending_track] at hr
    rw [hsvs]
    rcases hr with hr | hr
    · exact Nat.add_pos_left (hs r hr) _
    · rw [if_pos hr]
      exact Nat.succ_pos _
  | moved _ hb hsvs | finished _ hb hsvs | waits _ hb hsvs
  | returned _ hb hsvs =>
    rw [hb] at hr
    rw [hsvs]
    exact hs r hr
  | dropped hraises => exact absurd hraises (not_raises_of_sound hsd)
  | completed _ hb hsvs =>
    rw [hb, SaveBook.mem_pending_complete, mem_batchRequests] at hr
    have := hs r hr.1
    have := hsvs r
    omega

/-- The thread stops taking tasks only at the marker. -/
theorem closing_step (hs : s.stage.closing → s.marked) (hsd : s.Sound m ev)
    (h : s.step m ev = some s') : s'.stage.closing → s'.marked := by
  cases step_cases h with
  | take => intro hclg; cases hclg
  | marker => exact fun _ => rfl
  | stage _ hclg => rwa [← hclg] at hs
  | raise hraises => exact absurd hraises (not_raises_of_sound hsd)
  | complete hst =>
    rename_i batch last
    intro hclg
    refine hs ?_
    rw [hst]
    cases last with
    | true => rfl
    | false => cases hclg
  | _ => exact hs

theorem book_of_complete (h : s.step m .complete = some s') :
    s'.book = s.book.complete s.batchRequests := by
  simp only [step] at h
  split at h
  next batch last hs =>
    cases h
    rw [batchRequests, hs]
    rfl
  next => cases h

theorem closing_of_ended {stage : LoopStage} (h : stage.ended) : stage.closing := by
  cases stage with
  | stopped | dead => rfl
  | _ => cases h

/-- In every run in which nothing raises in the save thread, the thread ends only after it took the
marker.  A pending request has a task that is not through: it is queued, being processed or about to
be queued.  When a batch is through, none of its requests is pending. -/
theorem save_lifecycle_completes (hmeets : Run.Meets (step m) (Sound m) init events)
    (hrun : Run.exec (step m) init events = some s) :
    (s.stage.ended = true → s.marked = true) ∧
      (∀ r ∈ s.book.pending, ∃ t ∈ s.outstanding, r ∈ t.task.requestIds) ∧
      ∀ s', s.step m .complete = some s' → ∀ t ∈ s.stage.batch, ∀ r ∈ t.task.requestIds,
        r ∉ s'.book.pending := by
  refine ⟨?_, ?_, ?_⟩
  · have hclosing := exec_invariant_of_meets
      (I := fun s : SaveLoop => s.stage.closing = true → s.marked = true)
      (fun _ _ _ => closing_step) (fun h => by cases h) hmeets hrun
    exact fun hended => hclosing (closing_of_ended hended)
  · have hawaited := exec_invariant_of_meets (I := Awaited) (fun _ _ _ => awaited_step)
      (fun r hr => by cases hr) hmeets hrun
    exact fun r hr => saves_pos.mp (hawaited r hr)
  · intro s' h t ht r hr hpending
    rw [book_of_complete h, SaveBook.mem_pending_complete] at hpending
    exact hpending.2 (mem_flatMap.mpr ⟨t, ht, hr⟩)

/-- The save of `a` fails on the server, the marker ends the batch of `b`, and the task of `c`
comes too late. -/
theorem save_lifecycle_completes_shutdown :
    ∃ s, Run.exec (step oneLayer) init
        [.waitForSave 0 (oneBlock "a"), .put, .take, .drain, .build true, .synchronize true, .send,
          .reply false, .complete, .waitForSave 1 (oneBlock "b"), .put, .take, .shutdown, .take,
          .build true, .synchronize true, .send, .reply true, .complete,
          .waitForSave 2 (oneBlock "c"), .put] = some s ∧
      s.stage.ended = true ∧ s.marked = true ∧ s.book.pending = {"c"} := by
  refine exists_mem_of_eq rfl fun hrun => ?_
  exact ⟨rfl, (save_lifecycle_completes (by decide) hrun).1 rfl, by decide⟩

/-- The device cannot be synchronised.  The thread is gone without a marker, and `a` stays pending
with its event unset and no task left that could complete it. -/
theorem save_thread_dies :
    ∃ s ∈ Run.exec (step oneLayer) init
        [.waitForSave 0 (oneBlock "a"), .put, .take, .drain, .build true, .synchronize false],
      s.stage.ended = true ∧ s.marked = false ∧ s.outstanding.length = 0 ∧
        "a" ∈ s.book.pending ∧ ∃ i, s.book.events.lookup "a" = some i ∧ i ∉ s.book.fired :=
  ⟨_, rfl, rfl, rfl, rfl, by decide, 0, rfl, by decide⟩

end SaveLoop

end PegaFlow.Connector
