import PegaFlow.Pd.PrefillHandler
import PegaFlow.Pd.PushDone

/-!
# One signal for a physical request

The decode side is to get one of done, fail and abort for a physical request, and a request that has
been released is not to turn up in `finished_sending`.

The code keeps neither.  `release` does not ask whether the finalize task has sent done already, so a
request that is aborted between its `push_done` and the report of `get_finished_sending` is signalled
twice.  And a finalize task looks at its cancellation for the last time before `push_done`: when the
request is released after that, done is sent beside the abort, and the request is inserted into
`finished_sending` after the release has returned.

Both hold in runs in which a release comes before the last look of the finalize task, and before any
signal if it sends one; finalize tasks that are there at the same time share no request; and a
request that is closed without a release is not with a finalize task any more (`Exclusive`).

A finalize task that has still to come to a request is either in time for it (`Live`), and then
nothing has been signalled, or it will skip the request (`Stopped`).
-/

namespace PegaFlow.Pd

open List Option Table Run

/-- The finalize task is past its last look at the cancellation. -/
def FinalizeStage.sending : FinalizeStage → Bool
  | .pushDone _ | .sent => true
  | _ => false

variable (f : Finalizer) (r : PhysicalReqId)

/-- The finalize task sends done for the request without looking at its cancellation again. -/
def Finalizer.Sending : Prop :=
  f.rest.head? = some r ∧ f.stage.sending

instance : Decidable (f.Sending r) :=
  inferInstanceAs (Decidable (_ ∧ _))

namespace PrefillHandler

variable (signals : List (RequestLife × Signal)) (key : RequestLife) (s : PrefillHandler)

/-- A signal was sent for the physical request. -/
def Signalled : Prop :=
  key ∈ signals.map Prod.fst

instance : Decidable (Signalled signals key) :=
  inferInstanceAs (Decidable (_ ∈ _))

/-- The release that is about to cancel finalize tasks is in time. -/
def InTime : ForwardStage → Prop
  | .cancelFinalizers reason ids =>
    ∀ r ∈ ids, (∀ f ∈ s.push.finalizers, ¬ f.Sending r) ∧
      (reason.signal ≠ none → ¬ Signalled s.signals (r, s.push.life r))
  | _ => True

instance : ∀ stage, Decidable (s.InTime stage)
  | .cancelFinalizers _ _ => inferInstanceAs (Decidable (∀ _ ∈ _, _))
  | .idle | .opening _ | .draining _ _ _ _ | .closing _ => isTrue trivial

/-- The condition of the module text. -/
def Exclusive : PrefillEvent → Prop
  | .finalize reqId =>
    ∀ ids ∈ s.logicalToPhysical.lookup reqId, ∀ f ∈ s.push.finalizers,
      f.reqIds = ids ∨ ∀ r ∈ ids, r ∉ f.reqIds
  | .release reqId _ =>
    s.logicalToPhysical.lookup reqId = none → ∀ f ∈ s.push.finalizers, reqId ∉ f.rest
  | .getFinishedSending finishedReqIds =>
    ∀ r ∈ s.closable finishedReqIds, ∀ f ∈ s.push.finalizers, r ∉ f.rest
  | .forward => s.InTime s.forward
  | _ => True

instance decidableExclusive : ∀ ev, Decidable (s.Exclusive ev)
  | .finalize _ => inferInstanceAs (Decidable (∀ _ ∈ _, ∀ _ ∈ _, _))
  | .release _ _ => inferInstanceAs (Decidable (_ → ∀ _ ∈ _, _))
  | .getFinishedSending _ => inferInstanceAs (Decidable (∀ _ ∈ _, ∀ _ ∈ _, _))
  | .forward => inferInstanceAs (Decidable (InTime _ _))
  | .thread _ | .push _ _ | .submit _ _ | .preempt _ | .forwardRaises => isTrue trivial

/-! ## Finalize tasks and their requests -/

variable {push push' : PushSystem} {signals signals' : List (RequestLife × Signal)}
variable {released released' : Finset RequestLife} {f f' g : Finalizer} {i : Nat}
variable {r q : PhysicalReqId} {rest ids : List PhysicalReqId}

/-- The finalize task is in time for the request. -/
structure Live (push : PushSystem) (signals : List (RequestLife × Signal))
    (released : Finset RequestLife) (f : Finalizer) (r : PhysicalReqId) : Prop where
  life : f.lives r = push.life r
  done : r ∈ push.done
  released : (r, push.life r) ∉ released
  signals : Signalled signals (r, push.life r) → f.rest.head? = some r ∧ f.stage = .sent

/-- The finalize task will skip the request. -/
structure Stopped (cancelled : Finset PhysicalReqId) (f : Finalizer) (r : PhysicalReqId) :
    Prop where
  cancelled : r ∈ cancelled
  sending : ¬ f.Sending r

/-- All finalize tasks will skip the request. -/
def AllStopped (push : PushSystem) (r : PhysicalReqId) : Prop :=
  ∀ f ∈ push.finalizers, r ∈ f.rest → Stopped push.finalizersCancelled f r

/-- What the forward thread relies on. -/
def ForwardSound (push : PushSystem) (signals : List (RequestLife × Signal)) :
    ForwardStage → Prop
  | .cancelFinalizers _ ids => ids.Nodup ∧ ∀ r ∈ ids, r ∈ push.releasing
  | .draining _ ids rest _ =>
    (∀ r ∈ ids, r ∈ push.stopped ∧ AllStopped push r) ∧ rest.Nodup ∧ rest ⊆ ids ∧
      ∀ r ∈ rest, ¬ Signalled signals (r, push.life r)
  | .closing rest => ∀ r ∈ rest, AllStopped push r
  | _ => True

structure Sound (s : PrefillHandler) : Prop where
  distinct : (s.push.finalizers.map Finalizer.reqIds).Pairwise List.Disjoint
  rest : ∀ f ∈ s.push.finalizers, f.rest.Nodup ∧ f.rest ⊆ f.reqIds
  tasks : ∀ f ∈ s.push.finalizers, ∀ r ∈ f.rest,
    Live s.push s.signals s.released f r ∨ Stopped s.push.finalizersCancelled f r
  once : (s.signals.map Prod.fst).Nodup
  signals : ∀ key, Signalled s.signals key → key.2 ≤ s.push.life key.1 ∧
    (key.2 = s.push.life key.1 → key.1 ∈ s.push.done ∨ key.1 ∈ s.push.releasing)
  released : ∀ key ∈ s.released, key.2 ≤ s.push.life key.1 ∧
    (key.2 = s.push.life key.1 → key.1 ∈ s.push.releasing)
  tables : ∀ reqId ids, s.logicalToPhysical.lookup reqId = some ids → ids.Nodup
  stopped : s.push.stopped ⊆ s.push.releasing
  forward : ForwardSound s.push s.signals s.forward

variable {key : RequestLife} {signal : Signal}

theorem signalled_append {key' : RequestLife} :
    Signalled (signals ++ [(key', signal)]) key ↔ Signalled signals key ∨ key = key' := by
  unfold Signalled
  rw [map_append, mem_append, map_singleton, mem_singleton]

/-- The signal for one request is none for another one. -/
theorem signalled_of_ne {n m : Nat} (hne : q ≠ r)
    (h : Signalled (signals ++ [((r, n), signal)]) (q, m)) : Signalled signals (q, m) :=
  (signalled_append.mp h).resolve_right fun heq => hne (congrArg Prod.fst heq)

/-- A finalize task that is in time stays so. -/
theorem Live.mono (h : Live push signals released f r) (hl : push'.life r = push.life r)
    (hd : r ∈ push.done → r ∈ push'.done)
    (hrld : (r, push.life r) ∈ released' → (r, push.life r) ∈ released)
    (hsg : Signalled signals' (r, push.life r) → Signalled signals (r, push.life r)) :
    Live push' signals' released' f r := by
  refine ⟨h.life.trans hl.symm, hd h.done, ?_, ?_⟩
  · rw [hl]
    exact fun hm => h.released (hrld hm)
  · rw [hl]
    exact fun hsig => h.signals (hsg hsig)

theorem mem_set_cases {α : Type} {l : List α} {a a' b : α} (ha : l[i]? = some a)
    (hb : b ∈ l.set i a') : b = a' ∨ b ∈ l.eraseIdx i := by
  obtain ⟨hi, -⟩ := List.getElem?_eq_some_iff.mp ha
  exact mem_cons.mp ((set_perm_cons_eraseIdx hi a').mem_iff.mp hb)

/-- The steps of the threads leave the requests as they are. -/
structure SameRequests (push push' : PushSystem) : Prop where
  life : push'.life = push.life
  done : push'.done = push.done
  releasing : push'.releasing = push.releasing
  stopped : push'.stopped = push.stopped

variable {stage : ForwardStage}

theorem ForwardSound.of_thread (h : ForwardSound push signals stage)
    (hsm : SameRequests push push') (hsp : ∀ r, AllStopped push r → AllStopped push' r)
    (hsg : ∀ r, AllStopped push r → ¬ Signalled signals (r, push.life r) →
      ¬ Signalled signals' (r, push.life r)) : ForwardSound push' signals' stage := by
  cases stage with
  | idle | opening => trivial
  | cancelFinalizers reason ids =>
    unfold ForwardSound
    rw [hsm.releasing]
    exact h
  | draining signal ids rest stage =>
    obtain ⟨hids, hnd, hsub, hrest⟩ := h
    refine ⟨fun r hr => ?_, hnd, hsub, fun r hr => ?_⟩
    · rw [hsm.stopped]
      exact (hids r hr).imp_right (hsp r)
    · rw [hsm.life]
      exact hsg r (hids r (hsub hr)).2 (hrest r hr)
  | closing rest => exact fun r hr => hsp r (h r hr)

theorem moves_lives {s : PushSystem} (h : s.Moves f r rest f') : f'.lives = f.lives := by
  cases h <;> rfl

theorem moves_nodup {s : PushSystem} (h : s.Moves f r rest f') (hr : f.rest = r :: rest)
    (hnd : f.rest.Nodup) : f'.rest.Nodup := by
  cases h with
  | skips | inserted =>
    rw [hr] at hnd
    exact hnd.of_cons
  | _ => exact hnd

/-- A finalize task that goes on will still skip the request. -/
theorem Stopped.moved (hsp : Stopped push.finalizersCancelled f q)
    (hr : f.rest = r :: rest) (h : push.Moves f r rest f') :
    Stopped push.finalizersCancelled f' q := by
  refine ⟨hsp.cancelled, ?_⟩
  rintro ⟨hh, hsg⟩
  cases h with
  | skips | begins | tasksOver | waits | writesOver | inserted => cases hsg
  | pushes _ hcan =>
    rw [hr] at hh
    cases hh
    exact hcan hsp.cancelled
  | sent hst => exact hsp.sending ⟨hh, congrArg FinalizeStage.sending hst⟩

/-- A finalize task that goes on without a signal is still in time. -/
theorem Live.moved (hl : Live push signals released f q) (hr : f.rest = r :: rest)
    (hnd : f.rest.Nodup) (h : push.Moves f r rest f') (hsn : f'.stage ≠ .sent)
    (hq : q ∈ f'.rest) : Live push signals released f' q := by
  have hnot : ¬ Signalled signals (q, push.life q) := by
    intro hsig
    obtain ⟨hh, hst⟩ := hl.signals hsig
    rw [hr] at hh hnd
    cases hh
    cases h with
    | skips | inserted => exact (nodup_cons.mp hnd).1 hq
    | begins hst' | tasksOver hst' | waits hst' | writesOver hst' | pushes hst' =>
      cases hst.symm.trans hst'
    | sent => exact hsn rfl
  refine ⟨?_, hl.done, hl.released, fun hsig => absurd hsig hnot⟩
  rw [moves_lives h]
  exact hl.life

variable {finishedSending : Finset PhysicalReqId}

variable {s : PrefillHandler}

/-- A step of the threads in which nothing is signalled. -/
theorem Sound.threaded (hs : s.Sound) (hsm : SameRequests s.push push')
    (hd : (push'.finalizers.map Finalizer.reqIds).Pairwise List.Disjoint)
    (hrest : ∀ f ∈ push'.finalizers, f.rest.Nodup ∧ f.rest ⊆ f.reqIds)
    (htks : ∀ f ∈ push'.finalizers, ∀ r ∈ f.rest,
      Live s.push s.signals s.released f r ∨ Stopped push'.finalizersCancelled f r)
    (hsp : ∀ r, AllStopped s.push r → AllStopped push' r) :
    Sound { s with push := push', finishedSending } where
  distinct := hd
  rest := hrest
  tasks := by
    intro f hf r hr
    refine (htks f hf r hr).imp_left fun hl => ?_
    exact hl.mono (congrFun hsm.life r) (fun h => hsm.done ▸ h) (fun h => h) fun h => h
  once := hs.once
  signals := by
    rw [hsm.life, hsm.done, hsm.releasing]
    exact hs.signals
  released := by
    rw [hsm.life, hsm.releasing]
    exact hs.released
  tables := hs.tables
  stopped := by
    rw [hsm.stopped, hsm.releasing]
    exact hs.stopped
  forward := hs.forward.of_thread hsm hsp fun _ _ h => h

theorem Sound.moved (hs : s.Sound) (hf : s.push.finalizers[i]? = some f)
    (hr : f.rest = r :: rest) (h : s.push.Moves f r rest f') (hsn : f'.stage ≠ .sent) :
    Sound { s with push := s.push.setFinalizer i f', finishedSending } := by
  have hm := mem_of_getElem? hf
  have hsub := h.rest_subset hr
  obtain ⟨hnd, hreqIds⟩ := hs.rest f hm
  refine hs.threaded ⟨rfl, rfl, rfl, rfl⟩ ?_ ?_ ?_ ?_
  · exact (congrArg (List.Pairwise List.Disjoint) (map_set_of_eq hf h.reqIds_eq)).mpr hs.distinct
  · intro g hg
    rcases mem_set_cases hf hg with rfl | hg
    · refine ⟨moves_nodup h hr hnd, ?_⟩
      rw [h.reqIds_eq]
      exact List.Subset.trans hsub hreqIds
    · exact hs.rest g (mem_of_mem_eraseIdx hg)
  · intro g hg q hq
    rcases mem_set_cases hf hg with rfl | hg
    · rcases hs.tasks f hm q (hsub hq) with hl | hsp
      · exact Or.inl (hl.moved hr hnd h hsn hq)
      · exact Or.inr (hsp.moved hr h)
    · exact hs.tasks g (mem_of_mem_eraseIdx hg) q hq
  · intro q hall g hg hq
    rcases mem_set_cases hf hg with rfl | hg
    · exact (hall f hm (hsub hq)).moved hr h
    · exact hall g (mem_of_mem_eraseIdx hg) hq

theorem Sound.ended {raised : Bool} {error : Option PhysicalReqId} (hs : s.Sound)
    (hf : s.push.finalizers[i]? = some f) :
    Sound
      { s with
        push := { s.push with error }.endFinalizer i f raised
        finishedSending } := by
  have hm : ∀ {g}, g ∈ s.push.finalizers.eraseIdx i → g ∈ s.push.finalizers :=
    mem_of_mem_eraseIdx
  -- the other finalize tasks have other requests, which stay cancelled
  have hk : ∀ g ∈ s.push.finalizers.eraseIdx i, ∀ q ∈ g.rest,
      Stopped s.push.finalizersCancelled g q →
      Stopped (s.push.finalizersCancelled \ f.reqIds.toFinset) g q := by
    intro g hg q hq hsp
    refine ⟨Finset.mem_sdiff.mpr ⟨hsp.cancelled, fun hqf => ?_⟩, hsp.sending⟩
    exact PushSystem.disjoint_of_mem_eraseIdx hs.distinct hf hg (mem_toFinset.mp hqf)
      ((hs.rest g (hm hg)).2 hq)
  refine hs.threaded ⟨rfl, rfl, rfl, rfl⟩ ?_ ?_ ?_ ?_
  · exact hs.distinct.sublist ((eraseIdx_sublist ..).map _)
  · exact fun g hg => hs.rest g (hm hg)
  · intro g hg q hq
    exact (hs.tasks g (hm hg) q hq).imp_right (hk g hg q hq)
  · intro q hall g hg hq
    exact hk g hg q hq (hall g (hm hg) hq)

/-- A step that does not concern the finalize tasks. -/
theorem Sound.elsewhere (hs : s.Sound) (hsm : SameRequests s.push push')
    (hfinz : push'.finalizers = s.push.finalizers)
    (hcan : push'.finalizersCancelled = s.push.finalizersCancelled) :
    Sound { s with push := push', finishedSending } := by
  refine hs.threaded hsm ?_ ?_ ?_ ?_
  · rw [hfinz]
    exact hs.distinct
  · rw [hfinz]
    exact hs.rest
  · rw [hfinz, hcan]
    exact hs.tasks
  · unfold AllStopped
    rw [hfinz, hcan]
    exact fun _ hall => hall

/-! ## The signal of a finalize task -/

variable {ev : PushEvent}

/-- What the step that sends done does. -/
theorem step_of_sends {s : PushSystem} (h : s.sends ev = some r) :
    ∃ i f rest target, s.finalizers[i]? = some f ∧ f.rest = r :: rest ∧
      f.stage = .pushDone target ∧ s.Moves f r rest { f with stage := .sent } ∧
      s.step ev = some (s.setFinalizer i { f with stage := .sent }) := by
  unfold PushSystem.sends at h
  split at h
  next i =>
    split at h
    next hf =>
      obtain ⟨⟨ho, hrem⟩, rfl⟩ := guarded_eq_some.mp h
      refine ⟨i, _, _, _, hf, rfl, rfl, .sent rfl ho hrem, ?_⟩
      rw [PushSystem.step, hf]
      simp only [bind_some, PushSystem.stepFinalizer, ho, if_pos hrem]
    · cases h
  · cases h

/-- A finalize task comes to `sent` only with a signal. -/
theorem sends_of_moves {s : PushSystem} (hf : s.finalizers[i]? = some f)
    (hr : f.rest = r :: rest) (h : s.Moves f r rest f') (hsn : f'.stage = .sent) :
    s.sends (.finalizerStep i) = some r := by
  cases h with
  | sent hst ho hrem =>
    obtain ⟨reqIds, rest', stage, lives⟩ := f
    cases hr
    cases hst
    rw [PushSystem.sends, hf]
    exact if_pos ⟨ho, hrem⟩
  | _ => cases hsn

theorem nodup_append_signal (hnd : (signals.map Prod.fst).Nodup) (h : ¬ Signalled signals key) :
    ((signals ++ [(key, signal)]).map Prod.fst).Nodup := by
  rw [map_append]
  refine hnd.append (nodup_singleton key) fun key' hm hk => ?_
  cases mem_singleton.mp hk
  exact h hm

section

variable (hs : s.Sound)
include hs

theorem Sound.sent {target : Option (Nat × Nat)} (hf : s.push.finalizers[i]? = some f)
    (hrest : f.rest = r :: rest) (hst : f.stage = .pushDone target)
    (h : s.push.Moves f r rest { f with stage := .sent }) :
    Sound
      { s with
        push := s.push.setFinalizer i { f with stage := .sent }
        signals := s.signals ++ [((r, s.push.life r), .done)]
        finishedSending } := by
  have hm := mem_of_getElem? hf
  have hh : f.rest.head? = some r := by rw [hrest]; rfl
  have hr : r ∈ f.rest := hrest ▸ mem_cons_self
  have hsg : f.Sending r := ⟨hh, congrArg FinalizeStage.sending hst⟩
  obtain ⟨hnd, hreqIds⟩ := hs.rest f hm
  have hl : Live s.push s.signals s.released f r :=
    (hs.tasks f hm r hr).resolve_right fun hsp => hsp.sending hsg
  have hunsignalled : ¬ Signalled s.signals (r, s.push.life r) :=
    fun hsig => by cases hst.symm.trans (hl.signals hsig).2
  refine ⟨?_, ?_, ?_, ?_, ?_, hs.released, hs.tables, hs.stopped, ?_⟩
  · exact (congrArg (List.Pairwise List.Disjoint) (map_set_of_eq hf h.reqIds_eq)).mpr hs.distinct
  · intro g hg
    rcases mem_set_cases hf hg with rfl | hg
    · exact ⟨hnd, hreqIds⟩
    · exact hs.rest g (mem_of_mem_eraseIdx hg)
  · intro g hg q hq
    rcases mem_set_cases hf hg with rfl | hg
    · by_cases hne : q = r
      · subst hne
        exact Or.inl ⟨hl.life, hl.done, hl.released, fun _ => ⟨hh, rfl⟩⟩
      · rcases hs.tasks f hm q hq with hq | hq
        · refine Or.inl ⟨hq.life, hq.done, hq.released, fun hsig => ?_⟩
          exact ⟨(hq.signals (signalled_of_ne hne hsig)).1, rfl⟩
        · exact Or.inr (hq.moved hrest h)
    · have hg' := mem_of_mem_eraseIdx hg
      have hd := PushSystem.disjoint_of_mem_eraseIdx hs.distinct hf hg
      have hne : q ≠ r := by
        rintro rfl
        exact hd (hreqIds hr) ((hs.rest g hg').2 hq)
      refine (hs.tasks g hg' q hq).imp_left fun hl => ?_
      exact hl.mono rfl (fun h => h) (fun h => h) (signalled_of_ne hne)
  · exact nodup_append_signal hs.once hunsignalled
  · intro key hk
    rcases signalled_append.mp hk with ho | rfl
    · exact hs.signals key ho
    · exact ⟨le_rfl, fun _ => Or.inl hl.done⟩
  · refine hs.forward.of_thread ⟨rfl, rfl, rfl, rfl⟩ ?_ ?_
    · intro q hall g hg hq
      rcases mem_set_cases hf hg with rfl | hg
      · exact (hall f hm hq).moved hrest h
      · exact hall g (mem_of_mem_eraseIdx hg) hq
    · intro q hall hq hsig
      refine hq (signalled_of_ne ?_ hsig)
      rintro rfl
      exact (hall f hm hr).sending hsg

theorem Sound.thread (hev : ev.ofThreads) (h : s.push.step ev = some push') :
    Sound { s.note ev with push := push' } := by
  cases hsn : s.push.sends ev with
  | some r =>
    obtain ⟨i, f, rest, target, hf, hr, hst, hmoves, hstep⟩ := step_of_sends hsn
    cases hstep.symm.trans h
    simp only [note, hsn]
    exact hs.sent hf hr hst hmoves
  | none =>
    simp only [note, hsn]
    cases PushSystem.step_cases h with
    | idle | started | skipped | pushed | wrote | raised | failedWrite | finished | completed =>
      exact hs.elsewhere ⟨rfl, rfl, rfl, rfl⟩ rfl rfl
    | moved hf hr hmoves =>
      refine hs.moved hf hr hmoves fun hsent => ?_
      cases hsn.symm.trans (sends_of_moves hf hr hmoves hsent)
    | tookError hf | ended _ hf => exact hs.ended hf
    | opened | submitted | marked | finalized | cancelledPushes | cancelledFinalizers | drained
    | closed => cases hev

/-! ## The forward thread -/

theorem Sound.forward_eq (h : s.forward = stage) : ForwardSound s.push s.signals stage :=
  h ▸ hs.forward

/-- The forward thread goes on and nothing else changes. -/
theorem Sound.setForward (h : ForwardSound s.push s.signals stage) :
    Sound { s with forward := stage } :=
  ⟨hs.distinct, hs.rest, hs.tasks, hs.once, hs.signals, hs.released, hs.tables, hs.stopped, h⟩

/-- `wait_req` takes the stored error. -/
theorem Sound.noError : Sound { s with push := { s.push with error := none } } :=
  hs.elsewhere ⟨rfl, rfl, rfl, rfl⟩ rfl rfl

/-- The requests of a finalize task get done. -/
theorem Sound.marked (hid : s.forward = .idle) :
    Sound { s with push := { s.push with done := s.push.done ∪ ids.toFinset } } where
  distinct := hs.distinct
  rest := hs.rest
  tasks := by
    intro f hf r hr
    refine (hs.tasks f hf r hr).imp_left fun hl => ?_
    exact hl.mono rfl (fun h => Finset.mem_union_left _ h) (fun h => h) fun h => h
  once := hs.once
  signals := by
    intro key hk
    refine (hs.signals key hk).imp_right fun h heq => ?_
    exact (h heq).imp_left fun hd => Finset.mem_union_left _ hd
  released := hs.released
  tables := hs.tables
  stopped := hs.stopped
  forward := by
    rw [hid]
    trivial

/-- A new finalize task has requests that were not finalized, signalled or released. -/
theorem Sound.finalized (hid : s.forward = .idle) (hnd : ids.Nodup)
    (hnew : ∀ r ∈ ids, r ∉ s.push.done ∧ r ∉ s.push.releasing)
    (hdj : ∀ f ∈ s.push.finalizers, ∀ r ∈ ids, r ∉ f.reqIds) :
    Sound
      { s with
        push :=
          { s.push with
            done := s.push.done ∪ ids.toFinset
            finalizers := s.push.finalizers ++ [⟨ids, ids, .check, s.push.life⟩] } } := by
  have hmarked : Sound { s with push := { s.push with done := s.push.done ∪ ids.toFinset } } :=
    hs.marked hid
  refine ⟨?_, ?_, ?_, hs.once, hmarked.signals, hs.released, hs.tables, hs.stopped, ?_⟩
  · rw [map_append, pairwise_append]
    refine ⟨hs.distinct, pairwise_singleton .., fun ids' hids' ids'' hids'' r hr hr' => ?_⟩
    obtain ⟨f, hf, rfl⟩ := mem_map.mp hids'
    cases mem_singleton.mp hids''
    exact hdj f hf r hr' hr
  · refine forall_mem_concat.mpr ⟨hs.rest, ?_⟩
    exact ⟨hnd, List.Subset.refl ids⟩
  · intro f hf r hr
    rcases mem_append.mp hf with hf | hf
    · refine (hmarked.tasks f hf r hr).imp_left fun hl => ?_
      exact hl.mono rfl (fun h => h) (fun h => h) fun h => h
    · cases mem_singleton.mp hf
      obtain ⟨hd, hrel⟩ := hnew r hr
      refine Or.inl ⟨rfl, ?_, ?_, ?_⟩
      · exact Finset.mem_union_right _ (mem_toFinset.mpr hr)
      · exact fun hrld => hrel ((hs.released _ hrld).2 rfl)
      · exact fun hsig => ((hs.signals _ hsig).2 rfl).elim
          (fun h => absurd h hd) fun h => absurd h hrel
  · rw [hid]
    trivial

variable {reqId : LogicalReqId}

theorem Sound.finalize (hc : s.Exclusive (.finalize reqId)) (hid : s.forward = .idle)
    (hids : s.logicalToPhysical.lookup reqId = some ids)
    (h : s.push.step (.finalize ids) = some push') : Sound { s with push := push' } := by
  unfold PushSystem.step at h
  dsimp only at h
  split at h
  next hnew =>
    split at h
    · cases h
      exact hs.marked hid
    next hfr =>
      cases h
      refine hs.finalized hid (hs.tables reqId ids hids) hnew fun f hf => ?_
      refine (hc ids hids f hf).resolve_left fun heq => hfr (Or.inr ?_)
      exact mem_map.mpr ⟨f, hf, heq⟩
  · cases h

variable {reason : ReleaseReason}

/-- A release begins. -/
theorem Sound.released_begins (hids : s.logicalToPhysical.lookup reqId = some ids)
    (h : s.push.step (.cancelPushes ids) = some push') :
    Sound
      { s with
        push := push'
        logicalToPhysical := s.logicalToPhysical.erase reqId
        forward := .cancelFinalizers reason ids } := by
  cases h
  refine ⟨hs.distinct, hs.rest, ?_, hs.once, ?_, ?_, ?_, ?_, hs.tables reqId ids hids, ?_⟩
  · intro f hf r hr
    refine (hs.tasks f hf r hr).imp_left fun hl => ?_
    exact hl.mono rfl (fun h => h) (fun h => h) fun h => h
  · intro key hk
    refine (hs.signals key hk).imp_right fun h heq => ?_
    exact (h heq).imp_right fun hrel => Finset.mem_union_left _ hrel
  · intro key hk
    refine (hs.released key hk).imp_right fun h heq => ?_
    exact Finset.mem_union_left _ (h heq)
  · intro reqId' ids' h
    exact hs.tables reqId' ids' (lookup_of_erase h).2
  · exact hs.stopped.trans Finset.subset_union_left
  · intro r hr
    exact Finset.mem_union_right _ (mem_toFinset.mpr hr)

/-- The finalize tasks of a release are cancelled in time: they will skip its requests. -/
theorem Sound.cancelFinalizers (hfwd : s.forward = .cancelFinalizers reason ids)
    (hc : s.Exclusive .forward) (h : s.push.step (.cancelFinalizers ids) = some push') :
    Sound { s with push := push', forward := .idle } ∧
      (∀ r ∈ ids, r ∈ push'.stopped ∧ AllStopped push' r) ∧ push'.life = s.push.life := by
  unfold Exclusive at hc
  rw [hfwd] at hc
  obtain ⟨hrel, rfl⟩ := guarded_eq_some.mp h
  refine ⟨⟨hs.distinct, hs.rest, ?_, hs.once, hs.signals, hs.released, hs.tables, ?_, trivial⟩,
    fun r hr => ⟨?_, fun f hf hrest => ⟨?_, (hc r hr).1 f hf⟩⟩, rfl⟩
  · intro f hf r hr
    refine (hs.tasks f hf r hr).imp (fun hl => ?_) fun hsp => ?_
    · exact hl.mono rfl (fun h => h) (fun h => h) fun h => h
    · exact ⟨Finset.mem_union_left _ hsp.cancelled, hsp.sending⟩
  · exact Finset.union_subset hs.stopped fun r hr => hrel r (mem_toFinset.mp hr)
  · exact Finset.mem_union_right _ (mem_toFinset.mpr hr)
  · refine Finset.mem_union_right _ (mem_toFinset.mpr (mem_filter.mpr ⟨hr, ?_⟩))
    exact any_eq_true.mpr ⟨f, hf, decide_eq_true ((hs.rest f hf).2 hrest)⟩

/-- A release returns. -/
theorem Sound.endRelease (hids : ∀ r ∈ ids, r ∈ s.push.stopped ∧ AllStopped s.push r) :
    (s.endRelease ids).Sound := by
  refine ⟨hs.distinct, hs.rest, ?_, hs.once, hs.signals, ?_, hs.tables, hs.stopped,
    fun r hr => (hids r hr).2⟩
  · intro f hf r hr
    by_cases hm : r ∈ ids
    · exact Or.inr ((hids r hm).2 f hf hr)
    refine (hs.tasks f hf r hr).imp_left fun hl => ?_
    refine hl.mono rfl (fun h => h) (fun hrld => ?_) fun h => h
    refine (Finset.mem_union.mp hrld).resolve_right fun hnew => ?_
    obtain ⟨q, hq, heq⟩ := mem_map.mp (mem_toFinset.mp hnew)
    cases heq
    exact hm hq
  · intro key hk
    rcases Finset.mem_union.mp hk with ho | hnew
    · exact hs.released key ho
    · obtain ⟨q, hq, rfl⟩ := mem_map.mp (mem_toFinset.mp hnew)
      exact ⟨le_rfl, fun _ => hs.stopped (hids q hq).1⟩

/-- A release signals a request that it has drained. -/
theorem Sound.signalled {stage : DrainStage}
    (hfwd : s.forward = .draining signal ids (r :: rest) stage) :
    Sound
      { s with
        signals := s.signals ++ [((r, s.push.life r), signal)]
        forward := .draining signal ids rest .waitTasks } := by
  obtain ⟨hids, hnd, hsub, hrest⟩ := hs.forward_eq hfwd
  have hr : r ∈ ids := hsub mem_cons_self
  refine ⟨hs.distinct, hs.rest, ?_, ?_, ?_, hs.released, hs.tables, hs.stopped, hids, ?_, ?_, ?_⟩
  · intro f hf q hq
    by_cases hne : q = r
    · subst hne
      exact Or.inr ((hids q hr).2 f hf hq)
    · refine (hs.tasks f hf q hq).imp_left fun hl => ?_
      exact hl.mono rfl (fun h => h) (fun h => h) (signalled_of_ne hne)
  · exact nodup_append_signal hs.once (hrest r mem_cons_self)
  · intro key hk
    rcases signalled_append.mp hk with ho | rfl
    · exact hs.signals key ho
    · exact ⟨le_rfl, fun _ => Or.inr (hs.stopped (hids r hr).1)⟩
  · exact hnd.of_cons
  · exact fun q hq => hsub (mem_cons_of_mem r hq)
  · intro q hq hsig
    refine hrest q (mem_cons_of_mem r hq) (signalled_of_ne ?_ hsig)
    rintro rfl
    exact (nodup_cons.mp hnd).1 hq

/-- A release gives up on a request. -/
theorem Sound.gaveUp {stage : DrainStage}
    (hfwd : s.forward = .draining signal ids (r :: rest) stage) :
    ForwardSound s.push s.signals (.draining signal ids rest .waitTasks) := by
  obtain ⟨hids, hnd, hsub, hr⟩ := hs.forward_eq hfwd
  exact ⟨hids, hnd.of_cons, fun q hq => hsub (mem_cons_of_mem r hq),
    fun q hq => hr q (mem_cons_of_mem r hq)⟩

/-- A request is closed that all finalize tasks will skip. -/
theorem Sound.closed (hfwd : s.forward = .closing (r :: rest))
    (h : s.push.step (.closeRequest r) = some push') :
    Sound { s with push := push', finishedSending, forward := .closing rest } := by
  have hsd := hs.forward_eq hfwd
  cases h
  have hl : ∀ q, s.push.life q ≤ Function.update s.push.life r (s.push.life r + 1) q := by
    intro q
    by_cases hne : q = r
    · subst hne
      rw [Function.update_self]
      exact Nat.le_succ _
    · rw [Function.update_of_ne hne]
  -- what is known of a life that is over says nothing of the next one
  have hps : ∀ {key : RequestLife},
      key.2 ≤ s.push.life key.1 → key.2 = Function.update s.push.life r (s.push.life r + 1) key.1 →
      key.1 ≠ r ∧ key.2 = s.push.life key.1 := by
    intro key hle heq
    have hne : key.1 ≠ r := by
      rintro rfl
      rw [Function.update_self] at heq
      omega
    rw [Function.update_of_ne hne] at heq
    exact ⟨hne, heq⟩
  refine ⟨hs.distinct, hs.rest, ?_, hs.once, ?_, ?_, hs.tables, ?_, ?_⟩
  · intro f hf q hq
    by_cases hne : q = r
    · subst hne
      exact Or.inr (hsd q mem_cons_self f hf hq)
    · refine (hs.tasks f hf q hq).imp_left fun hlv => ?_
      exact hlv.mono (Function.update_of_ne hne ..)
        (fun h => Finset.mem_erase.mpr ⟨hne, h⟩) (fun h => h) fun h => h
  · intro key hk
    obtain ⟨hle, hc⟩ := hs.signals key hk
    refine ⟨hle.trans (hl key.1), fun heq => ?_⟩
    obtain ⟨hne, heq⟩ := hps hle heq
    exact (hc heq).imp (fun h => Finset.mem_erase.mpr ⟨hne, h⟩)
      fun h => Finset.mem_erase.mpr ⟨hne, h⟩
  · intro key hk
    obtain ⟨hle, hc⟩ := hs.released key hk
    refine ⟨hle.trans (hl key.1), fun heq => ?_⟩
    obtain ⟨hne, heq⟩ := hps hle heq
    exact Finset.mem_erase.mpr ⟨hne, hc heq⟩
  · exact Finset.erase_subset_erase r hs.stopped
  · exact fun q hq => hsd q (mem_cons_of_mem r hq)

theorem Sound.step {s' : PrefillHandler} {ev : PrefillEvent} (hc : s.Exclusive ev)
    (h : s.Step ev s') : s'.Sound := by
  cases h with
  | idle => exact hs
  | thread hev h => exact hs.thread hev h
  | skipped =>
    exact ⟨hs.distinct, hs.rest, hs.tasks, hs.once, hs.signals, hs.released, hs.tables, hs.stopped,
      hs.forward⟩
  | planned _ hranks =>
    refine ⟨hs.distinct, hs.rest, hs.tasks, hs.once, hs.signals, hs.released, ?_, hs.stopped,
      trivial⟩
    exact forall_lookup_insert (nodup_physicalReqIds hranks) hs.tables
  | submitted _ h =>
    cases PushSystem.step_cases h with
    | idle => exact hs
    | submitted => exact hs.elsewhere ⟨rfl, rfl, rfl, rfl⟩ rfl rfl
    | ended hev => rcases hev with hev | hev <;> cases hev
  | finalized hid hids h => exact hs.finalize hc hid hids h
  | releases _ _ hids h => exact hs.released_begins hids h
  | closesUnknown _ hn =>
    refine hs.setForward fun r hr f hf hrest => ?_
    cases mem_singleton.mp hr
    exact absurd hrest (hc hn f hf)
  | reported =>
    refine ⟨hs.distinct, hs.rest, hs.tasks, hs.once, hs.signals, hs.released, ?_, hs.stopped, ?_⟩
    · intro reqId ids h
      simp only [reportFinished] at h
      rw [lookup_filterMap] at h
      obtain ⟨ids', hids, hk⟩ := bind_eq_some_iff.mp h
      split at hk
      · cases hk
      · cases hk
        exact hs.tables reqId ids hids
    · exact fun r hr f hf hrest => absurd hrest (hc r hr f hf)
  | returned => exact hs.setForward trivial
  | @opened r rest push _ h =>
    cases h
    have hp : Sound { s with push := { s.push with remote := insert r s.push.remote } } :=
      hs.elsewhere ⟨rfl, rfl, rfl, rfl⟩ rfl rfl
    exact hp.setForward trivial
  | @cancelled reason signal ids push hfwd hsignal h =>
    obtain ⟨hsd, hids, hl⟩ := hs.cancelFinalizers hfwd hc h
    have hnd := (hs.forward_eq hfwd).1
    refine hsd.setForward ⟨hids, hnd, List.Subset.refl ids, fun r hr => ?_⟩
    unfold Exclusive at hc
    rw [hfwd] at hc
    change ¬ Signalled s.signals (r, push.life r)
    rw [hl]
    exact (hc r hr).2 (hsignal ▸ some_ne_none signal)
  | cancelledFinished hfwd h =>
    obtain ⟨hsd, hids, -⟩ := hs.cancelFinalizers hfwd hc h
    exact hsd.endRelease hids
  | drained hfwd _ h =>
    obtain ⟨-, rfl⟩ := guarded_eq_some.mp h
    exact hs.noError.setForward (hs.forward_eq hfwd)
  | drainFailed hfwd h =>
    obtain ⟨-, rfl⟩ := guarded_eq_some.mp h
    exact hs.noError.setForward (hs.gaveUp hfwd)
  | waits hfwd | writesOver hfwd =>
    have hsd := hs.forward_eq hfwd
    exact hs.setForward hsd
  | gaveUp _ hfwd => exact hs.setForward (hs.gaveUp hfwd)
  | signalled hfwd => exact hs.signalled hfwd
  | releaseReturned hfwd =>
    exact hs.endRelease (hs.forward_eq hfwd).1
  | closed hfwd h => exact hs.closed hfwd h

end

theorem new_sound : new.Sound where
  distinct := .nil
  rest := nofun
  tasks := nofun
  once := nodup_nil
  signals := nofun
  released := by
    intro key hk
    exact absurd hk (Finset.notMem_empty key)
  tables := nofun
  stopped := Finset.Subset.refl _
  forward := trivial

/-- What a step inserts into `finished_sending`. -/
theorem inserts_cases {s : PushSystem} (h : s.inserts ev = some key) :
    ∃ f ∈ s.finalizers, f.rest.head? = some key.1 ∧
      f.stage = .sent ∧ key.2 = f.lives key.1 := by
  unfold PushSystem.inserts at h
  split at h
  · split at h
    next hf =>
      cases h
      exact ⟨_, mem_of_getElem? hf, rfl, rfl, rfl⟩
    · cases h
  · cases h

/-- A physical request gets at most one signal, and what is inserted into `finished_sending` has not
been released. -/
structure SingleSignal (s : PrefillHandler) : Prop where
  once : (s.signals.map Prod.fst).Nodup
  released : ∀ ev key, s.push.inserts ev = some key → key ∉ s.released

/-- There is one signal for a physical request in exclusive runs. -/
theorem single_signal {events : List PrefillEvent} {s : PrefillHandler}
    (hcond : Run.Meets step Exclusive new events) (hrun : Run.exec step new events = some s) :
    s.SingleSignal := by
  have hs : s.Sound :=
    exec_invariant_of_meets (I := Sound) (fun _ _ _ hs hev h => hs.step hev (step_cases h))
      new_sound hcond hrun
  refine ⟨hs.once, fun ev key h => ?_⟩
  obtain ⟨f, hf, hhead, hstage, hlife⟩ := inserts_cases h
  have hsending : f.Sending key.1 := ⟨hhead, congrArg FinalizeStage.sending hstage⟩
  rcases hs.tasks f hf key.1 (mem_of_mem_head? hhead) with hlive | hstopped
  · have hkey : key = (key.1, s.push.life key.1) := Prod.ext rfl (hlife.trans hlive.life)
    rw [hkey]
    exact hlive.released
  · exact absurd hsending hstopped.sending

/-- The steps with which a finalize task of one request comes to its `push_done` and sends it. -/
def finalizerSteps (n : Nat) : List PrefillEvent :=
  List.replicate n (.thread (.finalizerStep 0))

/-- A request with two targets is aborted while its finalize task waits; another one is done. -/
def abortBesideDone : List PrefillEvent :=
  [.push "a" [0, 1], .forward, .forward, .forward, .submit "a" "a#d0", .thread (.startTask 0),
    .finalize "a", .thread (.finalizerStep 0), .release "a" .consumerAbort, .forward,
    .thread (.runTask 0 (.pushed true)), .thread (.finishTask 0),
    .thread (.completeWrite 0 true)] ++ List.replicate 8 .forward ++ finalizerSteps 2 ++
    List.replicate 4 .forward ++ finalizerSteps 2 ++
    [.push "b" [0], .forward, .forward, .finalize "b"] ++ finalizerSteps 6

theorem single_signal_abort_beside_done :
    ∃ s ∈ Run.exec step new abortBesideDone,
      s.signals.map Prod.snd = [.abort, .abort, .done] ∧
        s.push.inserts (.finalizerStep 0) = some ("b", 0) ∧ s.SingleSignal := by
  have hrun : exec step new abortBesideDone = some _ :=
    (some_get (by decide +kernel)).symm
  exact ⟨_, hrun, by decide +kernel, by decide +kernel, single_signal (by decide +kernel) hrun⟩

/-- A request that is done and not reported is aborted. -/
def abortAfterDone : List PrefillEvent :=
  [.push "a" [0], .forward, .forward, .finalize "a"] ++ finalizerSteps 8 ++
    [.release "a" .consumerAbort] ++ List.replicate 5 .forward

/-- A request is aborted after the last look of its finalize task. -/
def abortDuringDone : List PrefillEvent :=
  [.push "a" [0], .forward, .forward, .finalize "a"] ++ finalizerSteps 5 ++
    [.release "a" .consumerAbort] ++ List.replicate 6 .forward ++ finalizerSteps 1

/-- The decode side gets both signals in both runs, and in the second one the request is inserted
into `finished_sending` after the release has returned. -/
theorem done_and_abort :
    (∃ s ∈ Run.exec step new abortAfterDone,
      s.signals = [(("a", 0), .done), (("a", 0), .abort)]) ∧
      ∃ s ∈ Run.exec step new abortDuringDone,
        s.signals = [(("a", 0), .abort), (("a", 0), .done)] ∧
          s.push.inserts (.finalizerStep 0) = some ("a", 0) ∧ ("a", 0) ∈ s.released := by
  have hafter : exec step new abortAfterDone = some _ :=
    (some_get (by decide +kernel)).symm
  have hduring : exec step new abortDuringDone = some _ :=
    (some_get (by decide +kernel)).symm
  exact ⟨⟨_, hafter, by decide +kernel⟩, _, hduring, by decide +kernel, by decide +kernel,
    by decide +kernel⟩

end PrefillHandler

end PegaFlow.Pd
