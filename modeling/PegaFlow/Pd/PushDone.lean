import PegaFlow.Pd.PushTasks

/-!
# When `push_done` is sent

The done immediate of a request promises the decode side that its blocks are there: no push task
of the request is left, none raised or was skipped, and all its writes completed without error
(`Pushed`).  The writes are counted per request, and that part needs nothing but that a request is
closed when its tasks and its finalize task are over.  The tasks are not: their error slot is
shared, and the promise holds as long as every error is taken by the request that it belongs to
(`Orderly`).
-/

namespace PegaFlow.Pd

open List Option Table Run

/-- An update of what is not looked at. -/
theorem map_set_of_eq {α β : Type} {g : α → β} {l : List α} {i : Nat} {a a' : α}
    (ha : l[i]? = some a) (h : g a' = g a) : (l.set i a').map g = l.map g := by
  obtain ⟨hi, rfl⟩ := List.getElem?_eq_some_iff.mp ha
  rw [map_set, h, ← getElem_map g, set_getElem_self]
  rwa [length_map]

namespace PushSystem

variable {s s' : PushSystem} {f f' : Finalizer} {i : Nat} {ev : PushEvent}
variable {r q : PhysicalReqId} {rest : List PhysicalReqId} {events : List PushEvent}

/-- The push tasks of a request that are submitted and not finished. -/
def tasksOf (s : PushSystem) (r : PhysicalReqId) : Nat := s.tasks.countP fun t => t.req = r

/-- Everything that was pushed for the request has arrived. -/
structure Pushed (s : PushSystem) (r : PhysicalReqId) : Prop where
  tasks : s.tasksOf r = 0
  failed : r ∉ s.failed
  completed : (s.countsOf (r, s.life r)).completed = (s.countsOf (r, s.life r)).submitted
  errors : (s.countsOf (r, s.life r)).errors = 0
  writes : (r, s.life r) ∉ s.writes

variable (s)

/-- The stored error, if there is one, was raised by a task of this request. -/
def OwnError (r : PhysicalReqId) : Prop := s.error = none ∨ s.error = some r

instance (r : PhysicalReqId) : Decidable (s.OwnError r) :=
  inferInstanceAs (Decidable (_ ∨ _))

/-- No task is skipped before the finalize task of its request is cancelled too, no task raises over
the error of another request, no wait takes the error of another request, and a request is closed
when its tasks and its finalize task are over. -/
def Orderly : PushEvent → Prop
  | .startTask i =>
    ∀ t ∈ s.tasks[i]?, t.req ∈ s.cancelled →
      t.req ∈ s.stopped ∨ ∀ f ∈ s.finalizers, t.req ∉ f.reqIds
  | .runTask i (.raised _) => ∀ t ∈ s.tasks[i]?, s.OwnError t.req
  | .finalizerStep i =>
    ∀ f ∈ s.finalizers[i]?, f.stage = .waitTasks → ∀ r ∈ f.rest.head?, s.OwnError r
  | .drain r => s.OwnError r
  | .closeRequest r => s.tasksOf r = 0 ∧ ∀ f ∈ s.finalizers, r ∉ f.reqIds
  | _ => True

instance decidableOrderly : ∀ ev, Decidable (s.Orderly ev)
  | .openRequest _ | .submit _ => isTrue trivial
  | .startTask _ => inferInstanceAs (Decidable (∀ _ ∈ _, _ → _ ∨ ∀ _ ∈ _, _))
  | .runTask _ (.pushed _) => isTrue trivial
  | .runTask _ (.raised _) => inferInstanceAs (Decidable (∀ _ ∈ _, _))
  | .finishTask _ | .completeWrite _ _ | .finalize _ => isTrue trivial
  | .finalizerStep _ => inferInstanceAs (Decidable (∀ _ ∈ _, _ → ∀ _ ∈ _, _))
  | .finalizerRaises _ | .cancelPushes _ | .cancelFinalizers _ => isTrue trivial
  | .drain r => inferInstanceAs (Decidable (s.OwnError r))
  | .closeRequest _ => inferInstanceAs (Decidable (_ ∧ ∀ _ ∈ _, _))

/-! ## Writes -/

/-- The counters of the writes are right. -/
def Counted : Prop :=
  ∀ key, (s.countsOf key).submitted = (s.countsOf key).completed + s.writes.count key ∧
    (s.countsOf key).errors ≤ (s.countsOf key).completed

variable {s}

variable {counts : WriteCounts} {key : PhysicalReqId × Nat}

/-- A step that changes the counters of one request, keeping them right. -/
theorem Counted.of_insert (hs : s.Counted)
    (htable : s'.writeCounts = s.writeCounts.insert key counts)
    (hoth : ∀ k ≠ key, s'.writes.count k = s.writes.count k)
    (hcts : counts.submitted = counts.completed + s'.writes.count key)
    (herrors : counts.errors ≤ counts.completed) : s'.Counted := by
  intro k
  have hof : s'.countsOf k = if k = key then counts else s.countsOf k := by
    rw [countsOf, htable, getD_lookup_insert, countsOf]
  rw [hof]
  split
  next hk =>
    subst hk
    exact ⟨hcts, herrors⟩
  next hk =>
    rw [hoth k hk]
    exact hs k

theorem Counted.submitWrite (hs : s.Counted) : (s.submitWrite r).Counted := by
  have hct : ∀ k, (s.submitWrite r).writes.count k =
      s.writes.count k + [(r, s.life r)].count k := fun k => count_append ..
  have hkey := hs (r, s.life r)
  refine hs.of_insert rfl (fun k hk => ?_) ?_ hkey.2
  · have hnot : k ∉ [(r, s.life r)] := by simpa using hk
    rw [hct, count_eq_zero.mpr hnot, Nat.add_zero]
  · rw [hct, count_singleton_self]
    dsimp only
    omega

theorem Counted.failWrite (hs : s.Counted) : (s.failWrite r).Counted := by
  have hkey := hs (r, s.life r)
  refine hs.of_insert rfl (fun k hk => rfl) ?_ (Nat.succ_le_succ hkey.2)
  change (s.countsOf _).submitted + 1 = (s.countsOf _).completed + 1 + s.writes.count _
  omega

theorem Step.counted (h : s.Step ev s') (hs : s.Counted) : s'.Counted := by
  cases h with
  | @wrote i r ht => exact Counted.submitWrite (s := s.setStage i ⟨r, .running⟩ .ended) hs
  | @failedWrite i r ht => exact Counted.failWrite (s := s.setStage i ⟨r, .running⟩ .ended) hs
  | @completed i ok key hkey =>
    obtain ⟨hi, rfl⟩ := List.getElem?_eq_some_iff.mp hkey
    have hp := getElem_cons_eraseIdx_perm hi
    obtain ⟨hsubm, herrors⟩ := hs s.writes[i]
    refine hs.of_insert rfl (fun k hk => ?_) ?_ ?_
    · rw [← hp.count_eq k, count_cons_of_ne (Ne.symm hk)]
    · rw [← hp.count_eq, count_cons_self] at hsubm
      change (s.countsOf _).submitted = (s.countsOf _).completed + 1 + (s.writes.eraseIdx i).count _
      omega
    · dsimp only
      split <;> omega
  | _ => exact hs

/-! ## Tasks in flight -/

structure Books (s : PushSystem) : Prop where
  inflight : ∀ r, s.inflight r = s.tasksOf r
  cancelled : ∀ r ∈ s.cancelled, 0 < s.tasksOf r ∧ r ∈ s.releasing

variable {stage : TaskStage}

theorem tasksOf_pos_of_getElem? (ht : s.tasks[i]? = some ⟨r, stage⟩) : 0 < s.tasksOf r :=
  countP_pos_iff.mpr ⟨_, mem_of_getElem? ht, decide_eq_true rfl⟩

variable {t : LayerTask}

/-- A task and the others. -/
theorem tasksOf_eq_eraseIdx (ht : s.tasks[i]? = some t) (q : PhysicalReqId) :
    s.tasksOf q =
      (s.tasks.eraseIdx i).countP (fun t => t.req = q) + if t.req = q then 1 else 0 := by
  obtain ⟨hi, rfl⟩ := List.getElem?_eq_some_iff.mp ht
  rw [tasksOf, ← (getElem_cons_eraseIdx_perm hi).countP_eq, countP_cons]
  simp only [decide_eq_true_eq]

theorem tasksOf_setStage (ht : s.tasks[i]? = some t) (q : PhysicalReqId) :
    (s.setStage i t stage).tasksOf q = s.tasksOf q := by
  obtain ⟨hi, -⟩ := List.getElem?_eq_some_iff.mp ht
  rw [tasksOf_eq_eraseIdx ht, tasksOf, setStage, (set_perm_cons_eraseIdx hi _).countP_eq,
    countP_cons]
  simp only [decide_eq_true_eq]

theorem Books.of_eq (hs : s.Books) (hinf : s'.inflightByReq = s.inflightByReq)
    (htks : ∀ q, s'.tasksOf q = s.tasksOf q) (hcan : s'.cancelled = s.cancelled)
    (hrel : s'.releasing = s.releasing) : s'.Books := by
  refine ⟨fun q => ?_, fun q hq => ?_⟩
  · rw [PushSystem.inflight, hinf, htks]
    exact hs.inflight q
  · rw [htks, hrel]
    exact hs.cancelled q (hcan ▸ hq)

theorem Books.finish (hs : s.Books) (ht : s.tasks[i]? = some ⟨r, .ended⟩) :
    ({ s with tasks := s.tasks.eraseIdx i }.finish r).Books := by
  have htks := tasksOf_eq_eraseIdx ht
  refine ⟨fun q => ?_, fun q hq => ?_⟩
  · rw [inflight_finish]
    have hq := (hs.inflight q).trans (htks q)
    split
    next hqr =>
      subst hqr
      rw [if_pos rfl] at hq
      exact Nat.sub_eq_of_eq_add hq
    next hqr =>
      rw [if_neg (Ne.symm hqr)] at hq
      exact hq
  · obtain ⟨hcan, hl⟩ := mem_cancelled_finish.mp hq
    obtain ⟨hpos, hrel⟩ := hs.cancelled q hcan
    refine ⟨?_, hrel⟩
    change 0 < (s.tasks.eraseIdx i).countP (fun t => t.req = q)
    have hin := (hs.inflight q).trans (htks q)
    rw [htks q] at hpos
    split at hin
    next hrq =>
      have : 1 < s.inflight q := hrq ▸ hl hrq.symm
      omega
    next hrq =>
      rw [if_neg hrq] at hpos
      exact hpos

theorem Step.books (h : s.Step ev s') (hev : s.Orderly ev) (hs : s.Books) : s'.Books := by
  cases h with
  | @submitted r _ _ =>
    have htks : ∀ q, (s.tasks ++ [LayerTask.mk r .queued]).countP (fun t => t.req = q) =
        s.tasksOf q + if r = q then 1 else 0 := by
      intro q
      rw [countP_append, countP_singleton, tasksOf]
      simp only [decide_eq_true_eq]
    refine ⟨fun q => ?_, fun q hq => ?_⟩
    · refine (getD_lookup_insert 0).trans (Eq.trans ?_ (htks q).symm)
      split
      next hqr => rw [hqr, if_pos rfl, hs.inflight]
      next hqr => rw [if_neg (Ne.symm hqr), ← hs.inflight]; rfl
    · obtain ⟨hpos, hrel⟩ := hs.cancelled q hq
      exact ⟨(Nat.lt_add_right _ hpos).trans_eq (htks q).symm, hrel⟩
  | started ht | skipped ht _ | pushed ht | wrote ht | raised ht | failedWrite ht =>
    exact hs.of_eq rfl (tasksOf_setStage ht) rfl rfl
  | finished ht => exact hs.finish ht
  | @cancelledPushes reqIds =>
    refine ⟨hs.inflight, fun q hq => ?_⟩
    rcases Finset.mem_union.mp hq with hq | hq
    · exact (hs.cancelled q hq).imp_right (Finset.mem_union_left _)
    obtain ⟨hm, hpos⟩ := mem_filter.mp (mem_toFinset.mp hq)
    rw [decide_eq_true_eq, hs.inflight] at hpos
    exact ⟨hpos, Finset.mem_union_right _ (mem_toFinset.mpr hm)⟩
  | @closed r =>
    refine ⟨hs.inflight, fun q hq => ?_⟩
    obtain ⟨hpos, hrel⟩ := hs.cancelled q hq
    refine ⟨hpos, Finset.mem_erase.mpr ⟨?_, hrel⟩⟩
    rintro rfl
    exact hpos.ne' hev.1
  | _ => exact hs.of_eq rfl (fun _ => rfl) rfl rfl

/-! ## Finalize tasks -/

/-- Each finalize task has requests of its own. -/
structure Queue (s : PushSystem) : Prop where
  distinct : (s.finalizers.map Finalizer.reqIds).Pairwise List.Disjoint
  named : ∀ f ∈ s.finalizers, ∀ r ∈ f.reqIds, r ∈ s.done
  rest : ∀ f ∈ s.finalizers, f.rest ⊆ f.reqIds
  stopped : ∀ f ∈ s.finalizers, ∀ r ∈ f.reqIds, r ∈ s.stopped → r ∈ s.finalizersCancelled
  releasing : s.stopped ⊆ s.releasing

theorem Moves.reqIds_eq (h : s.Moves f r rest f') : f'.reqIds = f.reqIds := by
  cases h <;> rfl

theorem Moves.rest_subset (h : s.Moves f r rest f') (hr : f.rest = r :: rest) :
    f'.rest ⊆ f.rest := by
  cases h with
  | skips | inserted =>
    rw [hr]
    exact subset_cons_self _ _
  | _ => exact List.Subset.refl _

/-- Another finalize task has other requests. -/
theorem disjoint_of_mem_eraseIdx {l : List Finalizer} {g : Finalizer}
    (hd : (l.map Finalizer.reqIds).Pairwise List.Disjoint) (hf : l[i]? = some f)
    (hg : g ∈ l.eraseIdx i) : List.Disjoint f.reqIds g.reqIds := by
  obtain ⟨j, hji, hj⟩ := mem_eraseIdx_iff_getElem?.mp hg
  obtain ⟨hi, rfl⟩ := List.getElem?_eq_some_iff.mp hf
  obtain ⟨hj', rfl⟩ := List.getElem?_eq_some_iff.mp hj
  have hd := pairwise_iff_getElem.mp (pairwise_map.mp hd)
  rcases Nat.lt_or_gt_of_ne hji with hlt | hlt
  · exact (hd j i hj' hi hlt).symm
  · exact hd i j hi hj' hlt

theorem Queue.moved (hs : s.Queue) (hf : s.finalizers[i]? = some f) (hr : f.rest = r :: rest)
    (h : s.Moves f r rest f') : (s.setFinalizer i f').Queue := by
  have hm := mem_of_getElem? hf
  have hset : ∀ {P : Finalizer → Prop}, (∀ g ∈ s.finalizers, P g) → P f' →
      ∀ g ∈ s.finalizers.set i f', P g := fun hall hf' g hg =>
    (mem_or_eq_of_mem_set hg).elim (hall g) fun heq => heq ▸ hf'
  refine ⟨?_, hset hs.named ?_, hset hs.rest ?_, hset hs.stopped ?_, hs.releasing⟩
  · exact (congrArg (List.Pairwise List.Disjoint) (map_set_of_eq hf h.reqIds_eq)).mpr hs.distinct
  · rw [h.reqIds_eq]
    exact hs.named f hm
  · rw [h.reqIds_eq]
    exact List.Subset.trans (h.rest_subset hr) (hs.rest f hm)
  · rw [h.reqIds_eq]
    exact hs.stopped f hm

theorem Queue.ended (hs : s.Queue) (hf : s.finalizers[i]? = some f) (raised : Bool) :
    (s.endFinalizer i f raised).Queue := by
  have hm : ∀ {g}, g ∈ s.finalizers.eraseIdx i → g ∈ s.finalizers := mem_of_mem_eraseIdx
  refine ⟨hs.distinct.sublist ((eraseIdx_sublist ..).map _), fun g hg => hs.named g (hm hg),
    fun g hg => hs.rest g (hm hg), fun g hg r hr hsp => ?_, hs.releasing⟩
  refine Finset.mem_sdiff.mpr ⟨hs.stopped g (hm hg) r hr hsp, fun hrf => ?_⟩
  exact disjoint_of_mem_eraseIdx hs.distinct hf hg (mem_toFinset.mp hrf) hr

theorem Step.queue (h : s.Step ev s') (hev : s.Orderly ev) (hs : s.Queue) : s'.Queue := by
  cases h with
  | marked =>
    exact ⟨hs.distinct, fun f hf r hr => Finset.mem_union_left _ (hs.named f hf r hr), hs.rest,
      hs.stopped, hs.releasing⟩
  | @finalized reqIds hnew =>
    have happ : ∀ {P : Finalizer → Prop}, (∀ g ∈ s.finalizers, P g) →
        P ⟨reqIds, reqIds, .check, s.life⟩ →
        ∀ g ∈ s.finalizers ++ [⟨reqIds, reqIds, .check, s.life⟩], P g := fun hall hl g hg =>
      (mem_append.mp hg).elim (hall g) fun hg => mem_singleton.mp hg ▸ hl
    refine ⟨?_, happ ?_ ?_, happ hs.rest (List.Subset.refl _), happ hs.stopped ?_, hs.releasing⟩
    · rw [map_append, pairwise_append]
      refine ⟨hs.distinct, pairwise_singleton .., fun ids hids ids' hids' r hr hr' => ?_⟩
      obtain ⟨f, hf, rfl⟩ := mem_map.mp hids
      cases mem_singleton.mp hids'
      exact (hnew r hr').1 (hs.named f hf r hr)
    · exact fun f hf r hr => Finset.mem_union_left _ (hs.named f hf r hr)
    · exact fun r hr => Finset.mem_union_right _ (mem_toFinset.mpr hr)
    · exact fun r hr hsp => absurd (hs.releasing hsp) (hnew r hr).2
  | moved hf hrest h => exact hs.moved hf hrest h
  | tookError hf _ _ =>
    have hn := hs.ended hf true
    exact ⟨hn.distinct, hn.named, hn.rest, hn.stopped, hn.releasing⟩
  | ended _ hf => exact hs.ended hf _
  | cancelledPushes =>
    exact ⟨hs.distinct, hs.named, hs.rest, hs.stopped, hs.releasing.trans Finset.subset_union_left⟩
  | @cancelledFinalizers reqIds hrel =>
    refine ⟨hs.distinct, hs.named, hs.rest, fun f hf r hr hsp => ?_,
      Finset.union_subset hs.releasing fun r hr => hrel r (mem_toFinset.mp hr)⟩
    rcases Finset.mem_union.mp hsp with ho | hnew
    · exact Finset.mem_union_left _ (hs.stopped f hf r hr ho)
    refine Finset.mem_union_right _ (mem_toFinset.mpr (mem_filter.mpr ⟨?_, ?_⟩))
    · exact mem_toFinset.mp hnew
    · exact any_eq_true.mpr ⟨f, hf, decide_eq_true hr⟩
  | @closed r =>
    refine ⟨hs.distinct, fun f hf q hq => ?_, hs.rest, fun f hf q hq hsp => ?_,
      Finset.erase_subset_erase r hs.releasing⟩
    · have hqr : q ≠ r := fun heq => hev.2 f hf (heq ▸ hq)
      exact Finset.mem_erase.mpr ⟨hqr, hs.named f hf q hq⟩
    · exact hs.stopped f hf q hq (Finset.mem_of_mem_erase hsp)
  | _ => exact ⟨hs.distinct, hs.named, hs.rest, hs.stopped, hs.releasing⟩

/-! ## Errors -/

/-- `wait_req` is over. -/
def Waited : FinalizeStage → Prop
  | .check | .waitTasks => False
  | _ => True

/-- The finalize task of the request is cancelled, or it is over, or there will be none. -/
def Over (s : PushSystem) (r : PhysicalReqId) : Prop :=
  r ∈ s.stopped ∨ ((r ∈ s.done ∨ r ∈ s.releasing) ∧ ∀ f ∈ s.finalizers, r ∉ f.reqIds)

/-- The error of a request with a failed task is stored until the request is over, and a finalize
task past `wait_req` goes on with a request only if none of its tasks failed. -/
structure Blame (s : PushSystem) : Prop where
  failed : ∀ r ∈ s.failed, s.error = some r ∨ s.Over r
  waited : ∀ f ∈ s.finalizers, ∀ r ∈ f.rest.head?, Waited f.stage →
    s.tasksOf r = 0 ∧ (r ∈ s.failed → f.stage = .checkTasks ∧ r ∈ s.finalizersCancelled)

section

variable (hs : s.Blame)
include hs

/-- A step of a push task, of a request that no finalize task has waited for. -/
theorem Blame.of_task (ht : 0 < s.tasksOf r) (htks : ∀ q, s'.tasksOf q ≤ s.tasksOf q)
    (hfl : s'.failed ⊆ insert r s.failed) (hfinz : s'.finalizers = s.finalizers)
    (hcan : s'.finalizersCancelled = s.finalizersCancelled)
    (hblame : ∀ q ∈ s'.failed, s'.error = some q ∨ s'.Over q) : s'.Blame := by
  refine ⟨hblame, fun f hf q hq hw => ?_⟩
  rw [hfinz] at hf
  obtain ⟨hz, hfail⟩ := hs.waited f hf q hq hw
  refine ⟨Nat.eq_zero_of_le_zero (hz ▸ htks q), fun hm => ?_⟩
  rw [hcan]
  rcases Finset.mem_insert.mp (hfl hm) with rfl | ho
  · exact absurd hz ht.ne'
  · exact hfail ho

theorem Blame.of_setStage {stage' : TaskStage} (ht : s.tasks[i]? = some ⟨r, stage⟩)
    (htks : s'.tasks = (s.setStage i ⟨r, stage⟩ stage').tasks)
    (hf : s'.failed ⊆ insert r s.failed) (hfinz : s'.finalizers = s.finalizers)
    (hcan : s'.finalizersCancelled = s.finalizersCancelled)
    (hblame : ∀ q ∈ s'.failed, s'.error = some q ∨ s'.Over q) : s'.Blame := by
  refine hs.of_task (tasksOf_pos_of_getElem? ht) (fun q => ?_) hf hfinz hcan hblame
  rw [tasksOf, htks]
  exact (tasksOf_setStage ht q).le

theorem Blame.eq_or_over (hown : s.OwnError r) (hq : q ∈ s.failed) : q = r ∨ s.Over q := by
  refine (hs.failed q hq).imp_left fun herr => ?_
  rcases hown with hn | hsm
  · cases hn.symm.trans herr
  · cases hsm.symm.trans herr
    rfl

theorem Blame.raised (hown : s.OwnError r) (hq : q ∈ insert r s.failed) :
    some r = some q ∨ s.Over q := by
  rcases Finset.mem_insert.mp hq with rfl | hq
  · exact Or.inl rfl
  · exact (hs.eq_or_over hown hq).imp_left fun heq => congrArg some heq.symm

theorem Blame.moved (hbooks : s.Books) (hqu : s.Queue) (hf : s.finalizers[i]? = some f)
    (hrest : f.rest = r :: rest) (h : s.Moves f r rest f') : (s.setFinalizer i f').Blame := by
  have hm := mem_of_getElem? hf
  have hh : r ∈ f.rest.head? := by rw [hrest]; rfl
  have hr : r ∈ f.reqIds := hqu.rest f hm (hrest ▸ mem_cons_self)
  refine ⟨fun q hq => ?_, fun g hg q hq hw => ?_⟩
  · refine (hs.failed q hq).imp_right (Or.imp_right (And.imp_right fun hn g hg => ?_))
    rcases mem_or_eq_of_mem_set hg with hg | rfl
    · exact hn g hg
    · rw [h.reqIds_eq]
      exact hn f hm
  · rcases mem_or_eq_of_mem_set hg with hg | rfl
    · exact hs.waited g hg q hq hw
    have ho := hs.waited f hm r hh
    cases h with
    | skips | begins | inserted => exact hw.elim
    | tasksOver _ herr hinf =>
      cases mem_unique hh hq
      refine ⟨(hbooks.inflight r).symm.trans hinf, fun hfl => ⟨rfl, ?_⟩⟩
      rcases hs.failed r hfl with hsm | hsp | hov
      · cases herr.symm.trans hsm
      · exact hqu.stopped f hm r hr hsp
      · exact absurd hr (hov.2 f hm)
    | waits hst hcan =>
      cases mem_unique hh hq
      rw [hst] at ho
      exact (ho trivial).imp_right fun hfail hfl => absurd (hfail hfl).2 hcan
    | writesOver hst | pushes hst | sent hst =>
      cases mem_unique hh hq
      rw [hst] at ho
      exact (ho trivial).imp_right fun hfail hfl => by cases (hfail hfl).1

theorem Blame.ended_waited (hqu : s.Queue) (hf : s.finalizers[i]? = some f) :
    ∀ g ∈ s.finalizers.eraseIdx i, ∀ r ∈ g.rest.head?, Waited g.stage → s.tasksOf r = 0 ∧
      (r ∈ s.failed → g.stage = .checkTasks ∧
        r ∈ s.finalizersCancelled \ f.reqIds.toFinset) := by
  intro g hg r hr hw
  have hm := mem_of_mem_eraseIdx hg
  refine (hs.waited g hm r hr hw).imp_right fun hfail hfl => ?_
  refine (hfail hfl).imp_right fun hcan =>
    Finset.mem_sdiff.mpr ⟨hcan, fun hrf => ?_⟩
  exact disjoint_of_mem_eraseIdx hqu.distinct hf hg (mem_toFinset.mp hrf)
    (hqu.rest g hm (mem_of_mem_head? hr))

end

theorem Over.eraseIdx (h : s.Over r) (hsp : s'.stopped = s.stopped)
    (hrel : s'.releasing = s.releasing) (hd : s'.done = s.done)
    (hfinz : s'.finalizers = s.finalizers.eraseIdx i) : s'.Over r := by
  rw [Over, hsp, hrel, hd, hfinz]
  exact h.imp_right (And.imp_right fun hn f hf => hn f (mem_of_mem_eraseIdx hf))

theorem Step.blame (h : s.Step ev s') (hev : s.Orderly ev) (hbooks : s.Books) (hqu : s.Queue)
    (hs : s.Blame) : s'.Blame := by
  cases h with
  | @submitted r hd _ =>
    refine ⟨hs.failed, fun f hf q hq hw => ?_⟩
    refine (hs.waited f hf q hq hw).imp_left fun hz => ?_
    have hqr : r ≠ q := fun heq =>
      hd (hqu.named f hf r (hqu.rest f hf (heq ▸ mem_of_mem_head? hq)))
    simpa [tasksOf, hqr] using hz
  | started ht | pushed ht | wrote ht =>
    exact hs.of_setStage ht rfl (Finset.subset_insert ..) rfl rfl hs.failed
  | @skipped i r ht hr =>
    refine hs.of_setStage ht rfl (Finset.Subset.refl _) rfl rfl fun q hq => ?_
    rcases Finset.mem_insert.mp hq with rfl | hq
    · refine Or.inr ((hev _ ht hr).imp_right fun hn => ⟨Or.inr ?_, hn⟩)
      exact (hbooks.cancelled _ hr).2
    · exact hs.failed q hq
  | raised ht | failedWrite ht =>
    exact hs.of_setStage ht rfl (Finset.Subset.refl _) rfl rfl fun q => hs.raised (hev _ ht)
  | finished ht =>
    refine hs.of_task (tasksOf_pos_of_getElem? ht) (fun q => ?_)
      (Finset.subset_insert ..) rfl rfl hs.failed
    rw [tasksOf_eq_eraseIdx ht]
    exact Nat.le_add_right ..
  | marked =>
    refine ⟨fun q hq => (hs.failed q hq).imp_right ?_, hs.waited⟩
    exact Or.imp_right (And.imp_left (Or.imp_left (Finset.mem_union_left _)))
  | @finalized reqIds hnew =>
    refine ⟨fun q hq => (hs.failed q hq).imp_right (Or.imp_right ?_), fun f hf => ?_⟩
    · rintro ⟨ho, hn⟩
      refine ⟨ho.imp_left (Finset.mem_union_left _), fun f hf => ?_⟩
      rcases mem_append.mp hf with hf | hf
      · exact hn f hf
      · cases mem_singleton.mp hf
        exact fun hqr => ho.elim (hnew q hqr).1 (hnew q hqr).2
    · rcases mem_append.mp hf with hf | hf
      · exact hs.waited f hf
      · cases mem_singleton.mp hf
        exact fun _ _ hw => hw.elim
  | moved hf hrest h => exact hs.moved hbooks hqu hf hrest h
  | @tookError i f r rest hf hrest hst =>
    refine ⟨fun q hq => Or.inr ?_, hs.ended_waited hqu hf⟩
    have hm := mem_of_getElem? hf
    have hown := hev f hf hst r (by rw [hrest]; rfl)
    rcases hs.eq_or_over hown hq with rfl | ho
    · have hq : q ∈ f.reqIds := hqu.rest f hm (hrest ▸ mem_cons_self)
      refine Or.inr ⟨Or.inl (hqu.named f hm q hq), fun g hg => ?_⟩
      exact disjoint_of_mem_eraseIdx hqu.distinct hf hg hq
    · exact ho.eraseIdx rfl rfl rfl rfl
  | ended _ hf =>
    exact ⟨fun q hq => (hs.failed q hq).imp_right fun ho => ho.eraseIdx rfl rfl rfl rfl,
      hs.ended_waited hqu hf⟩
  | cancelledPushes =>
    refine ⟨fun q hq => (hs.failed q hq).imp_right ?_, hs.waited⟩
    exact Or.imp_right (And.imp_left (Or.imp_right (Finset.mem_union_left _)))
  | cancelledFinalizers =>
    refine ⟨fun q hq => (hs.failed q hq).imp_right (Or.imp_left (Finset.mem_union_left _)), ?_⟩
    intro f hf r hr hw
    exact (hs.waited f hf r hr hw).imp_right fun hfail hfl =>
      (hfail hfl).imp_right (Finset.mem_union_left _)
  | drained hr =>
    refine ⟨fun q hq => Or.inr ?_, hs.waited⟩
    rcases hs.eq_or_over hev hq with rfl | ho
    · exact Or.inl hr
    · exact ho
  | @closed r =>
    refine ⟨fun q hq => ?_, fun f hf q hq hw => ?_⟩
    · obtain ⟨hqr, hq⟩ := Finset.mem_erase.mp hq
      have herase : ∀ {t : Finset PhysicalReqId}, q ∈ t → q ∈ t.erase r := fun h =>
        Finset.mem_erase.mpr ⟨hqr, h⟩
      exact (hs.failed q hq).imp_right (Or.imp herase (And.imp_left (Or.imp herase herase)))
    · exact (hs.waited f hf q hq hw).imp_right fun hfail hfl =>
        hfail (Finset.mem_of_mem_erase hfl)
  | _ => exact ⟨hs.failed, hs.waited⟩

/-! ## The done immediate -/

/-- The last wait of a finalize task is for the writes that its request has. -/
def Aimed (s : PushSystem) : Prop :=
  ∀ f ∈ s.finalizers, ∀ r ∈ f.rest.head?, ∀ target, f.stage = .pushDone target →
    target = s.writeTarget r

theorem Aimed.of_eq (hs : s.Aimed) (hsub : ∀ f ∈ s'.finalizers, f ∈ s.finalizers)
    (htgt : ∀ f ∈ s.finalizers, ∀ r ∈ f.rest.head?, Waited f.stage →
      s'.writeTarget r = s.writeTarget r) : s'.Aimed := by
  intro f hf r hr target hst
  have hf := hsub f hf
  rw [htgt f hf r hr (hst ▸ trivial)]
  exact hs f hf r hr target hst

theorem writeTarget_of_submitted_eq (hl : s'.life r = s.life r)
    (hsubm : (s'.countsOf (r, s.life r)).submitted = (s.countsOf (r, s.life r)).submitted) :
    s'.writeTarget r = s.writeTarget r := by
  rw [writeTarget, writeTarget, hl, hsubm]

/-- A write counts for its own request. -/
theorem countsOf_insert_of_ne {k : Nat}
    (htable : s'.writeCounts = s.writeCounts.insert (r, k) counts) (hqr : q ≠ r) (j : Nat) :
    s'.countsOf (q, j) = s.countsOf (q, j) := by
  rw [countsOf, htable, getD_lookup_insert, if_neg fun heq => hqr (congrArg Prod.fst heq), countsOf]

/-- The completion of a write leaves the number of writes as it is. -/
theorem submitted_insert {completed errors : Nat} (htable : s'.writeCounts =
      s.writeCounts.insert key ⟨(s.countsOf key).submitted, completed, errors⟩)
    (k : PhysicalReqId × Nat) : (s'.countsOf k).submitted = (s.countsOf k).submitted := by
  rw [countsOf, htable, getD_lookup_insert]
  split
  next heq => rw [heq]
  · rfl

theorem Step.aimed (h : s.Step ev s') (hev : s.Orderly ev) (hqu : s.Queue) (hblame : s.Blame)
    (hs : s.Aimed) : s'.Aimed := by
  cases h with
  | wrote ht | failedWrite ht =>
    refine hs.of_eq (fun _ hf => hf) fun f hf q hq hw => writeTarget_of_submitted_eq rfl ?_
    -- Only the push of another request counts a write while a task is past `wait_req`.
    refine congrArg WriteCounts.submitted (countsOf_insert_of_ne rfl ?_ _)
    rintro rfl
    exact (tasksOf_pos_of_getElem? ht).ne' (hblame.waited f hf q hq hw).1
  | @completed i ok key hk =>
    refine hs.of_eq (fun _ hf => hf) fun f hf q hq hw => writeTarget_of_submitted_eq rfl ?_
    exact submitted_insert rfl (q, s.life q)
  | finalized hnew =>
    refine forall_mem_concat.mpr ⟨hs, ?_⟩
    intro r hr target hst
    cases hst
  | @moved i f f' r rest hf hrest h =>
    intro g hg q hq target hst
    rcases mem_or_eq_of_mem_set hg with hg | rfl
    · exact hs g hg q hq target hst
    cases h with
    | pushes =>
      cases hst
      have hh : r ∈ f.rest.head? := by rw [hrest]; rfl
      cases mem_unique hh hq
      rfl
    | _ => cases hst
  | tookError hf _ _ | ended _ hf =>
    exact hs.of_eq (fun _ => mem_of_mem_eraseIdx) fun _ _ _ _ _ => rfl
  | @closed r =>
    refine hs.of_eq (fun _ hf => hf) fun f hf q hq hw => writeTarget_of_submitted_eq ?_ rfl
    have hqr : q ≠ r := by
      rintro rfl
      exact hev.2 f hf (hqu.rest f hf (mem_of_mem_head? hq))
    exact Function.update_of_ne hqr ..
  | _ => exact hs

/-- What holds in every state of an orderly run. -/
structure Inv (s : PushSystem) : Prop where
  counted : s.Counted
  books : s.Books
  queue : s.Queue
  blame : s.Blame
  aimed : s.Aimed

theorem Inv.init : init.Inv where
  counted _ := ⟨rfl, le_rfl⟩
  books := ⟨fun _ => rfl, fun _ h => absurd h (Finset.notMem_empty _)⟩
  queue := ⟨.nil, fun _ h => (List.not_mem_nil h).elim, fun _ h => (List.not_mem_nil h).elim,
    fun _ h => (List.not_mem_nil h).elim, Finset.Subset.refl _⟩
  blame := ⟨fun _ h => absurd h (Finset.notMem_empty _), fun _ h => (List.not_mem_nil h).elim⟩
  aimed _ h := (List.not_mem_nil h).elim

theorem Inv.step (hs : s.Inv) (hev : s.Orderly ev) (h : s.step ev = some s') : s'.Inv :=
  have h := step_cases h
  { counted := h.counted hs.counted
    books := h.books hev hs.books
    queue := h.queue hev hs.queue
    blame := h.blame hev hs.books hs.queue hs.blame
    aimed := h.aimed hev hs.queue hs.blame hs.aimed }

theorem sends_cases (h : s.sends ev = some r) :
    ∃ f ∈ s.finalizers, r ∈ f.rest.head? ∧
      ∃ target, f.stage = .pushDone target ∧ s.writesOver r target = .completed := by
  unfold sends at h
  split at h
  · split at h
    next hf =>
      obtain ⟨⟨ho, -⟩, rfl⟩ := guarded_eq_some.mp h
      exact ⟨_, mem_of_getElem? hf, rfl, _, rfl, ho⟩
    · cases h
  · cases h

theorem Counted.of_writesOver (hs : s.Counted) (h : s.writesOver r (s.writeTarget r) = .completed) :
    let counts := s.countsOf (r, s.life r)
    counts.completed = counts.submitted ∧ counts.errors = 0 ∧ (r, s.life r) ∉ s.writes := by
  obtain ⟨hsubm, herrors⟩ := hs (r, s.life r)
  rw [← count_eq_zero]
  rw [writeTarget] at h
  split at h
  · omega
  · rw [writesOver] at h
    split at h
    · cases h
    split at h
    · omega
    · cases h

theorem Inv.pushed (hs : s.Inv) (h : s.sends ev = some r) : s.Pushed r := by
  obtain ⟨f, hf, hr, target, hst, ho⟩ := sends_cases h
  obtain ⟨htks, hfl⟩ := hs.blame.waited f hf r hr (hst ▸ trivial)
  cases hs.aimed f hf r hr target hst
  obtain ⟨hcm, herrors, hwrites⟩ := hs.counted.of_writesOver ho
  refine ⟨htks, fun hm => ?_, hcm, herrors, hwrites⟩
  cases hst.symm.trans (hfl hm).1

/-- `push_done` is sent only for a request whose pushes all succeeded. -/
theorem pushed_of_sends (ev : PushEvent) (hmeets : Run.Meets step Orderly init events)
    (hrun : Run.exec step init events = some s) (hsends : s.sends ev = some r) : s.Pushed r :=
  Inv.pushed (exec_invariant_of_meets (I := Inv) (fun _ _ _ => Inv.step) Inv.init hmeets hrun)
    hsends

/-- The push of one request fails and its finalize task takes the error; the other one is sent. -/
theorem pushed_of_sends_beside_failure :
    ∃ s ∈ Run.exec step init
      [.openRequest "a", .openRequest "b", .submit "a", .submit "b", .startTask 0, .startTask 1,
        .runTask 1 (.pushed true), .runTask 0 (.raised false), .finishTask 0, .finishTask 0,
        .finalize ["a"], .finalize ["b"], .finalizerStep 0, .finalizerStep 0, .finalizerStep 0,
        .finalizerStep 0, .finalizerStep 0, .completeWrite 0 true, .finalizerStep 0,
        .finalizerStep 0],
      s.sends (.finalizerStep 0) = some "b" ∧ s.Pushed "b" := by
  refine exists_mem_of_eq rfl fun hrun => ?_
  exact ⟨by decide +kernel, pushed_of_sends (.finalizerStep 0)
    (by decide +kernel) hrun (by decide +kernel)⟩

/-- The finalize task of one request takes the error of another, whose own finalize task then finds
none and sends `push_done`. -/
theorem error_taken_by_other_request :
    ∃ s ∈ Run.exec step init
      [.openRequest "a", .openRequest "b", .submit "a", .submit "b", .startTask 0, .startTask 1,
        .runTask 1 (.pushed true), .runTask 0 (.raised false), .finishTask 0, .finishTask 0,
        .finalize ["a"], .finalize ["b"], .finalizerStep 1, .finalizerStep 1, .finalizerStep 0,
        .finalizerStep 0, .finalizerStep 0, .finalizerStep 0, .finalizerStep 0],
      s.sends (.finalizerStep 0) = some "a" ∧ "a" ∈ s.failed ∧ ¬ s.Pushed "a" := by
  refine ⟨_, rfl, by decide +kernel, by decide +kernel, fun hpushed => ?_⟩
  exact hpushed.failed (by decide +kernel)

end PushSystem

end PegaFlow.Pd
