import PegaFlow.Ssd.Writer

/-!
# Writes that run at the same time

Space is allocated for a whole batch before its first write is submitted, and a
write is submitted even if the ring has passed its space since.  Two writes that
run at the same time can so target the same bytes, and the older one can finish
last.

Writes are submitted in the order of their allocations, so nothing overlaps when
no write is submitted while the tail has passed one that still runs
(`InflightValid`).  The invariant is `WritesApart`.  A batch that leaves twice the
outstanding bytes within every shard cannot push the tail that far
(`BatchFits`).
-/

namespace PegaFlow.Ssd

open List Run

variable {κ : Type}

/-- The same bytes of the same file are not in both. -/
def SsdIndexEntry.Apart (e f : SsdIndexEntry) : Prop :=
  e.shardId = f.shardId → e.fileRange.Disjoint f.fileRange

instance (e f : SsdIndexEntry) : Decidable (e.Apart f) :=
  inferInstanceAs (Decidable (_ → _))

theorem SsdIndexEntry.Apart.symm {e f : SsdIndexEntry} (h : e.Apart f) : f.Apart e :=
  fun hsh => (h hsh.symm).symm

/-- A command is taken from the channel, or the channel is closed. -/
def StoreEvent.IsCommand : StoreEvent κ → Prop
  | .recvWrite _ | .recvFlush | .close => True
  | _ => False

namespace SsdStore

/-- Running writes target different bytes, and the bytes of a readable entry whose
write has finished were not written again since. -/
structure NoOverlap [DecidableEq κ] (s : SsdStore κ) : Prop where
  running : s.inflight.Pairwise fun a b =>
    a.result = none → b.result = none → a.write.entry.Apart b.write.entry
  kept : ∀ before v after, s.finished = before ++ (v, true) :: after →
    s.ring.get v.key = some v.entry → ∀ p ∈ after, v.entry.Apart p.1.entry

/-- When a write is submitted, the tail has passed no write that still runs. -/
def InflightValid (s : SsdStore κ) : StoreEvent κ → Prop
  | .submit => ∀ a ∈ s.inflight, a.result = none → s.ring.isOffsetValid a.write.entry
  | _ => True

instance (s : SsdStore κ) : (ev : StoreEvent κ) → Decidable (s.InflightValid ev)
  | .submit => inferInstanceAs (Decidable (∀ a ∈ s.inflight, _))
  | .recvWrite _ | .recvFlush | .fireFlush | .close | .finish _ _ | .complete | .submitPrefix _
  | .startRead _ | .finishRead _ _ | .validate _ => isTrue trivial

variable [DecidableEq κ] {n : Nat} {s s' : SsdStore κ} {ev : StoreEvent κ}

/-! ## The order of the writes -/

/-- Writes are submitted as allocated and leave in that order. -/
structure WriteOrder (s : SsdStore κ) (left : List (WriteInfo κ)) : Prop where
  allocated : s.ledger.allocated = s.submitted ++ s.pending
  submitted : s.submitted = left ++ s.inflight.map InflightWrite.write
  finished : ∀ p ∈ s.finished, p.1 ∈ left ∨ ∃ ok, ⟨p.1, some ok⟩ ∈ s.inflight

variable {left : List (WriteInfo κ)}

theorem WriteOrder.step_of_ne (hi : s.WriteOrder left) (hev : ev ≠ .complete)
    (h : s.step n ev = some s') : s'.WriteOrder left := by
  cases step_cases h with
  | recvFlush | fireFlush | close | submitPrefix | readPhase | validate =>
    exact ⟨hi.allocated, hi.submitted, hi.finished⟩
  | complete => exact absurd rfl hev
  | recvWrite hr =>
    refine ⟨?_, hi.submitted, hi.finished⟩
    simp only [Ledger.apply, hi.allocated, isEmpty_iff.mp hr.2.1, append_nil]
    rfl
  | submit hp _ =>
    refine ⟨?_, ?_, ?_⟩
    · simp only [hi.allocated, hp, append_assoc, singleton_append]
    · simp only [hi.submitted, map_append, append_assoc, map_cons, map_nil]
    · intro p hp
      refine (hi.finished p hp).imp_right ?_
      rintro ⟨ok, hok⟩
      exact ⟨ok, mem_append_left _ hok⟩
  | @finish i w success hget =>
    refine ⟨hi.allocated, ?_, ?_⟩
    · simp only [hi.submitted, map_write_set hget]
    · obtain ⟨hlt, hw⟩ := List.getElem?_eq_some_iff.mp hget
      intro p hp
      rcases mem_append.mp hp with hp | hp
      · -- The write that finishes has no result yet, so the others stay.
        refine (hi.finished p hp).imp_right ?_
        rintro ⟨ok, hok⟩
        obtain ⟨j, hj, hjok⟩ := getElem_of_mem hok
        refine ⟨ok, mem_iff_getElem.mpr ⟨j, by simpa using hj, ?_⟩⟩
        rw [getElem_set_ne, hjok]
        rintro rfl
        cases hw.symm.trans hjok
      · rw [mem_singleton.mp hp]
        exact Or.inr ⟨success, mem_set hlt _⟩

/-- The result that the event commits. -/
def commitOf (s : SsdStore κ) : StoreEvent κ → List (WriteInfo κ × Bool)
  | .complete => s.inflight.head?.toList.filterMap fun iw => iw.result.map (iw.write, ·)
  | _ => []

theorem step_complete (h : s.step n .complete = some s') :
    ∃ w success rest, s.inflight = ⟨w, some success⟩ :: rest ∧
      s' = { s with ledger := s.ledger.apply (.commit w.key success), inflight := rest } := by
  simp only [step] at h
  split at h
  next w success rest hin =>
    cases h
    exact ⟨w, success, rest, hin, rfl⟩
  · cases h

theorem WriteOrder.step (hi : s.WriteOrder left) (h : s.step n ev = some s') :
    s'.WriteOrder (left ++ (s.commitOf ev).map Prod.fst) := by
  by_cases hev : ev = .complete
  · subst hev
    obtain ⟨w, success, rest, hin, rfl⟩ := step_complete h
    have hcommit : (s.commitOf .complete).map Prod.fst = [w] := by
      rw [commitOf, hin]
      rfl
    rw [hcommit]
    refine ⟨hi.allocated, ?_, ?_⟩
    · simp only [hi.submitted, hin, map_cons, append_assoc, singleton_append]
    · intro p hp
      rcases hi.finished p hp with hl | ⟨ok, hok⟩
      · exact Or.inl (mem_append_left _ hl)
      rw [hin] at hok
      rcases mem_cons.mp hok with heq | hok
      · cases heq
        exact Or.inl (mem_append_right _ mem_cons_self)
      · exact Or.inr ⟨ok, hok⟩
  · have hcommit : s.commitOf ev = [] := by
      cases ev with
      | complete => exact absurd rfl hev
      | _ => rfl
    rw [hcommit, map_nil, append_nil]
    exact hi.step_of_ne hev h

omit [DecidableEq κ] in
theorem new_writeOrder {caps : List Nat} (hne : caps ≠ []) :
    (new caps hne : SsdStore κ).WriteOrder [] :=
  ⟨rfl, rfl, by simp [new]⟩

omit [DecidableEq κ] in
theorem WriteOrder.outstanding_suffix (hi : s.WriteOrder left) :
    s.outstanding <:+ s.ledger.allocated := by
  refine ⟨left, ?_⟩
  rw [hi.allocated, hi.submitted, outstanding, append_assoc]

/-! ## Flushes -/

/-- The results that a run commits. -/
def commits (n : Nat) : SsdStore κ → List (StoreEvent κ) → List (WriteInfo κ × Bool)
  | _, [] => []
  | s, ev :: events => s.commitOf ev ++ (s.step n ev).elim [] (commits n · events)

variable {events : List (StoreEvent κ)}

omit [DecidableEq κ] in
theorem Recorded.commitOf (hi : s.Recorded) (ev : StoreEvent κ) : s.commitOf ev ⊆ s.finished := by
  cases ev with
  | complete =>
    intro p hp
    obtain ⟨iw, hiw, hrs⟩ := mem_filterMap.mp hp
    obtain ⟨ok, hok, rfl⟩ := Option.map_eq_some_iff.mp hrs
    exact hi iw (mem_of_mem_head? (Option.mem_toList.mp hiw)) ok hok
  | _ => exact nil_subset _

/-- What a run commits has finished, in the order of the allocations. -/
theorem commits_run {done : List (WriteInfo κ × Bool)} (hi : s.WriteOrder (done.map Prod.fst))
    (hrec : s.Recorded) (hd : done ⊆ s.finished) (h : exec (step n) s events = some s') :
    s'.WriteOrder ((done ++ s.commits n events).map Prod.fst) ∧
      done ++ s.commits n events ⊆ s'.finished := by
  induction events generalizing s done with
  | nil =>
    cases h
    rw [commits, append_nil]
    exact ⟨hi, hd⟩
  | cons ev events ih =>
    obtain ⟨u, hu, h⟩ := exec_cons_eq_some.mp h
    have hord := hi.step hu
    rw [← map_append] at hord
    have hfinished := append_subset.mpr ⟨hd, hrec.commitOf ev⟩
    have hn := ih hord (hrec.step hu) (fun p hp => finished_subset_of_step hu (hfinished hp)) h
    rw [append_assoc] at hn
    rwa [commits, hu]

/-- While a flush waits, no command is taken. -/
theorem waiting_step (hws : 0 < s.flushWaiters) (hev : ev ≠ .fireFlush)
    (h : s.step n ev = some s') :
    ¬ ev.IsCommand ∧ 0 < s'.flushWaiters ∧ s'.ledger.allocated = s.ledger.allocated := by
  have hclosed : ∀ {t : SsdStore κ}, (if s.Receives then some t else none) ≠ some s' := by
    intro t ht
    obtain ⟨hr, -⟩ := guarded_eq_some.mp ht
    exact Nat.ne_of_gt hws hr.2.2
  cases ev with
  | recvWrite | recvFlush | close => exact absurd h hclosed
  | fireFlush => exact absurd rfl hev
  | _ => cases step_cases h <;> exact ⟨id, hws, rfl⟩

theorem waiting_run (hws : 0 < s.flushWaiters) (hevents : .fireFlush ∉ events)
    (h : exec (step n) s events = some s') :
    (∀ ev ∈ events, ¬ ev.IsCommand) ∧ s'.ledger.allocated = s.ledger.allocated := by
  induction events generalizing s with
  | nil =>
    cases h
    exact ⟨nofun, rfl⟩
  | cons ev events ih =>
    obtain ⟨u, hu, h⟩ := exec_cons_eq_some.mp h
    rw [mem_cons, not_or] at hevents
    obtain ⟨hcommand, hws, hsm⟩ := waiting_step hws (Ne.symm hevents.1) hu
    obtain ⟨hcommands, hr⟩ := ih hws hevents.2 h
    exact ⟨forall_mem_cons.mpr ⟨hcommand, hcommands⟩, hr.trans hsm⟩

/-- After a flush is received, no command is taken before its waiter is notified, and by then every
write prepared until the flush has finished and its result is committed. -/
theorem flush_follows_writes (n : Nat) (caps : List Nat) (hne : caps ≠ [])
    {before after : List (StoreEvent κ)} {s₁ s₂ s : SsdStore κ}
    (hbefore : Run.exec (step n) (new caps hne) before = some s₁)
    (hflush : s₁.step n .recvFlush = some s₂) (hafter : Run.exec (step n) s₂ after = some s)
    (hwaits : .fireFlush ∉ after) :
    (∀ ev ∈ after, ¬ ev.IsCommand) ∧
      ∀ s', s.step n .fireFlush = some s' →
        ((new caps hne).commits n (before ++ .recvFlush :: after)).map Prod.fst =
            s₁.ledger.allocated ∧
          (new caps hne).commits n (before ++ .recvFlush :: after) ⊆ s.finished := by
  have hrun : exec (step n) (new caps hne) (before ++ .recvFlush :: after) = some s := by
    rw [exec_append, hbefore]
    exact exec_cons_eq_some.mpr ⟨s₂, hflush, hafter⟩
  obtain ⟨-, rfl⟩ := guarded_eq_some.mp hflush
  obtain ⟨hcommands, hsame⟩ := waiting_run (Nat.succ_pos _) hwaits hafter
  refine ⟨hcommands, ?_⟩
  intro s' hfire
  obtain ⟨⟨-, hpending, hinflight⟩, -⟩ := guarded_eq_some.mp hfire
  have hstart : (new caps hne).WriteOrder (([] : List (WriteInfo κ × Bool)).map Prod.fst) :=
    new_writeOrder hne
  obtain ⟨horder, hfinished⟩ := commits_run hstart (fun _ h => nomatch h) nofun hrun
  refine ⟨?_, hfinished⟩
  have hall := horder.allocated
  rw [isEmpty_iff.mp hpending, append_nil, horder.submitted, isEmpty_iff.mp hinflight, map_nil,
    append_nil, hsame] at hall
  exact hall.symm

/-- One of two writes fails while the flush waits. -/
theorem flush_follows_writes_failed_write :
    ∃ s₁ s₂ s : SsdStore Nat,
      Run.exec (step 2) (new [8] (by decide)) [.recvWrite [(0, .plain 4), (1, .plain 4)], .submit,
        .submit] = some s₁ ∧ s₁.step 2 .recvFlush = some s₂ ∧
      Run.exec (step 2) s₂ [.finish 1 true, .finish 0 false, .complete, .complete] = some s ∧
      s.finished.length = 2 ∧ ((new [8] (by decide)).commits 2 ([.recvWrite [(0, .plain 4),
        (1, .plain 4)], .submit, .submit] ++ .recvFlush ::
          [.finish 1 true, .finish 0 false, .complete, .complete])).map Prod.fst =
        s₁.ledger.allocated := by
  refine ⟨_, _, _, rfl, rfl, rfl, rfl, ?_⟩
  exact ((flush_follows_writes 2 [8] (by decide) rfl rfl rfl (by simp)).2 _ rfl).1

/-! ## Nothing overlaps -/

/-- The invariant: a write that runs overlaps none submitted after it, and a write
that finished overlaps none that finished later, unless that one was submitted
later too. -/
structure WritesApart (s : SsdStore κ) : Prop where
  wf : s.ledger.WF
  order : ∃ left, s.WriteOrder left
  running : s.inflight.Pairwise fun a b => a.result = none → a.write.entry.Apart b.write.entry
  finished : s.finished.Pairwise fun p q =>
    p.1.entry.Apart q.1.entry ∨ [p.1, q.1].Sublist s.submitted

variable {i : Nat}

variable {w : WriteInfo κ}

/-- The next write overlaps no running one that the tail has not passed. -/
theorem WritesApart.submit_apart (hi : s.WritesApart) {rest : List (WriteInfo κ)}
    (hp : s.pending = w :: rest) {a : InflightWrite κ} (ha : a ∈ s.inflight)
    (hval : s.ring.isOffsetValid a.write.entry) : a.write.entry.Apart w.entry := by
  obtain ⟨left, hl⟩ := hi.order
  have hsub : [a.write, w].Sublist s.ledger.allocated := by
    rw [hl.allocated, hl.submitted, hp, append_assoc]
    have ha' : [a.write].Sublist (s.inflight.map InflightWrite.write) :=
      singleton_sublist.mpr (mem_map_of_mem ha)
    have hw : [w].Sublist (w :: rest) := singleton_sublist.mpr mem_cons_self
    exact sublist_append_of_sublist_right (ha'.append hw)
  intro hsh
  exact pairwise_iff_forall_sublist.mp hi.wf.disjoint_of_live hsub hsh
    (SsdRingBuffer.isOffsetValid_iff.mp hval).2

omit [DecidableEq κ] in
/-- A write that finishes overlaps none that finished before, unless it was
submitted after it. -/
theorem WritesApart.finish_apart (hi : s.WritesApart) (hget : s.inflight[i]? = some ⟨w, none⟩)
    {p : WriteInfo κ × Bool} (hp : p ∈ s.finished) :
    p.1.entry.Apart w.entry ∨ [p.1, w].Sublist s.submitted := by
  obtain ⟨left, hl⟩ := hi.order
  obtain ⟨hlt, hw⟩ := List.getElem?_eq_some_iff.mp hget
  rw [hl.submitted]
  rcases hl.finished p hp with hm | ⟨ok, hok⟩
  · have hp' : [p.1].Sublist left := singleton_sublist.mpr hm
    have hw' : [w].Sublist (s.inflight.map InflightWrite.write) :=
      singleton_sublist.mpr (mem_map.mpr ⟨_, mem_of_getElem? hget, rfl⟩)
    exact Or.inr (hp'.append hw')
  · obtain ⟨j, hj, hjok⟩ := getElem_of_mem hok
    rcases Nat.lt_trichotomy i j with hij | rfl | hij
    · have hrun := pairwise_iff_getElem.mp hi.running i j hlt hj hij
      rw [hw, hjok] at hrun
      exact Or.inl (hrun rfl).symm
    · cases hw.symm.trans hjok
    · have hpr := pairwise_iff_getElem.mp (pairwise_iff_forall_sublist.mpr id) j i hj hlt hij
      have hsub := hpr.map InflightWrite.write
      rw [hw, hjok] at hsub
      exact Or.inr (sublist_append_of_sublist_right hsub)

theorem WritesApart.step (hi : s.WritesApart) (hval : s.InflightValid ev)
    (h : s.step n ev = some s') : s'.WritesApart := by
  obtain ⟨left, hl⟩ := hi.order
  have hord : ∃ left, s'.WriteOrder left := ⟨_, hl.step h⟩
  have hwf : s'.ledger.WF := by
    rcases step_ledger h with heq | ⟨op, heq⟩
    · rw [heq]
      exact hi.wf
    · rw [heq]
      exact hi.wf.apply op
  refine ⟨hwf, hord, ?_, ?_⟩
  · cases step_cases h with
    | recvWrite | recvFlush | fireFlush | close | submitPrefix | readPhase | validate =>
      exact hi.running
    | submit hp _ =>
      rw [pairwise_append]
      refine ⟨hi.running, pairwise_singleton _ _, ?_⟩
      intro a ha b hb hn
      rw [mem_singleton.mp hb]
      exact hi.submit_apart hp ha (hval a ha hn)
    | @finish i w success hget =>
      obtain ⟨hlt, hw⟩ := List.getElem?_eq_some_iff.mp hget
      rw [pairwise_iff_getElem]
      intro j k hj hk hjk
      have hrun := pairwise_iff_getElem.mp hi.running j k (by simpa using hj)
        (by simpa using hk) hjk
      rw [getElem_set, getElem_set]
      split
      · exact fun hn => nomatch hn
      split
      next hik =>
        subst hik
        rwa [hw] at hrun
      · exact hrun
    | complete hin =>
      have hrun := hi.running
      rw [hin] at hrun
      exact (pairwise_cons.mp hrun).2
  · cases step_cases h with
    | recvWrite | recvFlush | fireFlush | close | complete | submitPrefix | readPhase | validate =>
      exact hi.finished
    | submit =>
      refine hi.finished.imp ?_
      intro p q hpq
      exact hpq.imp_right fun hsub => hsub.trans (sublist_append_left _ _)
    | finish hget =>
      rw [pairwise_append]
      refine ⟨hi.finished, pairwise_singleton _ _, ?_⟩
      intro p hp q hq
      rw [mem_singleton.mp hq]
      exact hi.finish_apart hget hp

theorem WritesApart.noOverlap (hi : s.WritesApart) : s.NoOverlap := by
  refine ⟨?_, ?_⟩
  · exact hi.running.imp fun hrun hn _ => hrun hn
  · intro before v after heq hget p hp
    obtain ⟨left, hlf⟩ := hi.order
    have hfin := hi.finished
    rw [heq, pairwise_append] at hfin
    rcases (pairwise_cons.mp hfin.2.1).1 p hp with hap | hsub
    · exact hap
    -- A younger write cannot overlap an entry the tail has not passed.
    have hl := (SsdRingBuffer.isOffsetValid_iff.mp (SsdRingBuffer.get_eq_some.mp hget).2).2
    have hsub : [v, p.1].Sublist s.ledger.allocated := by
      rw [hlf.allocated]
      exact hsub.trans (sublist_append_left _ _)
    intro hsh
    exact pairwise_iff_forall_sublist.mp hi.wf.disjoint_of_live hsub hsh hl

variable {caps : List Nat}

theorem writesApart_new (hne : caps ≠ []) (hpos : ∀ c ∈ caps, 0 < c) :
    (new caps hne : SsdStore κ).WritesApart where
  wf := .new hne hpos
  order := ⟨[], new_writeOrder hne⟩
  running := List.Pairwise.nil
  finished := List.Pairwise.nil

/-! ## Small batches -/

variable (s)

/-- The bytes of the writes prepared and not yet committed. -/
def outstandingBytes : Nat := (s.outstanding.map fun w => w.entry.len).sum

/-- Twice the bytes outstanding with the batch fit into every shard. -/
def BatchFits : StoreEvent κ → Prop
  | .recvWrite candidates => ∀ shard ∈ s.ring.shards,
      2 * (s.outstandingBytes +
        ((s.unindexed candidates).map fun c => c.2.memoryFootprint).sum) ≤ shard.capacity
  | _ => True

instance : (ev : StoreEvent κ) → Decidable (s.BatchFits ev)
  | .recvWrite _ => inferInstanceAs (Decidable (∀ shard ∈ s.ring.shards, _))
  | .submit | .recvFlush | .fireFlush | .close | .finish _ _ | .complete | .submitPrefix _
  | .startRead _ | .finishRead _ _ | .validate _ => isTrue trivial

variable {s}

/-- Twice the outstanding bytes fit into every shard. -/
structure OutstandingFits (caps : List Nat) (s : SsdStore κ) : Prop where
  wf : s.ledger.WF
  tight : s.ledger.Tight
  caps_eq : s.ledger.HasCapacities caps
  order : ∃ left, s.WriteOrder left
  fits : ∀ c ∈ caps, 2 * s.outstandingBytes ≤ c

theorem OutstandingFits.step (hi : s.OutstandingFits caps) (hf : s.BatchFits ev)
    (h : s.step n ev = some s') : s'.OutstandingFits caps := by
  obtain ⟨left, hl⟩ := hi.order
  have hled : s'.ledger.WF ∧ s'.ledger.Tight ∧ s'.ledger.HasCapacities caps := by
    rcases step_ledger h with heq | ⟨op, heq⟩
    · rw [heq]
      exact ⟨hi.wf, hi.tight, hi.caps_eq⟩
    · rw [heq]
      exact ⟨hi.wf.apply op, hi.tight.apply op, hi.caps_eq.apply op⟩
  refine ⟨hled.1, hled.2.1, hled.2.2, ⟨_, hl.step h⟩, ?_⟩
  intro c hc
  have ho := hi.fits c hc
  cases step_cases h with
  | recvFlush | fireFlush | close | submitPrefix | readPhase | validate => exact ho
  | @recvWrite candidates hr =>
    rw [← hi.caps_eq, mem_map] at hc
    obtain ⟨shard, hsh, rfl⟩ := hc
    have hcap := hf shard hsh
    have hby := s.ring.prepareLoop_bytes_le (s.unindexed candidates)
    have hpd := isEmpty_iff.mp hr.2.1
    simp only [outstandingBytes, outstanding, hpd, map_append, append_nil, sum_append] at hcap ⊢
    exact Nat.le_trans (Nat.mul_le_mul_left 2 (Nat.add_le_add_left hby _)) hcap
  | submit hp _ =>
    simpa [outstandingBytes, outstanding, hp] using ho
  | finish hget =>
    simpa only [outstandingBytes, outstanding, map_write_set hget] using ho
  | complete hin =>
    simp only [outstandingBytes, outstanding, hin, map_cons, cons_append, sum_cons] at ho ⊢
    omega

omit [DecidableEq κ] in
/-- The tail has passed no write that is not committed yet. -/
theorem OutstandingFits.isOffsetValid (hi : s.OutstandingFits caps) (hm : w ∈ s.outstanding) :
    s.ring.isOffsetValid w.entry := by
  obtain ⟨left, hl⟩ := hi.order
  obtain ⟨before, after, hspl⟩ := append_of_mem hm
  have hsuffix : w :: after <:+ s.outstanding := ⟨before, hspl.symm⟩
  have hsh := hi.wf.shard_lt w (hl.outstanding_suffix.subset hm)
  refine SsdRingBuffer.isOffsetValid_iff.mpr ⟨hsh, ?_⟩
  -- The writes of the shard from this one on, in its log.
  have hlog := ((hsuffix.trans hl.outstanding_suffix).filter
    fun v => v.entry.shardId = w.entry.shardId).map fun v => v.entry.logicalRange
  rw [filter_cons_of_pos (by simp), map_cons] at hlog
  refine (hi.tight w.entry.shardId).live_of_small hlog ?_
  have hcap : (s.ledger.log w.entry.shardId).cap ∈ caps := by
    rw [← hi.caps_eq]
    exact mem_map.mpr ⟨_, mem_of_getElem? (SsdRingBuffer.shardAt_of_lt hsh), rfl⟩
  refine Nat.le_trans (Nat.mul_le_mul_left 2 ?_) (hi.fits _ hcap)
  have hsub : (w :: after.filter fun v => v.entry.shardId = w.entry.shardId).Sublist
      s.outstanding :=
    (filter_sublist.cons_cons _).trans hsuffix.sublist
  have hsum := (hsub.map fun v => v.entry.len).sum_le_sum fun _ _ => Nat.zero_le _
  rw [map_cons, map_map]
  exact hsum

omit [DecidableEq κ] in
theorem OutstandingFits.inflightValid (hi : s.OutstandingFits caps) (ev : StoreEvent κ) :
    s.InflightValid ev := by
  cases ev with
  | submit => exact fun a ha _ => hi.isOffsetValid (mem_append_left _ (mem_map_of_mem ha))
  | recvWrite | recvFlush | fireFlush | close | finish | complete | submitPrefix | startRead
  | finishRead | validate => trivial

theorem outstandingFits_new (hne : caps ≠ []) (hpos : ∀ c ∈ caps, 0 < c) :
    (new caps hne : SsdStore κ).OutstandingFits caps where
  wf := .new hne hpos
  tight := .new hne
  caps_eq := .new hne
  order := ⟨[], new_writeOrder hne⟩
  fits := fun c _ => Nat.zero_le c

/-- In every run in which no write is submitted while the tail has passed one that
still runs, running writes do not overlap and no readable block is overwritten by
a write that finishes later.  Small batches give such runs. -/
theorem writes_apart_of_inflightValid (n : Nat) (caps : List Nat) (hne : caps ≠ [])
    (hpos : ∀ c ∈ caps, 0 < c) :
    (∀ events (s : SsdStore κ), Run.Meets (step n) InflightValid (new caps hne) events →
      Run.exec (step n) (new caps hne) events = some s → s.NoOverlap) ∧
    (∀ events : List (StoreEvent κ), Run.Meets (step n) BatchFits (new caps hne) events →
      Run.Meets (step n) InflightValid (new caps hne) events) := by
  refine ⟨?_, ?_⟩
  · intro events s hmeets hrun
    exact (exec_invariant_of_meets (I := WritesApart)
      (fun _ _ _ hi hvalid h => hi.step hvalid h) (writesApart_new hne hpos) hmeets hrun).noOverlap
  · intro events hmeets
    exact meets_of_invariant (I := OutstandingFits caps)
      (fun _ _ _ hi hfits h => hi.step hfits h) (fun _ ev hi _ => hi.inflightValid ev)
      (outstandingFits_new hne hpos) hmeets

/-- A batch of two blocks through a file of the size of one.  Both writes run at
the same offset, and after the older one has finished last the entry of the
younger one is readable. -/
theorem overlapping_writes_in_one_batch :
    (∃ s ∈ Run.exec (step 2) (new [512] (by decide) : SsdStore BlockKey)
        [.recvWrite [(⟨"model", [1]⟩, .plain 512), (⟨"model", [2]⟩, .plain 512)],
          .submit, .submit],
      ¬ s.NoOverlap) ∧
    (∃ s ∈ Run.exec (step 2) (new [512] (by decide) : SsdStore BlockKey)
        [.recvWrite [(⟨"model", [1]⟩, .plain 512), (⟨"model", [2]⟩, .plain 512)],
          .submit, .submit, .finish 1 true, .finish 0 true, .complete, .complete],
      (s.ring.get ⟨"model", [2]⟩).isSome ∧ ¬ s.NoOverlap) := by
  have hrunning : ∃ s ∈ exec (step 2) (new [512] (by decide) : SsdStore BlockKey)
        [.recvWrite [(⟨"model", [1]⟩, .plain 512), (⟨"model", [2]⟩, .plain 512)], .submit, .submit],
      ¬ s.inflight.Pairwise fun a b =>
        a.result = none → b.result = none → a.write.entry.Apart b.write.entry := by
    decide
  have hkept : ∃ s ∈ exec (step 2) (new [512] (by decide) : SsdStore BlockKey)
        [.recvWrite [(⟨"model", [1]⟩, .plain 512), (⟨"model", [2]⟩, .plain 512)],
          .submit, .submit, .finish 1 true, .finish 0 true, .complete, .complete],
      (s.ring.get ⟨"model", [2]⟩).isSome ∧ ∃ v ∈ s.finished[0]?, ∃ p ∈ s.finished[1]?,
        s.finished = [] ++ v :: [p] ∧ v.2 = true ∧ s.ring.get v.1.key = some v.1.entry ∧
          ¬ v.1.entry.Apart p.1.entry := by
    decide
  refine ⟨?_, ?_⟩
  · obtain ⟨s, hs, hnot⟩ := hrunning
    exact ⟨s, hs, fun h => hnot h.running⟩
  · obtain ⟨s, hs, hsome, ⟨v, ok⟩, -, p, -, heq, rfl, hget, hnot⟩ := hkept
    exact ⟨s, hs, hsome, fun h => hnot (h.kept [] v [p] heq hget p mem_cons_self)⟩

/-- A batch of two blocks through a file that holds four. -/
theorem writes_apart_of_inflightValid_two_blocks :
    ∃ s ∈ Run.exec (step 2) (new [2048] (by decide) : SsdStore BlockKey)
        [.recvWrite [(⟨"model", [1]⟩, .plain 512), (⟨"model", [2]⟩, .plain 512)],
          .submit, .submit, .finish 1 true],
      s.inflight.length = 2 ∧ s.NoOverlap := by
  refine exists_mem_imp (Q := fun s => s.inflight.length = 2) (by decide) fun s hs hlen => ?_
  have hsound := writes_apart_of_inflightValid (κ := BlockKey) 2 [2048] (by decide) (by decide)
  exact ⟨hlen, hsound.1 _ s (hsound.2 _ (by decide)) hs⟩

end SsdStore

end PegaFlow.Ssd
