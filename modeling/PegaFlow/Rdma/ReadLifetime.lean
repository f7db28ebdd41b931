import Mathlib.Data.List.Perm.Basic
import PegaFlow.Rdma.RemoteFetch

/-!
# READs and the memory they write to

A fetch that gives up drops its memory and has the lock on the remote blocks released at once, though
its READs on other sessions, or on a session that gave up at the first failure, may still be carried
out.  Moreover a batch that gives up leaves completions behind, which the next batch on the session
takes for its own, since the numbers of work requests begin at one again.

Runs in which neither happens (`Drained`) keep memory and lock until the last READ has completed:
what is posted belongs to a fetch that has not returned (`Tracked`).  While a batch is carried out its
posted requests are among those in flight (`Tracks`), so that nothing is posted when it succeeds, and
a fetch succeeds only if all its batches have.
-/

namespace PegaFlow.Rdma

open List Option AList Table Run

/-! ## Work requests of a session -/

/-- The session holds work requests of the execution only, and those posted are in flight. -/
structure Tracks (posted : List WorkRequest) (completed : List (WorkRequest × Bool))
    (e : Execution) : Prop where
  tagged : ∀ wr ∈ posted, wr.batch = e.command.batch
  inflight : ∀ wr ∈ posted, wr.wrId ∈ e.inflight
  distinct : (posted.map (·.wrId) ++ completed.map (·.1.wrId)).Nodup
  below : ∀ wrId ∈ posted.map (·.wrId) ++ completed.map (·.1.wrId), wrId < e.nextWrId

namespace Tracks

variable {posted : List WorkRequest} {completed : List (WorkRequest × Bool)} {e : Execution}

theorem start (command : SessionCommand) : Tracks [] [] (.start command) where
  tagged := fun _ h => (List.not_mem_nil h).elim
  inflight := fun _ h => (List.not_mem_nil h).elim
  distinct := List.nodup_nil
  below := fun _ h => (List.not_mem_nil h).elim

/-- The numbers after an operation is posted: the old ones and the next one. -/
theorem perm_post (op : RdmaOp) :
    ((posted ++ [(⟨e.command.batch, e.nextWrId, op⟩ : WorkRequest)]).map (·.wrId) ++
      completed.map (·.1.wrId)).Perm
        (e.nextWrId :: (posted.map (·.wrId) ++ completed.map (·.1.wrId))) := by
  rw [map_append, append_assoc]
  exact perm_middle

theorem track (h : Tracks posted completed e) (op : RdmaOp) :
    Tracks (posted ++ [⟨e.command.batch, e.nextWrId, op⟩]) completed (e.track op) := by
  refine ⟨?_, ?_, ?_, ?_⟩
  · refine forall_mem_concat.mpr ⟨h.tagged, ?_⟩
    rfl
  · intro wr hwr
    refine (mem_insert _).mpr ?_
    rcases mem_append.mp hwr with hwr | hwr
    · exact Or.inr (h.inflight wr hwr)
    · rw [mem_singleton.mp hwr]
      exact Or.inl rfl
  · refine (perm_post op).nodup_iff.mpr (nodup_cons.mpr ⟨?_, h.distinct⟩)
    exact fun hm => Nat.lt_irrefl _ (h.below _ hm)
  · intro wrId hm
    rcases mem_cons.mp ((perm_post op).mem_iff.mp hm) with rfl | hm
    · exact Nat.lt_succ_self _
    · exact Nat.lt_succ_of_lt (h.below wrId hm)

theorem postOps (h : Tracks posted completed e) (ops : List RdmaOp) :
    Tracks (postOps posted e ops).1 completed (postOps posted e ops).2 := by
  induction ops generalizing posted e with
  | nil => exact h
  | cons op rest ih => exact ih (h.track op)

theorem complete (h : Tracks posted completed e) {position : Nat} {wr : WorkRequest}
    (hwr : posted[position]? = some wr) (success : Bool) :
    Tracks (posted.eraseIdx position) (completed ++ [(wr, success)]) e := by
  obtain ⟨hlt, rfl⟩ := List.getElem?_eq_some_iff.mp hwr
  have hss : ∀ wr ∈ posted.eraseIdx position, wr ∈ posted := fun wr hwr =>
    (eraseIdx_sublist posted position).subset hwr
  have hp : ((posted.eraseIdx position).map (·.wrId) ++
      (completed ++ [(posted[position], success)]).map (·.1.wrId)).Perm
        (posted.map (·.wrId) ++ completed.map (·.1.wrId)) := by
    rw [map_append, ← append_assoc]
    refine perm_append_comm.trans ?_
    exact ((getElem_cons_eraseIdx_perm hlt).map (·.wrId)).append_right _
  exact ⟨fun wr hwr => h.tagged wr (hss wr hwr), fun wr hwr => h.inflight wr (hss wr hwr),
    hp.nodup_iff.mpr h.distinct, fun wrId hm => h.below wrId (hp.mem_iff.mp hm)⟩

variable {entry : WorkRequest × Bool}

theorem of_cons (h : Tracks posted (entry :: completed) e) : Tracks posted completed e := by
  have hsub : (posted.map (·.wrId) ++ completed.map (·.1.wrId)).Sublist
      (posted.map (·.wrId) ++ (entry :: completed).map (·.1.wrId)) :=
    List.Sublist.append_left (sublist_cons_self _ _) _
  exact ⟨h.tagged, h.inflight, h.distinct.sublist hsub, fun wrId hm =>
    h.below wrId (hsub.subset hm)⟩

/-- A completion is taken: the numbers of posted requests are other ones. -/
theorem take (h : Tracks posted (entry :: completed) e) (transferred : Nat) (polling : Bool) :
    Tracks posted completed
      { e with inflight := e.inflight.erase entry.1.wrId, transferred, polling } where
  tagged := h.of_cons.tagged
  inflight := by
    intro wr hwr
    refine mem_erase.mpr ⟨?_, h.inflight wr hwr⟩
    intro heq
    exact (nodup_append.mp h.distinct).2.2 wr.wrId (mem_map_of_mem hwr) entry.1.wrId
      mem_cons_self heq
  distinct := h.of_cons.distinct
  below := h.of_cons.below

theorem posted_eq_nil (h : Tracks posted completed e) (hd : ¬ e.Unfinished) : posted = [] := by
  have hemp : e.inflight.entries = [] := by
    by_contra hne
    exact hd (Or.inr hne)
  refine eq_nil_iff_forall_not_mem.mpr fun wr hwr => ?_
  obtain ⟨bytes, hby⟩ := isSome_iff_exists.mp (lookup_isSome.mpr (h.inflight wr hwr))
  have hm := mem_lookup_iff.mp hby
  rw [hemp] at hm
  cases hm

end Tracks

/-! ## Who holds what -/

/-- The batches that the session works on or has yet to work on. -/
def RcSession.batches (r : RcSession) : List BatchId :=
  (r.current.map (·.command.batch)).toList ++ r.queue.map (·.batch)

/-- The session has yet to work on the batch, or a request of it is posted. -/
def RcSession.Holds (r : RcSession) (b : BatchId) : Prop :=
  b ∈ r.batches ∨ ∃ wr ∈ r.posted, wr.batch = b

theorem RcSession.batches_of_current {r : RcSession} {e : Execution} (h : r.current = some e) :
    r.batches = e.command.batch :: r.queue.map (·.batch) := by
  unfold RcSession.batches
  rw [h]
  rfl

theorem postOps_command (posted : List WorkRequest) (e : Execution) (ops : List RdmaOp) :
    (postOps posted e ops).2.command = e.command := by
  induction ops generalizing posted e with
  | nil => rfl
  | cons op rest ih => exact ih _ _

theorem mem_postOps {posted : List WorkRequest} {e : Execution} {ops : List RdmaOp}
    {wr : WorkRequest} (h : wr ∈ (postOps posted e ops).1) :
    wr ∈ posted ∨ wr.batch = e.command.batch := by
  induction ops generalizing posted e with
  | nil => exact Or.inl h
  | cons op rest ih =>
    rcases ih h with hwr | hbt
    · rcases mem_append.mp hwr with hwr | hwr
      · exact Or.inl hwr
      · rw [mem_singleton.mp hwr]
        exact Or.inr rfl
    · exact Or.inr hbt

namespace FetchSystem

open RcSession

variable {k : Nat} {s s' : FetchSystem k} {ev : FetchEvent k}

/-- No session has yet to work for the fetch, and none of its READs is posted. -/
def Idle (s : FetchSystem k) (fetch : Nat) : Prop :=
  ∀ i, (∀ b ∈ (s.sessions i).batches, b.1 ≠ fetch) ∧
    ∀ wr ∈ (s.sessions i).posted, wr.batch.1 ≠ fetch

instance (fetch : Nat) : Decidable (s.Idle fetch) := inferInstanceAs (Decidable (∀ _, _))

/-- A fetch gives up only when none of its READs can be carried out any more, and a session begins a
batch only when nothing is left of the one before. -/
def Drained (s : FetchSystem k) : FetchEvent k → Prop
  | .submitFails fetch | .receiveFails fetch | .timeout fetch => s.Idle fetch
  | .startBatch i =>
    (s.sessions i).posted.length = 0 ∧ (s.sessions i).completed.length = 0
  | _ => True

instance : ∀ ev, Decidable (s.Drained ev)
  | .submitFails fetch | .receiveFails fetch | .timeout fetch =>
    inferInstanceAs (Decidable (s.Idle fetch))
  | .startBatch _ => inferInstanceAs (Decidable (_ ∧ _))
  | .beginFetch _ _ | .submit _ | .receive _ | .releaseLock _ | .freeBlocks _ | .post _
  | .postFails _ | .complete _ _ _ | .poll _ | .pollFails _ | .endPoll _ => isTrue trivial

/-- What sessions hold is for fetches that have not returned. -/
structure Tracked (s : FetchSystem k) : Prop where
  alive : ∀ i b, (s.sessions i).Holds b → ∃ f, s.fetches.lookup b.1 = some f ∧ f.stage.Alive
  unanswered : ∀ i, ∀ b ∈ (s.sessions i).batches, s.batches.lookup b = some ⟨i, none⟩
  unfinished : ∀ i, ∀ wr ∈ (s.sessions i).posted, ∃ r, s.batches.lookup wr.batch = some ⟨i, r⟩ ∧
    r ≠ some true
  distinct : ∀ i, (s.sessions i).batches.Nodup
  tracks : ∀ i e, (s.sessions i).current = some e →
    Tracks (s.sessions i).posted (s.sessions i).completed e
  received : ∀ fetch f receivers, s.fetches.lookup fetch = some f →
    f.stage = .waiting receivers → ∀ j < f.submitted,
      j ∈ receivers ∨ ∃ i, s.batches.lookup (fetch, j) = some ⟨i, some true⟩
  numbered : ∀ b batch, s.batches.lookup b = some batch →
    ∃ f, s.fetches.lookup b.1 = some f ∧ b.2 < f.submitted
  kept : ∀ fetch f, s.fetches.lookup fetch = some f → f.stage.Alive →
    f.memoryReturned = false ∧ f.lockReleased = false

variable {fetch : Nat} {i : Fin k}

theorem Idle.not_holds (h : s.Idle fetch) {b : BatchId} (hb : (s.sessions i).Holds b) :
    b.1 ≠ fetch := by
  rcases hb with hb | ⟨wr, hwr, rfl⟩
  · exact (h i).1 b hb
  · exact (h i).2 wr hwr

theorem idle_of_not_holds (h : ∀ i b, (s.sessions i).Holds b → b.1 ≠ fetch) : s.Idle fetch :=
  fun i => ⟨fun b hb => h i b (Or.inl hb), fun wr hwr => h i wr.batch (Or.inr ⟨wr, hwr, rfl⟩)⟩

variable {f : Fetch k}

/-- Nothing is held for a fetch that has returned. -/
theorem Tracked.idle_of_returned (ht : s.Tracked) (hf : s.fetches.lookup fetch = some f)
    (hd : ¬ f.stage.Alive) : s.Idle fetch := by
  refine idle_of_not_holds ?_
  rintro i b hb rfl
  obtain ⟨f', hf', hal⟩ := ht.alive i b hb
  cases hf.symm.trans hf'
  exact hd hal

/-- Nothing is held for a fetch that has received all its results. -/
theorem Tracked.idle_of_received (ht : s.Tracked) (hf : s.fetches.lookup fetch = some f)
    (hst : f.stage = .waiting []) : s.Idle fetch := by
  have hreplied : ∀ b batch, b.1 = fetch → s.batches.lookup b = some batch →
      batch.reply = some true := by
    rintro b batch rfl hb
    obtain ⟨f', hf', hlt⟩ := ht.numbered b batch hb
    cases hf.symm.trans hf'
    rcases ht.received b.1 f [] hf hst b.2 hlt with hm | ⟨i, hrp⟩
    · cases hm
    · cases hb.symm.trans hrp
      rfl
  refine idle_of_not_holds ?_
  rintro i b (hb | ⟨wr, hwr, rfl⟩) heq
  · cases hreplied b _ heq (ht.unanswered i b hb)
  · obtain ⟨r, hb, hr⟩ := ht.unfinished i wr hwr
    exact hr (hreplied wr.batch _ heq hb)

/-! ## Steps of a session -/

theorem sessions_setSession_self (s : FetchSystem k) (i : Fin k) (r : RcSession) :
    (s.setSession i r).sessions i = r :=
  Function.update_self _ _ _

theorem sessions_setSession_of_ne (s : FetchSystem k) {j : Fin k} (r : RcSession) (h : j ≠ i) :
    (s.setSession i r).sessions j = s.sessions j :=
  Function.update_of_ne h _ _

variable {r : RcSession}

/-- What the new state of a session leaves as it was is the same for all sessions. -/
theorem sessions_setSession_same {β : Type} (g : RcSession → β) (h : g r = g (s.sessions i))
    (j : Fin k) : g ((s.setSession i r).sessions j) = g (s.sessions j) := by
  rw [FetchSystem.setSession, Function.apply_update fun _ => g, h, Function.update_eq_self]

/-- The session goes on with its batches. -/
theorem Tracked.setSession (ht : s.Tracked) (hbts : r.batches = (s.sessions i).batches)
    (hpst : ∀ wr ∈ r.posted, wr ∈ (s.sessions i).posted ∨ wr.batch ∈ (s.sessions i).batches)
    (htrs : ∀ e, r.current = some e → Tracks r.posted r.completed e) :
    (s.setSession i r).Tracked := by
  refine ⟨?_, ?_, ?_, ?_, ?_, ht.received, ht.numbered, ht.kept⟩
  · intro j b hb
    by_cases hj : j = i
    · subst hj
      rw [sessions_setSession_self] at hb
      refine ht.alive j b ?_
      rcases hb with hb | ⟨wr, hwr, rfl⟩
      · exact Or.inl (hbts ▸ hb)
      · exact (hpst wr hwr).elim (fun h => Or.inr ⟨wr, h, rfl⟩) Or.inl
    · rw [sessions_setSession_of_ne s r hj] at hb
      exact ht.alive j b hb
  · intro j b hb
    rw [sessions_setSession_same RcSession.batches hbts] at hb
    exact ht.unanswered j b hb
  · intro j wr hwr
    by_cases hj : j = i
    · subst hj
      rw [sessions_setSession_self] at hwr
      rcases hpst wr hwr with hwr | hb
      · exact ht.unfinished j wr hwr
      · exact ⟨none, ht.unanswered j wr.batch hb, some_ne_none true |>.symm⟩
    · rw [sessions_setSession_of_ne s r hj] at hwr
      exact ht.unfinished j wr hwr
  · intro j
    rw [sessions_setSession_same RcSession.batches hbts]
    exact ht.distinct j
  · exact (Function.forall_update_iff s.sessions fun _ r => ∀ e, r.current = some e →
      Tracks r.posted r.completed e).mpr ⟨htrs, fun j _ => ht.tracks j⟩

/-- The session ends its batch.  Nothing of it is posted if it ends well. -/
theorem Tracked.reply (ht : s.Tracked) {e : Execution} {success : Bool}
    (hc : (s.sessions i).current = some e) (hqu : r.queue = (s.sessions i).queue)
    (hpst : r.posted = (s.sessions i).posted) (hok : success → (s.sessions i).posted = []) :
    (s.reply i r e success).Tracked := by
  have hbts := batches_of_current hc
  have hself : (s.reply i r e success).sessions i = { r with current := none } :=
    sessions_setSession_self s i _
  have hoth : ∀ j, j ≠ i → (s.reply i r e success).sessions j = s.sessions j :=
    fun j hj => sessions_setSession_of_ne s _ hj
  have hanswered : s.batches.lookup e.command.batch = some ⟨i, none⟩ :=
    ht.unanswered i _ (hbts ▸ mem_cons_self)
  have hl : ({ r with current := none } : RcSession).batches =
      (s.sessions i).queue.map (·.batch) := by
    rw [← hqu]
    rfl
  have hnd := ht.distinct i
  rw [hbts, nodup_cons] at hnd
  refine ⟨?_, ?_, ?_, ?_, ?_, ?_, ?_, ht.kept⟩
  · intro j b hb
    by_cases hj : j = i
    · subst hj
      rw [hself] at hb
      refine ht.alive j b ?_
      rcases hb with hb | ⟨wr, hwr, rfl⟩
      · exact Or.inl (hbts ▸ mem_cons_of_mem _ (hl ▸ hb))
      · exact Or.inr ⟨wr, hpst ▸ hwr, rfl⟩
    · rw [hoth j hj] at hb
      exact ht.alive j b hb
  · intro j b hb
    by_cases hj : j = i
    · subst hj
      rw [hself, hl] at hb
      have hne : b ≠ e.command.batch := fun heq => hnd.1 (heq ▸ hb)
      exact (lookup_insert_ne hne).trans (ht.unanswered j b (hbts ▸ mem_cons_of_mem _ hb))
    · rw [hoth j hj] at hb
      have hb' := ht.unanswered j b hb
      refine (lookup_insert_ne ?_).trans hb'
      rintro rfl
      cases hanswered.symm.trans hb'
      exact hj rfl
  · intro j wr hwr
    have hwr' : wr ∈ (s.sessions j).posted := by
      have hsm := sessions_setSession_same (s := s) (r := { r with current := none }) posted hpst j
      exact hsm ▸ hwr
    obtain ⟨r', hr', hne⟩ := ht.unfinished j wr hwr'
    by_cases heq : wr.batch = e.command.batch
    · rw [heq] at hr' ⊢
      cases hanswered.symm.trans hr'
      refine ⟨some success, lookup_insert _, ?_⟩
      rintro ⟨rfl⟩
      rw [hok rfl] at hwr'
      cases hwr'
    · exact ⟨r', (lookup_insert_ne heq).trans hr', hne⟩
  · exact (Function.forall_update_iff s.sessions fun _ r => r.batches.Nodup).mpr
      ⟨hl ▸ hnd.2, fun j _ => ht.distinct j⟩
  · refine (Function.forall_update_iff s.sessions fun _ r => ∀ e, r.current = some e →
      Tracks r.posted r.completed e).mpr ⟨?_, fun j _ => ht.tracks j⟩
    intro e' he'
    cases he'
  · intro fetch f receivers hf hst j hlt
    refine (ht.received fetch f receivers hf hst j hlt).imp_right ?_
    rintro ⟨i', hi'⟩
    refine ⟨i', (lookup_insert_ne ?_).trans hi'⟩
    intro heq
    rw [heq] at hi'
    cases hanswered.symm.trans hi'
  · exact forall_lookup_insert (ht.numbered _ _ hanswered) ht.numbered

/-! ## Steps of a fetch -/

theorem Tracked.setFetch (ht : s.Tracked) {f' : Fetch k}
    (hsubm : ∀ f, s.fetches.lookup fetch = some f → f.submitted = f'.submitted)
    (hal : f'.stage.Alive ∨ s.Idle fetch)
    (hreceived : ∀ receivers, f'.stage = .waiting receivers → ∀ j < f'.submitted,
      j ∈ receivers ∨ ∃ i, s.batches.lookup (fetch, j) = some ⟨i, some true⟩)
    (hk : f'.stage.Alive → f'.memoryReturned = false ∧ f'.lockReleased = false) :
    (s.setFetch fetch f').Tracked := by
  refine ⟨?_, ht.unanswered, ht.unfinished, ht.distinct, ht.tracks, ?_, ?_, ?_⟩
  · intro i b hb
    by_cases heq : b.1 = fetch
    · subst heq
      rcases hal with hal | hid
      · exact ⟨f', lookup_insert _, hal⟩
      · exact absurd rfl (hid.not_holds hb)
    · obtain ⟨f, hf, hal⟩ := ht.alive i b hb
      exact ⟨f, (lookup_insert_ne heq).trans hf, hal⟩
  · intro fetch' f receivers hf
    rcases lookup_of_insert hf with ⟨rfl, rfl⟩ | ⟨-, hf⟩
    · exact hreceived receivers
    · exact ht.received fetch' f receivers hf
  · intro b batch hb
    obtain ⟨f, hf, hlt⟩ := ht.numbered b batch hb
    by_cases heq : b.1 = fetch
    · subst heq
      exact ⟨f', lookup_insert _, hsubm f hf ▸ hlt⟩
    · exact ⟨f, (lookup_insert_ne heq).trans hf, hlt⟩
  · exact forall_lookup_insert hk ht.kept

/-- A batch is put in the queue of a session. -/
theorem Tracked.submit (ht : s.Tracked) {ops : List RdmaOp} {work : List (Fin k × List RdmaOp)}
    (hf : s.fetches.lookup fetch = some f) (hst : f.stage = .submitting ((i, ops) :: work)) :
    Tracked
      { (s.setSession i
          { s.sessions i with
            queue := (s.sessions i).queue ++ [⟨(fetch, f.submitted), ops⟩] }).setFetch fetch
              { f with stage := .submitting work, submitted := f.submitted + 1 } with
        batches := s.batches.insert (fetch, f.submitted) ⟨i, none⟩ } := by
  have hnew : ∀ {b : BatchId} {batch : Batch k}, s.batches.lookup b = some batch →
      b ≠ (fetch, f.submitted) := by
    rintro b batch hb rfl
    obtain ⟨f', hf', hlt⟩ := ht.numbered _ _ hb
    cases hf.symm.trans hf'
    exact Nat.lt_irrefl _ hlt
  generalize hr : ({ s.sessions i with
    queue := (s.sessions i).queue ++ [⟨(fetch, f.submitted), ops⟩] } : RcSession) = r
  have hpst := sessions_setSession_same (s := s) (i := i) (r := r) posted (hr ▸ rfl)
  have hcm :=
    sessions_setSession_same (s := s) (i := i) (r := r) completed (hr ▸ rfl)
  have hc := sessions_setSession_same (s := s) (i := i) (r := r) current (hr ▸ rfl)
  have happend : r.batches = (s.sessions i).batches ++ [(fetch, f.submitted)] := by
    simp only [← hr, RcSession.batches, map_append, map_cons, map_nil, append_assoc]
  have hbts : ∀ j b, b ∈ ((s.setSession i r).sessions j).batches ↔
      b ∈ (s.sessions j).batches ∨ j = i ∧ b = (fetch, f.submitted) := by
    intro j b
    by_cases hj : j = i
    · subst hj
      rw [sessions_setSession_self, happend, mem_append, mem_singleton]
      exact or_congr_right (and_iff_right rfl).symm
    · rw [sessions_setSession_of_ne s r hj]
      exact (or_iff_left fun h => hj h.1).symm
  have hfetch : ∀ {fetch' : Nat} {f' : Fetch k}, s.fetches.lookup fetch' = some f' →
      ∃ f'', (s.fetches.insert fetch
        { f with stage := .submitting work, submitted := f.submitted + 1 }).lookup fetch' =
          some f'' ∧ (f'.stage.Alive → f''.stage.Alive) ∧ f'.submitted ≤ f''.submitted := by
    intro fetch' f' hf'
    by_cases heq : fetch' = fetch
    · subst heq
      cases hf.symm.trans hf'
      exact ⟨_, lookup_insert _, fun _ => trivial, Nat.le_succ _⟩
    · exact ⟨f', (lookup_insert_ne heq).trans hf', id, Nat.le_refl _⟩
  refine ⟨?_, ?_, ?_, ?_, ?_, ?_, ?_, ?_⟩
  · intro j b hb
    have hcs : (s.sessions j).Holds b ∨ b = (fetch, f.submitted) := by
      rcases hb with hb | ⟨wr, hwr, rfl⟩
      · exact ((hbts j b).mp hb).imp Or.inl And.right
      · exact Or.inl (Or.inr ⟨wr, hpst j ▸ hwr, rfl⟩)
    rcases hcs with hb | rfl
    · obtain ⟨f', hf', hal⟩ := ht.alive j b hb
      obtain ⟨f'', hf'', hal', -⟩ := hfetch hf'
      exact ⟨f'', hf'', hal' hal⟩
    · exact ⟨_, lookup_insert _, trivial⟩
  · intro j b hb
    rcases (hbts j b).mp hb with hb | ⟨rfl, rfl⟩
    · have hb' := ht.unanswered j b hb
      exact (lookup_insert_ne (hnew hb')).trans hb'
    · exact lookup_insert _
  · intro j wr hwr
    obtain ⟨r', hr', hne⟩ := ht.unfinished j wr (hpst j ▸ hwr)
    exact ⟨r', (lookup_insert_ne (hnew hr')).trans hr', hne⟩
  · refine (Function.forall_update_iff s.sessions fun _ r => r.batches.Nodup).mpr
      ⟨?_, fun j _ => ht.distinct j⟩
    rw [happend]
    refine (ht.distinct i).append (nodup_singleton _) ?_
    intro b hb hb'
    exact hnew (ht.unanswered i b hb) (mem_singleton.mp hb')
  · intro j e he
    have htrs := ht.tracks j e (hc j ▸ he)
    rw [← hpst j, ← hcm j] at htrs
    exact htrs
  · intro fetch' f' receivers hf' hst' j hlt
    rcases lookup_of_insert hf' with ⟨rfl, rfl⟩ | ⟨hne, hf'⟩
    · cases hst'
    refine (ht.received fetch' f' receivers hf' hst' j hlt).imp_right ?_
    rintro ⟨i', hi'⟩
    exact ⟨i', (lookup_insert_ne (hnew hi')).trans hi'⟩
  · intro b batch hb
    rcases lookup_of_insert hb with ⟨rfl, -⟩ | ⟨-, hb⟩
    · exact ⟨_, lookup_insert _, Nat.lt_succ_self _⟩
    obtain ⟨f', hf', hlt⟩ := ht.numbered b batch hb
    obtain ⟨f'', hf'', -, hle⟩ := hfetch hf'
    exact ⟨f'', hf'', Nat.lt_of_lt_of_le hlt hle⟩
  · refine forall_lookup_insert ?_ ht.kept
    intro hal
    exact ht.kept _ f hf (hst ▸ trivial)

theorem Tracked.step (ht : s.Tracked) (hcd : s.Drained ev) (h : Step s ev s') : s'.Tracked := by
  have hsm : ∀ {fetch submitted : Nat} {f : Fetch k}, s.fetches.lookup fetch = some f →
      f.submitted = submitted →
        ∀ f', s.fetches.lookup fetch = some f' → f'.submitted = submitted := by
    intro fetch submitted f hf hsubm f' hf'
    cases hf.symm.trans hf'
    exact hsubm
  cases h with
  | beginFetch hfr =>
    refine ht.setFetch ?_ (Or.inl trivial) ?_ fun _ => ⟨rfl, rfl⟩
    · intro f hf
      cases hfr.symm.trans hf
    · intro receivers hst
      cases hst
  | submit hf hst => exact ht.submit hf hst
  | submitted hf hst =>
    have hk := ht.kept _ _ hf (hst ▸ trivial)
    refine ht.setFetch (hsm hf rfl) (Or.inl trivial) ?_ fun _ => hk
    intro receivers hrcv j hlt
    cases hrcv
    exact Or.inl (mem_range.mpr hlt)
  | givesUp hf hev =>
    next fetch f =>
    have hid : s.Idle fetch := by
      rcases hev with rfl | rfl | rfl
      · exact hcd
      · exact hcd
      · exact hcd
    refine ht.setFetch (hsm hf rfl) (Or.inr hid) ?_ False.elim
    intro receivers hst
    cases hst
  | received hf hst hr =>
    have hk := ht.kept _ _ hf (hst ▸ trivial)
    refine ht.setFetch (hsm hf rfl) (Or.inl trivial) ?_ fun _ => hk
    intro receivers hrcv j' hlt
    cases hrcv
    rcases ht.received _ _ _ hf hst j' hlt with hm | hd
    · rcases mem_cons.mp hm with rfl | hm
      · exact Or.inr ⟨_, hr⟩
      · exact Or.inl hm
    · exact Or.inr hd
  | fetched hf hst =>
    refine ht.setFetch (hsm hf rfl) (Or.inr (ht.idle_of_received hf hst)) ?_ False.elim
    intro receivers hrcv
    cases hrcv
  | settled _ hf hd hst hsubm =>
    refine ht.setFetch (hsm hf hsubm.symm)
      (Or.inr (ht.idle_of_returned hf hd)) ?_ fun hal => absurd (hst ▸ hal) hd
    intro receivers hrcv
    rw [← hst, hrcv] at hd
    exact absurd trivial hd
  | startBatch hid hqu =>
    next i command queue =>
    obtain ⟨hpst, hcm⟩ := hcd
    rw [length_eq_zero_iff] at hpst hcm
    refine ht.setSession ?_ (fun wr hwr => Or.inl hwr) ?_
    · unfold RcSession.batches
      rw [hid, hqu]
      rfl
    · intro e he
      cases he
      dsimp only
      rw [hpst, hcm]
      exact .start command
  | post hc =>
    refine ht.setSession ?_ ?_ ?_
    · rw [batches_of_current hc, batches_of_current rfl]
      rw [postOps_command]
    · intro wr hwr
      refine (mem_postOps hwr).imp_right ?_
      intro hbt
      rw [hbt, batches_of_current hc]
      exact mem_cons_self
    · intro e he
      cases he
      exact (ht.tracks _ _ hc).postOps _
  | complete hwr =>
    refine ht.setSession rfl ?_ ?_
    · intro wr hm
      exact Or.inl ((eraseIdx_sublist _ _).subset hm)
    · intro e he
      exact (ht.tracks _ e he).complete hwr _
  | skips hc hcm =>
    refine ht.setSession ?_ (fun wr hwr => Or.inl hwr) ?_
    · rw [batches_of_current hc]
      rfl
    · intro e he
      cases he
      have htrs := ht.tracks _ _ hc
      rw [hcm] at htrs
      exact { htrs.of_cons with }
  | takes hc hcm =>
    refine ht.setSession ?_ (fun wr hwr => Or.inl hwr) ?_
    · rw [batches_of_current hc]
      rfl
    · intro e he
      cases he
      have htrs := ht.tracks _ _ hc
      rw [hcm] at htrs
      exact htrs.take _ _
  | polled hc =>
    refine ht.setSession ?_ (fun wr hwr => Or.inl hwr) ?_
    · rw [batches_of_current hc]
      rfl
    · intro e he
      cases he
      exact { ht.tracks _ _ hc with }
  | fails hc =>
    refine ht.reply hc rfl rfl ?_
    intro htrue
    cases htrue
  | finishes hc hd =>
    exact ht.reply hc rfl rfl fun _ => (ht.tracks _ _ hc).posted_eq_nil hd

theorem new_tracked (k : Nat) : (new k).Tracked where
  alive := by
    rintro i b (hb | ⟨wr, hwr, -⟩)
    · cases hb
    · cases hwr
  unanswered := nofun
  unfinished := nofun
  distinct := fun _ => nodup_nil
  tracks := nofun
  received := nofun
  numbered := nofun
  kept := nofun

/-- As long as a READ of the fetch may be carried out, its memory has not been returned and its lock
has not been released. -/
def ReadsHeld (s : FetchSystem k) : Prop :=
  ∀ i, ∀ wr ∈ (s.sessions i).posted, ∀ f, s.fetches.lookup wr.batch.1 = some f →
    f.memoryReturned = false ∧ f.lockReleased = false

/-- Memory and lock outlast the READs in runs in which fetches and sessions end what they began. -/
theorem reads_held {events : List (FetchEvent k)} {s : FetchSystem k}
    (hcond : Run.Meets step Drained (new k) events)
    (hrun : Run.exec step (new k) events = some s) : s.ReadsHeld := by
  have ht : s.Tracked :=
    exec_invariant_of_meets (I := Tracked)
      (fun _ _ _ ht hev h => ht.step hev (step_cases h)) (new_tracked k) hcond hrun
  intro i wr hwr f hf
  obtain ⟨f', hf', halive⟩ := ht.alive i wr.batch (Or.inr ⟨wr, hwr, rfl⟩)
  cases hf.symm.trans hf'
  exact ht.kept _ f hf halive

/-- A READ of sixteen bytes. -/
def oneRead : RdmaOp := ⟨5, 0, 4096, 16, 11⟩

/-- The first fetch reads on two sessions and frees what it fetched while the second one reads. -/
theorem reads_held_two_fetches :
    ∃ s ∈ Run.exec step (new 2)
      [.beginFetch 0 [(0, [oneRead]), (1, [oneRead])], .submit 0, .submit 0, .submit 0,
        .startBatch 0, .startBatch 1, .post 0, .post 1, .complete 1 0 true, .complete 0 0 true,
        .poll 0, .endPoll 0, .poll 1, .endPoll 1, .receive 0, .receive 0, .receive 0,
        .beginFetch 1 [(0, [oneRead])], .submit 1, .submit 1, .startBatch 0, .post 0,
        .releaseLock 0, .freeBlocks 0],
      (s.sessions 0).posted.length = 1 ∧ s.ReadsHeld := by
  refine exists_mem_of_eq rfl fun hrun => ?_
  exact ⟨rfl, reads_held (by decide +kernel) hrun⟩

/-- One READ fails while another one is posted: the fetch returns its memory and has the lock
released.  A timeout does the same. -/
theorem read_outlives_memory :
    (∃ s ∈ Run.exec step (new 2)
      [.beginFetch 0 [(0, [oneRead]), (1, [oneRead])], .submit 0, .submit 0, .submit 0,
        .startBatch 0, .startBatch 1, .post 0, .post 1, .complete 0 0 false, .poll 0,
        .receiveFails 0, .releaseLock 0],
      ∃ wr ∈ (s.sessions 1).posted, ∃ f ∈ s.fetches.lookup wr.batch.1,
        f.memoryReturned = true ∧ f.lockReleased = true) ∧
    ∃ s ∈ Run.exec step (new 1)
      [.beginFetch 0 [(0, [oneRead])], .submit 0, .submit 0, .startBatch 0, .post 0, .timeout 0,
        .releaseLock 0],
      ∃ wr ∈ (s.sessions 0).posted, ∃ f ∈ s.fetches.lookup wr.batch.1,
        f.memoryReturned = true ∧ f.lockReleased = true := by
  refine ⟨⟨_, rfl, ⟨(0, 1), 1, oneRead⟩, mem_singleton_self _, _, rfl, rfl, rfl⟩,
    _, rfl, ⟨(0, 0), 1, oneRead⟩, mem_singleton_self _, _, rfl, rfl, rfl⟩

end FetchSystem

end PegaFlow.Rdma
