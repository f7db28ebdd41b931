import PegaFlow.Connector.LoadCompletion

/-!
# No copy after a load is reported

When `get_finished` reports a request, no copy into its blocks may be queued or running on the
server.  The code does not give this (see `LoadCompletion`).  It holds in every run that is
`Orderly`: a load is waited for until its state is set, a call raises only if the server rejected
it, a request starts a load only when its earlier ones were reported, and a transfer that fails
leaves nothing on the stream.

The argument has a server half and a connector half.  On the server, the load state of a task that
is not over is not set (`Served`).  On the side of the connector, every copy that is not over
belongs to the load state that is noted for its request (`Owned`).
-/

namespace PegaFlow.Connector

open List AList Table Run

namespace LoadSystem

variable {layers : List String} {timeout : Nat} {s s' : LoadSystem} {ev : LoadEvent}
variable {events : List LoadEvent}

/-- What a step can do. -/
inductive Step (layers : List String) (timeout : Nat) (s : LoadSystem) :
    LoadEvent → LoadSystem → Prop where
  | startLoadKv {loads : List (ReqId × List BlockId)} {start : Nat} : s.calling = none →
      Step layers timeout s (.startLoadKv loads start)
        { s with
          calling := some (⟨s.nextShm, loads⟩, start)
          nextShm := s.nextShm + 1
          net := s.net ++ [⟨s.nextShm, loads⟩] }
  | callReturns {rpc : LoadRpc} {start : Nat} : s.calling = some (rpc, start) →
      Step layers timeout s .callReturns
        { s with
          calling := none
          pendingLoads := rpc.requestIds.foldl (fun t r => t.insert r rpc.shm) s.pendingLoads
          pendingLoadReqs :=
            s.pendingLoadReqs.insert rpc.shm ⟨rpc.requestIds, start, rpc.blockIds⟩ }
  | callRaises {rpc : LoadRpc} {start : Nat} : s.calling = some (rpc, start) →
      Step layers timeout s .callRaises
        { s with
          calling := none
          failedLoadReqs := s.failedLoadReqs ∪ rpc.requestIds.toFinset
          failedLoadBlockIds := s.failedLoadBlockIds ∪ rpc.blockIds.toFinset }
  /-- The call is answered and leaves nothing behind. -/
  | settled {i : Nat} {outcome : LoadOutcome} {rpc : LoadRpc} {accepted : Bool}
      {status : Table ShmId LoadStatus} : s.net[i]? = some rpc →
      (∀ shm, shm ≠ rpc.shm → status.lookup shm = s.status.lookup shm) →
      Step layers timeout s (.handle i outcome)
        { s with
          net := s.net.eraseIdx i
          replies := s.replies.insert rpc.shm accepted
          status := status }
  | queued {i : Nat} {outcome : LoadOutcome} {rpc : LoadRpc} : s.net[i]? = some rpc →
      Step layers timeout s (.handle i outcome)
        { s with
          net := s.net.eraseIdx i
          replies := s.replies.insert rpc.shm true
          queue := s.queue ++ [rpc] }
  | takeTask {rpc : LoadRpc} {rest : List LoadRpc} : s.queue = rpc :: rest → s.worker = none →
      Step layers timeout s .takeTask
        { s with queue := rest, worker := some ⟨rpc.shm, rpc.copies layers, []⟩ }
  | copied {ev : LoadEvent} {task task' : RunningLoad} : s.worker = some task →
      task'.shm = task.shm → task'.todo ++ task'.running ⊆ task.todo ++ task.running →
      Step layers timeout s ev { s with worker := some task' }
  | signal {ev : LoadEvent} {task : RunningLoad} {status : LoadStatus} : s.worker = some task →
      (ev = .transferFails ∨ ev = .synchronize false ∨ task.running = []) →
      Step layers timeout s ev (s.signal task status)
  | leftCopyEnds {i : Nat} :
      Step layers timeout s (.leftCopyEnds i) { s with leftRunning := s.leftRunning.eraseIdx i }
  | getFinished {now : Nat} : s.calling = none →
      Step layers timeout s (.getFinished now) (s.getFinished timeout now)
  | getBlockIdsWithLoadErrors :
      Step layers timeout s .getBlockIdsWithLoadErrors { s with failedLoadBlockIds := ∅ }

theorem step_cases (h : s.step layers timeout ev = some s') : Step layers timeout s ev s' := by
  cases ev with dsimp only [step] at h
  | startLoadKv loads start =>
    obtain ⟨⟨hcg, -⟩, rfl⟩ := guarded_eq_some.mp h
    exact .startLoadKv (Option.isNone_iff_eq_none.mp hcg)
  | callReturns =>
    split at h
    next rpc start hcg =>
      obtain ⟨-, rfl⟩ := guarded_eq_some.mp h
      exact .callReturns hcg
    next => cases h
  | callRaises =>
    split at h
    next rpc start hcg =>
      cases h
      exact .callRaises hcg
    next => cases h
  | handle i outcome =>
    split at h
    next rpc hrpc =>
      split at h
      next marked =>
        cases h
        refine .settled hrpc fun shm hne => ?_
        cases marked with
        | true => exact lookup_insert_ne hne
        | false => rfl
      next =>
        split at h
        next =>
          cases h
          exact .settled hrpc fun shm hne => lookup_insert_ne hne
        next =>
          cases h
          exact .queued hrpc
    next => cases h
  | takeTask =>
    split at h
    next rpc rest hqu hwk =>
      cases h
      exact .takeTask hqu hwk
    next => cases h
  | submitCopy =>
    split at h
    next shm copy todo running hwk =>
      cases h
      refine .copied hwk rfl ?_
      simp only [append_subset, cons_subset]
      grind
    next => cases h
  | copyEnds i =>
    obtain ⟨task, hwk, rfl⟩ := Option.map_eq_some_iff.mp h
    refine .copied hwk rfl ?_
    exact append_subset.mpr ⟨subset_append_left _ _,
      List.Subset.trans eraseIdx_subset (subset_append_right _ _)⟩
  | transferFails =>
    obtain ⟨task, hwk, rfl⟩ := Option.map_eq_some_iff.mp h
    exact .signal hwk (Or.inl rfl)
  | synchronize ok =>
    split at h
    next shm running hwk =>
      obtain ⟨hok, rfl⟩ := guarded_eq_some.mp h
      cases ok with
      | true => exact .signal hwk (Or.inr (Or.inr (hok rfl)))
      | false => exact .signal hwk (Or.inr (Or.inl rfl))
    next => cases h
  | leftCopyEnds i =>
    cases h
    exact .leftCopyEnds
  | getFinished now =>
    obtain ⟨hcg, rfl⟩ := guarded_eq_some.mp h
    exact .getFinished (Option.isNone_iff_eq_none.mp hcg)
  | getBlockIdsWithLoadErrors =>
    cases h
    exact .getBlockIdsWithLoadErrors

/-! ## Runs without surprises -/

variable (timeout) (s)

/-- A load is waited for until its state is set, a call raises only if the server rejected it, a
request starts a load only when its earlier ones were reported, and a transfer that fails leaves
nothing on the stream. -/
def Orderly : LoadEvent → Prop
  | .startLoadKv loads _ =>
    ∀ p ∈ loads, s.pendingLoads.lookup p.1 = none ∧ p.1 ∉ s.failedLoadReqs
  | .callRaises => ∀ call ∈ s.calling, s.replies.lookup call.1.shm = some false
  | .transferFails => ∀ task ∈ s.worker, task.running = []
  | .synchronize _ => ∀ task ∈ s.worker, task.running = []
  | .getFinished now => ∀ e ∈ s.pendingLoadReqs.entries,
      s.statusOf e.1 = .pending → now - e.2.start ≤ timeout
  | _ => True

instance decidableOrderly : ∀ ev, Decidable (s.Orderly timeout ev)
  | .startLoadKv _ _ | .callRaises | .transferFails | .synchronize _ | .getFinished _ =>
    inferInstanceAs (Decidable (∀ _ ∈ _, _))
  | .callReturns | .handle _ _ | .takeTask | .submitCopy | .copyEnds _ | .leftCopyEnds _
  | .getBlockIdsWithLoadErrors => isTrue trivial

/-! ## The server -/

/-- The load states of the calls and tasks that are not over. -/
def tasks : List ShmId :=
  s.net.map LoadRpc.shm ++ s.queue.map LoadRpc.shm ++ s.worker.toList.map RunningLoad.shm

variable {timeout} {s}

/-- A load state belongs to one task at most, and it is not set before the task is over. -/
structure Served (s : LoadSystem) : Prop where
  nodup : s.tasks.Nodup
  lt : ∀ shm ∈ s.tasks, shm < s.nextShm
  fresh : ∀ shm, s.nextShm ≤ shm → s.statusOf shm = .pending ∧ s.replies.lookup shm = none
  live : ∀ shm ∈ s.tasks, s.statusOf shm = .pending ∧ s.replies.lookup shm ≠ some false
  worker : ∀ task ∈ s.worker, ∀ c ∈ task.todo ++ task.running, c.shm = task.shm
  left : s.leftRunning = []

theorem served_init : init.Served where
  nodup := List.nodup_nil
  lt := fun shm h => by cases h
  fresh := fun shm _ => ⟨rfl, rfl⟩
  live := fun shm h => by cases h
  worker := fun task h => by cases h
  left := rfl

variable {rpc : LoadRpc}

theorem net_perm {i : Nat} (h : s.net[i]? = some rpc) : s.net.Perm (rpc :: s.net.eraseIdx i) := by
  obtain ⟨hi, rfl⟩ := List.getElem?_eq_some_iff.mp h
  exact (getElem_cons_eraseIdx_perm hi).symm

/-! A step adds one task, ends one or moves one. -/

theorem tasks_perm_start (rpc : LoadRpc) :
    ((s.net ++ [rpc]).map LoadRpc.shm ++ s.queue.map LoadRpc.shm ++
      s.worker.toList.map RunningLoad.shm).Perm (rpc.shm :: s.tasks) := by
  rw [tasks, map_append, append_assoc, append_assoc, append_assoc]
  exact perm_middle

theorem tasks_perm_queued {i : Nat} (h : s.net[i]? = some rpc) :
    ((s.net.eraseIdx i).map LoadRpc.shm ++ (s.queue ++ [rpc]).map LoadRpc.shm ++
      s.worker.toList.map RunningLoad.shm).Perm s.tasks := by
  refine List.Perm.append_right _ ?_
  rw [map_append, ← append_assoc]
  refine (perm_append_singleton _ _).trans ?_
  exact (((net_perm h).map LoadRpc.shm).append_right _).symm

theorem tasks_perm_takeTask {rest : List LoadRpc} {todo running : List LoadCopy}
    (hqu : s.queue = rpc :: rest) (hwk : s.worker = none) :
    { s with queue := rest, worker := some ⟨rpc.shm, todo, running⟩ }.tasks.Perm s.tasks := by
  simp only [tasks, hqu, hwk, map_cons, Option.toList_none, Option.toList_some,
    map_nil, append_nil, append_assoc]
  exact List.Perm.append_left _ (perm_append_singleton _ _)

variable {status : LoadStatus}

theorem tasks_perm_signal {task : RunningLoad} (h : s.worker = some task) :
    s.tasks.Perm (task.shm :: (s.signal task status).tasks) := by
  simp only [tasks, signal, h, Option.toList_some, Option.toList_none, map_cons,
    map_nil, append_nil]
  exact perm_append_singleton _ _

/-- The step that ends the task of a load state. -/
theorem Served.of_perm_cons (hs : s.Served) (shm : ShmId)
    (hp : s.tasks.Perm (shm :: s'.tasks)) (hn : s'.nextShm = s.nextShm)
    (hstat : ∀ i, i ≠ shm → s'.statusOf i = s.statusOf i)
    (hreplies : ∀ i, i ≠ shm → s'.replies.lookup i = s.replies.lookup i)
    (hwk : ∀ task ∈ s'.worker, ∀ c ∈ task.todo ++ task.running, c.shm = task.shm)
    (hl : s'.leftRunning = []) : s'.Served := by
  have hnd := nodup_cons.mp (hp.nodup_iff.mp hs.nodup)
  have hm : ∀ i ∈ s'.tasks, i ∈ s.tasks ∧ i ≠ shm := by
    intro i hi
    exact ⟨hp.mem_iff.mpr (mem_cons_of_mem _ hi), fun heq => hnd.1 (heq ▸ hi)⟩
  have hlt := hs.lt shm (hp.mem_iff.mpr mem_cons_self)
  refine ⟨hnd.2, ?_, ?_, ?_, hwk, hl⟩
  · intro i hi
    rw [hn]
    exact hs.lt i (hm i hi).1
  · intro i hi
    rw [hn] at hi
    have hne : i ≠ shm := (Nat.lt_of_lt_of_le hlt hi).ne'
    rw [hstat i hne, hreplies i hne]
    exact hs.fresh i hi
  · intro i hi
    obtain ⟨ho, hne⟩ := hm i hi
    rw [hstat i hne, hreplies i hne]
    exact hs.live i ho

/-- A step that moves tasks and answers none of them with a rejection. -/
theorem Served.of_perm (hs : s.Served) (hp : s'.tasks.Perm s.tasks)
    (hn : s'.nextShm = s.nextShm) (hstat : s'.status = s.status)
    (hfr : ∀ i, s.nextShm ≤ i → s'.replies.lookup i = s.replies.lookup i)
    (hreplies : ∀ i ∈ s.tasks, s'.replies.lookup i ≠ some false)
    (hwk : ∀ task ∈ s'.worker, ∀ c ∈ task.todo ++ task.running, c.shm = task.shm)
    (hl : s'.leftRunning = []) : s'.Served := by
  have hstatusOf : ∀ i, s'.statusOf i = s.statusOf i := fun i => by rw [statusOf, hstat]; rfl
  refine ⟨hp.nodup_iff.mpr hs.nodup, ?_, ?_, ?_, hwk, hl⟩
  · intro i hi
    rw [hn]
    exact hs.lt i (hp.mem_iff.mp hi)
  · intro i hi
    rw [hn] at hi
    rw [hstatusOf, hfr i hi]
    exact hs.fresh i hi
  · intro i hi
    have ho := hp.mem_iff.mp hi
    rw [hstatusOf]
    exact ⟨(hs.live i ho).1, hreplies i ho⟩

variable {c : LoadCopy}

theorem copies_shm (h : c ∈ rpc.copies layers) : c.shm = rpc.shm ∧ c.req ∈ rpc.requestIds := by
  simp only [LoadRpc.copies, List.mem_flatMap, List.mem_map] at h
  obtain ⟨layer, -, p, hp, block, -, rfl⟩ := h
  exact ⟨rfl, mem_map_of_mem hp⟩

theorem served_step (hs : s.Served) (hord : s.Orderly timeout ev)
    (h : s.step layers timeout ev = some s') : s'.Served := by
  cases step_cases h with
  | @startLoadKv loads start _ =>
    have hp := tasks_perm_start (s := s) ⟨s.nextShm, loads⟩
    have hnew : s.nextShm ∉ s.tasks := fun hm => Nat.lt_irrefl _ (hs.lt _ hm)
    refine ⟨hp.nodup_iff.mpr (nodup_cons.mpr ⟨hnew, hs.nodup⟩), ?_, ?_, ?_, hs.worker, hs.left⟩
    · intro i hi
      rcases mem_cons.mp (hp.mem_iff.mp hi) with rfl | hi
      · exact Nat.lt_succ_self _
      · exact Nat.lt_succ_of_lt (hs.lt i hi)
    · exact fun i hi => hs.fresh i (Nat.le_of_succ_le hi)
    · intro i hi
      rcases mem_cons.mp (hp.mem_iff.mp hi) with rfl | hi
      · obtain ⟨hpd, hn⟩ := hs.fresh _ le_rfl
        refine ⟨hpd, ?_⟩
        rw [hn]
        exact Option.some_ne_none _ |>.symm
      · exact hs.live i hi
  | callReturns | callRaises | getFinished | getBlockIdsWithLoadErrors =>
    exact ⟨hs.nodup, hs.lt, hs.fresh, hs.live, hs.worker, hs.left⟩
  | @settled i outcome rpc accepted status hrpc hstat =>
    have hp := (net_perm hrpc).map LoadRpc.shm
    refine hs.of_perm_cons rpc.shm ((hp.append_right _).append_right _) rfl ?_ ?_ hs.worker hs.left
    · intro i hne
      rw [statusOf, hstat i hne]
      rfl
    · exact fun i hne => lookup_insert_ne hne
  | @queued i outcome rpc hrpc =>
    have hlt : rpc.shm < s.nextShm := hs.lt _ (mem_append_left _ (mem_append_left _
      (mem_map_of_mem (mem_of_getElem? hrpc))))
    refine hs.of_perm (tasks_perm_queued hrpc) rfl rfl ?_ ?_ hs.worker hs.left
    · exact fun i hi => lookup_insert_ne (Nat.lt_of_lt_of_le hlt hi).ne'
    · intro i hi
      by_cases heq : i = rpc.shm
      · subst heq
        rw [lookup_insert]
        exact fun h => by cases h
      · rw [lookup_insert_ne heq]
        exact (hs.live i hi).2
  | @takeTask rpc rest hqu hwk =>
    refine hs.of_perm (tasks_perm_takeTask hqu hwk) rfl rfl (fun _ _ => rfl)
      (fun i hi => (hs.live i hi).2) ?_ hs.left
    intro task htask c hc
    cases htask
    rw [append_nil] at hc
    exact (copies_shm hc).1
  | @copied ev task task' hwk hshm hsub =>
    refine hs.of_perm ?_ rfl rfl (fun _ _ => rfl) (fun i hi => (hs.live i hi).2) ?_ hs.left
    · simp only [tasks, hwk, Option.toList_some, map_cons, map_nil, hshm]
      exact List.Perm.refl _
    · intro t ht c hc
      cases ht
      rw [hshm]
      exact hs.worker task hwk c (hsub hc)
  | @signal ev task status hwk hrng =>
    have hn : task.running = [] := by
      rcases hrng with rfl | rfl | hn
      · exact hord task hwk
      · exact hord task hwk
      · exact hn
    refine hs.of_perm_cons task.shm (tasks_perm_signal hwk) rfl ?_ (fun _ _ => rfl)
      (fun t ht => by cases ht) ?_
    · exact fun i hne => congrArg (Option.getD · _) (lookup_insert_ne hne)
    · rw [LoadSystem.signal, hs.left, hn]
      rfl
  | leftCopyEnds =>
    refine ⟨hs.nodup, hs.lt, hs.fresh, hs.live, hs.worker, ?_⟩
    rw [hs.left]
    rfl

/-! ## The connector -/

theorem mem_outstanding :
    c ∈ s.outstanding layers ↔
      (∃ rpc ∈ s.net, c ∈ rpc.copies layers) ∨ (∃ rpc ∈ s.queue, c ∈ rpc.copies layers) ∨
        (∃ task ∈ s.worker, c ∈ task.todo ++ task.running) ∨ c ∈ s.leftRunning := by
  simp only [outstanding, onServer, List.mem_append, List.mem_flatMap, Option.mem_toList,
    Option.mem_def, or_assoc]

theorem Served.shm_mem (hs : s.Served) (hc : c ∈ s.outstanding layers) : c.shm ∈ s.tasks := by
  rw [tasks, append_assoc]
  rcases mem_outstanding.mp hc with ⟨rpc, hrpc, hc⟩ | ⟨rpc, hrpc, hc⟩ | ⟨task, ht, hc⟩ | hc
  · rw [(copies_shm hc).1]
    exact mem_append_left _ (mem_map_of_mem hrpc)
  · rw [(copies_shm hc).1]
    exact mem_append_right _ (mem_append_left _ (mem_map_of_mem hrpc))
  · rw [hs.worker task ht c hc]
    exact mem_append_right _ (mem_append_right _ (mem_map_of_mem (Option.mem_toList.mpr ht)))
  · rw [hs.left] at hc
    cases hc

/-- Copies come only from new calls. -/
theorem Step.mem_outstanding (h : Step layers timeout s ev s') (hc : c ∈ s'.outstanding layers) :
    c ∈ s.outstanding layers ∨ s.calling = none ∧
      ∃ call ∈ s'.calling, call.1.shm = c.shm ∧ c.req ∈ call.1.requestIds := by
  rw [LoadSystem.mem_outstanding] at hc ⊢
  cases h with
  | @startLoadKv loads start hcg =>
    rcases hc with ⟨rpc, hrpc, hc⟩ | hc
    · rcases List.mem_append.mp hrpc with hrpc | hrpc
      · exact Or.inl (Or.inl ⟨rpc, hrpc, hc⟩)
      · cases mem_singleton.mp hrpc
        exact Or.inr ⟨hcg, _, rfl, (copies_shm hc).1.symm, (copies_shm hc).2⟩
    · exact Or.inl (Or.inr hc)
  | settled =>
    refine Or.inl (Or.imp_left ?_ hc)
    exact fun ⟨rpc, hrpc, hc⟩ => ⟨rpc, mem_of_mem_eraseIdx hrpc, hc⟩
  | @queued i outcome rpc hrpc =>
    left
    rcases hc with ⟨rpc', hrpc', hc⟩ | ⟨rpc', hrpc', hc⟩ | hc
    · exact Or.inl ⟨rpc', mem_of_mem_eraseIdx hrpc', hc⟩
    · rcases List.mem_append.mp hrpc' with hrpc' | hrpc'
      · exact Or.inr (Or.inl ⟨rpc', hrpc', hc⟩)
      · cases mem_singleton.mp hrpc'
        exact Or.inl ⟨rpc, mem_of_getElem? hrpc, hc⟩
    · exact Or.inr (Or.inr hc)
  | @takeTask rpc rest hqu _ =>
    left
    rw [hqu]
    rcases hc with hc | ⟨rpc', hrpc', hc⟩ | ⟨task, htask, hc⟩ | hc
    · exact Or.inl hc
    · exact Or.inr (Or.inl ⟨rpc', mem_cons_of_mem _ hrpc', hc⟩)
    · cases htask
      rw [append_nil] at hc
      exact Or.inr (Or.inl ⟨rpc, mem_cons_self, hc⟩)
    · exact Or.inr (Or.inr (Or.inr hc))
  | @copied ev task task' hwk _ hsub =>
    left
    rcases hc with hc | hc | ⟨t, ht, hc⟩ | hc
    · exact Or.inl hc
    · exact Or.inr (Or.inl hc)
    · cases ht
      exact Or.inr (Or.inr (Or.inl ⟨task, hwk, hsub hc⟩))
    · exact Or.inr (Or.inr (Or.inr hc))
  | @signal ev task status hwk _ =>
    left
    rcases hc with hc | hc | ⟨t, ht, -⟩ | hc
    · exact Or.inl hc
    · exact Or.inr (Or.inl hc)
    · cases ht
    · rcases List.mem_append.mp hc with hc | hc
      · exact Or.inr (Or.inr (Or.inr hc))
      · exact Or.inr (Or.inr (Or.inl ⟨task, hwk, mem_append_right _ hc⟩))
  | leftCopyEnds =>
    refine Or.inl (Or.imp_right (Or.imp_right (Or.imp_right ?_)) hc)
    exact mem_of_mem_eraseIdx
  | _ => exact Or.inl hc

/-- Every copy belongs to the load state noted for its request, or to the call that is being made.
A pending load is noted for all of its requests, and a request that failed or is being loaded has
none. -/
structure Owned (layers : List String) (s : LoadSystem) : Prop where
  copies : ∀ c ∈ s.outstanding layers, s.pendingLoads.lookup c.req = some c.shm ∨
    ∃ call ∈ s.calling, call.1.shm = c.shm ∧ c.req ∈ call.1.requestIds
  calling : ∀ call ∈ s.calling, ∀ r ∈ call.1.requestIds,
    s.pendingLoads.lookup r = none ∧ r ∉ s.failedLoadReqs
  pending : ∀ shm p, s.pendingLoadReqs.lookup shm = some p →
    ∀ r ∈ p.requestIds, s.pendingLoads.lookup r = some shm
  failed : ∀ r ∈ s.failedLoadReqs, s.pendingLoads.lookup r = none

theorem owned_init : init.Owned layers where
  copies := fun c h => by cases h
  calling := fun call h => by cases h
  pending := fun shm p h => by cases h
  failed := fun r h => by cases h

variable {now : Nat}

/-- A load that is over for the connector has its state set. -/
theorem Owned.status_of_over {p : PendingLoad} (hs : s.Owned layers)
    (hord : s.Orderly timeout (.getFinished now)) (hp : p ∈ s.overLoads timeout now) :
    ∃ shm, s.pendingLoadReqs.lookup shm = some p ∧ s.statusOf shm ≠ .pending := by
  obtain ⟨hm, ho⟩ := mem_filter.mp hp
  obtain ⟨⟨shm, p'⟩, he, rfl⟩ := List.mem_map.mp hm
  have hl : s.pendingLoadReqs.lookup shm = some p' := mem_lookup_iff.mpr he
  refine ⟨shm, hl, fun hpd => ?_⟩
  have hw : now - p'.start ≤ timeout := hord _ he hpd
  cases hreqs : p'.requestIds with
  | nil => simp [isOver, sampleStatus, hreqs] at ho
  | cons r rest =>
    have hnoted := hs.pending shm p' hl r (by rw [hreqs]; exact mem_cons_self)
    simp [isOver, sampleStatus, hreqs, hnoted, hpd] at ho
    omega

section

variable (hserved : s.Served) (hs : s.Owned layers)
include hserved hs

/-- A request that is reported has no copy outstanding. -/
theorem Owned.no_copy_of_finished {r : ReqId} (hord : s.Orderly timeout (.getFinished now))
    (hr : r ∈ s.finishedRecving timeout now) : ∀ c ∈ s.outstanding layers, c.req ≠ r := by
  rintro c hc rfl
  have hpd := (hserved.live _ (hserved.shm_mem hc)).1
  rcases Finset.mem_union.mp hr with ho | hf
  · obtain ⟨p, hp, hm⟩ := List.mem_flatMap.mp (mem_toFinset.mp ho)
    obtain ⟨shm, hl, hset⟩ := hs.status_of_over hord hp
    have hnoted := hs.pending shm p hl _ hm
    rcases hs.copies c hc with hown | ⟨call, hcall, -, hreq⟩
    · cases hnoted.symm.trans hown
      exact hset hpd
    · cases hnoted.symm.trans (hs.calling call hcall _ hreq).1
  · rcases hs.copies c hc with hown | ⟨call, hcall, -, hreq⟩
    · cases hown.symm.trans (hs.failed _ hf)
    · exact (hs.calling call hcall _ hreq).2 hf

theorem Owned.getFinished (hord : s.Orderly timeout (.getFinished now))
    (hcg : s.calling = none) : (s.getFinished timeout now).Owned layers := by
  have hlk : ∀ r, (s.getFinished timeout now).pendingLoads.lookup r =
      if r ∈ (s.overLoads timeout now).flatMap PendingLoad.requestIds then none
      else s.pendingLoads.lookup r := fun r => lookup_foldl_erase _
  refine ⟨?_, ?_, ?_, fun r hr => absurd hr (Finset.notMem_empty r)⟩
  · intro c hc
    have hnot : c.req ∉ (s.overLoads timeout now).flatMap PendingLoad.requestIds := by
      intro hm
      have hr : c.req ∈ s.finishedRecving timeout now :=
        Finset.mem_union_left _ (mem_toFinset.mpr hm)
      exact Owned.no_copy_of_finished hserved hs hord hr c hc rfl
    rw [hlk, if_neg hnot]
    exact hs.copies c hc
  · intro call hcall
    cases hcg.symm.trans hcall
  · intro shm p hp r hr
    rw [LoadSystem.getFinished, lookup_filterMap, Option.bind_eq_some_iff] at hp
    obtain ⟨p', hp', hk⟩ := hp
    obtain ⟨hnot, heq⟩ := Option.ite_none_left_eq_some.mp hk
    obtain rfl := Option.some.inj heq
    have hnoted := hs.pending shm p' hp' r hr
    rw [hlk, if_neg ?_]
    · exact hnoted
    · intro hm
      obtain ⟨q, hq, hrq⟩ := List.mem_flatMap.mp hm
      obtain ⟨shm', hl, -⟩ := hs.status_of_over hord hq
      cases hnoted.symm.trans (hs.pending shm' q hl r hrq)
      cases hp'.symm.trans hl
      exact hnot (mem_filter.mp hq).2

theorem owned_step (hord : s.Orderly timeout ev) (h : s.step layers timeout ev = some s') :
    s'.Owned layers := by
  have hcps := fun c => (step_cases h).mem_outstanding (c := c)
  cases step_cases h with
  | @startLoadKv loads start hcg =>
    refine ⟨?_, ?_, hs.pending, hs.failed⟩
    · intro c hc
      rcases hcps c hc with ho | ⟨-, hnew⟩
      · rcases hs.copies c ho with hown | ⟨call, hcall, -⟩
        · exact Or.inl hown
        · cases hcg.symm.trans hcall
      · exact Or.inr hnew
    · intro call hcall r hr
      cases hcall
      obtain ⟨p, hp, rfl⟩ := List.mem_map.mp hr
      exact hord p hp
  | @callReturns rpc start hcg =>
    have hf := hs.calling _ hcg
    have hlk : ∀ r, (rpc.requestIds.foldl (fun t r => t.insert r rpc.shm) s.pendingLoads).lookup r =
          if r ∈ rpc.requestIds then some rpc.shm else s.pendingLoads.lookup r :=
      fun r => lookup_foldl_insert _ _
    -- a request that has a load state already is not in the call
    have hkeep : ∀ r shm, s.pendingLoads.lookup r = some shm → r ∉ rpc.requestIds := by
      intro r shm hr hm
      cases hr.symm.trans (hf r hm).1
    refine ⟨?_, ?_, ?_, ?_⟩
    · intro c hc
      left
      rw [hlk]
      rcases hcps c hc with ho | ⟨hn, -⟩
      · rcases hs.copies c ho with hown | ⟨call, hcall, hshm, hreq⟩
        · rw [if_neg (hkeep _ _ hown)]
          exact hown
        · cases hcg.symm.trans hcall
          rw [if_pos hreq, hshm]
      · cases hcg.symm.trans hn
    · exact nofun
    · intro shm p hp r hr
      rw [hlk]
      rcases lookup_of_insert hp with ⟨rfl, rfl⟩ | ⟨-, hp⟩
      · exact if_pos hr
      have hnoted := hs.pending shm p hp r hr
      rw [if_neg (hkeep _ _ hnoted)]
      exact hnoted
    · intro r hr
      rw [hlk, if_neg fun hm => (hf r hm).2 hr]
      exact hs.failed r hr
  | @callRaises rpc start hcg =>
    have hrejected := hord _ hcg
    refine ⟨?_, ?_, hs.pending, ?_⟩
    · intro c hc
      rcases hcps c hc with ho | ⟨hn, -⟩
      · rcases hs.copies c ho with hown | ⟨call, hcall, hshm, -⟩
        · exact Or.inl hown
        · cases hcg.symm.trans hcall
          rw [hshm] at hrejected
          exact absurd hrejected (hserved.live _ (hserved.shm_mem ho)).2
      · cases hcg.symm.trans hn
    · exact nofun
    · intro r hr
      rcases Finset.mem_union.mp hr with hr | hr
      · exact hs.failed r hr
      · exact (hs.calling _ hcg r (mem_toFinset.mp hr)).1
  | getFinished hcg => exact Owned.getFinished hserved hs hord hcg
  | _ =>
    refine ⟨fun c hc => ?_, hs.calling, hs.pending, hs.failed⟩
    rcases hcps c hc with ho | ⟨hn, call, hcall, -⟩
    · exact hs.copies c ho
    · cases hn.symm.trans hcall

end

/-- The requests `get_finished` reports at the end of an orderly run have no copy left: none that is
queued or running on the server, and none that it will make for a call on its way to it. -/
theorem no_copy_after_report (now : Nat)
    (hmeets : Run.Meets (step layers timeout) (Orderly timeout) init (events ++ [.getFinished now]))
    (hrun : Run.exec (step layers timeout) init events = some s) :
    ∀ r ∈ s.finishedRecving timeout now, ∀ c ∈ s.outstanding layers, c.req ≠ r := by
  have hinv : s.Served ∧ s.Owned layers := by
    refine exec_invariant_of_meets (I := fun s => s.Served ∧ s.Owned layers) ?_
      ⟨served_init, owned_init⟩ hmeets.of_append_left hrun
    intro s ev s' ⟨hserved, howned⟩ hord h
    exact ⟨served_step hserved hord h, owned_step hserved howned hord h⟩
  exact fun r hr => hinv.2.no_copy_of_finished hinv.1 (hmeets.of_append hrun).1 hr

/-- One load is over when another is still queued. -/
theorem no_copy_after_report_second_queued :
    ∃ s ∈ Run.exec (step ["layer"] 10) init
      [.startLoadKv [("first", [0])] 0, .handle 0 .accepted, .callReturns,
        .startLoadKv [("second", [1])] 1, .handle 0 .accepted, .callReturns,
        .takeTask, .submitCopy, .copyEnds 0, .synchronize true],
      "first" ∈ s.finishedRecving 10 2 ∧ s.outstanding ["layer"] = [⟨1, "second", "layer", 1⟩] ∧
        ∀ c ∈ s.outstanding ["layer"], c.req ≠ "first" := by
  refine exists_mem_of_eq rfl fun hrun => ?_
  exact ⟨by decide, rfl, no_copy_after_report 2 (by decide) hrun "first" (by decide)⟩

/-- A load older than the timeout is reported with its copy queued on the server. -/
theorem reported_at_timeout :
    ∃ s ∈ Run.exec (step ["layer"] 10) init
      [.startLoadKv [("request", [0])] 0, .handle 0 .accepted, .callReturns],
      "request" ∈ s.finishedRecving 10 11 ∧
        ⟨0, "request", "layer", 0⟩ ∈ s.onServer ["layer"] :=
  ⟨_, rfl, by decide, by decide⟩

end LoadSystem

end PegaFlow.Connector
