import PegaFlow.Storage.PrefetchTask

/-!
# The shape of a prefetch answer

`PrefetchScheduler` with its tasks running: any number of calls of `check_and_prefetch`, in the
parts between which others may run, any number of tasks, the garbage collection, and a read cache
and an SSD that change at any time.  A task whose entry was collected goes on without one.

A query that is answered `Ready` gets blocks of leading keys and the number of the keys that are
left.  This holds as long as no task of the query ends with a panic.  `poll_existing` answers for
such a task with no blocks and nothing missing.

A block is a block of a key if the read cache had it under the key, or a store returned it for
the key; `stored` keeps all these pairs.
-/

namespace PegaFlow.Storage

structure PrefetchCall where
  req : ReqId
  nameSpace : String
  hashes : List BlockHash

def PrefetchCall.keys (call : PrefetchCall) : List BlockKey := queryKeys call.nameSpace call.hashes

/-- What a call does next. -/
inductive CallStage where
  | scan
  | start (prefixBlocks : List FoundBlock)
  | settle (result : PrefetchTaskResult)

/-- What the handle of a task shows. -/
def PrefetchTask.result (t : PrefetchTask) : Option (Option PrefetchTaskResult) :=
  match t.stage with
  | .done r => some (r.map Subtype.val)
  | _ => none

theorem PrefetchTask.fits_of_result {t : PrefetchTask} {r : PrefetchTaskResult}
    (h : t.result = some (some r)) : r.Fits t.input := by
  unfold result at h
  split at h
  · obtain ⟨r', -, rfl⟩ := Option.map_eq_some_iff.mp (Option.some.inj h)
    exact r'.2
  · cases h

def PrefetchTask.entry (t : PrefetchTask) : PrefetchEntry :=
  ⟨t.deps, t.input, t.result, fun _ h => (fits_of_result h).keys⟩

structure PrefetchSystem where
  server : QueryServer
  tasks : List PrefetchTask
  /-- The task whose handle the entry of a request id has. -/
  handles : Table ReqId Nat
  /-- `reserved_ssd_prefetch_blocks`. -/
  budget : Nat
  /-- The keys that can be read from the SSD. -/
  ssd : Finset BlockKey
  calls : Table Nat (PrefetchCall × CallStage)
  answers : List (PrefetchCall × PrefetchStatus)
  stored : List FoundBlock

inductive PrefetchEvent where
  | check (id : Nat) (call : PrefetchCall)
  | advance (id : Nat)
  | task (n : Nat) (ev : TaskEvent)
  | gc (stale staleFailed : List ReqId)
  /-- The read cache changes. -/
  | cache (cache : Table BlockKey SealedBlock)
  /-- The SSD changes. -/
  | ssd (keys : Finset BlockKey)

/-- All queries of the request id are the same. -/
def PrefetchEvent.Asks (req : ReqId) (nameSpace : String) (hashes : List BlockHash) :
    PrefetchEvent → Prop
  | .check _ call => call.req = req → call.nameSpace = nameSpace ∧ call.hashes = hashes
  | _ => True

instance (req : ReqId) (nameSpace : String) (hashes : List BlockHash) (ev : PrefetchEvent) :
    Decidable (ev.Asks req nameSpace hashes) := by
  cases ev with
  | check id call => exact inferInstanceAs (Decidable (_ → _))
  | _ => exact isTrue trivial

namespace PrefetchSystem

def init : PrefetchSystem := ⟨.empty, [], ∅, 0, ∅, ∅, [], []⟩

variable (s : PrefetchSystem)

/-- The start of a call, up to the end of the locked part of `poll_existing`. -/
def poll (id : Nat) (call : PrefetchCall) : PrefetchSystem :=
  match s.server.pollExisting call.req with
  | (.noActivePrefetch, q) => { s with server := q, calls := s.calls.insert id (call, .scan) }
  | (.stillLoading, q) => { s with server := q, answers := s.answers ++ [(call, .loading)] }
  | (.ready result, q) => { s with server := q, calls := s.calls.insert id (call, .settle result) }

/-- `start_prefetch_task` and the answer of `full_prefix_scan`. -/
def start (cfg : SchedulerConfig) (s : PrefetchSystem) (id : Nat) (call : PrefetchCall)
    (prefixBlocks : List FoundBlock) : PrefetchSystem :=
  let (status, q) := s.server.finishScan cfg.stores call.req call.nameSpace call.keys prefixBlocks
  let s' := { s with
    server := q, calls := s.calls.erase id, answers := s.answers ++ [(call, status)] }
  match s.server.active.lookup call.req, q.active.lookup call.req with
  | none, some e =>
    { s' with
      tasks := s.tasks ++ [.spawn call.req e.deps e.input]
      handles := s.handles.insert call.req s.tasks.length }
  | _, _ => s'

def advance (cfg : SchedulerConfig) (s : PrefetchSystem) (id : Nat) (call : PrefetchCall) :
    CallStage → PrefetchSystem
  | .scan => { s with calls := s.calls.insert id (call, .start (s.server.scan call.keys)) }
  | .start prefixBlocks => s.start cfg id call prefixBlocks
  | .settle result =>
    { s with
      server := s.server.settle call.req result
      calls := s.calls.erase id
      answers := s.answers ++ [(call, .ready result.readyBlocks result.missing)] }

/-- Whether the entry of a request id has the handle of this task. -/
def Attached (req : ReqId) (n : Nat) : Prop :=
  s.handles.lookup req = some n ∧ (s.server.active.lookup req).isSome

instance (req : ReqId) (n : Nat) : Decidable (s.Attached req n) :=
  inferInstanceAs (Decidable (_ ∧ _))

/-- The task gets to its next stage. -/
def setTask (n : Nat) (t : PrefetchTask) : PrefetchSystem :=
  { s with
    tasks := s.tasks.set n t
    server :=
      if s.Attached t.req n then
        { s.server with active := s.server.active.insert t.req t.entry }
      else s.server }

def step (cfg : SchedulerConfig) (s : PrefetchSystem) : PrefetchEvent → Option PrefetchSystem
  | .check id call => if s.calls.lookup id = none then some (s.poll id call) else none
  | .advance id => (s.calls.lookup id).map fun c => s.advance cfg id c.1 c.2
  | .task n ev =>
    s.tasks[n]?.bind fun t =>
      (t.step cfg s.ssd s.budget ev).map fun (stage, budget) =>
        { s.setTask n { t with stage := stage } with
          budget := budget, stored := s.stored ++ t.delivered ev }
  | .gc stale staleFailed => some { s with server := s.server.gcStaleEntries stale staleFailed }
  | .cache cache =>
    some { s with
      server := { s.server with cache := cache }
      stored := s.stored ++ cache.entries.map fun e => (e.1, e.2) }
  | .ssd keys => some { s with ssd := keys }

/-! ## What a caller may rely on -/

/-- The blocks are blocks of leading keys, and the other keys are missing. -/
def StatusShaped (stored : List FoundBlock) (keys : List BlockKey) : PrefetchStatus → Prop
  | .loading => True
  | .ready blocks missing =>
    blocks.map Prod.fst <+: keys ∧ blocks ⊆ stored ∧ blocks.length + missing = keys.length

instance (stored : List FoundBlock) (keys : List BlockKey) (status : PrefetchStatus) :
    Decidable (StatusShaped stored keys status) := by
  cases status with
  | loading => exact isTrue trivial
  | ready blocks missing => exact inferInstanceAs (Decidable (_ ∧ _))

/-- Every `Ready` of the request id has the shape. -/
def ReadyShaped (req : ReqId) (keys : List BlockKey) : Prop :=
  ∀ p ∈ s.answers, p.1.req = req → StatusShaped s.stored keys p.2

instance (req : ReqId) (keys : List BlockKey) : Decidable (s.ReadyShaped req keys) :=
  inferInstanceAs (Decidable (∀ p ∈ s.answers, _))

/-- No task that a query of the request id waits for ends without a result. -/
def TasksSurvive (cfg : SchedulerConfig) (req : ReqId) (s : PrefetchSystem) : PrefetchEvent → Prop
  | .task n ev => s.Attached req n → ∀ t ∈ s.tasks[n]?, t.Survives cfg ev
  | _ => True

instance (cfg : SchedulerConfig) (req : ReqId) (s : PrefetchSystem) (ev : PrefetchEvent) :
    Decidable (s.TasksSurvive cfg req ev) := by
  cases ev with
  | task n ev => exact inferInstanceAs (Decidable (_ → ∀ t ∈ s.tasks[n]?, _))
  | _ => exact isTrue trivial

/-! ## What a step can do -/

variable {cfg : SchedulerConfig}

inductive Step (cfg : SchedulerConfig) (s : PrefetchSystem) :
    PrefetchEvent → PrefetchSystem → Prop where
  | wait : Step cfg s (.check i call) { s with answers := s.answers ++ [(call, .loading)] }
  | miss : Step cfg s (.check i call) { s with calls := s.calls.insert i (call, .scan) }
  | take (hactive : s.server.active.lookup call.req = some e) (hfinished : e.result = some result) :
      Step cfg s (.check i call)
        { s with
          server := { s.server with active := s.server.active.erase call.req }
          calls := s.calls.insert i (call, .settle (result.getD .failed)) }
  | scan (hcall : s.calls.lookup i = some (call, .scan)) :
      Step cfg s (.advance i)
        { s with calls := s.calls.insert i (call, .start (s.server.scan call.keys)) }
  | join (hcall : s.calls.lookup i = some (call, .start blocks)) :
      Step cfg s (.advance i)
        { s with calls := s.calls.erase i, answers := s.answers ++ [(call, .loading)] }
  | start (hcall : s.calls.lookup i = some (call, .start blocks))
      (hinput : input = ⟨call.nameSpace, call.keys.drop blocks.length, blocks, call.keys.length⟩) :
      Step cfg s (.advance i)
        { s with
          server := { s.server with active := s.server.active.insert call.req (.spawn deps input) }
          tasks := s.tasks ++ [.spawn call.req deps input]
          handles := s.handles.insert call.req s.tasks.length
          calls := s.calls.erase i
          answers := s.answers ++ [(call, .loading)] }
  | hit (hcall : s.calls.lookup i = some (call, .start blocks)) :
      Step cfg s (.advance i)
        { s with
          calls := s.calls.erase i
          answers := s.answers ++ [(call, .ready blocks (call.keys.length - blocks.length))] }
  | settle (hcall : s.calls.lookup i = some (call, .settle result)) :
      Step cfg s (.advance i)
        { s with
          server := s.server.settle call.req result
          calls := s.calls.erase i
          answers := s.answers ++ [(call, .ready result.readyBlocks result.missing)] }
  | task (htask : s.tasks[n]? = some t) (hstep : PrefetchTask.Step cfg t ev stage) :
      Step cfg s (.task n ev)
        { s.setTask n { t with stage := stage } with
          budget := b, stored := s.stored ++ t.delivered ev }
  | gc : Step cfg s (.gc stale staleFailed)
      { s with server := s.server.gcStaleEntries stale staleFailed }
  | cache : Step cfg s (.cache cache)
      { s with
        server := { s.server with cache := cache }
        stored := s.stored ++ cache.entries.map fun e => (e.1, e.2) }
  | ssd : Step cfg s (.ssd keys) { s with ssd := keys }

variable {s s' : PrefetchSystem} {ev : PrefetchEvent}

theorem poll_cases (id : Nat) (call : PrefetchCall) :
    Step cfg s (.check id call) (s.poll id call) := by
  unfold poll QueryServer.pollExisting
  cases ha : s.server.active.lookup call.req with
  | none => exact .miss
  | some e =>
    cases hfin : e.result with
    | none =>
      simp only [hfin]
      exact .wait
    | some result =>
      simp only [hfin]
      exact .take ha hfin

variable {call : PrefetchCall} {blocks : List FoundBlock}

theorem start_cases {id : Nat} (hc : s.calls.lookup id = some (call, .start blocks)) :
    Step cfg s (.advance id) (s.start cfg id call blocks) := by
  unfold start
  rcases QueryServer.finishScan_eq cfg.stores s.server call.req call.nameSpace call.keys blocks with
    ⟨e, ha, heq⟩ | ⟨ha, deps, heq⟩ | heq
  · simp only [heq, ha]
    exact .join hc
  · simp only [heq, ha, AList.lookup_insert]
    exact .start hc rfl
  · have hsm : ∀ (entry : Option PrefetchEntry) (s₁ : PrefetchSystem)
        (f : PrefetchEntry → PrefetchSystem),
        (match entry, entry with | none, some e => f e | _, _ => s₁) = s₁ := by
      intro entry s₁ f
      cases entry <;> rfl
    simp only [heq]
    rw [hsm]
    exact .hit hc

theorem step_cases (h : s.step cfg ev = some s') : Step cfg s ev s' := by
  cases ev with
  | check id call =>
    obtain ⟨-, rfl⟩ := Run.guarded_eq_some.mp h
    exact poll_cases id call
  | advance id =>
    obtain ⟨⟨call, stage⟩, hc, rfl⟩ := Option.map_eq_some_iff.mp h
    cases stage with
    | scan => exact .scan hc
    | start blocks => exact start_cases hc
    | settle result => exact .settle hc
  | task n ev =>
    obtain ⟨t, ht, h⟩ := Option.bind_eq_some_iff.mp h
    obtain ⟨⟨stage, budget⟩, hst, rfl⟩ := Option.map_eq_some_iff.mp h
    exact .task ht (PrefetchTask.step_cases hst)
  | gc stale staleFailed =>
    cases h
    exact .gc
  | cache cache =>
    cases h
    exact .cache
  | ssd keys =>
    cases h
    exact .ssd

/-! ## Tasks and their entries -/

/-- Every entry shows where the task of its handle is. -/
def Linked (s : PrefetchSystem) : Prop :=
  ∀ req e, s.server.active.lookup req = some e →
    ∃ n t, s.handles.lookup req = some n ∧ s.tasks[n]? = some t ∧ t.req = req ∧ e = t.entry

theorem setTask_server_active (s : PrefetchSystem) (n : Nat) (t : PrefetchTask) :
    (s.setTask n t).server.active =
      if s.Attached t.req n then s.server.active.insert t.req t.entry else s.server.active := by
  unfold setTask
  split <;> rfl

variable {n : Nat}

theorem Linked.setTask {t t' : PrefetchTask} (hi : s.Linked) (ht : s.tasks[n]? = some t)
    (hreq : t'.req = t.req) : (s.setTask n t').Linked := by
  intro req e he
  -- The entry is of another task, which the step leaves alone.
  have hoth : s.server.active.lookup req = some e → ¬ (req = t'.req ∧ s.Attached t'.req n) →
      ∃ m u, s.handles.lookup req = some m ∧ (s.tasks.set n t')[m]? = some u ∧ u.req = req ∧
        e = u.entry := by
    intro he hnot
    obtain ⟨m, u, hhandle, hu, hureq, rfl⟩ := hi req e he
    refine ⟨m, u, hhandle, ?_, hureq, rfl⟩
    rw [List.getElem?_set_ne, hu]
    rintro rfl
    cases ht.symm.trans hu
    have hreq' : req = t'.req := hureq.symm.trans hreq.symm
    subst hreq'
    exact hnot ⟨rfl, hhandle, by rw [he]; rfl⟩
  rw [setTask_server_active] at he
  split at he
  next hatt =>
    rcases Table.lookup_of_insert he with ⟨rfl, rfl⟩ | ⟨hne, he⟩
    · refine ⟨n, t', hatt.1, ?_, rfl, rfl⟩
      exact List.getElem?_set_self (List.getElem?_eq_some_iff.mp ht).1
    · exact hoth he fun h => hne h.1
  next hnot => exact hoth he fun h => hnot h.2

theorem Linked.step (hi : s.Linked) (h : Step cfg s ev s') : s'.Linked := by
  cases h with
  | wait | miss | scan | join | hit | settle | cache | ssd => exact hi
  | take => exact fun req e he => hi req e (Table.lookup_of_erase he).2
  | @start _ call _ input deps =>
    intro req e he
    rcases Table.lookup_of_insert he with ⟨rfl, rfl⟩ | ⟨hne, he⟩
    · exact ⟨_, _, AList.lookup_insert _, List.getElem?_concat_length, rfl, rfl⟩
    obtain ⟨n, t, hhandle, ht, hreq, rfl⟩ := hi req e he
    refine ⟨n, t, (AList.lookup_insert_ne hne).trans hhandle, ?_, hreq, rfl⟩
    exact List.getElem?_append_left (List.getElem?_eq_some_iff.mp ht).1 ▸ ht
  | task ht => exact hi.setTask ht rfl
  | gc =>
    intro req e he
    simp only [QueryServer.gcStaleEntries, Table.lookup_foldl_erase] at he
    split at he
    · cases he
    · exact hi req e he

theorem follows_step (hi : ∀ t ∈ s.tasks, t.Follows) (h : Step cfg s ev s') :
    ∀ t ∈ s'.tasks, t.Follows := by
  cases h with
  | start => exact Run.forall_mem_concat.mpr ⟨hi, trivial⟩
  | task ht hst =>
    intro u hu
    rcases List.mem_or_eq_of_mem_set hu with hu | rfl
    · exact hi u hu
    · exact (hi _ (List.mem_of_getElem? ht)).step hst
  | wait | miss | take | scan | join | hit | settle | gc | cache | ssd => exact hi

variable {e : PrefetchEntry} {r : PrefetchTaskResult}

/-- All blocks of a result were stored under their keys. -/
structure ResultSourced (stored : List FoundBlock) (r : PrefetchTaskResult) : Prop where
  ready : r.readyBlocks ⊆ stored
  inserts : r.cacheInserts ⊆ stored

def StageSourced (stored : List FoundBlock) : CallStage → Prop
  | .scan => True
  | .start blocks => blocks ⊆ stored
  | .settle r => ResultSourced stored r

structure TaskSourced (stored : List FoundBlock) (t : PrefetchTask) : Prop where
  input : t.input.prefixBlocks ⊆ stored
  result : ∀ r, t.result = some (some r) → ResultSourced stored r

/-- Everything that is in the cache, in a task or in a call was stored under its key. -/
structure Sourced (s : PrefetchSystem) : Prop where
  cache : ∀ k block, s.server.cache.lookup k = some block → (k, block) ∈ s.stored
  tasks : ∀ t ∈ s.tasks, TaskSourced s.stored t
  calls : ∀ i call stage, s.calls.lookup i = some (call, stage) → StageSourced s.stored stage

variable {stored stored' : List FoundBlock} {t : PrefetchTask}

theorem ResultSourced.mono (h : ResultSourced stored r) (hsub : stored ⊆ stored') :
    ResultSourced stored' r :=
  ⟨List.Subset.trans h.ready hsub, List.Subset.trans h.inserts hsub⟩

theorem TaskSourced.mono (h : TaskSourced stored t) (hsub : stored ⊆ stored') :
    TaskSourced stored' t :=
  ⟨List.Subset.trans h.input hsub, fun r hr => (h.result r hr).mono hsub⟩

variable {stage : CallStage}

theorem StageSourced.mono (h : StageSourced stored stage) (hsub : stored ⊆ stored') :
    StageSourced stored' stage := by
  cases stage with
  | scan => trivial
  | start blocks => exact List.Subset.trans h hsub
  | settle r => exact ResultSourced.mono h hsub

/-- A task adds what it was delivered. -/
theorem TaskSourced.step {ev : TaskEvent} {stage : TaskStage t.input} (h : TaskSourced stored t)
    (hst : PrefetchTask.Step cfg t ev stage) :
    TaskSourced (stored ++ t.delivered ev) { t with stage := stage } := by
  have hsub := List.subset_append_left stored (t.delivered ev)
  refine ⟨List.Subset.trans h.input hsub, ?_⟩
  intro r hr
  unfold PrefetchTask.result at hr
  split at hr
  next hd =>
    obtain ⟨r', rfl, rfl⟩ := Option.map_eq_some_iff.mp (Option.some.inj hr)
    obtain ⟨source, found, rfl⟩ := hst.result hd
    refine ⟨?_, List.subset_append_right _ _⟩
    intro b hb
    rcases PrefetchTaskInput.mem_ready hb with hb | hb
    · exact hsub (h.input hb)
    · exact List.mem_append_right _ hb
  · cases hr

/-- What `batch_insert` leaves in the cache was there or is inserted. -/
theorem mem_of_lookup_batchInsert {cache : Table BlockKey SealedBlock} {k : BlockKey}
    {block : SealedBlock} (h : (QueryServer.batchInsert cache blocks).lookup k = some block) :
    cache.lookup k = some block ∨ (k, block) ∈ blocks := by
  refine List.foldlRecOn (motive := fun c : Table _ _ => c.lookup k = some block → _) blocks _
    Or.inl ?_ h
  intro c ih b hb h
  split at h
  · exact ih h
  · rcases Table.lookup_of_insert h with ⟨rfl, rfl⟩ | ⟨-, ho⟩
    · exact Or.inr hb
    · exact ih ho

variable {i j : Nat} {call' : PrefetchCall} {stage' : CallStage}

theorem Sourced.setCall (hi : s.Sourced)
    (h : (s.calls.insert i (call, stage)).lookup j = some (call', stage'))
    (hst : StageSourced s.stored stage) : StageSourced s.stored stage' := by
  rcases Table.lookup_of_insert h with ⟨-, heq⟩ | ⟨-, ho⟩
  · cases heq
    exact hst
  · exact hi.calls _ _ _ ho

theorem Sourced.eraseCall (hi : s.Sourced) (h : (s.calls.erase i).lookup j = some (call, stage)) :
    StageSourced s.stored stage :=
  hi.calls _ _ _ (Table.lookup_of_erase h).2

theorem Sourced.scan_subset (hi : s.Sourced) (keys : List BlockKey) :
    s.server.scan keys ⊆ s.stored := by
  intro b hb
  exact hi.cache _ _ (mem_of_mem_collectPrefix hb)

theorem Sourced.result {r : Option PrefetchTaskResult} (hi : s.Sourced)
    (ht : s.tasks[n]? = some t) (hrs : t.result = some r) :
    ResultSourced s.stored (r.getD .failed) := by
  cases r with
  | none => exact ⟨List.nil_subset _, List.nil_subset _⟩
  | some r => exact (hi.tasks t (List.mem_of_getElem? ht)).result r hrs

theorem Sourced.step (hi : s.Sourced) (hlnk : s.Linked) (h : Step cfg s ev s') : s'.Sourced := by
  cases h with
  | wait | gc | ssd => exact ⟨hi.cache, hi.tasks, hi.calls⟩
  | miss => exact ⟨hi.cache, hi.tasks, fun _ _ _ h => hi.setCall h trivial⟩
  | take ha hfin =>
    obtain ⟨n, t, -, htask, -, rfl⟩ := hlnk _ _ ha
    exact ⟨hi.cache, hi.tasks, fun _ _ _ h => hi.setCall h (hi.result htask hfin)⟩
  | scan => exact ⟨hi.cache, hi.tasks, fun _ _ _ h => hi.setCall h (hi.scan_subset _)⟩
  | join | hit => exact ⟨hi.cache, hi.tasks, fun _ _ _ => hi.eraseCall⟩
  | start hc hinput =>
    refine ⟨hi.cache, ?_, fun _ _ _ => hi.eraseCall⟩
    refine Run.forall_mem_concat.mpr ⟨hi.tasks, ?_⟩
    cases hinput
    exact ⟨hi.calls _ _ _ hc, nofun⟩
  | settle hc =>
    refine ⟨?_, hi.tasks, fun _ _ _ => hi.eraseCall⟩
    intro k block hlk
    rcases mem_of_lookup_batchInsert hlk with ho | hm
    · exact hi.cache k block ho
    · exact (hi.calls _ _ _ hc).inserts hm
  | @task n t ev stage _ htask hst =>
    have hsub := List.subset_append_left s.stored (t.delivered ev)
    refine ⟨?_, ?_, fun i call stage hc => (hi.calls i call stage hc).mono hsub⟩
    · intro k block hlk
      refine hsub (hi.cache k block ?_)
      have hcch : (s.setTask n { t with stage := stage }).server.cache = s.server.cache := by
        unfold setTask
        split <;> rfl
      exact hcch ▸ hlk
    · intro u hu
      rcases List.mem_or_eq_of_mem_set hu with hu | rfl
      · exact (hi.tasks u hu).mono hsub
      · exact (hi.tasks t (List.mem_of_getElem? htask)).step hst
  | @cache cache =>
    have hsub := List.subset_append_left s.stored (cache.entries.map fun e => (e.1, e.2))
    refine ⟨?_, fun t ht => (hi.tasks t ht).mono hsub,
      fun i call stage hc => (hi.calls i call stage hc).mono hsub⟩
    intro k block hlk
    refine List.mem_append_right _ (List.mem_map.mpr ⟨⟨k, block⟩, ?_, rfl⟩)
    exact AList.mem_lookup_iff.mp hlk

/-! ## The shape of answers -/

/-- The call can only answer with the shape. -/
def StageFits (keys : List BlockKey) : CallStage → Prop
  | .scan => True
  | .start blocks => blocks.map Prod.fst <+: keys
  | .settle r =>
    r.readyBlocks.map Prod.fst <+: keys ∧ r.readyBlocks.length + r.missing = keys.length

/-- All tasks and calls of the request id are about these keys, and none that a query waits for
ended without a result. -/
structure Inv (req : ReqId) (keys : List BlockKey) (s : PrefetchSystem) : Prop where
  linked : s.Linked
  sourced : s.Sourced
  asked : ∀ t ∈ s.tasks, t.req = req → t.input.keys = keys ∧ t.input.total = keys.length
  alive : ∀ e, s.server.active.lookup req = some e → e.result ≠ some none
  calls : ∀ i call stage, s.calls.lookup i = some (call, stage) → call.req = req →
    call.keys = keys ∧ StageFits keys stage
  answers : s.ReadyShaped req keys

variable {req : ReqId} {keys : List BlockKey} {status : PrefetchStatus}

theorem StatusShaped.mono (h : StatusShaped stored keys status) (hsub : stored ⊆ stored') :
    StatusShaped stored' keys status := by
  cases status with
  | loading => trivial
  | ready blocks missing => exact ⟨h.1, List.Subset.trans h.2.1 hsub, h.2.2⟩

theorem ReadyShaped.concat {p : PrefetchCall × PrefetchStatus} (h : s.ReadyShaped req keys)
    (hp : p ∈ s.answers ++ [(call, status)]) (hreq : p.1.req = req)
    (hstat : call.req = req → StatusShaped s.stored keys status) :
    StatusShaped s.stored keys p.2 := by
  rcases List.mem_append.mp hp with hp | hp
  · exact h p hp hreq
  · cases List.mem_singleton.mp hp
    exact hstat hreq

theorem Inv.setCall (hi : s.Inv req keys)
    (h : (s.calls.insert i (call, stage)).lookup j = some (call', stage')) (hreq : call'.req = req)
    (hc : call.req = req → call.keys = keys ∧ StageFits keys stage) :
    call'.keys = keys ∧ StageFits keys stage' := by
  rcases Table.lookup_of_insert h with ⟨-, heq⟩ | ⟨-, ho⟩
  · cases heq
    exact hc hreq
  · exact hi.calls _ _ _ ho hreq

theorem Inv.eraseCall (hi : s.Inv req keys) (h : (s.calls.erase i).lookup j = some (call, stage))
    (hreq : call.req = req) : call.keys = keys ∧ StageFits keys stage :=
  hi.calls _ _ _ (Table.lookup_of_erase h).2 hreq

/-- What a query takes from a finished task. -/
theorem Inv.taken {result : Option PrefetchTaskResult} (hi : s.Inv req keys)
    (ha : s.server.active.lookup req = some e) (hfin : e.result = some result) :
    StageFits keys (.settle (result.getD .failed)) := by
  obtain ⟨n, t, -, ht, hreq, rfl⟩ := hi.linked _ _ ha
  obtain ⟨hk, htot⟩ := hi.asked t (List.mem_of_getElem? ht) hreq
  cases result with
  | none => exact absurd hfin (hi.alive _ ha)
  | some r =>
    obtain ⟨hr, hmissing⟩ := PrefetchTask.fits_of_result hfin
    rw [hk] at hr
    have hle := hr.length_le
    rw [List.length_map] at hle
    refine ⟨hr, ?_⟩
    change r.readyBlocks.length + r.missing = keys.length
    omega

/-- A step of a task that its queries survive. -/
theorem Inv.step_task {budget : Nat} {ev : TaskEvent} {stage : TaskStage t.input}
    (hi : s.Inv req keys) (ht : s.tasks[n]? = some t)
    (hsurvives : s.Attached req n → t.Survives cfg ev) (hst : PrefetchTask.Step cfg t ev stage) :
    Inv req keys { s.setTask n { t with stage := stage } with
      budget := budget, stored := s.stored ++ t.delivered ev } := by
  have hwhole : Step cfg s (.task n ev) { s.setTask n { t with stage := stage } with
      budget := budget, stored := s.stored ++ t.delivered ev } := .task ht hst
  refine ⟨hi.linked.step hwhole, hi.sourced.step hi.linked hwhole, ?_, ?_, hi.calls, ?_⟩
  · intro u hu hreq
    rcases List.mem_or_eq_of_mem_set hu with hu | rfl
    · exact hi.asked u hu hreq
    · exact hi.asked t (List.mem_of_getElem? ht) hreq
  · intro e he
    rw [setTask_server_active] at he
    split at he
    next hatt =>
      rcases Table.lookup_of_insert he with ⟨rfl, rfl⟩ | ⟨-, he⟩
      · intro hrs
        change PrefetchTask.result { t with stage := stage } = some none at hrs
        unfold PrefetchTask.result at hrs
        split at hrs
        next hd =>
          cases Option.map_eq_none_iff.mp (Option.some.inj hrs)
          exact hst.not_survives hd (hsurvives hatt)
        · cases hrs
      · exact hi.alive e he
    · exact hi.alive e he
  · intro p hp hreq
    exact (hi.answers p hp hreq).mono (List.subset_append_left _ _)

theorem Inv.step {nameSpace : String} {hashes : List BlockHash}
    (hi : s.Inv req (queryKeys nameSpace hashes)) (hasks : ev.Asks req nameSpace hashes)
    (hsurvive : s.TasksSurvive cfg req ev) (h : Step cfg s ev s') :
    s'.Inv req (queryKeys nameSpace hashes) := by
  have hlnk := hi.linked.step h
  have hsrc := hi.sourced.step hi.linked h
  have hk : ∀ i call, ev = .check i call → call.req = req →
      call.keys = queryKeys nameSpace hashes := by
    rintro i call rfl hreq
    obtain ⟨hns, hhashes⟩ := hasks hreq
    rw [PrefetchCall.keys, hns, hhashes]
  cases h with
  | wait =>
    exact ⟨hlnk, hsrc, hi.asked, hi.alive, hi.calls,
      fun _ hp hreq => hi.answers.concat hp hreq fun _ => trivial⟩
  | @miss i call =>
    exact ⟨hlnk, hsrc, hi.asked, hi.alive,
      fun _ _ _ h hreq => hi.setCall h hreq fun hr => ⟨hk i call rfl hr, trivial⟩, hi.answers⟩
  | @take e result i call ha hfin =>
    refine ⟨hlnk, hsrc, hi.asked, fun e he => hi.alive e (Table.lookup_of_erase he).2,
      fun _ _ _ h hreq => hi.setCall h hreq ?_, hi.answers⟩
    rintro rfl
    exact ⟨hk i call rfl rfl, hi.taken ha hfin⟩
  | @scan i call hc =>
    refine ⟨hlnk, hsrc, hi.asked, hi.alive,
      fun _ _ _ h hreq => hi.setCall h hreq fun hr => ?_, hi.answers⟩
    obtain ⟨hcalled, -⟩ := hi.calls _ _ _ hc hr
    exact ⟨hcalled, hcalled ▸ collectPrefix_keys _ _⟩
  | join =>
    exact ⟨hlnk, hsrc, hi.asked, hi.alive, fun _ _ _ => hi.eraseCall,
      fun _ hp hreq => hi.answers.concat hp hreq fun _ => trivial⟩
  | @start i call blocks input deps hc hinput =>
    refine ⟨hlnk, hsrc, ?_, ?_, fun _ _ _ => hi.eraseCall,
      fun _ hp hreq => hi.answers.concat hp hreq fun _ => trivial⟩
    · refine Run.forall_mem_concat.mpr ⟨hi.asked, ?_⟩
      intro hreq
      obtain ⟨hcalled, hbs⟩ := hi.calls _ _ _ hc hreq
      cases hinput
      refine ⟨?_, congrArg List.length hcalled⟩
      rw [← hcalled] at hbs ⊢
      change blocks.map Prod.fst <+: call.keys at hbs
      rw [List.prefix_iff_eq_append, List.length_map] at hbs
      exact hbs
    · intro e he
      rcases Table.lookup_of_insert he with ⟨-, rfl⟩ | ⟨-, he⟩
      · exact nofun
      · exact hi.alive e he
  | @hit i call blocks hc =>
    refine ⟨hlnk, hsrc, hi.asked, hi.alive, fun _ _ _ => hi.eraseCall,
      fun _ hp hreq => hi.answers.concat hp hreq fun hr => ?_⟩
    obtain ⟨hcalled, hbs⟩ := hi.calls _ _ _ hc hr
    have hle := hbs.length_le
    rw [List.length_map] at hle
    refine ⟨hbs, hi.sourced.calls _ _ _ hc, ?_⟩
    rw [hcalled]
    exact Nat.add_sub_of_le hle
  | settle hc =>
    refine ⟨hlnk, hsrc, hi.asked, hi.alive, fun _ _ _ => hi.eraseCall,
      fun _ hp hreq => hi.answers.concat hp hreq fun hr => ?_⟩
    obtain ⟨-, hbs, hlen⟩ := hi.calls _ _ _ hc hr
    exact ⟨hbs, (hi.sourced.calls _ _ _ hc).ready, hlen⟩
  | task ht hst => exact hi.step_task ht (fun hatt => hsurvive hatt _ ht) hst
  | gc =>
    refine ⟨hlnk, hsrc, hi.asked, ?_, hi.calls, hi.answers⟩
    intro e he
    simp only [QueryServer.gcStaleEntries, Table.lookup_foldl_erase] at he
    split at he
    · cases he
    · exact hi.alive e he
  | cache =>
    exact ⟨hlnk, hsrc, hi.asked, hi.alive, hi.calls,
      fun p hp hreq => (hi.answers p hp hreq).mono (List.subset_append_left _ _)⟩
  | ssd => exact ⟨hlnk, hsrc, hi.asked, hi.alive, hi.calls, hi.answers⟩

theorem inv_init (req : ReqId) (keys : List BlockKey) : init.Inv req keys where
  linked := nofun
  sourced := ⟨nofun, nofun, nofun⟩
  asked := nofun
  alive := nofun
  calls := nofun
  answers := nofun

/-- If no task that a query of the request id waits for panics, every `Ready` has the shape. -/
theorem ready_shaped_of_tasksSurvive (cfg : SchedulerConfig) (req : ReqId) (nameSpace : String)
    (hashes : List BlockHash) (events : List PrefetchEvent)
    (hasks : ∀ ev ∈ events, ev.Asks req nameSpace hashes)
    (hmeets : Run.Meets (step cfg) (TasksSurvive cfg req) init events)
    (hrun : Run.exec (step cfg) init events = some s) :
    s.ReadyShaped req (queryKeys nameSpace hashes) := by
  have hinv : s.Inv req (queryKeys nameSpace hashes) := by
    refine Run.exec_invariant_of_meets (I := Inv req (queryKeys nameSpace hashes)) ?_
      (inv_init _ _) (hmeets.and (Run.meets_of_forall hasks)) hrun
    intro s ev s' hi hcond h
    exact hi.step hcond.2 hcond.1 (step_cases h)
  exact hinv.answers

/-- The MetaServer promises two keys to a query of one, and the task panics; a task can also panic
on its own.  The query is answered with no block and nothing missing. -/
theorem panicked_task_misses_nothing :
    (∃ s ∈ Run.exec (step ⟨⟨true, false⟩, "a", 8⟩) init
        [.check 0 ⟨"r", "x", [[1]]⟩, .advance 0, .advance 0,
          .task 0 (.queryPrefix (some [⟨"b", 2⟩])), .check 1 ⟨"r", "x", [[1]]⟩, .advance 1],
      ¬ s.ReadyShaped "r" (queryKeys "x" [[1]])) ∧
    (∃ s ∈ Run.exec (step ⟨⟨false, true⟩, "a", 8⟩) init
        [.check 0 ⟨"r", "x", [[1]]⟩, .advance 0, .advance 0, .task 0 (.queryPrefix none),
          .task 0 .panic, .check 1 ⟨"r", "x", [[1]]⟩, .advance 1],
      ¬ s.ReadyShaped "r" (queryKeys "x" [[1]])) := by
  decide

/-- One block is in the cache, no other node has the rest, and the budget is enough for one of the
two that are on the SSD. -/
def fetchOne : List PrefetchEvent :=
  [.cache ((∅ : Table BlockKey SealedBlock).insert ⟨"x", [1]⟩ (.plain 8)),
    .ssd {⟨"x", [2]⟩, ⟨"x", [3]⟩}, .check 0 ⟨"r", "x", [[1], [2], [3]]⟩, .advance 0, .advance 0,
    .task 0 (.queryPrefix (some [⟨"a", 3⟩])), .task 0 .prefixLen, .task 0 .reserve, .cache ∅,
    .task 0 .submitPrefix, .task 0 (.read [(⟨"x", [2]⟩, .plain 9)]),
    .check 1 ⟨"r", "x", [[1], [2], [3]]⟩, .advance 1]

theorem ready_shaped_of_tasksSurvive_fetchOne :
    ∃ s ∈ Run.exec (step ⟨⟨true, true⟩, "a", 1⟩) init fetchOne,
      (∃ p ∈ s.answers, p.2 = .ready [(⟨"x", [1]⟩, .plain 8), (⟨"x", [2]⟩, .plain 9)] 1) ∧
        s.ReadyShaped "r" (queryKeys "x" [[1], [2], [3]]) := by
  refine ⟨_, rfl, ⟨_, List.mem_cons_of_mem _ List.mem_cons_self, rfl⟩, ?_⟩
  exact ready_shaped_of_tasksSurvive ⟨⟨true, true⟩, "a", 1⟩ "r" "x" [[1], [2], [3]] fetchOne
    (by decide) (by decide) rfl

end PrefetchSystem

end PegaFlow.Storage
