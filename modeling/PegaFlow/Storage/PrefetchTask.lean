import PegaFlow.Lib.Run
import PegaFlow.Storage.Prefetch

/-!
# Prefetch tasks, step by step

`run_prefetch_task` of `pegaflow-core/src/storage/prefetch.rs`, cut where it waits or takes a
lock.  A task asks the MetaServer which node has most of its keys (`query_prefix` of
`backing/rdma_fetch.rs`) and fetches them there.  If there is no such node it counts the keys
that the SSD has, reserves that many blocks of a budget which all tasks share, submits the reads
of the keys the SSD still has, and waits for them.  The reservation is given back when the task
ends.

The answers of the MetaServer, of the remote node and of the SSD are arguments of the events; the
node may return blocks that were not asked for, and the SSD only some.  The number of keys that
the MetaServer promises is used as the end of a slice before anything is fetched, so a number
that is too large ends the task with a panic.

Results keep what `run_prefetch_task` gives them: blocks of leading keys of the query, in order,
and the number of keys that are left (`TaskResult`).  A task ends with what the one-step
`runPrefetchTask` computes from the answers it got (`Follows`).
-/

namespace PegaFlow.Storage

/-! ## The MetaServer's answer -/

/-- A node with the number of leading hashes it has. -/
structure NodePrefix where
  node : String
  prefixLen : Nat

/-- `max_by_key`: the last of the nodes with the most. -/
def bestNode : List NodePrefix → Option NodePrefix
  | [] => none
  | n :: nodes =>
    match bestNode nodes with
    | none => some n
    | some m => if m.prefixLen < n.prefixLen then some n else some m

/-- `RdmaFetchStore::query_prefix`.  The answer of the MetaServer is absent if the call failed. -/
def queryPrefix (advertiseAddr : String) (hashes : List BlockHash)
    (nodes : Option (List NodePrefix)) : Option NodePrefix :=
  if hashes = [] then none
  else
    nodes.bind fun nodes =>
      (bestNode (nodes.filter fun n => n.node ≠ advertiseAddr)).bind fun best =>
        if best.prefixLen = 0 then none else some best

/-! ## Results -/

/-- The blocks are those of leading keys, and the other keys are missing. -/
structure PrefetchTaskResult.Fits (input : PrefetchTaskInput) (r : PrefetchTaskResult) : Prop where
  keys : r.readyBlocks.map Prod.fst <+: input.keys
  missing : r.missing = input.total - r.readyBlocks.length

abbrev TaskResult (input : PrefetchTaskInput) := { r : PrefetchTaskResult // r.Fits input }

/-- The result of a task for which a store found so many keys and returned these blocks. -/
def PrefetchTaskInput.ready (input : PrefetchTaskInput) (source : Option PrefetchSource)
    (found : Nat) (inserts : List FoundBlock) : TaskResult input :=
  ⟨buildReadyResult input.prefixBlocks input.total source found (input.remainingKeys.take found)
    inserts, buildReadyResult_keys ( List.take_prefix _ _), rfl⟩

variable {b : FoundBlock}

theorem mem_of_mem_collectPrefix {lookup : BlockKey → Option SealedBlock} {keys : List BlockKey}
    (h : b ∈ collectPrefix lookup keys) : lookup b.1 = some b.2 := by
  induction keys with
  | nil => cases h
  | cons key keys ih =>
    unfold collectPrefix at h
    split at h
    next hlk =>
      rcases List.mem_cons.mp h with rfl | h
      · exact hlk
      · exact ih h
    · cases h

variable {inserts : List FoundBlock}

theorem mem_of_lookupLast {key : BlockKey} {block : SealedBlock}
    (h : lookupLast inserts key = some block) : (key, block) ∈ inserts := by
  obtain ⟨p, hp, rfl⟩ := Option.map_eq_some_iff.mp h
  obtain rfl : p.1 = key := by simpa using List.find?_some hp
  exact List.mem_reverse.mp (List.mem_of_find?_eq_some hp)

/-- A task returns blocks that the scan found or a store returned. -/
theorem PrefetchTaskInput.mem_ready {input : PrefetchTaskInput} {source : Option PrefetchSource}
    {found : Nat} (h : b ∈ (input.ready source found inserts).1.readyBlocks) :
    b ∈ input.prefixBlocks ∨ b ∈ inserts := by
  refine (List.mem_append.mp h).imp_right ?_
  intro hb
  exact mem_of_lookupLast (mem_of_mem_collectPrefix hb)

/-! ## Tasks -/

/-- The number of leading keys that the SSD has. -/
def ssdPrefixLen (ssd : Finset BlockKey) (keys : List BlockKey) : Nat :=
  (keys.takeWhile fun key => key ∈ ssd).length

/-- What a task does next; the blocks it has reserved and the keys whose reads it waits for. -/
inductive TaskStage (input : PrefetchTaskInput) where
  | queryPrefix
  | fetchBlocks (found : Nat)
  | prefixLen
  | reserve (found : Nat)
  | submitPrefix (reserved : Nat)
  | read (reserved found : Nat)
  /-- The task has ended, without a result if it panicked. -/
  | done (result : Option (TaskResult input))

/-- The reservation that the task holds. -/
def TaskStage.reserved {input : PrefetchTaskInput} : TaskStage input → Nat
  | .submitPrefix reserved => reserved
  | .read reserved _ => reserved
  | _ => 0

structure PrefetchTask where
  req : ReqId
  deps : BackingStores
  input : PrefetchTaskInput
  stage : TaskStage input

inductive TaskEvent where
  | queryPrefix (nodes : Option (List NodePrefix))
  | fetchBlocks (blocks : List (BlockHash × SealedBlock))
  | prefixLen
  | reserve
  | submitPrefix
  | read (blocks : List FoundBlock)
  /-- The task panics, or is cancelled. -/
  | panic

structure SchedulerConfig where
  stores : BackingStores
  advertiseAddr : String
  maxPrefetchBlocks : Nat

namespace PrefetchTask

/-- What a task does that has not fetched from a remote node. -/
def afterRdma (deps : BackingStores) (input : PrefetchTaskInput) : TaskStage input :=
  if deps.ssdStore then .prefixLen else .done (some (input.ready none 0 []))

def spawn (req : ReqId) (deps : BackingStores) (input : PrefetchTaskInput) : PrefetchTask :=
  ⟨req, deps, input, .queryPrefix⟩

variable (cfg : SchedulerConfig) (t : PrefetchTask)

/-- The node that the task turns to, if it may fetch from one. -/
def remotePrefix (nodes : Option (List NodePrefix)) : Option NodePrefix :=
  if t.deps.rdmaFetch then
    queryPrefix cfg.advertiseAddr (t.input.remainingKeys.map BlockKey.hash) nodes
  else none

/-- The blocks of a remote node, under the namespace of the query. -/
def remoteBlocks (input : PrefetchTaskInput) (blocks : List (BlockHash × SealedBlock)) :
    List FoundBlock :=
  blocks.map fun b => (⟨input.nameSpace, b.1⟩, b.2)

/-- The next part of a task, and the reserved budget after it. -/
def step (ssd : Finset BlockKey) (budget : Nat) (t : PrefetchTask)
    (ev : TaskEvent) : Option (TaskStage t.input × Nat) :=
  match ev, t.stage with
  | .queryPrefix nodes, .queryPrefix =>
    match t.remotePrefix cfg nodes with
    | none => some (afterRdma t.deps t.input, budget)
    | some best =>
      if best.prefixLen ≤ t.input.remainingKeys.length then
        some (.fetchBlocks best.prefixLen, budget)
      else some (.done none, budget)
  | .fetchBlocks blocks, .fetchBlocks found =>
    some (.done (some (t.input.ready (some .rdma) found (remoteBlocks t.input blocks))), budget)
  | .prefixLen, .prefixLen =>
    if ssdPrefixLen ssd t.input.remainingKeys = 0 then
      some (.done (some (t.input.ready none 0 [])), budget)
    else some (.reserve (ssdPrefixLen ssd t.input.remainingKeys), budget)
  | .reserve, .reserve found =>
    if cfg.maxPrefetchBlocks - budget = 0 then
      some (.done (some (t.input.ready none 0 [])), budget)
    else
      let reserved := min found (cfg.maxPrefetchBlocks - budget)
      some (.submitPrefix reserved, budget + reserved)
  | .submitPrefix, .submitPrefix reserved =>
    let found := ssdPrefixLen ssd (t.input.remainingKeys.take reserved)
    if found = 0 then some (.done (some (t.input.ready none 0 [])), budget - reserved)
    else some (.read reserved found, budget)
  | .read blocks, .read reserved found =>
    -- The SSD reads what was asked for; a full queue or a failed read leaves blocks out.
    if blocks.map Prod.fst ⊆ t.input.remainingKeys.take found then
      some (.done (some (t.input.ready (some .ssd) found blocks)), budget - reserved)
    else none
  | .panic, .done _ => none
  | .panic, stage => some (.done none, budget - stage.reserved)
  | _, _ => none

/-- The blocks that an event brings. -/
def delivered : TaskEvent → List FoundBlock
  | .fetchBlocks blocks => remoteBlocks t.input blocks
  | .read blocks => blocks
  | _ => []

/-- The task does not end without a result. -/
def Survives : TaskEvent → Prop
  | .queryPrefix nodes =>
    ∀ best ∈ t.remotePrefix cfg nodes, best.prefixLen ≤ t.input.remainingKeys.length
  | .panic => False
  | _ => True

instance (ev : TaskEvent) : Decidable (t.Survives cfg ev) := by
  cases ev with
  | queryPrefix nodes => exact inferInstanceAs (Decidable (∀ best ∈ t.remotePrefix cfg nodes, _))
  | panic => exact isFalse id
  | _ => exact isTrue trivial

/-! ## What a step can do -/

variable {cfg : SchedulerConfig} {ssd : Finset BlockKey} {budget budget' : Nat}
variable {t : PrefetchTask}

/-- The steps of a task, with what is known where it can go on. -/
inductive Step (cfg : SchedulerConfig) (t : PrefetchTask) :
    TaskEvent → TaskStage t.input → Prop where
  | noNode :
      Step cfg t (.queryPrefix nodes) (afterRdma t.deps t.input)
  | node (hdeps : t.deps.rdmaFetch) (hle : found ≤ t.input.remainingKeys.length) :
      Step cfg t (.queryPrefix nodes) (.fetchBlocks found)
  | outOfRange (hbest : best ∈ t.remotePrefix cfg nodes)
      (hlt : t.input.remainingKeys.length < best.prefixLen) :
      Step cfg t (.queryPrefix nodes) (.done none)
  | fetched (hstage : t.stage = .fetchBlocks found) :
      Step cfg t (.fetchBlocks blocks)
        (.done (some (t.input.ready (some .rdma) found (remoteBlocks t.input blocks))))
  | nothing (hstage : t.stage = .prefixLen ∨ (∃ found, t.stage = .reserve found) ∨
        ∃ reserved, t.stage = .submitPrefix reserved) (hdelivered : t.delivered ev = []) :
      Step cfg t ev (.done (some (t.input.ready none 0 [])))
  | counted (hstage : t.stage = .prefixLen) : Step cfg t .prefixLen (.reserve found)
  | reserved (hstage : t.stage = .reserve found) : Step cfg t .reserve (.submitPrefix reserved)
  | submitted (hstage : t.stage = .submitPrefix reserved)
      (hle : found ≤ t.input.remainingKeys.length) (hpos : found ≠ 0) :
      Step cfg t .submitPrefix (.read reserved found)
  | read (hstage : t.stage = .read reserved found) :
      Step cfg t (.read blocks) (.done (some (t.input.ready (some .ssd) found blocks)))
  | panic : Step cfg t .panic (.done none)

variable {ev : TaskEvent}

theorem ssdPrefixLen_le (ssd : Finset BlockKey) (keys : List BlockKey) :
    ssdPrefixLen ssd keys ≤ keys.length :=
  (List.takeWhile_prefix _).length_le

variable {stage : TaskStage t.input}

theorem step_cases (h : t.step cfg ssd budget ev = some (stage, budget')) :
    Step cfg t ev stage := by
  unfold step at h
  split at h
  next nodes hst =>
    split at h
    · cases h
      exact .noNode
    next hb =>
      split at h
      next hle =>
        cases h
        exact .node (Option.ite_none_right_eq_some.mp hb).1 hle
      next hlt =>
        cases h
        exact .outOfRange hb (Nat.lt_of_not_le hlt)
  next blocks found hst =>
    cases h
    exact .fetched hst
  next hst =>
    split at h
    · cases h
      exact .nothing (.inl hst) rfl
    · cases h
      exact .counted hst
  next found hst =>
    split at h
    · cases h
      exact .nothing (.inr (.inl ⟨_, hst⟩)) rfl
    · cases h
      exact .reserved hst
  next reserved hst =>
    dsimp only at h
    split at h
    · cases h
      exact .nothing (.inr (.inr ⟨_, hst⟩)) rfl
    next hfd =>
      cases h
      refine .submitted hst ((ssdPrefixLen_le _ _).trans ?_) hfd
      exact List.length_take_le' _ _
  next blocks reserved found hst =>
    obtain ⟨-, h⟩ := Run.guarded_eq_some.mp h
    cases h
    exact .read hst
  next => cases h
  next =>
    cases h
    exact .panic
  next => cases h

/-- A task ends with what it was delivered in its last step. -/
theorem Step.result {r : TaskResult t.input} (h : Step cfg t ev stage)
    (hd : stage = .done (some r)) :
    ∃ source found, r = t.input.ready source found (t.delivered ev) := by
  cases h with
  | noNode =>
    unfold afterRdma at hd
    split at hd
    · cases hd
    · cases hd
      exact ⟨none, 0, rfl⟩
  | fetched | read =>
    cases hd
    exact ⟨_, _, rfl⟩
  | nothing _ hdelivered =>
    cases hd
    rw [hdelivered]
    exact ⟨_, _, rfl⟩
  | node | outOfRange | counted | reserved | submitted | panic => cases hd

/-- A task panics when it is told to, or when it is promised more keys than it asked for. -/
theorem Step.not_survives (h : Step cfg t ev stage) (hd : stage = .done none) :
    ¬ t.Survives cfg ev := by
  cases h with
  | noNode =>
    unfold afterRdma at hd
    split at hd <;> cases hd
  | outOfRange hb hlt => exact fun hsurvives => Nat.not_le_of_lt hlt (hsurvives _ hb)
  | panic => exact id
  | node | fetched | nothing | counted | reserved | submitted | read => cases hd

/-! ## The task as one function -/

/-- The task is where `runPrefetchTask` would be with the answers so far. -/
def Follows (t : PrefetchTask) : Prop :=
  match t.stage with
  | .queryPrefix | .done none => True
  | .fetchBlocks found => t.deps.rdmaFetch ∧ found ≤ t.input.remainingKeys.length
  | .prefixLen | .reserve _ | .submitPrefix _ => t.deps.ssdStore
  | .read _ found =>
    t.deps.ssdStore ∧ found ≠ 0 ∧ found ≤ t.input.remainingKeys.length
  | .done (some r) => ∃ outcome, runPrefetchTask t.deps t.input outcome = some r.1

variable (req : ReqId) (deps : BackingStores) (input : PrefetchTaskInput)

/-- No answer at all. -/
theorem runPrefetchTask_nothing :
    runPrefetchTask deps input ⟨none, none⟩ = some (input.ready none 0 []).1 := by
  simp [runPrefetchTask, PrefetchTaskInput.ready]

theorem follows_afterRdma : Follows ⟨req, deps, input, afterRdma deps input⟩ := by
  unfold afterRdma
  split
  · assumption
  · exact ⟨_, runPrefetchTask_nothing deps input⟩

theorem Follows.step (hi : t.Follows) (h : Step cfg t ev stage) :
    Follows { t with stage := stage } := by
  cases h with
  | noNode => exact follows_afterRdma t.req t.deps t.input
  | node hdeps hle => exact ⟨hdeps, hle⟩
  | outOfRange | panic => trivial
  | @fetched found blocks hst =>
    simp only [Follows, hst] at hi
    refine ⟨⟨some (found, remoteBlocks t.input blocks), none⟩, ?_⟩
    simp only [runPrefetchTask, if_pos hi.1, if_pos hi.2]
    rfl
  | nothing => exact ⟨_, runPrefetchTask_nothing t.deps t.input⟩
  | counted hst | reserved hst =>
    simp only [Follows, hst] at hi
    exact hi
  | submitted hst hle hpos =>
    simp only [Follows, hst] at hi
    exact ⟨hi, hpos, hle⟩
  | @read reserved found blocks hst =>
    simp only [Follows, hst] at hi
    obtain ⟨hssd, hpos, hle⟩ := hi
    refine ⟨⟨none, some (found, blocks)⟩, ?_⟩
    simp only [runPrefetchTask, ite_self, if_pos hssd, if_neg hpos, if_pos hle]
    rfl

end PrefetchTask

end PegaFlow.Storage
