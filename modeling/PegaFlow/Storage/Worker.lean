import PegaFlow.Lib.Run
import PegaFlow.Storage.InsertWorker
import PegaFlow.Storage.ReadCache

/-!
# The insert worker and the cache as a machine

`insert_worker_loop` of `pegaflow-core/src/storage/write_path.rs` handles one command after the
other.  While it is in the middle of a batch other threads use the cache: queries look blocks
up, allocations evict, `cleanup_memory_cache` empties it, prefetches insert.  Each of these
holds the lock of the cache for one operation, so a step of the machine is one such operation,
or one round of the worker's loop.

A batch is received, its entries are processed one by one, the sealed blocks are published to
the cache together with the byte counts (`publish`), and they are handed to the backing stores
(`handOff`).  The worker keeps two sums of bytes per batch, which is what the gauge
`inflight_bytes` gets; `insertEntryCounted` is `insertEntry` with these sums.

A worker that panics does nothing any more.  `received` and `published` are histories that no
step reads.
-/

namespace PegaFlow.Storage

/-! ## Byte counts -/

/-- What a batch changes, with the byte counts of `process_insert_batch`. -/
structure BatchState extends InsertState where
  inflightBytesAdded : Nat
  inflightBytesRemoved : Nat

/-- The loop of `insert_partial_slots` with the bytes it adds. -/
def insertSlotsCounted (numaNode : NumaNode) :
    List (Nat × RawBlock) → InflightBlock → Nat → Option (Bool × InflightBlock × Nat)
  | [], b, added => some (false, b, added)
  | (slotId, block) :: slots, b, added =>
    match b.insertSlot slotId block numaNode with
    | none => none
    | some (.inserted true footprintAdded, b') => some (true, b', added + footprintAdded)
    | some (.inserted false footprintAdded, b') =>
      insertSlotsCounted numaNode slots b' (added + footprintAdded)
    | some (.duplicate, b') => insertSlotsCounted numaNode slots b' added

/-- `insert_partial_slots`. -/
def insertPartialSlotsCounted (totalSlots : Nat) (numaNode : NumaNode) (w : BatchState)
    (key : BlockKey) (slots : List (Nat × RawBlock)) : Option BatchState :=
  let inflightBlock := (w.inflight.lookup key).getD (.new totalSlots)
  if inflightBlock.totalSlots ≠ totalSlots then some w
  else
    match insertSlotsCounted numaNode slots inflightBlock w.inflightBytesAdded with
    | none => none
    | some (false, b, added) =>
      some { w with inflight := w.inflight.insert key b, inflightBytesAdded := added }
    | some (true, b, added) =>
      match b.sealBlock with
      | none => none
      | some block =>
        some
          { inflight := w.inflight.erase key
            sealedBlocks := w.sealedBlocks ++ [(key, block)]
            inflightBytesAdded := added
            inflightBytesRemoved := w.inflightBytesRemoved + b.footprint }

/-- One round of the loop of `process_insert_batch`; the cache has been asked for the key. -/
def insertEntryCounted (resident : Bool) (totalSlots : Nat) (numaNode : NumaNode)
    (w : BatchState) (key : BlockKey) (slots : List (Nat × RawBlock)) : Option BatchState :=
  if resident then some w
  else
    match w.inflight.lookup key with
    | some _ => insertPartialSlotsCounted totalSlots numaNode w key slots
    | none =>
      match fromOrderedSlotInserts slots totalSlots numaNode with
      | some block => some { w with sealedBlocks := w.sealedBlocks ++ [(key, block)] }
      | none => insertPartialSlotsCounted totalSlots numaNode w key slots

section

variable {numaNode : NumaNode} {totalSlots : Nat} {slots : List (Nat × RawBlock)}
variable {key : BlockKey} {w : BatchState}

theorem insertSlotsCounted_forget (b : InflightBlock) (added : Nat) :
    (insertSlotsCounted numaNode slots b added).map (fun r => (r.1, r.2.1)) =
      insertSlots numaNode slots b := by
  induction slots generalizing b added with
  | nil => rfl
  | cons slot slots ih =>
    obtain ⟨slotId, block⟩ := slot
    unfold insertSlotsCounted insertSlots
    cases b.insertSlot slotId block numaNode with
    | none => rfl
    | some result =>
      obtain ⟨outcome, b'⟩ := result
      cases outcome with
      | inserted completed footprintAdded =>
        cases completed with
        | true => rfl
        | false => exact ih _ _
      | duplicate => exact ih _ _

theorem insertPartialSlotsCounted_forget :
    (insertPartialSlotsCounted totalSlots numaNode w key slots).map BatchState.toInsertState =
      insertPartialSlots totalSlots numaNode w.toInsertState key slots := by
  unfold insertPartialSlotsCounted insertPartialSlots
  dsimp only
  rw [← insertSlotsCounted_forget _ w.inflightBytesAdded]
  split
  · rfl
  cases insertSlotsCounted numaNode slots ((w.inflight.lookup key).getD (.new totalSlots))
      w.inflightBytesAdded with
  | none => rfl
  | some result =>
    obtain ⟨done, b, added⟩ := result
    cases done with
    | false => rfl
    | true =>
      dsimp only [Option.map_some]
      cases b.sealBlock <;> rfl

/-- Without the byte counts it is `insertEntry`. -/
theorem insertEntryCounted_forget (cache : Table BlockKey SealedBlock) :
    (insertEntryCounted (cache.lookup key).isSome totalSlots numaNode w key slots).map
        BatchState.toInsertState =
      insertEntry cache totalSlots numaNode w.toInsertState key slots := by
  unfold insertEntryCounted insertEntry
  by_cases hres : (cache.lookup key).isSome
  · rw [if_pos hres, if_pos hres]
    rfl
  · rw [if_neg hres, if_neg hres]
    cases w.inflight.lookup key with
    | some b => exact insertPartialSlotsCounted_forget
    | none =>
      cases fromOrderedSlotInserts slots totalSlots numaNode with
      | some block => rfl
      | none => exact insertPartialSlotsCounted_forget

end

/-! ## The machine -/

/-- The batch the worker is in the middle of. -/
structure CurrentBatch where
  batch : RawSaveBatch
  /-- The entries that are still to be processed. -/
  todo : InsertEntries
  sealedBlocks : List (BlockKey × SealedBlock)
  inflightBytesAdded : Nat
  inflightBytesRemoved : Nat
  /-- The sealed blocks are in the cache and not with the backing stores yet. -/
  published : Bool

/-- A block that went to the cache, with the batch that sealed it. -/
structure PublishedBlock where
  batch : RawSaveBatch
  key : BlockKey
  block : SealedBlock

structure WorkerState where
  cache : TinyLfuCache BlockKey SealedBlock
  inflight : Table BlockKey InflightBlock
  /-- The gauge `inflight_bytes`. -/
  inflightBytes : Int
  current : Option CurrentBatch
  panicked : Bool
  received : List RawSaveBatch
  published : List PublishedBlock

inductive WorkerEvent where
  /-- The worker takes a batch from its channel. -/
  | recv (batch : RawSaveBatch)
  | entry
  | publish
  | handOff
  /-- The worker collects blocks in flight that are too old. -/
  | gc (stale : List BlockKey)
  /-- A query looks up blocks. -/
  | lookup (keys : List BlockKey)
  /-- An allocation evicts. -/
  | evict (batchSize : Nat)
  | cleanup
  /-- A prefetch inserts what it fetched. -/
  | prefetched (blocks : List (BlockKey × SealedBlock))

/-- One removal of `gc_inflight`, which also lowers the gauge. -/
def gcOne (state : Table BlockKey InflightBlock × Int) (key : BlockKey) :
    Table BlockKey InflightBlock × Int :=
  match state.1.lookup key with
  | none => state
  | some b => (state.1.erase key, state.2 - b.footprint)

namespace WorkerState

/-- A worker with nothing to do. -/
def new (cache : TinyLfuCache BlockKey SealedBlock) : WorkerState :=
  ⟨cache, ∅, 0, none, false, [], []⟩

/-- The batch's view of the state. -/
def batchState (s : WorkerState) (c : CurrentBatch) : BatchState where
  inflight := s.inflight
  sealedBlocks := c.sealedBlocks
  inflightBytesAdded := c.inflightBytesAdded
  inflightBytesRemoved := c.inflightBytesRemoved

def step (s : WorkerState) : WorkerEvent → Option WorkerState
  | .recv batch =>
    if s.panicked = false ∧ s.current.isNone then
      some { s with
        current := some ⟨batch, buildInsertEntries batch, [], 0, 0, false⟩
        received := s.received ++ [batch] }
    else none
  | .entry =>
    match s.panicked, s.current with
    | false, some c =>
      match c.todo with
      | [] => none
      | (key, slots) :: todo =>
        match insertEntryCounted (s.cache.containsKey key) c.batch.totalSlots
            c.batch.numaNode (s.batchState c) key slots with
        | none => some { s with panicked := true }
        | some w =>
          some { s with
            inflight := w.inflight
            current := some { c with
              todo := todo
              sealedBlocks := w.sealedBlocks
              inflightBytesAdded := w.inflightBytesAdded
              inflightBytesRemoved := w.inflightBytesRemoved } }
    | _, _ => none
  | .publish =>
    match s.panicked, s.current with
    | false, some c =>
      if c.todo.isEmpty ∧ c.published = false then
        some { s with
          cache := s.cache.batchInsert c.sealedBlocks
          inflightBytes := s.inflightBytes + c.inflightBytesAdded - c.inflightBytesRemoved
          current := some { c with
            inflightBytesAdded := 0, inflightBytesRemoved := 0, published := true }
          published := s.published ++ c.sealedBlocks.map fun b => ⟨c.batch, b.1, b.2⟩ }
      else none
    | _, _ => none
  | .handOff =>
    match s.panicked, s.current with
    | false, some c => if c.published then some { s with current := none } else none
    | _, _ => none
  | .gc stale =>
    if s.panicked = false ∧ s.current.isNone then
      some { s with
        inflight := (stale.foldl gcOne (s.inflight, s.inflightBytes)).1
        inflightBytes := (stale.foldl gcOne (s.inflight, s.inflightBytes)).2 }
    else none
  | .lookup keys => some { s with cache := s.cache.touch keys }
  | .evict batchSize => some { s with cache := (s.cache.removeLruBatch batchSize).2 }
  | .cleanup => some { s with cache := s.cache.removeAll.2 }
  | .prefetched blocks => some { s with cache := s.cache.batchInsert blocks }

/-- What a step can do, event by event. -/
inductive Step : WorkerState → WorkerEvent → WorkerState → Prop where
  | recv {s : WorkerState} {batch : RawSaveBatch} : s.panicked = false → s.current = none →
      Step s (.recv batch)
        { s with
          current := some ⟨batch, buildInsertEntries batch, [], 0, 0, false⟩
          received := s.received ++ [batch] }
  | entry {s : WorkerState} {c : CurrentBatch} {key : BlockKey} {slots : List (Nat × RawBlock)}
      {todo : InsertEntries} {w : BatchState} : s.panicked = false → s.current = some c →
      c.todo = (key, slots) :: todo →
      insertEntryCounted (s.cache.containsKey key) c.batch.totalSlots c.batch.numaNode
        (s.batchState c) key slots = some w →
      Step s .entry
        { s with
          inflight := w.inflight
          current := some { c with
            todo := todo
            sealedBlocks := w.sealedBlocks
            inflightBytesAdded := w.inflightBytesAdded
            inflightBytesRemoved := w.inflightBytesRemoved } }
  | panic {s : WorkerState} {c : CurrentBatch} {key : BlockKey} {slots : List (Nat × RawBlock)}
      {todo : InsertEntries} : s.current = some c → c.todo = (key, slots) :: todo →
      insertEntryCounted (s.cache.containsKey key) c.batch.totalSlots c.batch.numaNode
        (s.batchState c) key slots = none →
      Step s .entry { s with panicked := true }
  | publish {s : WorkerState} {c : CurrentBatch} : s.panicked = false → s.current = some c →
      c.todo = [] → c.published = false →
      Step s .publish
        { s with
          cache := s.cache.batchInsert c.sealedBlocks
          inflightBytes := s.inflightBytes + c.inflightBytesAdded - c.inflightBytesRemoved
          current := some { c with
            inflightBytesAdded := 0, inflightBytesRemoved := 0, published := true }
          published := s.published ++ c.sealedBlocks.map fun b => ⟨c.batch, b.1, b.2⟩ }
  | handOff {s : WorkerState} {c : CurrentBatch} : s.panicked = false → s.current = some c →
      c.published → Step s .handOff { s with current := none }
  | gc {s : WorkerState} {stale : List BlockKey} : s.panicked = false → s.current = none →
      Step s (.gc stale)
        { s with
          inflight := (stale.foldl gcOne (s.inflight, s.inflightBytes)).1
          inflightBytes := (stale.foldl gcOne (s.inflight, s.inflightBytes)).2 }
  | lookup {s : WorkerState} {keys : List BlockKey} :
      Step s (.lookup keys) { s with cache := s.cache.touch keys }
  | evict {s : WorkerState} {batchSize : Nat} :
      Step s (.evict batchSize) { s with cache := (s.cache.removeLruBatch batchSize).2 }
  | cleanup {s : WorkerState} : Step s .cleanup { s with cache := s.cache.removeAll.2 }
  | prefetched {s : WorkerState} {blocks : List (BlockKey × SealedBlock)} :
      Step s (.prefetched blocks) { s with cache := s.cache.batchInsert blocks }

theorem step_cases {s s' : WorkerState} {ev : WorkerEvent} (h : s.step ev = some s') :
    Step s ev s' := by
  cases ev with dsimp only [step] at h
  | recv batch =>
    obtain ⟨⟨hp, hc⟩, rfl⟩ := Run.guarded_eq_some.mp h
    exact .recv hp (Option.isNone_iff_eq_none.mp hc)
  | entry =>
    split at h
    next c hp hc =>
      split at h
      · cases h
      next key slots todo htd =>
        split at h
        next hn =>
          cases h
          exact .panic hc htd hn
        next w hw =>
          cases h
          exact .entry hp hc htd hw
    · cases h
  | publish =>
    split at h
    next c hp hc =>
      obtain ⟨⟨htd, hpub⟩, rfl⟩ := Run.guarded_eq_some.mp h
      exact .publish hp hc (List.isEmpty_iff.mp htd) hpub
    · cases h
  | handOff =>
    split at h
    next c hp hc =>
      obtain ⟨hpub, rfl⟩ := Run.guarded_eq_some.mp h
      exact .handOff hp hc hpub
    · cases h
  | gc stale =>
    obtain ⟨⟨hp, hc⟩, rfl⟩ := Run.guarded_eq_some.mp h
    exact .gc hp (Option.isNone_iff_eq_none.mp hc)
  | lookup keys =>
    cases h
    exact .lookup
  | evict batchSize =>
    cases h
    exact .evict
  | cleanup =>
    cases h
    exact .cleanup
  | prefetched blocks =>
    cases h
    exact .prefetched

/-! ## What stays in the cache -/

variable {s s' : WorkerState} {ev : WorkerEvent} {k : BlockKey}

/-- The keys an event takes out of the cache. -/
def evictedBy (s : WorkerState) : WorkerEvent → List BlockKey
  | .evict batchSize => (s.cache.removeLruBatch batchSize).1.map Prod.fst
  | .cleanup => s.cache.removeAll.1.map Prod.fst
  | _ => []

/-- A resident block stays in the cache unless it is evicted. -/
theorem lookup_step {block : SealedBlock} (h : s.step ev = some s')
    (hb : s.cache.lru.lookup k = some block) :
    s'.cache.lru.lookup k = some block ∨ k ∈ s.evictedBy ev := by
  cases step_cases h with
  | recv | entry | panic | handOff | gc => exact Or.inl hb
  | publish | prefetched => exact Or.inl (TinyLfuCache.lookup_batchInsert_of_some hb)
  | lookup => exact Or.inl ((TinyLfuCache.lookup_touch _ _ _).trans hb)
  | @evict batchSize =>
    by_cases hk : k ∈ s.evictedBy (.evict batchSize)
    · exact Or.inr hk
    rw [evictedBy] at hk
    refine Or.inl ?_
    rw [TinyLfuCache.lookup_removeLruBatch, if_neg hk]
    exact hb
  | cleanup =>
    refine Or.inr (List.mem_map.mpr ⟨(k, block), List.mem_map.mpr ⟨⟨k, block⟩, ?_, rfl⟩, rfl⟩)
    exact AList.mem_lookup_iff.mp hb

/-- A resident block is not replaced, only evicted. -/
theorem cached_until_evicted {block : SealedBlock} {events : List WorkerEvent}
    (hkept : Run.Meets step (fun s ev => k ∉ s.evictedBy ev) s events)
    (hrun : Run.exec step s events = some s') (hb : s.cache.lru.lookup k = some block) :
    s'.cache.lru.lookup k = some block :=
  Run.exec_invariant_of_meets (I := fun s => s.cache.lru.lookup k = some block)
    (fun _ _ _ hb hk h => (lookup_step h hb).resolve_right hk) hb hkept hrun

theorem cached_until_evicted_prefetched :
    ∃ s ∈ (new (.empty none)).step (.prefetched [(⟨"x", [1]⟩, .plain 8)]),
      ∃ s' ∈ Run.exec step s [.prefetched [(⟨"x", [1]⟩, .plain 9)], .evict 0],
        s'.cache.lru.lookup ⟨"x", [1]⟩ = some (.plain 8) := by
  refine ⟨_, rfl, Run.exists_mem_of_eq rfl fun hrun => ?_⟩
  exact cached_until_evicted (by decide) hrun rfl

theorem resident_step (h : s.step ev = some s') (hres : s.cache.containsKey k) :
    s'.cache.containsKey k ∨ k ∈ s.evictedBy ev := by
  obtain ⟨block, hb⟩ := Option.isSome_iff_exists.mp hres
  refine (lookup_step h hb).imp_left ?_
  intro hk
  rw [TinyLfuCache.containsKey, hk]
  rfl

end WorkerState

end PegaFlow.Storage
