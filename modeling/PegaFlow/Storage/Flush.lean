import PegaFlow.Ssd.Persist
import PegaFlow.Storage.WorkerDelivery

/-!
# The write pipeline and its flush barrier

A save goes through four stages.  `batch_save` drops the hashes that are in the cache and sends
the rest to the insert worker; the worker seals blocks, offers them to the cache, and hands them
to the SSD store as weak references; the store queues the batch, if its queue has room; and the
writer upgrades the references that are still alive and writes those blocks.

`flush_all` sends a barrier through the queue of the insert worker, waits for it, sends one
through the queue of the SSD writer, and waits for it.  A barrier carries here the saves that had
returned when `flush_all` was called: that is what the caller may rely on.  The machine takes
these lists from queue to queue with the barriers and reads them nowhere.

A weak reference can be upgraded as long as the cache holds the block; whether it can when
something else does, or nothing, is open.  Blocks with the same segments are the same block,
since every block has its own memory.
-/

namespace PegaFlow.Storage

open Ssd

/-- `filter_hashes_not_in_cache_inplace`, and the layers without blocks dropped. -/
def RawSaveBatch.retain (batch : RawSaveBatch) (missing : BlockHash → Bool) : RawSaveBatch :=
  { batch with
    layers := (batch.layers.map fun layer =>
      { layer with blocks := layer.blocks.filter fun b => missing b.1 }).filter
        fun layer => !layer.blocks.isEmpty }

variable (saves : List RawSaveBatch) (k : BlockKey) (totalSlots : Nat)

/-- The saves together have every slot of the block. -/
def SuppliedBy : Prop :=
  ∀ slot < totalSlots, ∃ batch ∈ saves, batch.Supplies k slot

instance : Decidable (SuppliedBy saves k totalSlots) :=
  inferInstanceAs (Decidable (∀ slot < totalSlots, _))

inductive InsertWorkerCommand where
  | rawInsert (batch : RawSaveBatch)
  | flush (saves : List RawSaveBatch)

inductive SsdWriteCommand where
  | write (blocks : List (BlockKey × SealedBlock))
  | flush (saves : List RawSaveBatch)

structure StorageConfig where
  writeInflight : Nat
  /-- The depth of the queue of the SSD writer, if there is an SSD. -/
  writeQueueDepth : Option Nat

structure StorageState where
  worker : WorkerState
  /-- Saves that are past the filter: what was asked for, and what will be sent. -/
  saving : List (RawSaveBatch × RawSaveBatch)
  /-- The saves that have returned. -/
  saved : List RawSaveBatch
  insertQueue : List InsertWorkerCommand
  /-- Calls of `flush_all` between their two barriers. -/
  inserted : List (List RawSaveBatch)
  ssdQueue : List SsdWriteCommand
  ssd : SsdStore BlockKey
  /-- The keys that were committed on the SSD. -/
  committed : List BlockKey
  flushWaiters : List (List RawSaveBatch)
  /-- Calls of `flush_all` that have returned. -/
  returned : List (List RawSaveBatch)

inductive StorageEvent where
  | startSave (batch : RawSaveBatch)
  | endSave (i : Nat)
  | failSave (i : Nat)
  | flushAll
  /-- The insert worker takes a batch. -/
  | recv
  /-- The insert worker answers a barrier. -/
  | replyFlush
  /-- The queue of a worker that panicked is dropped. -/
  | abandon
  /-- Any other step of the worker, or of a user of the cache. -/
  | worker (ev : WorkerEvent)
  /-- A call of `flush_all` goes on to the SSD. -/
  | flushSsd (i : Nat)
  /-- The SSD writer takes a batch, of which these blocks are alive. -/
  | recvWrite (candidates : List (BlockKey × SealedBlock))
  | recvFlush
  | fireFlush
  /-- Any other step of the SSD store. -/
  | ssd (ev : StoreEvent BlockKey)

namespace StorageState

def new (freq : Option (TinyLfu BlockKey)) (caps : List Nat) (hne : caps ≠ []) : StorageState where
  worker := .new (.empty freq)
  saving := []
  saved := []
  insertQueue := []
  inserted := []
  ssdQueue := []
  ssd := .new caps hne
  committed := []
  flushWaiters := []
  returned := []

variable (cfg : StorageConfig) (k : BlockKey) (s : StorageState)

/-- `ingest_batch` of the SSD store: a full queue drops the batch. -/
def ingestBatch (blocks : List (BlockKey × SealedBlock)) : StorageState :=
  match cfg.writeQueueDepth with
  | none => s
  | some depth =>
    if blocks.isEmpty then s
    else if s.ssdQueue.length < depth then { s with ssdQueue := s.ssdQueue ++ [.write blocks] }
    else s

/-- The candidates are blocks of the batch, and every block in the cache is among them. -/
def Upgrades (blocks candidates : List (BlockKey × SealedBlock)) : Prop :=
  candidates.Sublist blocks ∧
    ∀ x ∈ blocks, s.worker.cache.lru.lookup x.1 = some x.2 → x ∈ candidates

instance (blocks candidates : List (BlockKey × SealedBlock)) :
    Decidable (s.Upgrades blocks candidates) :=
  inferInstanceAs (Decidable (_ ∧ _))

/-- The barriers in a queue of the insert worker. -/
def barriers : List InsertWorkerCommand → List (List RawSaveBatch)
  | [] => []
  | .rawInsert _ :: queue => barriers queue
  | .flush saves :: queue => saves :: barriers queue

/-- The steps of the SSD store that take no command and answer none. -/
def internal : StoreEvent BlockKey → Bool
  | .recvWrite _ | .recvFlush | .fireFlush | .close => false
  | _ => true

def step (cfg : StorageConfig) (s : StorageState) : StorageEvent → Option StorageState
  | .startSave batch =>
    some { s with
      saving := s.saving ++ [(batch, batch.retain fun hash =>
        !s.worker.cache.containsKey ⟨batch.nameSpace, hash⟩)] }
  | .endSave i =>
    s.saving[i]?.map fun save =>
      { s with
        saving := s.saving.eraseIdx i
        saved := s.saved ++ [save.1]
        insertQueue :=
          if save.2.layers.isEmpty then s.insertQueue
          else s.insertQueue ++ [.rawInsert save.2] }
  | .failSave i => s.saving[i]?.map fun _ => { s with saving := s.saving.eraseIdx i }
  | .flushAll =>
    -- A barrier cannot be sent to a worker that is gone.
    if s.worker.panicked then some { s with inserted := s.inserted ++ [s.saved] }
    else some { s with insertQueue := s.insertQueue ++ [.flush s.saved] }
  | .recv =>
    match s.insertQueue with
    | .rawInsert batch :: queue =>
      (s.worker.step (.recv batch)).map fun worker =>
        { s with worker := worker, insertQueue := queue }
    | _ => none
  | .replyFlush =>
    match s.insertQueue with
    | .flush saves :: queue =>
      if s.worker.panicked = false ∧ s.worker.current.isNone then
        some { s with insertQueue := queue, inserted := s.inserted ++ [saves] }
      else none
    | _ => none
  | .abandon =>
    if s.worker.panicked then
      some { s with insertQueue := [], inserted := s.inserted ++ barriers s.insertQueue }
    else none
  | .worker (.recv _) => none
  | .worker .handOff =>
    (s.worker.step .handOff).map fun worker =>
      { s.ingestBatch cfg (s.worker.current.elim [] CurrentBatch.sealedBlocks) with
        worker := worker }
  | .worker ev => (s.worker.step ev).map fun worker => { s with worker := worker }
  | .flushSsd i =>
    match s.inserted[i]?, cfg.writeQueueDepth with
    | some saves, none =>
      some { s with inserted := s.inserted.eraseIdx i, returned := s.returned ++ [saves] }
    | some saves, some depth =>
      if s.ssdQueue.length < depth then
        some { s with
          inserted := s.inserted.eraseIdx i, ssdQueue := s.ssdQueue ++ [.flush saves] }
      else none
    | none, _ => none
  | .recvWrite candidates =>
    match s.ssdQueue with
    | .write blocks :: queue =>
      if s.Upgrades blocks candidates then
        (s.ssd.step cfg.writeInflight (.recvWrite candidates)).map fun ssd =>
          { s with ssd := ssd, ssdQueue := queue }
      else none
    | _ => none
  | .recvFlush =>
    match s.ssdQueue with
    | .flush saves :: queue =>
      (s.ssd.step cfg.writeInflight .recvFlush).map fun ssd =>
        { s with ssd := ssd, ssdQueue := queue, flushWaiters := s.flushWaiters ++ [saves] }
    | _ => none
  | .fireFlush =>
    (s.ssd.step cfg.writeInflight .fireFlush).map fun ssd =>
      { s with ssd := ssd, flushWaiters := [], returned := s.returned ++ s.flushWaiters }
  | .ssd ev =>
    if internal ev then
      (s.ssd.step cfg.writeInflight ev).map fun ssd =>
        { s with ssd := ssd, committed := s.committed ++ s.ssd.committedBy ev }
    else none

/-! ## What a caller of `flush_all` may rely on -/

/-- A block whose slots were all saved before a call of `flush_all` that has returned is
readable, and was committed on the SSD if there is one. -/
def Persisted (k : BlockKey) (totalSlots : Nat) : Prop :=
  ∀ saves ∈ s.returned, SuppliedBy saves k totalSlots →
    s.worker.cache.containsKey k ∧ (cfg.writeQueueDepth.isSome → k ∈ s.committed)

instance (k : BlockKey) (totalSlots : Nat) : Decidable (s.Persisted cfg k totalSlots) :=
  inferInstanceAs (Decidable (∀ saves ∈ s.returned, _))

/-- The SSD store takes the blocks of the key, and a prefetch brings only what the SSD has. -/
def SsdTakes : WorkerEvent → Prop
  | .handOff => ∀ c ∈ s.worker.current, k ∈ c.sealedBlocks.map Prod.fst →
      ∀ depth ∈ cfg.writeQueueDepth, s.ssdQueue.length < depth
  | .prefetched blocks => k ∈ blocks.map Prod.fst → cfg.writeQueueDepth.isSome → k ∈ s.committed
  | _ => True

instance : ∀ ev, Decidable (s.SsdTakes cfg k ev)
  | .handOff => inferInstanceAs (Decidable (∀ c ∈ s.worker.current, _))
  | .prefetched _ => inferInstanceAs (Decidable (_ → _))
  | .recv _ | .entry | .publish | .gc _ | .lookup _ | .evict _ | .cleanup => isTrue trivial

/-- The saves of the key fit together, nothing refuses, drops, collects or evicts it, and the SSD
writes last. -/
def Unhindered (totalSlots : Nat) (s : StorageState) : StorageEvent → Prop
  | .startSave batch => Suits k totalSlots batch
  | .worker ev => s.worker.Keeps k ev ∧ s.SsdTakes cfg k ev
  | .recvWrite candidates => s.ssd.Lasting (.recvWrite candidates)
  | .ssd ev => s.ssd.Lasting ev
  | _ => True

instance (totalSlots : Nat) (s : StorageState)
    (ev : StorageEvent) : Decidable (s.Unhindered cfg k totalSlots ev) := by
  cases ev with
  | startSave batch => exact inferInstanceAs (Decidable (Suits k totalSlots batch))
  | worker ev => exact inferInstanceAs (Decidable (_ ∧ _))
  | recvWrite candidates =>
    exact inferInstanceAs (Decidable (s.ssd.Lasting (.recvWrite candidates)))
  | ssd ev => exact inferInstanceAs (Decidable (s.ssd.Lasting ev))
  | _ => exact isTrue trivial

end StorageState

end PegaFlow.Storage
