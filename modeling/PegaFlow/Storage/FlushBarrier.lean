import PegaFlow.Storage.Flush

/-!
# What the flush barrier covers

A barrier travels behind the saves that returned before it: while it is in the queue of the
insert worker, every slot of those saves is with the worker or in front of it (`Delivery`).  When
the worker answers it, a block with all its slots there is resident.  Resident blocks are on
their way to the SSD or were committed (`Written`), and the second barrier travels behind them
(`Waited`).

Everything can go wrong on the way.  The admission policy refuses a block, the queue of the SSD
writer is full, a block is too large for its shard or its space is taken before its write is
committed, a block in flight is collected, a block that came from another node is resident and so
never goes to the SSD.  The barrier returns all the same.
-/

namespace PegaFlow.Storage

open Ssd
open List Option Run

/-- Appending to a queue leaves what is in front of its elements. -/
theorem concat_eq_append_cons {α : Type} {queue before after : List α} {x y : α}
    (h : queue ++ [x] = before ++ y :: after) :
    queue = before ∧ x = y ∨ ∃ after', queue = before ++ y :: after' := by
  rcases eq_nil_or_concat after with rfl | ⟨after', z, rfl⟩
  · exact Or.inl (by simpa using h)
  refine Or.inr ⟨after', ?_⟩
  rw [concat_eq_append, ← cons_append, ← append_assoc] at h
  exact (append_inj' h rfl).1

section

variable {k : BlockKey} {totalSlots slot : Nat}

variable {batch : RawSaveBatch}

/-- What the filter leaves. -/
theorem supplies_retain {missing : BlockHash → Bool} (h : batch.Supplies k slot)
    (hmissing : missing k.hash) : (batch.retain missing).Supplies k slot := by
  obtain ⟨hns, layer, hl, hs, hh⟩ := h
  obtain ⟨⟨hash, raw⟩, hb, rfl⟩ := mem_map.mp hh
  have hk : (k.hash, raw) ∈ layer.blocks.filter fun b => missing b.1 :=
    mem_filter.mpr ⟨hb, hmissing⟩
  refine ⟨hns, { layer with blocks := layer.blocks.filter fun b => missing b.1 }, ?_, hs,
    mem_map_of_mem hk⟩
  refine mem_filter.mpr ⟨mem_map_of_mem hl, ?_⟩
  simpa using ne_nil_of_mem hk

theorem Suits.retain (h : Suits k totalSlots batch) (missing : BlockHash → Bool) :
    Suits k totalSlots (batch.retain missing) := by
  have hl : ∀ layer ∈ (batch.retain missing).layers, ∃ layer' ∈ batch.layers,
      layer.slotId = layer'.slotId ∧ layer.blockHashes ⊆ layer'.blockHashes := by
    intro layer hm
    obtain ⟨layer', hl', rfl⟩ := mem_map.mp (mem_filter.mp hm).1
    exact ⟨layer', hl', rfl, map_subset _ (filter_subset_self _)⟩
  refine ⟨⟨h.1.1, ?_⟩, ?_⟩
  · intro layer hm
    obtain ⟨layer', hl', hs, -⟩ := hl layer hm
    rw [hs]
    exact h.1.2 layer' hl'
  · intro layer hm hns hh
    obtain ⟨layer', hl', -, hsub⟩ := hl layer hm
    exact h.2 layer' hl' hns (hsub hh)

end

namespace StorageState

variable {cfg : StorageConfig} {caps : List Nat} {k : BlockKey} {totalSlots slot : Nat}
variable {s s' : StorageState}

/-! ## The insert worker -/

/-- The slot of the key is with the worker, or in a batch of the queue. -/
def Arrives (s : StorageState) (queue : List InsertWorkerCommand) (k : BlockKey) (slot : Nat) :
    Prop :=
  s.worker.HasSlot k slot ∨ ∃ batch, .rawInsert batch ∈ queue ∧ batch.Supplies k slot

/-- No slot of the key is lost before the worker, and none overtakes a barrier. -/
structure Delivery (k : BlockKey) (totalSlots : Nat) (s : StorageState) : Prop where
  sized : s.worker.Sized k totalSlots
  saving : ∀ save ∈ s.saving, Suits k totalSlots save.2 ∧ ∀ slot, save.1.Supplies k slot →
    s.worker.cache.containsKey k ∨ save.2.Supplies k slot
  queued : ∀ batch, .rawInsert batch ∈ s.insertQueue → Suits k totalSlots batch
  saved : ∀ batch ∈ s.saved, ∀ slot, batch.Supplies k slot → s.Arrives s.insertQueue k slot
  barrier : ∀ before saves after, s.insertQueue = before ++ .flush saves :: after →
    ∀ batch ∈ saves, ∀ slot, batch.Supplies k slot → s.Arrives before k slot

theorem delivery_new (freq : Option (TinyLfu BlockKey)) (hne : caps ≠ []) :
    (new freq caps hne).Delivery k totalSlots where
  sized := WorkerState.sized_new _
  saving := nofun
  queued := nofun
  saved := nofun
  barrier before saves after h := by cases before <;> cases h

variable {queue : List InsertWorkerCommand}

theorem Arrives.mono {queue' : List InsertWorkerCommand} (h : s.Arrives queue k slot)
    (hwk : s.worker.HasSlot k slot → s'.worker.HasSlot k slot) (hsub : queue ⊆ queue') :
    s'.Arrives queue' k slot :=
  h.imp hwk fun ⟨batch, hm, hsups⟩ => ⟨batch, hsub hm, hsups⟩

variable {batch : RawSaveBatch}

section

variable (hi : s.Delivery k totalSlots)
include hi

theorem Delivery.startSave (hsuits : Suits k totalSlots batch) :
    Delivery k totalSlots { s with
      saving := s.saving ++ [(batch, batch.retain fun hash =>
        !s.worker.cache.containsKey ⟨batch.nameSpace, hash⟩)] } := by
  refine ⟨hi.sized, ?_, hi.queued, hi.saved, hi.barrier⟩
  refine forall_mem_concat.mpr ⟨hi.saving, ?_⟩
  refine ⟨hsuits.retain _, ?_⟩
  intro slot hsups
  by_cases hcch : s.worker.cache.containsKey k
  · exact Or.inl hcch
  refine Or.inr (supplies_retain hsups ?_)
  rw [← hsups.1]
  simpa using hcch

variable {i : Nat}

/-- A command is put at the end of the queue. -/
theorem Delivery.send (command : InsertWorkerCommand)
    (hraw : ∀ batch, .rawInsert batch = command → Suits k totalSlots batch)
    (hflush : ∀ saves, command = .flush saves → ∀ batch ∈ saves, ∀ slot, batch.Supplies k slot →
      s.Arrives s.insertQueue k slot) :
    Delivery k totalSlots { s with insertQueue := s.insertQueue ++ [command] } := by
  refine ⟨hi.sized, hi.saving, ?_, ?_, ?_⟩
  · intro batch hm
    rcases mem_append.mp hm with hm | hm
    · exact hi.queued batch hm
    · exact hraw batch (mem_singleton.mp hm)
  · intro batch hm slot hs
    exact (hi.saved batch hm slot hs).mono id (subset_append_left _ _)
  · intro before saves after heq batch hbt slot hs
    rcases concat_eq_append_cons heq with ⟨rfl, hcm⟩ | ⟨after', heq⟩
    · exact hflush saves hcm batch hbt slot hs
    · exact hi.barrier before saves after' heq batch hbt slot hs

theorem Delivery.setSaved (harr : ∀ slot, batch.Supplies k slot → s.Arrives s.insertQueue k slot) :
    Delivery k totalSlots { s with
      saving := s.saving.eraseIdx i, saved := s.saved ++ [batch] } :=
  ⟨hi.sized, fun p hp => hi.saving p (mem_of_mem_eraseIdx hp), hi.queued,
    forall_mem_concat.mpr ⟨hi.saved, harr⟩, hi.barrier⟩

theorem Delivery.endSave {save : RawSaveBatch × RawSaveBatch} (hsv : s.saving[i]? = some save) :
    Delivery k totalSlots { s with
      saving := s.saving.eraseIdx i
      saved := s.saved ++ [save.1]
      insertQueue :=
        if save.2.layers.isEmpty then s.insertQueue
        else s.insertQueue ++ [.rawInsert save.2] } := by
  obtain ⟨hsuits, hsups⟩ := hi.saving save (mem_of_getElem? hsv)
  split
  next hemp =>
    refine hi.setSaved fun slot hs => (hsups slot hs).imp Or.inl ?_
    rintro ⟨-, layer, hl, -⟩
    exact absurd (isEmpty_iff.mp hemp) (ne_nil_of_mem hl)
  next =>
    refine (hi.send (.rawInsert save.2) ?_ nofun).setSaved fun slot hs =>
      (hsups slot hs).imp Or.inl fun hsn => ?_
    · rintro _ ⟨⟩
      exact hsuits
    · exact ⟨save.2, mem_append_right _ mem_cons_self, hsn⟩

theorem Delivery.flushAll :
    Delivery k totalSlots { s with insertQueue := s.insertQueue ++ [.flush s.saved] } := by
  refine hi.send _ nofun ?_
  rintro _ ⟨⟩
  exact hi.saved

/-- The batch at the front of the queue goes to the worker. -/
theorem Delivery.recv {worker : WorkerState} (hqu : s.insertQueue = .rawInsert batch :: queue)
    (h : s.worker.step (.recv batch) = some worker) :
    Delivery k totalSlots { s with worker := worker, insertQueue := queue } := by
  have hsuits := hi.queued batch (by simp [hqu])
  have hkp : s.worker.Keeps k (.recv batch) := not_mem_nil
  have harr : ∀ before slot, s.Arrives (.rawInsert batch :: before) k slot →
      Arrives { s with worker := worker, insertQueue := queue } before k slot := by
    rintro before slot (hhas | ⟨batch', hm, hsups⟩)
    · exact Or.inl (hhas.step hi.sized hkp h)
    · rcases mem_cons.mp hm with heq | hm
      · cases heq
        obtain ⟨raw, hr⟩ := RawSaveBatch.supplies_iff.mp hsups
        obtain ⟨slots, hent, hs⟩ := mem_buildInsertEntries.mpr hr
        cases WorkerState.step_cases h with
        | recv =>
          exact Or.inl (Or.inr (Or.inr ⟨_, rfl, rfl, Or.inr ⟨slots, raw, hent, hs⟩⟩))
      · exact Or.inr ⟨batch', hm, hsups⟩
  refine ⟨hi.sized.step ?_ h, ?_, ?_, ?_, ?_⟩
  · intro batch' heq
    cases heq
    exact hsuits
  · intro save hsv
    refine ⟨(hi.saving save hsv).1, fun slot hs => ?_⟩
    refine ((hi.saving save hsv).2 slot hs).imp_left ?_
    exact fun hres => (WorkerState.resident_step h hres).resolve_right not_mem_nil
  · exact fun batch' hm => hi.queued batch' (by simp [hqu, hm])
  · intro batch' hm slot hs
    exact harr queue slot (hqu ▸ hi.saved batch' hm slot hs)
  · intro before saves after heq batch' hbt slot hs
    refine harr before slot
      (hi.barrier (.rawInsert batch :: before) saves after ?_ batch' hbt slot hs)
    rw [hqu]
    exact congrArg (.rawInsert batch :: ·) heq

/-- The worker, or a user of the cache, takes a step of its own. -/
theorem Delivery.step_worker {ev : WorkerEvent} {worker : WorkerState}
    (hrecv : ∀ batch, ev ≠ .recv batch) (hkp : s.worker.Keeps k ev)
    (h : s.worker.step ev = some worker) : Delivery k totalSlots { s with worker := worker } := by
  refine ⟨hi.sized.step (fun batch heq => absurd heq (hrecv batch)) h, ?_, hi.queued, ?_, ?_⟩
  · intro save hsv
    refine ⟨(hi.saving save hsv).1, fun slot hs => ?_⟩
    refine ((hi.saving save hsv).2 slot hs).imp_left ?_
    exact fun hres => (WorkerState.resident_step h hres).resolve_right hkp.not_evicted
  · intro batch hm slot hs
    exact (hi.saved batch hm slot hs).mono (fun hhas => hhas.step hi.sized hkp h)
      (List.Subset.refl _)
  · intro before saves after heq batch hbt slot hs
    exact (hi.barrier before saves after heq batch hbt slot hs).mono
      (fun hhas => hhas.step hi.sized hkp h) (List.Subset.refl _)

variable {saves : List RawSaveBatch}

theorem Delivery.replyFlush (hqu : s.insertQueue = .flush saves :: queue) :
    Delivery k totalSlots { s with insertQueue := queue, inserted := s.inserted ++ [saves] } := by
  have harr : ∀ before slot, s.Arrives (.flush saves :: before) k slot →
      s.Arrives before k slot := by
    rintro before slot (hhas | ⟨batch, hm, hsups⟩)
    · exact Or.inl hhas
    · exact Or.inr ⟨batch, (mem_cons.mp hm).resolve_left nofun, hsups⟩
  refine ⟨hi.sized, hi.saving, fun batch hm => hi.queued batch (by simp [hqu, hm]), ?_, ?_⟩
  · intro batch hm slot hs
    exact harr queue slot (hqu ▸ hi.saved batch hm slot hs)
  · intro before saves' after heq batch hbt slot hs
    refine harr before slot (hi.barrier (.flush saves :: before) saves' after ?_ batch hbt slot hs)
    rw [hqu]
    exact congrArg (.flush saves :: ·) heq

/-- When the worker answers a barrier, the blocks in front of it are resident. -/
theorem Delivery.resident (hpos : 0 < totalSlots) (hqu : s.insertQueue = .flush saves :: queue)
    (hid : s.worker.current = none) (hsup : SuppliedBy saves k totalSlots) :
    s.worker.cache.containsKey k := by
  refine hi.sized.resident hpos hid ?_
  intro slot hlt
  obtain ⟨batch, hbt, hs⟩ := hsup slot hlt
  rcases hi.barrier [] saves queue hqu batch hbt slot hs with hhas | ⟨batch', hm, -⟩
  · exact hhas
  · cases hm

end

/-! ## The SSD -/

/-- The key was committed, or is with the writer, or is alive in a batch of the queue. -/
def HandedOver (s : StorageState) (queue : List SsdWriteCommand) (k : BlockKey) : Prop :=
  SsdStore.Reached s.committed s.ssd k ∨
    ∃ blocks block, .write blocks ∈ queue ∧ (k, block) ∈ blocks ∧
      s.worker.cache.lru.lookup k = some block

/-- Nothing that a resident key has reached is taken back. -/
structure Advances (k : BlockKey) (s s' : StorageState) : Prop where
  lookup : ∀ block, s.worker.cache.lru.lookup k = some block →
    s'.worker.cache.lru.lookup k = some block
  reached : SsdStore.Reached s.committed s.ssd k → SsdStore.Reached s'.committed s'.ssd k
  committed : k ∈ s.committed → k ∈ s'.committed

theorem Advances.resident (h : Advances k s s') (hres : s.worker.cache.containsKey k) :
    s'.worker.cache.containsKey k := by
  obtain ⟨block, hb⟩ := isSome_iff_exists.mp hres
  rw [TinyLfuCache.containsKey, h.lookup block hb]
  rfl

theorem HandedOver.mono {queue queue' : List SsdWriteCommand} (h : s.HandedOver queue k)
    (hadv : Advances k s s') (hsub : queue ⊆ queue') : s'.HandedOver queue' k := by
  refine h.imp hadv.reached ?_
  rintro ⟨blocks, block, hm, hb, hlk⟩
  exact ⟨blocks, block, hsub hm, hb, hadv.lookup block hlk⟩

/-- A resident key is handed over to the SSD, or the worker is about to do it. -/
structure Written (cfg : StorageConfig) (caps : List Nat) (k : BlockKey) (s : StorageState) :
    Prop where
  persisting : s.ssd.Persisting caps s.committed
  resident : cfg.writeQueueDepth.isSome → s.worker.cache.containsKey k →
    s.HandedOver s.ssdQueue k ∨
      ∃ c block, s.worker.current = some c ∧ c.published ∧ (k, block) ∈ c.sealedBlocks ∧
        s.worker.cache.lru.lookup k = some block

/-- What the barriers have seen of the key. -/
structure Waited (cfg : StorageConfig) (k : BlockKey) (totalSlots : Nat) (s : StorageState) :
    Prop where
  inserted : ∀ saves ∈ s.inserted, SuppliedBy saves k totalSlots →
    s.worker.cache.containsKey k ∧
      (cfg.writeQueueDepth.isSome → s.HandedOver s.ssdQueue k)
  barrier : ∀ before saves after, s.ssdQueue = before ++ .flush saves :: after →
    SuppliedBy saves k totalSlots → s.worker.cache.containsKey k ∧ s.HandedOver before k
  waiting : ∀ saves ∈ s.flushWaiters, SuppliedBy saves k totalSlots →
    s.worker.cache.containsKey k ∧ SsdStore.Reached s.committed s.ssd k
  returned : s.Persisted cfg k totalSlots

variable (freq : Option (TinyLfu BlockKey)) (hne : caps ≠ [])

theorem written_new (hpos : ∀ c ∈ caps, 0 < c) : (new freq caps hne).Written cfg caps k where
  persisting := SsdStore.persisting_new hne hpos
  resident _ h := by cases h

theorem waited_new : (new freq caps hne).Waited cfg k totalSlots where
  inserted := nofun
  barrier before saves after h := by cases before <;> cases h
  waiting := nofun
  returned := nofun

section

variable (hi : s.Waited cfg k totalSlots) (hadv : Advances k s s')
  (hinserted : s'.inserted = s.inserted) (hwaiters : s'.flushWaiters = s.flushWaiters)
  (hret : s'.returned = s.returned)
include hi hadv hinserted hwaiters hret

/-- Steps after which every barrier has seen what it had seen before. -/
theorem Waited.advance (hh : s.HandedOver s.ssdQueue k → s'.HandedOver s'.ssdQueue k)
    (hbarrier : ∀ before saves after, s'.ssdQueue = before ++ .flush saves :: after → ∃ before' after', s.ssdQueue = before' ++ .flush saves :: after' ∧ (s.HandedOver before' k → s'.HandedOver before k)) :
    s'.Waited cfg k totalSlots := by
  refine ⟨?_, ?_, ?_, ?_⟩
  · rw [hinserted]
    intro saves hsvs hsup
    obtain ⟨hres, ho⟩ := hi.inserted saves hsvs hsup
    exact ⟨hadv.resident hres, fun h => hh (ho h)⟩
  · intro before saves after heq hsup
    obtain ⟨before', after', heq', himp⟩ := hbarrier before saves after heq
    obtain ⟨hres, ho⟩ := hi.barrier before' saves after' heq' hsup
    exact ⟨hadv.resident hres, himp ho⟩
  · rw [hwaiters]
    intro saves hsvs hsup
    obtain ⟨hres, hrd⟩ := hi.waiting saves hsvs hsup
    exact ⟨hadv.resident hres, hadv.reached hrd⟩
  · unfold Persisted
    rw [hret]
    intro saves hsvs hsup
    obtain ⟨hres, hcomm⟩ := hi.returned saves hsvs hsup
    exact ⟨hadv.resident hres, fun h => hadv.committed (hcomm h)⟩

/-- Steps that leave the queue of the writer as it is. -/
theorem Waited.advance_same (hqu : s'.ssdQueue = s.ssdQueue) : s'.Waited cfg k totalSlots := by
  refine hi.advance hadv hinserted hwaiters hret ?_ ?_
  · rw [hqu]
    exact fun h => h.mono hadv (List.Subset.refl _)
  · rw [hqu]
    exact fun before saves after heq =>
      ⟨before, after, heq, fun h => h.mono hadv (List.Subset.refl _)⟩

end

/-! ### Steps of the worker -/

section

variable {ev : WorkerEvent} {worker : WorkerState}

theorem advances_worker (hkp : s.worker.Keeps k ev) (h : s.worker.step ev = some worker)
    (hwk : s'.worker = worker) (hssd : s'.ssd = s.ssd)
    (hcomm : s'.committed = s.committed) : Advances k s s' := by
  refine ⟨?_, ?_, ?_⟩
  · intro block hb
    rw [hwk]
    exact (WorkerState.lookup_step h hb).resolve_right (hkp.not_evicted)
  · rw [hssd, hcomm]
    exact id
  · rw [hcomm]
    exact id

theorem Written.step_worker (hi : s.Written cfg caps k) (hinv : s.worker.Inv)
    (hkp : s.worker.Keeps k ev) (htakes : s.SsdTakes cfg k ev) (hev : ev ≠ .handOff)
    (h : s.worker.step ev = some worker) : Written cfg caps k { s with worker := worker } := by
  refine ⟨hi.persisting, ?_⟩
  intro hssd hres
  obtain ⟨block, hb⟩ := isSome_iff_exists.mp hres
  have hadv : Advances k s { s with worker := worker } := advances_worker hkp h rfl rfl rfl
  have hk : s.HandedOver s.ssdQueue k → HandedOver { s with worker := worker } s.ssdQueue k :=
    fun hh => hh.mono hadv (List.Subset.refl _)
  -- The key was resident, and the worker is where it was.
  have hsm : worker.current = s.worker.current → s.worker.cache.lru.lookup k = some block →
      HandedOver { s with worker := worker } s.ssdQueue k ∨
        ∃ c block, worker.current = some c ∧ c.published ∧ (k, block) ∈ c.sealedBlocks ∧
          worker.cache.lru.lookup k = some block := by
    intro hcurrent ho
    refine (hi.resident hssd (by rw [TinyLfuCache.containsKey, ho]; rfl)).imp hk ?_
    rintro ⟨c, block', hc, hpub, hm, hlk⟩
    exact ⟨c, block', hcurrent.trans hc, hpub, hm, hadv.lookup block' hlk⟩
  cases WorkerState.step_cases h with
  | recv _ hc =>
    rcases hi.resident hssd hres with hh | ⟨c, -, hcur, -⟩
    · exact Or.inl (hk hh)
    · cases hc.symm.trans hcur
  | @entry c _ _ _ _ _ hc htd _ =>
    rcases hi.resident hssd hres with hh | ⟨c', -, hcur, hpub, -⟩
    · exact Or.inl (hk hh)
    cases hc.symm.trans hcur
    rw [((hinv.current c hc).settled hpub).1] at htd
    cases htd
  | panic | gc => exact hsm rfl hb
  | @publish c _ hc _ hunpub =>
    rcases TinyLfuCache.of_lookup_batchInsert hb with ho | hm
    · rcases hi.resident hssd (by rw [TinyLfuCache.containsKey, ho]; rfl) with
        hh | ⟨c', -, hcur, hpub, -⟩
      · exact Or.inl (hk hh)
      · cases hc.symm.trans hcur
        cases hunpub.symm.trans hpub
    · exact Or.inr ⟨_, block, rfl, rfl, hm, hb⟩
  | handOff => exact (hev rfl).elim
  | lookup => exact hsm rfl ((TinyLfuCache.lookup_touch _ _ _).symm.trans hb)
  | evict =>
    have hlk := (TinyLfuCache.lookup_removeLruBatch _ s.worker.cache k).trans (if_neg hkp)
    exact hsm rfl (hlk.symm.trans hb)
  | cleanup => cases hb
  | prefetched =>
    rcases TinyLfuCache.of_lookup_batchInsert hb with ho | hm
    · exact hsm rfl ho
    · exact Or.inl (Or.inl (Or.inl (htakes (mem_map_of_mem hm) hssd)))

theorem ingestBatch_eq (cfg : StorageConfig) (s : StorageState)
    (blocks : List (BlockKey × SealedBlock)) :
    s.ingestBatch cfg blocks = s ∨
      s.ingestBatch cfg blocks = { s with ssdQueue := s.ssdQueue ++ [.write blocks] } := by
  unfold ingestBatch
  split
  · exact Or.inl rfl
  split
  · exact Or.inl rfl
  split
  · exact Or.inr rfl
  · exact Or.inl rfl

theorem ingestBatch_of_room {depth : Nat} {blocks : List (BlockKey × SealedBlock)}
    (hd : cfg.writeQueueDepth = some depth) (hne : blocks ≠ [])
    (hrm : s.ssdQueue.length < depth) :
    s.ingestBatch cfg blocks = { s with ssdQueue := s.ssdQueue ++ [.write blocks] } := by
  unfold ingestBatch
  rw [hd]
  dsimp only
  rw [if_neg (by simpa using hne), if_pos hrm]

/-- The worker hands the blocks of its batch over. -/
theorem Written.handOff (hi : s.Written cfg caps k) (htakes : s.SsdTakes cfg k .handOff)
    (h : s.worker.step .handOff = some worker) :
    Written cfg caps k { s.ingestBatch cfg (s.worker.current.elim [] CurrentBatch.sealedBlocks) with
      worker := worker } := by
  have hkp : s.worker.Keeps k .handOff := not_mem_nil
  have hadv : ∀ queue, Advances k s { s with worker := worker, ssdQueue := queue } :=
    fun _ => advances_worker hkp h rfl rfl rfl
  cases WorkerState.step_cases h with
  | @handOff c _ hc hpub =>
    rw [hc, elim_some]
    refine ⟨?_, ?_⟩
    · rcases s.ingestBatch_eq cfg c.sealedBlocks with heq | heq
      · rw [heq]
        exact hi.persisting
      · rw [heq]
        exact hi.persisting
    · intro hssd hres
      rcases hi.resident hssd hres with hh | ⟨c', block, hcur, -, hm, hlk⟩
      · refine Or.inl ?_
        rcases s.ingestBatch_eq cfg c.sealedBlocks with heq | heq
        · rw [heq]
          exact hh.mono (hadv _) (List.Subset.refl _)
        · rw [heq]
          exact hh.mono (hadv _) (subset_append_left _ _)
      · cases hc.symm.trans hcur
        obtain ⟨depth, hd⟩ := isSome_iff_exists.mp hssd
        have hrm := htakes c hc (mem_map_of_mem hm) depth hd
        rw [ingestBatch_of_room hd (ne_nil_of_mem hm) hrm]
        exact Or.inl (Or.inr ⟨c.sealedBlocks, block, mem_append_right _ mem_cons_self, hm, hlk⟩)

theorem Waited.handOff (hi : s.Waited cfg k totalSlots) (h : s.worker.step .handOff = some worker) :
    Waited cfg k totalSlots
      { s.ingestBatch cfg (s.worker.current.elim [] CurrentBatch.sealedBlocks) with
        worker := worker } := by
  have hkp : s.worker.Keeps k .handOff := not_mem_nil
  rcases s.ingestBatch_eq cfg (s.worker.current.elim [] CurrentBatch.sealedBlocks) with heq | heq
  · rw [heq]
    exact hi.advance_same (advances_worker hkp h rfl rfl rfl) rfl rfl rfl rfl
  · rw [heq]
    have hadv : Advances k s { s with
        worker := worker
        ssdQueue := s.ssdQueue ++ [.write (s.worker.current.elim [] CurrentBatch.sealedBlocks)] } :=
      advances_worker hkp h rfl rfl rfl
    refine hi.advance hadv rfl rfl rfl ?_ ?_
    · exact fun hhand => hhand.mono hadv (subset_append_left _ _)
    · intro before saves after hqu
      rcases concat_eq_append_cons hqu with ⟨-, hcommand⟩ | ⟨after', hqu⟩
      · cases hcommand
      · exact ⟨before, after', hqu, fun hh => hh.mono hadv (List.Subset.refl _)⟩

end

/-! ### Steps of the writer -/

section

variable {ssd : SsdStore BlockKey} {ev : StoreEvent BlockKey}

theorem advances_ssd (hi : s.Written cfg caps k) (hl : s.ssd.Lasting ev)
    (h : s.ssd.step cfg.writeInflight ev = some ssd) (hwk : s'.worker = s.worker)
    (hssd : s'.ssd = ssd) (hcomm : s'.committed = s.committed ++ s.ssd.committedBy ev) :
    Advances k s s' ∧ s'.ssd.Persisting caps s'.committed := by
  obtain ⟨hpers, hrd⟩ := hi.persisting.step hl h
  rw [← hssd, ← hcomm] at hpers hrd
  refine ⟨⟨?_, hrd k, ?_⟩, hpers⟩
  · rw [hwk]
    exact fun _ hb => hb
  · rw [hcomm]
    exact fun hk => mem_append_left _ hk

/-- Steps of the store that leave the queue as it is. -/
theorem Written.advance (hi : s.Written cfg caps k)
    (hpers : s'.ssd.Persisting caps s'.committed) (hwk : s'.worker = s.worker)
    (hh : s.HandedOver s.ssdQueue k → s'.HandedOver s'.ssdQueue k) :
    s'.Written cfg caps k := by
  refine ⟨hpers, ?_⟩
  rw [hwk]
  exact fun hssd hres => (hi.resident hssd hres).imp_left hh

/-- The blocks of a batch that are in the cache get a write. -/
theorem recvWrite_handedOver {blocks candidates : List (BlockKey × SealedBlock)}
    {queue : List SsdWriteCommand} (hi : s.Written cfg caps k)
    (hl : s.ssd.Lasting (.recvWrite candidates)) (hupg : s.Upgrades blocks candidates)
    (h : s.ssd.step cfg.writeInflight (.recvWrite candidates) = some ssd)
    (before : List SsdWriteCommand) (hh : s.HandedOver (.write blocks :: before) k) :
    HandedOver { s with ssd := ssd, ssdQueue := queue } before k := by
  obtain ⟨-, hrd, hcandidates⟩ := hi.persisting.recvWrite hl h
  rcases hh with ho | ⟨blocks', block, hm, hb, hlk⟩
  · exact Or.inl (hrd k ho)
  rcases mem_cons.mp hm with heq | hm
  · cases heq
    exact Or.inl (hcandidates _ (hupg.2 _ hb hlk))
  · exact Or.inr ⟨blocks', block, hm, hb, hlk⟩

end

/-! ## The barrier -/

structure Inv (cfg : StorageConfig) (caps : List Nat) (k : BlockKey) (totalSlots : Nat)
    (s : StorageState) : Prop where
  delivery : s.Delivery k totalSlots
  written : s.Written cfg caps k
  waited : s.Waited cfg k totalSlots

/-- Saves and barriers in front of the worker do not matter to the SSD. -/
theorem Inv.of_delivery {saving : List (RawSaveBatch × RawSaveBatch)} {saved : List RawSaveBatch}
    (hi : s.Inv cfg caps k totalSlots) (hdel : Delivery k totalSlots
      { s with saving := saving, saved := saved, insertQueue := queue }) :
    Inv cfg caps k totalSlots { s with saving := saving, saved := saved, insertQueue := queue } :=
  ⟨hdel, ⟨hi.written.persisting, hi.written.resident⟩,
    ⟨hi.waited.inserted, hi.waited.barrier, hi.waited.waiting, hi.waited.returned⟩⟩

/-- The SSD does not matter to what is in front of the worker. -/
theorem Delivery.of_ssd (hi : s.Delivery k totalSlots) (hwk : s'.worker = s.worker)
    (hsaving : s'.saving = s.saving) (hsd : s'.saved = s.saved)
    (hqu : s'.insertQueue = s.insertQueue) : s'.Delivery k totalSlots := by
  have harr : ∀ queue slot, s.Arrives queue k slot → s'.Arrives queue k slot := by
    intro queue slot h
    exact h.mono (by rw [hwk]; exact id) (List.Subset.refl _)
  refine ⟨?_, ?_, ?_, ?_, ?_⟩
  · rw [hwk]
    exact hi.sized
  · rw [hwk, hsaving]
    exact hi.saving
  · rw [hqu]
    exact hi.queued
  · rw [hsd, hqu]
    exact fun batch hm slot hs => harr _ slot (hi.saved batch hm slot hs)
  · rw [hqu]
    exact fun before saves after heq batch hbt slot hs =>
      harr _ slot (hi.barrier before saves after heq batch hbt slot hs)

section

variable (hi : s.Inv cfg caps k totalSlots)
include hi

/-- The worker answers a barrier when it has nothing to do, so what it published is with the
SSD store. -/
theorem Inv.replyFlush (hpos : 0 < totalSlots) (hqu : s.insertQueue = .flush saves :: queue)
    (hid : s.worker.current = none) :
    Inv cfg caps k totalSlots
      { s with insertQueue := queue, inserted := s.inserted ++ [saves] } := by
  refine ⟨hi.delivery.replyFlush hqu, ⟨hi.written.persisting, hi.written.resident⟩, ?_,
    hi.waited.barrier, hi.waited.waiting, hi.waited.returned⟩
  refine forall_mem_concat.mpr ⟨hi.waited.inserted, ?_⟩
  intro hsup
  have hres := hi.delivery.resident hpos hqu hid hsup
  refine ⟨hres, fun hssd => (hi.written.resident hssd hres).resolve_right ?_⟩
  rintro ⟨c, -, hc, -⟩
  cases hid.symm.trans hc

/-- The second barrier goes behind what is queued for the writer. -/
theorem Inv.flushSsd {depth : Nat} (hsvs : s.inserted[i]? = some saves)
    (hd : cfg.writeQueueDepth = some depth) :
    Inv cfg caps k totalSlots { s with
      inserted := s.inserted.eraseIdx i, ssdQueue := s.ssdQueue ++ [.flush saves] } := by
  have hh : s.HandedOver s.ssdQueue k → s.HandedOver (s.ssdQueue ++ [.flush saves]) k :=
    fun h => h.mono ⟨fun _ h => h, id, id⟩ (subset_append_left _ _)
  refine ⟨hi.delivery.of_ssd rfl rfl rfl rfl, ⟨hi.written.persisting, ?_⟩, ?_, ?_,
    hi.waited.waiting, hi.waited.returned⟩
  · exact fun hssd hres => (hi.written.resident hssd hres).imp_left hh
  · intro saves' hm hsup
    obtain ⟨hres, ho⟩ := hi.waited.inserted saves' (mem_of_mem_eraseIdx hm) hsup
    exact ⟨hres, fun hssd => hh (ho hssd)⟩
  · intro before saves' after heq hsup
    rcases concat_eq_append_cons heq with ⟨rfl, hcommand⟩ | ⟨after', heq⟩
    · cases hcommand
      obtain ⟨hres, ho⟩ :=
        hi.waited.inserted saves (mem_of_getElem? hsvs) hsup
      exact ⟨hres, ho (by rw [hd]; rfl)⟩
    · exact hi.waited.barrier before saves' after' heq hsup

/-- Without an SSD there is nothing more to wait for. -/
theorem Inv.flushNoSsd (hsvs : s.inserted[i]? = some saves) (hd : cfg.writeQueueDepth = none) :
    Inv cfg caps k totalSlots { s with
      inserted := s.inserted.eraseIdx i, returned := s.returned ++ [saves] } := by
  refine ⟨hi.delivery.of_ssd rfl rfl rfl rfl, ⟨hi.written.persisting, hi.written.resident⟩, ?_,
    hi.waited.barrier, hi.waited.waiting, ?_⟩
  · exact fun saves' hm => hi.waited.inserted saves' (mem_of_mem_eraseIdx hm)
  · refine forall_mem_concat.mpr ⟨hi.waited.returned, ?_⟩
    intro hsup
    refine ⟨(hi.waited.inserted saves (mem_of_getElem? hsvs) hsup).1, ?_⟩
    rw [hd]
    exact nofun

theorem Inv.step_worker {ev : WorkerEvent} {worker : WorkerState} (hkp : s.worker.Keeps k ev)
    (htakes : s.SsdTakes cfg k ev) (hrecv : ∀ batch, ev ≠ .recv batch) (hev : ev ≠ .handOff)
    (h : s.worker.step ev = some worker) : Inv cfg caps k totalSlots { s with worker := worker } :=
  ⟨hi.delivery.step_worker hrecv hkp h,
    hi.written.step_worker hi.delivery.sized.inv hkp htakes hev h,
    hi.waited.advance_same (advances_worker hkp h rfl rfl rfl) rfl rfl rfl rfl⟩

theorem Inv.handOff {worker : WorkerState} (htakes : s.SsdTakes cfg k .handOff)
    (h : s.worker.step .handOff = some worker) :
    Inv cfg caps k totalSlots
      { s.ingestBatch cfg (s.worker.current.elim [] CurrentBatch.sealedBlocks) with
        worker := worker } := by
  refine ⟨?_, hi.written.handOff htakes h, hi.waited.handOff h⟩
  have hkp : s.worker.Keeps k .handOff := not_mem_nil
  have hrecv : ∀ batch, WorkerEvent.handOff ≠ .recv batch := fun _ => nofun
  have hdel := hi.delivery.step_worker hrecv hkp h
  rcases s.ingestBatch_eq cfg (s.worker.current.elim [] CurrentBatch.sealedBlocks) with heq | heq
  · rw [heq]
    exact hdel
  · rw [heq]
    exact hdel.of_ssd rfl rfl rfl rfl

section

variable {queue : List SsdWriteCommand} {ssd : SsdStore BlockKey}

/-- The writer takes the first command of its queue. -/
theorem Inv.recvCommand {command : SsdWriteCommand} {ev : StoreEvent BlockKey}
    (hqu : s.ssdQueue = command :: queue) (hl : s.ssd.Lasting ev)
    (h : s.ssd.step cfg.writeInflight ev = some ssd) (hn : s.ssd.committedBy ev = [])
    (hh : ∀ before, s.HandedOver (command :: before) k →
      HandedOver { s with ssd := ssd, ssdQueue := queue } before k) :
    Inv cfg caps k totalSlots { s with ssd := ssd, ssdQueue := queue } := by
  obtain ⟨hadv, hpers⟩ : Advances k s { s with ssd := ssd, ssdQueue := queue } ∧
      ssd.Persisting caps s.committed := by
    refine advances_ssd hi.written hl h rfl rfl ?_
    rw [hn, append_nil]
  have hall : s.HandedOver s.ssdQueue k →
      HandedOver { s with ssd := ssd, ssdQueue := queue } queue k := by
    rw [hqu]
    exact hh queue
  refine ⟨hi.delivery.of_ssd rfl rfl rfl rfl, hi.written.advance hpers rfl hall,
    hi.waited.advance hadv rfl rfl rfl hall ?_⟩
  intro before saves after heq
  refine ⟨command :: before, after, ?_, hh before⟩
  rw [hqu]
  exact congrArg (command :: ·) heq

theorem Inv.recvWrite {blocks candidates : List (BlockKey × SealedBlock)}
    (hl : s.ssd.Lasting (.recvWrite candidates))
    (hqu : s.ssdQueue = .write blocks :: queue) (hupg : s.Upgrades blocks candidates)
    (h : s.ssd.step cfg.writeInflight (.recvWrite candidates) = some ssd) :
    Inv cfg caps k totalSlots { s with ssd := ssd, ssdQueue := queue } :=
  hi.recvCommand hqu hl h rfl (recvWrite_handedOver hi.written hl hupg h)

/-- The writer takes a barrier when everything in front of it has a write. -/
theorem Inv.recvFlush (hqu : s.ssdQueue = .flush saves :: queue)
    (h : s.ssd.step cfg.writeInflight .recvFlush = some ssd) :
    Inv cfg caps k totalSlots
      { s with ssd := ssd, ssdQueue := queue, flushWaiters := s.flushWaiters ++ [saves] } := by
  have hl : s.ssd.Lasting .recvFlush := trivial
  obtain ⟨hadv, -⟩ : Advances k s { s with ssd := ssd } ∧ ssd.Persisting caps s.committed :=
    advances_ssd hi.written hl h rfl rfl (append_nil _).symm
  have hinv : Inv cfg caps k totalSlots { s with ssd := ssd, ssdQueue := queue } := by
    refine hi.recvCommand hqu hl h rfl ?_
    rintro before (ho | ⟨blocks, block, hm, hb, hlk⟩)
    · exact Or.inl (hadv.reached ho)
    · exact Or.inr ⟨blocks, block, (mem_cons.mp hm).resolve_left nofun, hb, hlk⟩
  refine ⟨hinv.delivery.of_ssd rfl rfl rfl rfl, ⟨hinv.written.persisting, hinv.written.resident⟩,
    hinv.waited.inserted, hinv.waited.barrier, ?_, hinv.waited.returned⟩
  refine forall_mem_concat.mpr ⟨hinv.waited.waiting, ?_⟩
  intro hsup
  obtain ⟨hres, ho⟩ := hi.waited.barrier [] saves queue hqu hsup
  refine ⟨hres, hadv.reached (ho.resolve_right ?_)⟩
  rintro ⟨blocks, block, hm, -⟩
  cases hm

end

/-- The writer answers its barriers when no write is outstanding. -/
theorem Inv.fireFlush {ssd : SsdStore BlockKey}
    (h : s.ssd.step cfg.writeInflight .fireFlush = some ssd) :
    Inv cfg caps k totalSlots
      { s with ssd := ssd, flushWaiters := [], returned := s.returned ++ s.flushWaiters } := by
  have hl : s.ssd.Lasting .fireFlush := trivial
  obtain ⟨hadv, hpers⟩ : Advances k s { s with ssd := ssd } ∧ ssd.Persisting caps s.committed :=
    advances_ssd hi.written hl h rfl rfl (append_nil _).symm
  have hall : s.HandedOver s.ssdQueue k → HandedOver { s with ssd := ssd } s.ssdQueue k :=
    fun hh => hh.mono hadv (List.Subset.refl _)
  have hwaited : Waited cfg k totalSlots { s with ssd := ssd } :=
    hi.waited.advance_same hadv rfl rfl rfl rfl
  refine ⟨hi.delivery.of_ssd rfl rfl rfl rfl, hi.written.advance hpers rfl hall,
    hwaited.inserted, hwaited.barrier, nofun, ?_⟩
  intro saves hm hsup
  rcases mem_append.mp hm with hm | hm
  · exact hwaited.returned saves hm hsup
  obtain ⟨hres, hrd⟩ := hi.waited.waiting saves hm hsup
  refine ⟨hres, fun _ => hrd.resolve_right ?_⟩
  rintro ⟨w, hw, -⟩
  obtain ⟨⟨-, hpd, hinf⟩, -⟩ := guarded_eq_some.mp h
  rw [SsdStore.outstanding, isEmpty_iff.mp hpd, isEmpty_iff.mp hinf] at hw
  cases hw

theorem Inv.step_ssd {ev : StoreEvent BlockKey} {ssd : SsdStore BlockKey}
    (hl : s.ssd.Lasting ev) (h : s.ssd.step cfg.writeInflight ev = some ssd) :
    Inv cfg caps k totalSlots
      { s with ssd := ssd, committed := s.committed ++ s.ssd.committedBy ev } := by
  obtain ⟨hadv, hpers⟩ :
      Advances k s { s with ssd := ssd, committed := s.committed ++ s.ssd.committedBy ev } ∧
        ssd.Persisting caps (s.committed ++ s.ssd.committedBy ev) :=
    advances_ssd hi.written hl h rfl rfl rfl
  refine ⟨hi.delivery.of_ssd rfl rfl rfl rfl, hi.written.advance hpers rfl ?_,
    hi.waited.advance_same hadv rfl rfl rfl rfl⟩
  exact fun hh => hh.mono hadv (List.Subset.refl _)

theorem Inv.step {ev : StorageEvent} (hpos : 0 < totalSlots)
    (hunh : s.Unhindered cfg k totalSlots ev) (h : s.step cfg ev = some s') :
    s'.Inv cfg caps k totalSlots := by
  have hpanic := hi.delivery.sized.inv.no_panic
  cases ev with
  | startSave batch =>
    cases h
    exact hi.of_delivery (hi.delivery.startSave hunh)
  | endSave i =>
    obtain ⟨save, hs, rfl⟩ := map_eq_some_iff.mp h
    exact hi.of_delivery (hi.delivery.endSave hs)
  | failSave i =>
    obtain ⟨save, hs, rfl⟩ := map_eq_some_iff.mp h
    refine hi.of_delivery ⟨hi.delivery.sized, ?_, hi.delivery.queued, hi.delivery.saved,
      hi.delivery.barrier⟩
    exact fun p hp => hi.delivery.saving p (mem_of_mem_eraseIdx hp)
  | flushAll =>
    simp only [StorageState.step, hpanic] at h
    cases h
    exact hi.of_delivery hi.delivery.flushAll
  | recv =>
    simp only [StorageState.step] at h
    split at h
    next batch queue hqu =>
      obtain ⟨worker, hwk, rfl⟩ := map_eq_some_iff.mp h
      have hkp : s.worker.Keeps k (.recv batch) := not_mem_nil
      have hwr := hi.written.step_worker hi.delivery.sized.inv hkp trivial nofun hwk
      exact ⟨hi.delivery.recv hqu hwk, ⟨hwr.persisting, hwr.resident⟩,
        hi.waited.advance_same (advances_worker hkp hwk rfl rfl rfl) rfl rfl rfl rfl⟩
    · cases h
  | replyFlush =>
    simp only [StorageState.step] at h
    split at h
    next saves queue hqu =>
      obtain ⟨⟨-, hid⟩, rfl⟩ := guarded_eq_some.mp h
      exact hi.replyFlush hpos hqu (isNone_iff_eq_none.mp hid)
    · cases h
  | abandon =>
    simp only [StorageState.step, hpanic] at h
    cases h
  | worker ev =>
    obtain ⟨hkp, htakes⟩ := hunh
    cases ev with
    | recv batch => cases h
    | handOff =>
      obtain ⟨worker, hwk, rfl⟩ := map_eq_some_iff.mp h
      exact hi.handOff htakes hwk
    | entry | publish | gc | lookup | evict | cleanup | prefetched =>
      simp only [StorageState.step] at h
      obtain ⟨worker, hwk, rfl⟩ := map_eq_some_iff.mp h
      exact hi.step_worker hkp htakes (fun _ => nofun) nofun hwk
  | flushSsd i =>
    simp only [StorageState.step] at h
    split at h
    next saves hsvs hd =>
      cases h
      exact hi.flushNoSsd hsvs hd
    next saves depth hsvs hd =>
      obtain ⟨-, rfl⟩ := guarded_eq_some.mp h
      exact hi.flushSsd hsvs hd
    · cases h
  | recvWrite candidates =>
    simp only [StorageState.step] at h
    split at h
    next blocks queue hqu =>
      split at h
      next hupg =>
        obtain ⟨ssd, hssd, rfl⟩ := map_eq_some_iff.mp h
        exact hi.recvWrite hunh hqu hupg hssd
      · cases h
    · cases h
  | recvFlush =>
    simp only [StorageState.step] at h
    split at h
    next saves queue hqu =>
      obtain ⟨ssd, hssd, rfl⟩ := map_eq_some_iff.mp h
      exact hi.recvFlush hqu hssd
    · cases h
  | fireFlush =>
    obtain ⟨ssd, hssd, rfl⟩ := map_eq_some_iff.mp h
    exact hi.fireFlush hssd
  | ssd ev =>
    simp only [StorageState.step] at h
    split at h
    · obtain ⟨ssd, hssd, rfl⟩ := map_eq_some_iff.mp h
      exact hi.step_ssd hunh hssd
    · cases h

end

/-- If nothing hinders the key in a run, every `flush_all` that returns covers it. -/
theorem persisted_of_unhindered (cfg : StorageConfig) (freq : Option (TinyLfu BlockKey))
    (caps : List Nat) (hne : caps ≠ []) (hcaps : ∀ c ∈ caps, 0 < c) (k : BlockKey)
    (totalSlots : Nat) (hslots : 0 < totalSlots) (events : List StorageEvent)
    (hmeets : Run.Meets (step cfg) (Unhindered cfg k totalSlots) (new freq caps hne) events)
    (hrun : Run.exec (step cfg) (new freq caps hne) events = some s) :
    s.Persisted cfg k totalSlots := by
  have hinv : s.Inv cfg caps k totalSlots := by
    refine exec_invariant_of_meets (I := Inv cfg caps k totalSlots) ?_
      ⟨delivery_new freq hne, written_new freq hne hcaps, waited_new freq hne⟩ hmeets hrun
    intro s ev s' hi hunhindered h
    exact hi.step hslots hunhindered h
  exact hinv.waited.returned

/-- A slot of a block is saved, and the worker handles it. -/
def saveSlot (totalSlots slot : Nat) (hash : BlockHash) : List StorageEvent :=
  [.startSave ⟨"model", totalSlots, ⟨0⟩, [⟨slot, [(hash, .singleSegment ⟨⟨0, 0⟩, 512⟩)]⟩]⟩,
    .endSave 0, .recv, .worker .entry, .worker .publish, .worker .handOff]

/-- The block of such slots. -/
def savedBlock (totalSlots : Nat) : SealedBlock :=
  .fromSlots (List.replicate totalSlots (.singleSegment ⟨⟨0, 0⟩, 512⟩, ⟨0⟩))

/-- The barrier returns for a block that the admission policy refused, and for one that found the
queue of the SSD writer full. -/
theorem flushed_not_persisted :
    (∃ s ∈ Run.exec (step ⟨1, none⟩)
        (new (some (.new [fun key => key.hash.length] 4 1)) [512] (by decide))
        (saveSlot 1 0 [1] ++ [.worker (.lookup [⟨"model", [1]⟩])] ++ saveSlot 1 0 [2, 2] ++
          [.flushAll, .replyFlush, .flushSsd 0]),
      ¬ s.Persisted ⟨1, none⟩ ⟨"model", [2, 2]⟩ 1) ∧
    (∃ s ∈ Run.exec (step ⟨1, some 1⟩) (new none [1024] (by decide))
        (saveSlot 1 0 [1] ++ saveSlot 1 0 [2] ++ [.flushAll, .replyFlush,
          .recvWrite [(⟨"model", [1]⟩, savedBlock 1)], .flushSsd 0, .ssd .submit,
          .ssd (.finish 0 true), .ssd .complete, .recvFlush, .fireFlush]),
      s.worker.cache.containsKey ⟨"model", [2]⟩ = true ∧
        ¬ s.Persisted ⟨1, some 1⟩ ⟨"model", [2]⟩ 1) := by
  decide

/-- The two slots of a block are saved one after the other, and the block is written. -/
theorem persisted_of_unhindered_two_slots :
    ∃ s ∈ Run.exec (step ⟨1, some 2⟩) (new none [2048] (by decide))
        (saveSlot 2 0 [1] ++ saveSlot 2 1 [1] ++ [.flushAll, .replyFlush, .flushSsd 0,
          .recvWrite [(⟨"model", [1]⟩, savedBlock 2)], .ssd .submit, .recvFlush,
          .ssd (.finish 0 true), .ssd .complete, .fireFlush]),
      (∃ saves ∈ s.returned, SuppliedBy saves ⟨"model", [1]⟩ 2) ∧
        s.Persisted ⟨1, some 2⟩ ⟨"model", [1]⟩ 2 := by
  refine exists_mem_imp (Q := fun s => ∃ saves ∈ s.returned, SuppliedBy saves ⟨"model", [1]⟩ 2) (by decide)
    fun s hs hsupplied => ?_
  exact ⟨hsupplied, persisted_of_unhindered _ _ _ (by decide) (by decide) _ _ (by decide) _
    (by decide) hs⟩

end StorageState

end PegaFlow.Storage
