import PegaFlow.Storage.Worker

/-!
# What the insert worker publishes

Every slot of a block that the worker holds or publishes was supplied, together with its NUMA
node, by one batch for the key (`Supplied`), the footprints are the sums over the slots, and
the gauge is the sum of the footprints of the blocks in flight (`Inv`).  In the middle of a
batch the gauge lags behind by the byte counts of the batch.

A batch must not name a key twice.  The cache is asked for a key before the blocks that the
batch itself sealed are in it, so a second entry for a key that the first one completed starts
a new block in flight.
-/

namespace PegaFlow.Storage

open List Option AList Table Run InflightBlock

/-! ## Blocks -/

/-- The bytes of the slots that are filled. -/
def filledBytes (slots : List (Option RawBlock)) : Nat :=
  (slots.map fun slot => slot.elim 0 RawBlock.memoryFootprint).sum

theorem filledBytes_set {slots : List (Option RawBlock)} {i : Nat} (h : slots[i]? = some none)
    (raw : RawBlock) :
    filledBytes (slots.set i (some raw)) = filledBytes slots + raw.memoryFootprint := by
  induction slots generalizing i with
  | nil => cases h
  | cons slot slots ih =>
    cases i with
    | zero =>
      cases h
      simp [filledBytes, Nat.add_comm]
    | succ i =>
      have hr := ih h
      simp only [filledBytes, set_cons_succ, map_cons, sum_cons] at hr ⊢
      omega

/-- Every filled slot comes with its node from `Q`, and the footprint is theirs. -/
structure InflightBlock.Sound (Q : Nat → RawBlock → NumaNode → Prop) (b : InflightBlock) :
    Prop where
  slots : ∀ i raw, b.slots[i]? = some (some raw) →
    ∃ numa, b.slotNumas[i]? = some numa ∧ Q i raw numa
  footprint : b.footprint = filledBytes b.slots

/-- Every slot comes with its node from `Q`, and the footprint is the sum of the segment
sizes. -/
structure SealedBlock.Sound (Q : Nat → RawBlock → NumaNode → Prop) (block : SealedBlock) :
    Prop where
  slots : ∀ i raw, block.slots[i]? = some raw →
    ∃ numa, block.slotNumas[i]? = some numa ∧ Q i raw numa
  footprint : block.footprint = (block.slots.map RawBlock.memoryFootprint).sum

section

variable {Q R : Nat → RawBlock → NumaNode → Prop} {b b' : InflightBlock} {block : SealedBlock}
variable {numaNode : NumaNode} {totalSlots : Nat} {slots : List (Nat × RawBlock)}

theorem InflightBlock.Sound.mono (h : b.Sound Q)
    (himp : ∀ i raw numa, Q i raw numa → R i raw numa) : b.Sound R where
  slots i raw hr :=
    have ⟨numa, hnuma, hQ⟩ := h.slots i raw hr
    ⟨numa, hnuma, himp i raw numa hQ⟩
  footprint := h.footprint

theorem SealedBlock.Sound.mono (h : SealedBlock.Sound Q block)
    (himp : ∀ i raw numa, Q i raw numa → R i raw numa) : SealedBlock.Sound R block where
  slots i raw hr :=
    have ⟨numa, hnuma, hQ⟩ := h.slots i raw hr
    ⟨numa, hnuma, himp i raw numa hQ⟩
  footprint := h.footprint

theorem InflightBlock.sound_new : (new totalSlots).Sound Q where
  slots i raw h := nomatch List.eq_of_mem_replicate (List.mem_of_getElem? h)
  footprint := by simp [new, filledBytes, map_replicate]

theorem InflightBlock.Sound.set (h : b.Sound Q) {slotId : Nat} {raw : RawBlock}
    (hQ : Q slotId raw numaNode) (hemp : b.slots[slotId]? = some none)
    (hsl : b'.slots = b.slots.set slotId (some raw))
    (hnumas : b'.slotNumas = b.slotNumas.set slotId numaNode)
    (hfoot : b'.footprint = b.footprint + raw.memoryFootprint) : b'.Sound Q := by
  refine ⟨?_, ?_⟩
  · intro i raw' hr
    rw [hsl, getElem?_set] at hr
    rw [hnumas, getElem?_set]
    split at hr
    next hi =>
      subst hi
      split at hr
      next hlt =>
        cases hr
        rw [if_pos rfl, if_pos (b.numas_length ▸ hlt)]
        exact ⟨numaNode, rfl, hQ⟩
      · cases hr
    next hi =>
      rw [if_neg hi]
      exact h.slots i raw' hr
  · rw [hfoot, hsl, filledBytes_set hemp, h.footprint]

/-- What the loop over the slots of an entry does to a block and to the bytes. -/
theorem insertSlotsCounted_spec (added : Nat) (hb : b.Sound Q)
    (hsl : ∀ s ∈ slots, s.1 < b.totalSlots ∧ Q s.1 s.2 numaNode) :
    ∃ done b' added', insertSlotsCounted numaNode slots b added = some (done, b', added') ∧
      b'.Sound Q ∧ b'.totalSlots = b.totalSlots ∧
      added' + b.footprint = added + b'.footprint ∧ (done → b'.remaining = 0) ∧
      (done = false → 0 < b.remaining → 0 < b'.remaining) := by
  induction slots generalizing b added with
  | nil => exact ⟨false, b, added, rfl, hb, rfl, rfl, Bool.noConfusion, fun _ h => h⟩
  | cons s slots ih =>
    obtain ⟨slotId, block⟩ := s
    rw [forall_mem_cons] at hsl
    obtain ⟨⟨hlt, hQ⟩, hr⟩ := hsl
    unfold insertSlotsCounted
    rcases b.insertSlot_cases block numaNode hlt with
      ⟨-, hin⟩ | ⟨hemp, b₁, hset, hnumas, hrem, hfoot, hin⟩
    · rw [hin]
      exact ih added hb hr
    · have hs := hb.set hQ hemp hset hnumas hfoot
      have htot : b₁.totalSlots = b.totalSlots := by
        rw [totalSlots, hset, length_set]
        rfl
      rw [hin]
      by_cases hz : b.remaining - 1 = 0
      · rw [decide_eq_true hz]
        exact ⟨true, b₁, _, rfl, hs, htot, by omega, fun _ => hrem.trans hz, Bool.noConfusion⟩
      · rw [decide_eq_false hz]
        obtain ⟨done, b', added', hl, hb', htot', hby, hdone, hmr⟩ :=
          ih (added + block.memoryFootprint) hs (htot ▸ hr)
        exact ⟨done, b', added', hl, hb', htot'.trans htot, by omega, hdone,
          fun hd _ => hmr hd (by omega)⟩

theorem InflightBlock.Sound.sealBlock (h : b.Sound Q) (hd : b.remaining = 0) :
    ∃ block, b.sealBlock = some block ∧ block.slots.length = b.totalSlots ∧
      SealedBlock.Sound Q block := by
  obtain ⟨block, hseal, hsl, hfoot, hnumas⟩ := sealBlock_of_remaining hd
  refine ⟨block, hseal, ?_, ?_, ?_⟩
  · rw [totalSlots, hsl, length_map]
  · intro i raw hr
    rw [hnumas]
    refine h.slots i raw ?_
    rw [hsl, List.getElem?_map, hr]
    rfl
  · rw [hfoot, h.footprint, hsl, filledBytes, List.map_map]
    rfl

theorem fromOrderedSlotInserts_sound (hsl : ∀ s ∈ slots, Q s.1 s.2 numaNode)
    (h : fromOrderedSlotInserts slots totalSlots numaNode = some block) :
    block.slots.length = totalSlots ∧ SealedBlock.Sound Q block := by
  obtain ⟨hlen, hfoot, hr⟩ := fromOrderedSlotInserts_slots h
  refine ⟨hlen, fun i raw hi => ?_, hfoot⟩
  exact ⟨numaNode, (hr i raw hi).2, hsl _ (hr i raw hi).1⟩

end

/-! ## One entry -/

/-- Everything in flight or sealed is sound for its key, and nothing in flight is complete. -/
structure BatchState.Sound (Q : BlockKey → Nat → Nat → RawBlock → NumaNode → Prop)
    (totalSlots : Nat) (w : BatchState) : Prop where
  inflight : ∀ k b, w.inflight.lookup k = some b → b.Sound (Q k b.totalSlots) ∧ 0 < b.remaining
  sealedBlocks : ∀ k block, (k, block) ∈ w.sealedBlocks →
    block.slots.length = totalSlots ∧ SealedBlock.Sound (Q k totalSlots) block

/-- The bytes in flight and the byte counts of the batch change by the same amount. -/
def Balanced (w w' : BatchState) : Prop :=
  w'.inflight.total InflightBlock.footprint + w'.inflightBytesRemoved + w.inflightBytesAdded =
    w.inflight.total InflightBlock.footprint + w.inflightBytesRemoved + w'.inflightBytesAdded

section

variable {Q : BlockKey → Nat → Nat → RawBlock → NumaNode → Prop} {totalSlots : Nat}
variable {numaNode : NumaNode} {w : BatchState} {key : BlockKey} {slots : List (Nat × RawBlock)}

theorem BatchState.Sound.addSealed (hw : w.Sound Q totalSlots) {block : SealedBlock}
    {inflight : Table BlockKey InflightBlock} {added removed : Nat}
    (hlen : block.slots.length = totalSlots)
    (hblk : SealedBlock.Sound (Q key totalSlots) block)
    (hinf : ∀ k b, inflight.lookup k = some b → w.inflight.lookup k = some b) :
    BatchState.Sound Q totalSlots
      ⟨⟨inflight, w.sealedBlocks ++ [(key, block)]⟩, added, removed⟩ := by
  refine ⟨fun k b hb => hw.inflight k b (hinf k b hb), ?_⟩
  intro k block' hm
  rcases mem_append.mp hm with ho | hnew
  · exact hw.sealedBlocks k block' ho
  · cases mem_singleton.mp hnew
    exact ⟨hlen, hblk⟩

theorem insertPartialSlotsCounted_sound (hpos : 0 < totalSlots) (hw : w.Sound Q totalSlots)
    (hsl : ∀ s ∈ slots, s.1 < totalSlots ∧ Q key totalSlots s.1 s.2 numaNode) :
    ∃ w', insertPartialSlotsCounted totalSlots numaNode w key slots = some w' ∧
      w'.Sound Q totalSlots ∧ Balanced w w' := by
  unfold insertPartialSlotsCounted
  by_cases htot : ((w.inflight.lookup key).getD (.new totalSlots)).totalSlots = totalSlots
  · rw [if_neg (not_not.mpr htot)]
    -- The block the slots go to, with the bytes it has so far.
    obtain ⟨b, hb⟩ : ∃ b, b = (w.inflight.lookup key).getD (.new totalSlots) := ⟨_, rfl⟩
    rw [← hb] at htot ⊢
    have hsta : b.Sound (Q key totalSlots) ∧ 0 < b.remaining ∧
        (w.inflight.lookup key).elim 0 footprint = b.footprint := by
      cases hlk : w.inflight.lookup key with
      | none =>
        rw [hlk] at hb
        rw [hb]
        exact ⟨sound_new, hpos, rfl⟩
      | some found =>
        rw [hlk] at hb
        cases hb
        obtain ⟨hs, hrem⟩ := hw.inflight key _ hlk
        exact ⟨htot ▸ hs, hrem, rfl⟩
    obtain ⟨hs, hrem, hby⟩ := hsta
    obtain ⟨done, b', added', hl, hb', htot', hadded, hd, hmr⟩ :=
      insertSlotsCounted_spec w.inflightBytesAdded hs (by rw [htot]; exact hsl)
    rw [hl]
    cases done with
    | false =>
      refine ⟨_, rfl, ⟨?_, hw.sealedBlocks⟩, ?_⟩
      · refine forall_lookup_insert ?_ hw.inflight
        rw [htot', htot]
        exact ⟨hb', hmr rfl hrem⟩
      · have hsum := total_insert footprint w.inflight key b'
        unfold Balanced
        dsimp only
        omega
    | true =>
      obtain ⟨block, hseal, hlen, hblk⟩ := hb'.sealBlock (hd rfl)
      dsimp only
      rw [hseal]
      refine ⟨_, rfl, hw.addSealed (hlen.trans (htot'.trans htot)) hblk ?_, ?_⟩
      · exact fun k b₁ hb₁ => (lookup_of_erase hb₁).2
      · have hsum := total_erase footprint w.inflight key
        unfold Balanced
        dsimp only
        omega
  · rw [if_pos htot]
    exact ⟨w, rfl, hw, rfl⟩

/-- An entry is processed without a panic and keeps everything sound. -/
theorem insertEntryCounted_sound (resident : Bool) (hpos : 0 < totalSlots)
    (hw : w.Sound Q totalSlots)
    (hsl : ∀ s ∈ slots, s.1 < totalSlots ∧ Q key totalSlots s.1 s.2 numaNode) :
    ∃ w', insertEntryCounted resident totalSlots numaNode w key slots = some w' ∧
      w'.Sound Q totalSlots ∧ Balanced w w' := by
  unfold insertEntryCounted
  split
  · exact ⟨w, rfl, hw, rfl⟩
  split
  · exact insertPartialSlotsCounted_sound hpos hw hsl
  split
  next block hordd =>
    obtain ⟨hlen, hb⟩ :=
      fromOrderedSlotInserts_sound (fun s hs => (hsl s hs).2) hordd
    exact ⟨_, rfl, hw.addSealed hlen hb fun _ _ h => h, rfl⟩
  · exact insertPartialSlotsCounted_sound hpos hw hsl

end

/-! ## The worker -/

/-- A batch with this number of slots and this node brought the block for the slot. -/
def Supplied (received : List RawSaveBatch) (key : BlockKey) (totalSlots slot : Nat)
    (raw : RawBlock) (numa : NumaNode) : Prop :=
  ∃ batch ∈ received, batch.totalSlots = totalSlots ∧ batch.numaNode = numa ∧
    batch.Has key slot raw

theorem Supplied.mono {received received' : List RawSaveBatch} (hsub : received ⊆ received')
    {key : BlockKey} {totalSlots slot : Nat} {raw : RawBlock} {numa : NumaNode}
    (h : Supplied received key totalSlots slot raw numa) :
    Supplied received' key totalSlots slot raw numa := by
  obtain ⟨batch, hbt, hr⟩ := h
  exact ⟨batch, hsub hbt, hr⟩

/-- The batches have slots, and their slot numbers are in range. -/
def WorkerEvent.InRange : WorkerEvent → Prop
  | .recv batch => 0 < batch.totalSlots ∧ ∀ layer ∈ batch.layers, layer.slotId < batch.totalSlots
  | _ => True

instance : (ev : WorkerEvent) → Decidable ev.InRange
  | .recv _ => inferInstanceAs (Decidable (_ ∧ _))
  | .entry | .publish | .handOff | .gc _ | .lookup _ | .evict _ | .cleanup | .prefetched _ =>
    isTrue trivial

namespace WorkerState

variable {s s' : WorkerState} {ev : WorkerEvent}

/-- What the worker holds and publishes is made of the slots it received, and the byte counts
are the bytes it holds. -/
structure ContentSound (s : WorkerState) : Prop where
  no_panic : s.panicked = false
  published : ∀ p ∈ s.published, p.block.slots.length = p.batch.totalSlots ∧
    SealedBlock.Sound (Supplied s.received p.key p.batch.totalSlots) p.block
  inflight : ∀ k b, s.inflight.lookup k = some b →
    b.remaining = b.slots.countP Option.isNone ∧ b.footprint = filledBytes b.slots
  gauge : s.current = none → s.inflightBytes = s.inflight.total InflightBlock.footprint

/-- The batch in the middle of which the worker is. -/
structure CurrentSound (received : List RawSaveBatch) (c : CurrentBatch) : Prop where
  mem_received : c.batch ∈ received
  pos : 0 < c.batch.totalSlots
  todo : ∀ e ∈ c.todo, ∀ slot ∈ e.2,
    slot.1 < c.batch.totalSlots ∧ c.batch.Has e.1 slot.1 slot.2
  sealedBlocks : ∀ k block, (k, block) ∈ c.sealedBlocks →
    block.slots.length = c.batch.totalSlots ∧
      SealedBlock.Sound (Supplied received k c.batch.totalSlots) block
  settled : c.published →
    c.todo = [] ∧ c.inflightBytesAdded = 0 ∧ c.inflightBytesRemoved = 0

structure Inv (s : WorkerState) : Prop where
  no_panic : s.panicked = false
  inflight : ∀ k b, s.inflight.lookup k = some b →
    b.Sound (Supplied s.received k b.totalSlots) ∧ 0 < b.remaining
  published : ∀ p ∈ s.published, p.block.slots.length = p.batch.totalSlots ∧
    SealedBlock.Sound (Supplied s.received p.key p.batch.totalSlots) p.block
  current : ∀ c, s.current = some c → CurrentSound s.received c
  gauge : s.inflightBytes + s.current.elim 0 CurrentBatch.inflightBytesAdded =
    s.inflight.total InflightBlock.footprint +
      s.current.elim 0 CurrentBatch.inflightBytesRemoved

theorem Inv.contentSound (h : s.Inv) : s.ContentSound where
  no_panic := h.no_panic
  published := h.published
  inflight k b hb := ⟨b.remaining_eq, (h.inflight k b hb).1.footprint⟩
  gauge hn := by
    have hga := h.gauge
    rw [hn] at hga
    simpa using hga

theorem inv_new (cache : TinyLfuCache BlockKey SealedBlock) : (new cache).Inv where
  no_panic := rfl
  inflight := by simp [new]
  published := by simp [new]
  current := nofun
  gauge := rfl

/-- The entries of a batch in range. -/
theorem currentSound_recv {batch : RawSaveBatch} (hrg : (WorkerEvent.recv batch).InRange)
    {received : List RawSaveBatch} (hm : batch ∈ received) :
    CurrentSound received ⟨batch, buildInsertEntries batch, [], 0, 0, false⟩ where
  mem_received := hm
  pos := hrg.1
  todo := by
    rintro ⟨key, slots⟩ he ⟨slot, raw⟩ hs
    have hhas : batch.Has key slot raw := mem_buildInsertEntries.mp ⟨slots, he, hs⟩
    obtain ⟨-, layer, hl, rfl, -⟩ := id hhas
    exact ⟨hrg.2 layer hl, hhas⟩
  sealedBlocks := by simp
  settled := nofun

/-- Collecting a block lowers the gauge by its bytes. -/
theorem gcOne_total (state : Table BlockKey InflightBlock × Int) (key : BlockKey) :
    (gcOne state key).2 - (gcOne state key).1.total footprint =
      state.2 - state.1.total footprint := by
  unfold gcOne
  split
  · rfl
  next b hb =>
    have hsum := total_erase footprint state.1 key
    rw [hb, elim_some] at hsum
    dsimp only
    omega

theorem gc_total (stale : List BlockKey) (state : Table BlockKey InflightBlock × Int) :
    (stale.foldl gcOne state).2 - (stale.foldl gcOne state).1.total footprint =
      state.2 - state.1.total footprint := by
  induction stale generalizing state with
  | nil => rfl
  | cons key stale ih => exact (ih (gcOne state key)).trans (gcOne_total state key)

theorem lookup_of_gc {stale : List BlockKey} {state : Table BlockKey InflightBlock × Int}
    {k : BlockKey} {b : InflightBlock} (h : (stale.foldl gcOne state).1.lookup k = some b) :
    state.1.lookup k = some b := by
  refine foldlRecOn (motive := fun st : Table _ _ × _ => st.1.lookup k = some b → _) stale _
    (fun h => h) ?_ h
  intro st ih key _ h
  unfold gcOne at h
  split at h
  · exact ih h
  · exact ih (lookup_of_erase h).2

/-- The batch's view of a sound state. -/
theorem Inv.batchState (hi : s.Inv) {c : CurrentBatch} (hc : s.current = some c) :
    (s.batchState c).Sound (Supplied s.received) c.batch.totalSlots :=
  ⟨hi.inflight, (hi.current c hc).sealedBlocks⟩

/-- One round of the worker does not panic. -/
theorem Inv.entry (hi : s.Inv) {c : CurrentBatch} (hc : s.current = some c) {key : BlockKey}
    {slots : List (Nat × RawBlock)} {todo : InsertEntries} (htd : c.todo = (key, slots) :: todo) :
    ∃ w, insertEntryCounted (s.cache.containsKey key) c.batch.totalSlots c.batch.numaNode
        (s.batchState c) key slots = some w ∧
      w.Sound (Supplied s.received) c.batch.totalSlots ∧ Balanced (s.batchState c) w := by
  have hcur := hi.current c hc
  refine insertEntryCounted_sound _ hcur.pos (hi.batchState hc) ?_
  intro slot hs
  obtain ⟨hlt, hhas⟩ := hcur.todo (key, slots) (by simp [htd]) slot hs
  exact ⟨hlt, c.batch, hcur.mem_received, rfl, rfl, hhas⟩

theorem Inv.step (hi : s.Inv) (hrg : ev.InRange) (h : s.step ev = some s') : s'.Inv := by
  cases step_cases h with
  | @recv batch hp hc =>
    have hsub : s.received ⊆ s.received ++ [batch] := subset_append_left _ _
    refine ⟨hp, ?_, ?_, ?_, ?_⟩
    · intro k b hb
      obtain ⟨hs, hrem⟩ := hi.inflight k b hb
      exact ⟨hs.mono fun _ _ _ => Supplied.mono hsub, hrem⟩
    · intro p hp
      obtain ⟨hlen, hblk⟩ := hi.published p hp
      exact ⟨hlen, hblk.mono fun _ _ _ => Supplied.mono hsub⟩
    · intro c hc'
      cases hc'
      exact currentSound_recv hrg (by simp)
    · have hga := hi.gauge
      rw [hc] at hga
      exact hga
  | @entry c key slots todo w hp hc htd hw =>
    obtain ⟨w', hw', hs, hbalanced⟩ := hi.entry hc htd
    cases hw.symm.trans hw'
    have hcur := hi.current c hc
    refine ⟨hp, hs.inflight, hi.published, ?_, ?_⟩
    · intro c' hc'
      cases hc'
      refine ⟨hcur.mem_received, hcur.pos, ?_, hs.sealedBlocks, ?_⟩
      · exact fun e he => hcur.todo e (by simp [htd, he])
      · intro hpub
        rw [(hcur.settled hpub).1] at htd
        cases htd
    · have hga := hi.gauge
      rw [hc] at hga
      unfold Balanced at hbalanced
      simp only [WorkerState.batchState, elim_some] at hbalanced hga ⊢
      omega
  | panic hc htd hn =>
    obtain ⟨w', hw', -, -⟩ := hi.entry hc htd
    cases hn.symm.trans hw'
  | @publish c hp hc htd hpub =>
    have hcur := hi.current c hc
    refine ⟨hp, hi.inflight, ?_, ?_, ?_⟩
    · intro p hm
      rcases mem_append.mp hm with ho | hnew
      · exact hi.published p ho
      · obtain ⟨b, hb, rfl⟩ := mem_map.mp hnew
        exact hcur.sealedBlocks b.1 b.2 hb
    · intro c' hc'
      cases hc'
      exact ⟨hcur.mem_received, hcur.pos, hcur.todo, hcur.sealedBlocks, fun _ => ⟨htd, rfl, rfl⟩⟩
    · have hga := hi.gauge
      rw [hc] at hga
      simp only [elim_some] at hga ⊢
      omega
  | @handOff c hp hc hpub =>
    obtain ⟨-, hadded, hremoved⟩ := (hi.current c hc).settled hpub
    refine ⟨hp, hi.inflight, hi.published, nofun, ?_⟩
    have hga := hi.gauge
    rw [hc] at hga
    simpa [hadded, hremoved] using hga
  | @gc stale hp hc =>
    refine ⟨hp, fun k b hb => hi.inflight k b (lookup_of_gc hb), hi.published, ?_, ?_⟩
    · exact fun c hc' => hi.current c hc'
    · have hga := hi.gauge
      have htot := gc_total stale (s.inflight, s.inflightBytes)
      rw [hc] at hga ⊢
      simp only [elim_none] at hga htot ⊢
      omega
  | lookup | evict | cleanup | prefetched =>
    exact ⟨hi.no_panic, hi.inflight, hi.published, hi.current, hi.gauge⟩

/-- For all batches in range and everything other threads do to the cache: the worker does not
panic; a published block has the slots of its batch, each with its node from one batch that
supplied it for the key, and its footprint is the sum of the segment sizes; the counts of the
blocks in flight are right; and between commands the gauge is the sum of their footprints. -/
theorem published_content_sound (cache : TinyLfuCache BlockKey SealedBlock)
    (events : List WorkerEvent) (hrange : ∀ ev ∈ events, ev.InRange)
    (hrun : Run.exec step (new cache) events = some s) : s.ContentSound := by
  refine (exec_invariant_of_meets (I := Inv) ?_ (inv_new cache)
    (meets_of_forall hrange) hrun).contentSound
  intro s ev s' hi hr h
  exact hi.step hr h

/-- A save of one block for one slot of two. -/
def halfBatch (slotId : Nat) (hashes : List BlockHash) : RawSaveBatch :=
  ⟨"model", 2, ⟨slotId⟩,
    [⟨slotId, hashes.map fun hash => (hash, .singleSegment ⟨⟨slotId, 0⟩, 512⟩)⟩]⟩

/-- Two halves of a block, and a block that is collected before its second half arrives. -/
theorem published_content_sound_two_halves :
    ∃ s ∈ Run.exec step (new (.empty none))
        [.recv (halfBatch 0 [[1], [2]]), .entry, .entry, .publish, .handOff, .gc [⟨"model", [2]⟩],
          .recv (halfBatch 1 [[1]]), .entry, .publish, .handOff],
      s.published.length = 1 ∧ s.ContentSound := by
  refine exists_mem_imp (Q := fun s => s.published.length = 1) (by decide) fun s hs hlen => ?_
  exact ⟨hlen, published_content_sound _ _ (by decide) hs⟩

/-! ## Keys named twice -/

/-- No key of a block that the batch sealed and that is resident is in flight again. -/
def NoTwins (s : WorkerState) : Prop :=
  ∀ c, s.current = some c → c.published → ∀ k block, (k, block) ∈ c.sealedBlocks →
    s.cache.containsKey k → s.inflight.lookup k = none

/-- The batch under way names no key twice, and nothing it sealed is in flight or still to be
processed. -/
structure SealedApart (inflight : Table BlockKey InflightBlock) (c : CurrentBatch) : Prop where
  nodup : (c.todo.map Prod.fst).Nodup
  fresh : ∀ k block, (k, block) ∈ c.sealedBlocks → k ∉ c.todo.map Prod.fst
  gone : ∀ k block, (k, block) ∈ c.sealedBlocks → inflight.lookup k = none

end WorkerState

/-- The entries of a batch are for different keys. -/
def WorkerEvent.DistinctKeys : WorkerEvent → Prop
  | .recv batch => ((buildInsertEntries batch).map Prod.fst).Nodup
  | _ => True

instance : (ev : WorkerEvent) → Decidable ev.DistinctKeys
  | .recv _ => inferInstanceAs (Decidable (List.Nodup _))
  | .entry | .publish | .handOff | .gc _ | .lookup _ | .evict _ | .cleanup | .prefetched _ =>
    isTrue trivial

section

variable {w w' : BatchState} {totalSlots : Nat} {numaNode : NumaNode} {key : BlockKey}
variable {slots : List (Nat × RawBlock)} {resident : Bool}

/-- What an entry does to the keys: the others stay as they are, and its own is not in flight
when it is sealed. -/
structure TouchesOnly (key : BlockKey) (w w' : BatchState) : Prop where
  inflight : ∀ k, k ≠ key → w'.inflight.lookup k = w.inflight.lookup k
  sealedBlocks : w'.sealedBlocks = w.sealedBlocks ∨
    (∃ block, w'.sealedBlocks = w.sealedBlocks ++ [(key, block)]) ∧ w'.inflight.lookup key = none

theorem insertPartialSlotsCounted_touches
    (h : insertPartialSlotsCounted totalSlots numaNode w key slots = some w') :
    TouchesOnly key w w' := by
  unfold insertPartialSlotsCounted at h
  dsimp only at h
  split at h
  · cases h
    exact ⟨fun _ _ => rfl, Or.inl rfl⟩
  · split at h
    · cases h
    · cases h
      exact ⟨fun k hk => lookup_insert_ne hk, Or.inl rfl⟩
    · split at h
      · cases h
      · cases h
        exact ⟨fun k hk => lookup_erase_ne hk, Or.inr ⟨⟨_, rfl⟩, lookup_erase _ _⟩⟩

theorem insertEntryCounted_touches
    (h : insertEntryCounted resident totalSlots numaNode w key slots = some w') :
    TouchesOnly key w w' := by
  unfold insertEntryCounted at h
  split at h
  · cases h
    exact ⟨fun _ _ => rfl, Or.inl rfl⟩
  · split at h
    · exact insertPartialSlotsCounted_touches h
    next hn =>
      split at h
      · cases h
        exact ⟨fun _ _ => rfl, Or.inr ⟨⟨_, rfl⟩, hn⟩⟩
      · exact insertPartialSlotsCounted_touches h

end

/-- Entries that are grouped by hash are for different keys. -/
theorem hashedEntries_nodup (nameSpace : String) (layers : List RawSaveLayer) :
    ((buildHashedInsertEntries nameSpace layers).map Prod.fst).Nodup := by
  have hk := (groupItems (saveItems layers) ∅).nodupKeys
  have hinj : Function.Injective fun hash : BlockHash => (⟨nameSpace, hash⟩ : BlockKey) :=
    fun _ _ heq => congrArg BlockKey.hash heq
  have hmap := List.Nodup.map hinj hk
  unfold buildHashedInsertEntries
  rw [List.map_map]
  rw [List.keys, List.map_map] at hmap
  exact hmap

/-- A batch whose layers name no hash twice has entries for different keys. -/
theorem distinctKeys_of_nodup {batch : RawSaveBatch}
    (h : ∀ layer ∈ batch.layers, layer.blockHashes.Nodup) :
    (WorkerEvent.recv batch).DistinctKeys := by
  change ((buildInsertEntries batch).map Prod.fst).Nodup
  unfold buildInsertEntries
  split
  · have hinj : Function.Injective fun hash : BlockHash => (⟨batch.nameSpace, hash⟩ : BlockKey) :=
      fun _ _ heq => congrArg BlockKey.hash heq
    have hhashes : (batch.layers.head?.elim [] RawSaveLayer.blockHashes).Nodup := by
      cases hls : batch.layers with
      | nil => exact nodup_nil
      | cons first rest => exact h first (by simp [hls])
    have hmap := List.Nodup.map hinj hhashes
    unfold buildOrderedInsertEntries
    rw [List.map_map]
    rw [← zipIdx_map_fst 0 (batch.layers.head?.elim [] RawSaveLayer.blockHashes),
      List.map_map] at hmap
    exact hmap
  · exact hashedEntries_nodup _ _

namespace WorkerState

variable {s s' : WorkerState} {ev : WorkerEvent}

theorem SealedApart.entry {c : CurrentBatch} {key : BlockKey} {slots : List (Nat × RawBlock)}
    {todo : InsertEntries} {w : BatchState} (h : SealedApart s.inflight c)
    (htd : c.todo = (key, slots) :: todo) (hw : TouchesOnly key (s.batchState c) w) :
    SealedApart w.inflight { c with
      todo := todo
      sealedBlocks := w.sealedBlocks
      inflightBytesAdded := w.inflightBytesAdded
      inflightBytesRemoved := w.inflightBytesRemoved } := by
  have hnd := h.nodup
  rw [htd, map_cons, nodup_cons] at hnd
  -- A block sealed earlier is not for the key of the entry, and stays as it is.
  have ho : ∀ k block, (k, block) ∈ c.sealedBlocks →
      k ∉ todo.map Prod.fst ∧ w.inflight.lookup k = none := by
    intro k block hm
    have hfr := h.fresh k block hm
    rw [htd, map_cons, mem_cons, not_or] at hfr
    exact ⟨hfr.2, (hw.inflight k hfr.1).trans (h.gone k block hm)⟩
  have hall : ∀ k block, (k, block) ∈ w.sealedBlocks →
      k ∉ todo.map Prod.fst ∧ w.inflight.lookup k = none := by
    intro k block hm
    rcases hw.sealedBlocks with heq | ⟨⟨block', heq⟩, hn⟩
    · rw [heq] at hm
      exact ho k block hm
    · rw [heq, mem_append, mem_singleton] at hm
      rcases hm with hm | hnew
      · exact ho k block hm
      · cases hnew
        exact ⟨hnd.1, hn⟩
  exact ⟨hnd.2, fun k block hm => (hall k block hm).1,
    fun k block hm => (hall k block hm).2⟩

theorem sealedApart_step (hi : ∀ c, s.current = some c → SealedApart s.inflight c)
    (hk : ev.DistinctKeys) (h : s.step ev = some s') :
    ∀ c, s'.current = some c → SealedApart s'.inflight c := by
  cases step_cases h with
  | recv =>
    intro c hc
    cases hc
    exact ⟨hk, by simp, by simp⟩
  | entry hp hc htd hw =>
    intro c' hc'
    cases hc'
    exact (hi _ hc).entry htd (insertEntryCounted_touches hw)
  | publish hp hc =>
    intro c' hc'
    cases hc'
    exact ⟨(hi _ hc).nodup, (hi _ hc).fresh, (hi _ hc).gone⟩
  | handOff => exact nofun
  | gc hp hc =>
    intro c hc'
    cases hc.symm.trans hc'
  | panic | lookup | evict | cleanup | prefetched => exact hi

/-- In every run in which no batch names a key twice, no key that a batch has just sealed is in
flight when the batch is published.  Batches whose layers name no hash twice are such, and so
are batches that do not take the fast path. -/
theorem no_twins_of_distinctKeys (cache : TinyLfuCache BlockKey SealedBlock) :
    (∀ (events : List WorkerEvent) (s : WorkerState),
      (∀ ev ∈ events, ev.DistinctKeys) → Run.exec step (new cache) events = some s → s.NoTwins) ∧
    (∀ batch : RawSaveBatch, (∀ layer ∈ batch.layers, layer.blockHashes.Nodup) ∨
      canUseOrderedFastPath batch.layers = false → (WorkerEvent.recv batch).DistinctKeys) := by
  refine ⟨?_, ?_⟩
  · intro events s hkeys hrun c hc _ k block hmem _
    have hinv : ∀ c, s.current = some c → SealedApart s.inflight c := by
      refine exec_invariant_of_meets
        (I := fun s => ∀ c, s.current = some c → SealedApart s.inflight c) ?_ ?_
        (meets_of_forall hkeys) hrun
      · intro s ev s' hi hk h
        exact sealedApart_step hi hk h
      · intro c hc
        cases hc
    exact (hinv c hc).gone k block hmem
  · rintro batch (hnodup | hslow)
    · exact distinctKeys_of_nodup hnodup
    · change ((buildInsertEntries batch).map Prod.fst).Nodup
      rw [buildInsertEntries, if_neg (by simp [hslow])]
      exact hashedEntries_nodup _ _

/-- Slot 0 of a block is in flight, and a batch names the block twice for slot 1.  The first
entry completes the block, the second starts a new one, which stays in flight while the block
is resident. -/
theorem repeated_hash_leaves_twin :
    ∃ s ∈ Run.exec step (new (.empty none))
        [.recv (halfBatch 0 [[1]]), .entry, .publish, .handOff,
          .recv (halfBatch 1 [[1], [1]]), .entry, .entry, .publish],
      ¬ s.NoTwins := by
  refine exists_mem_imp (Q := fun s => ∃ c ∈ s.current, c.published = true ∧ ∃ b ∈ c.sealedBlocks,
      s.cache.containsKey b.1 = true ∧ (s.inflight.lookup b.1).isSome) (by decide)
    fun s hs hrun => ?_
  obtain ⟨c, hc, hpub, b, hb, hresident, hinflight⟩ := hrun
  refine ?_
  intro h
  rw [h c hc hpub b.1 b.2 hb hresident] at hinflight
  cases hinflight

/-- The second batch completes one block and starts another. -/
theorem no_twins_of_distinctKeys_two_blocks :
    ∃ s ∈ Run.exec step (new (.empty none))
        [.recv (halfBatch 0 [[1]]), .entry, .publish, .handOff,
          .recv (halfBatch 1 [[1], [2]]), .entry, .entry, .publish],
      s.published.length = 1 ∧ s.NoTwins := by
  refine exists_mem_imp (Q := fun s => s.published.length = 1) (by decide) fun s hs hlen => ?_
  exact ⟨hlen, (no_twins_of_distinctKeys (.empty none)).1 _ s (by decide) hs⟩

end WorkerState

end PegaFlow.Storage
