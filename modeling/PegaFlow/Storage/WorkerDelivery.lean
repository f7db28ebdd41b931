import PegaFlow.Storage.WorkerContent

/-!
# What the insert worker keeps

No slot of a key gets lost on its way through the worker: it is in an entry that is still to be
processed, in the block in flight, in a block that the batch has sealed, or the key is in the
cache (`HasSlot`).  This needs that all batches that name the key have the same number of slots
(`Sized`), and that nothing takes the key away (`Keeps`).  When the worker is idle and has all
slots of the key, the key is resident, since a block in flight has an empty slot.
-/

namespace PegaFlow.Storage

open List Option

variable (batch : RawSaveBatch) (k : BlockKey) (totalSlots : Nat)

/-- The batch has a block for the slot of the key. -/
def RawSaveBatch.Supplies (slot : Nat) : Prop :=
  k.nameSpace = batch.nameSpace ∧
    ∃ layer ∈ batch.layers, layer.slotId = slot ∧ k.hash ∈ layer.blockHashes

instance (slot : Nat) : Decidable (batch.Supplies k slot) :=
  inferInstanceAs (Decidable (_ ∧ _))

theorem RawSaveBatch.supplies_iff {batch : RawSaveBatch} {k : BlockKey} {slot : Nat} :
    batch.Supplies k slot ↔ ∃ raw, batch.Has k slot raw := by
  constructor
  · rintro ⟨hns, layer, hl, hs, hh⟩
    obtain ⟨⟨hash, raw⟩, hb, rfl⟩ := mem_map.mp hh
    exact ⟨raw, hns, layer, hl, hs, hb⟩
  · rintro ⟨raw, hns, layer, hl, hs, hb⟩
    exact ⟨hns, layer, hl, hs, mem_map_of_mem hb⟩

/-- The batch is in range, and has the right number of slots if it names the key. -/
def Suits (batch : RawSaveBatch) : Prop :=
  (WorkerEvent.recv batch).InRange ∧
    ∀ layer ∈ batch.layers, k.nameSpace = batch.nameSpace → k.hash ∈ layer.blockHashes →
      batch.totalSlots = totalSlots

instance (batch : RawSaveBatch) : Decidable (Suits k totalSlots batch) :=
  inferInstanceAs (Decidable (_ ∧ _))

namespace WorkerState

variable {s s' : WorkerState} {ev : WorkerEvent} {k : BlockKey} {totalSlots slot : Nat}

/-- The key is not refused, collected or evicted. -/
def Keeps (k : BlockKey) (s : WorkerState) : WorkerEvent → Prop
  | .publish => ∀ c ∈ s.current, k ∈ c.sealedBlocks.map Prod.fst → s.cache.Admits c.sealedBlocks
  | .gc stale => k ∉ stale
  | ev => k ∉ s.evictedBy ev

instance (k : BlockKey) (s : WorkerState) : ∀ ev, Decidable (s.Keeps k ev)
  | .publish => inferInstanceAs (Decidable (∀ c ∈ s.current, _))
  | .recv _ | .entry | .handOff | .gc _ | .lookup _ | .evict _ | .cleanup | .prefetched _ =>
    inferInstanceAs (Decidable (_ ∉ _))

theorem Keeps.not_evicted (h : s.Keeps k ev) : k ∉ s.evictedBy ev := by
  cases ev with
  | publish | gc stale => exact not_mem_nil
  | _ => exact h

/-- The slot of the key is with the worker, or the key is resident. -/
def HasSlot (s : WorkerState) (k : BlockKey) (slot : Nat) : Prop :=
  s.cache.containsKey k ∨
    (∃ b, s.inflight.lookup k = some b ∧ b.Filled slot) ∨
    ∃ c, s.current = some c ∧ c.published = false ∧
      ((∃ block, (k, block) ∈ c.sealedBlocks) ∨
        ∃ slots raw, (k, slots) ∈ c.todo ∧ (slot, raw) ∈ slots)

/-- The key has that many slots wherever it is with the worker. -/
structure Sized (k : BlockKey) (totalSlots : Nat) (s : WorkerState) : Prop where
  inv : s.Inv
  inflight : ∀ b, s.inflight.lookup k = some b → b.totalSlots = totalSlots
  current : ∀ c, s.current = some c → ∀ slots, (k, slots) ∈ c.todo →
    c.batch.totalSlots = totalSlots

theorem sized_new (cache : TinyLfuCache BlockKey SealedBlock) : (new cache).Sized k totalSlots where
  inv := inv_new cache
  inflight := by simp [new]
  current := nofun

/-! ## One entry -/

section

variable {c : CurrentBatch} {key : BlockKey} {slots : List (Nat × RawBlock)} {todo : InsertEntries}
variable {w : BatchState}

theorem insertEntry_of_counted
    (hw : insertEntryCounted (s.cache.containsKey key) c.batch.totalSlots c.batch.numaNode
      (s.batchState c) key slots = some w) :
    insertEntry s.cache.lru c.batch.totalSlots c.batch.numaNode (s.batchState c).toInsertState key
      slots = some w.toInsertState := by
  rw [← insertEntryCounted_forget]
  exact congrArg (Option.map BatchState.toInsertState) hw

/-- An entry keeps the slots of the key and adds its own. -/
theorem Sized.entry (hi : s.Sized k totalSlots) (hc : s.current = some c)
    (htd : c.todo = (key, slots) :: todo)
    (hw : insertEntryCounted (s.cache.containsKey key) c.batch.totalSlots c.batch.numaNode
      (s.batchState c) key slots = some w) :
    (∀ b, w.inflight.lookup k = some b → b.totalSlots = totalSlots) ∧
      (∀ slot, (s.batchState c).Has k slot → w.Has k slot) ∧
      (key = k → s.cache.containsKey k = false → ∀ x ∈ slots, w.Has k x.1) := by
  have hcur := hi.inv.current c hc
  have hent := hcur.todo (key, slots) (by simp [htd])
  have hw' := insertEntry_of_counted hw
  by_cases hk : key = k
  · subst hk
    have htot := hi.current c hc slots (by simp [htd])
    have hhd : (s.batchState c).Holds (fun _ _ => True) c.batch.totalSlots key := by
      refine ⟨?_, ?_⟩
      · intro b hb
        exact ⟨⟨(hi.inflight b hb).trans htot.symm, fun _ _ _ => trivial⟩,
          (hi.inv.inflight key b hb).2⟩
      · intro block hblk
        exact ⟨(hcur.sealedBlocks key block hblk).1, fun _ _ _ => trivial⟩
    obtain ⟨w₁, hw₁, hhd₁, hkept, hsl⟩ := insertEntry_spec c.batch.numaNode hcur.pos hhd
      fun x hx => ⟨(hent x hx).1, trivial⟩
    cases hw'.symm.trans hw₁
    refine ⟨?_, hkept, ?_⟩
    · intro b hb
      exact (hhd₁.inflight b hb).1.totalSlots_eq.trans htot
    · intro _ hnot
      refine hsl ?_
      rwa [TinyLfuCache.containsKey, isSome_eq_false_iff, isNone_iff_eq_none] at hnot
  · obtain ⟨w₁, hw₁, hsm⟩ := insertEntry_other c.batch.numaNode (Ne.symm hk)
      fun x hx => (hent x hx).1
    cases hw'.symm.trans hw₁
    refine ⟨?_, fun slot h => hsm.has h, fun h => absurd h hk⟩
    intro b hb
    exact hi.inflight b (hsm.1 ▸ hb)

end

theorem lookup_gc_of_not_mem {stale : List BlockKey} {state : Table BlockKey InflightBlock × Int}
    (hk : k ∉ stale) : (stale.foldl gcOne state).1.lookup k = state.1.lookup k := by
  refine foldlRecOn (motive := fun st : Table _ _ × _ => st.1.lookup k = _) stale _ rfl
    fun st h key hm => ?_
  unfold gcOne
  split
  · exact h
  · exact (AList.lookup_erase_ne (ne_of_mem_of_not_mem hm hk).symm).trans h

/-! ## Steps -/

theorem Sized.step (hi : s.Sized k totalSlots)
    (hsuits : ∀ batch, ev = .recv batch → Suits k totalSlots batch) (h : s.step ev = some s') :
    s'.Sized k totalSlots := by
  have hrg : ev.InRange := by
    cases ev with
    | recv batch => exact (hsuits batch rfl).1
    | _ => trivial
  have hinv := hi.inv.step hrg h
  cases step_cases h with
  | @recv batch _ _ =>
    refine ⟨hinv, hi.inflight, ?_⟩
    intro c hc slots hm
    cases hc
    obtain ⟨hns, layer, hl, hh⟩ := named_of_mem_buildInsertEntries hm
    exact (hsuits batch rfl).2 layer hl hns hh
  | @entry c key slots todo w _ hc htd hw =>
    refine ⟨hinv, (hi.entry hc htd hw).1, ?_⟩
    intro c' hc' slots' hm
    cases hc'
    exact hi.current c hc slots' (by rw [htd]; exact mem_cons_of_mem _ hm)
  | panic | lookup | evict | cleanup | prefetched => exact ⟨hinv, hi.inflight, hi.current⟩
  | @publish c _ hc _ _ =>
    refine ⟨hinv, hi.inflight, ?_⟩
    intro c' hc' slots hm
    cases hc'
    exact hi.current c hc slots hm
  | handOff => exact ⟨hinv, hi.inflight, nofun⟩
  | gc => exact ⟨hinv, fun b hb => hi.inflight b (lookup_of_gc hb), hi.current⟩

theorem HasSlot.step (hs : s.HasSlot k slot) (hi : s.Sized k totalSlots) (hkp : s.Keeps k ev)
    (h : s.step ev = some s') : s'.HasSlot k slot := by
  have hres : s.cache.containsKey k → s'.HasSlot k slot :=
    fun hres => Or.inl ((resident_step h hres).resolve_right hkp.not_evicted)
  cases step_cases h with
  | recv _ hc =>
    rcases hs with ho | hinf | ⟨c, hcur, -⟩
    · exact Or.inl ho
    · exact Or.inr (Or.inl hinf)
    · cases hc.symm.trans hcur
  | @entry c key slots todo w _ hc htd hw =>
    obtain ⟨-, hk, hadded⟩ := hi.entry hc htd hw
    have hunpublished : c.published = false := by
      by_contra hpub
      rw [Bool.not_eq_false] at hpub
      rw [((hi.inv.current c hc).settled hpub).1] at htd
      cases htd
    have hhas : w.Has k slot → HasSlot { s with
        inflight := w.inflight
        current := some { c with
          todo := todo
          sealedBlocks := w.sealedBlocks
          inflightBytesAdded := w.inflightBytesAdded
          inflightBytesRemoved := w.inflightBytesRemoved } } k slot := by
      rintro (hsl | hinf)
      · exact Or.inr (Or.inr ⟨_, rfl, hunpublished, Or.inl hsl⟩)
      · exact Or.inr (Or.inl hinf)
    rcases hs with ho | hinf | ⟨c', hcur, -, hsl | ⟨slots', raw, hm, hx⟩⟩
    · exact Or.inl ho
    · exact hhas (hk slot (Or.inr hinf))
    · cases hc.symm.trans hcur
      exact hhas (hk slot (Or.inl hsl))
    · cases hc.symm.trans hcur
      rw [htd, mem_cons] at hm
      rcases hm with heq | hm
      · cases heq
        cases hcch : s.cache.containsKey k with
        | true => exact Or.inl hcch
        | false => exact hhas (hadded rfl hcch _ hx)
      · exact Or.inr (Or.inr ⟨_, rfl, hunpublished, Or.inr ⟨slots', raw, hm, hx⟩⟩)
  | panic hc htd hn =>
    obtain ⟨w, hw, -, -⟩ := hi.inv.entry hc htd
    cases hn.symm.trans hw
  | @publish c _ hc htd _ =>
    rcases hs with ho | hinf | ⟨c', hcur, -, ⟨block, hblk⟩ | ⟨slots, raw, hm, -⟩⟩
    · exact hres ho
    · exact Or.inr (Or.inl hinf)
    · cases hc.symm.trans hcur
      exact Or.inl (TinyLfuCache.isSome_batchInsert (hkp c hc (mem_map_of_mem hblk)) hblk)
    · cases hc.symm.trans hcur
      rw [htd] at hm
      cases hm
  | handOff _ hc hpub =>
    rcases hs with ho | hinf | ⟨c', hcur, hunpub, -⟩
    · exact Or.inl ho
    · exact Or.inr (Or.inl hinf)
    · cases hc.symm.trans hcur
      cases hpub.symm.trans hunpub
  | gc =>
    rcases hs with ho | ⟨b, hb, hfil⟩ | hcurrent
    · exact Or.inl ho
    · exact Or.inr (Or.inl ⟨b, (lookup_gc_of_not_mem hkp).trans hb, hfil⟩)
    · exact Or.inr (Or.inr hcurrent)
  | lookup | evict | cleanup | prefetched =>
    exact hs.elim hres Or.inr

/-- An idle worker that has all slots of the key has handed it to the cache. -/
theorem Sized.resident (hi : s.Sized k totalSlots) (hpos : 0 < totalSlots)
    (hid : s.current = none) (hsl : ∀ slot < totalSlots, s.HasSlot k slot) :
    s.cache.containsKey k := by
  have hinf : ∀ slot < totalSlots, s.cache.containsKey k ∨
      ∃ b, s.inflight.lookup k = some b ∧ b.Filled slot := by
    intro slot hlt
    rcases hsl slot hlt with ho | hinf | ⟨c, hc, -⟩
    · exact Or.inl ho
    · exact Or.inr hinf
    · cases hid.symm.trans hc
  rcases hinf 0 hpos with ho | ⟨b, hb, -⟩
  · exact ho
  by_contra hnot
  have hn := (hi.inv.inflight k b hb).2
  rw [b.remaining_eq, countP_pos_iff] at hn
  obtain ⟨slot, hm, hemp⟩ := hn
  obtain ⟨i, hi', rfl⟩ := getElem_of_mem hm
  obtain ⟨b', hb', raw, hr⟩ := (hinf i (hi.inflight b hb ▸ hi')).resolve_left hnot
  cases hb.symm.trans hb'
  rw [getElem?_eq_getElem hi', some.injEq] at hr
  rw [hr] at hemp
  cases hemp

end WorkerState

end PegaFlow.Storage
