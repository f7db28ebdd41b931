import PegaFlow.Lib.Run
import PegaFlow.Connector.SaveWorker

/-!
# Blocks stay in place until they are copied

A save is safe when the bytes stored for a block are those it held when the RPC
was issued, and vLLM keeps every block that is still to be copied.

The code does not give this.  The reply to a save RPC says that the copy was
spawned, not that it has run, and the save thread completes the requests of a
batch on the reply.  It holds in every run in which a request is completed only
when nothing of it is left to copy, and in which `get_finished` is not asked about
a request with an older completed save while a newer one is pending (`Settled`).

The argument has two halves.  A block to copy belongs to a pending request, and
what `get_finished` and `handle_preemptions` release is not pending; the second is
a fact about events (`SaveBook.WF`).  A block that is not released is not written.
-/

namespace PegaFlow.Connector

open List AList Table Run

/-! ## The book -/

namespace SaveBook

/-- A pending request has an event of its own, which is not set. -/
structure WF (b : SaveBook) : Prop where
  event_of_pending : ∀ r ∈ b.pending, ∃ id, b.events.lookup r = some id ∧ id ∉ b.fired
  event_lt : ∀ r id, b.events.lookup r = some id → id < b.nextEvent
  fired_lt : ∀ id ∈ b.fired, id < b.nextEvent
  event_inj : ∀ r r' id, b.events.lookup r = some id → b.events.lookup r' = some id → r = r'

variable {b : SaveBook}

theorem wf_empty : WF empty where
  event_of_pending := by simp [empty]
  event_lt := by simp [empty]
  fired_lt := by simp [empty]
  event_inj := by simp [empty]

theorem WF.trackOne (h : b.WF) (req : ReqId) : (b.trackOne req).WF := by
  unfold SaveBook.trackOne
  split
  · exact h
  refine ⟨?_, ?_, ?_, ?_⟩
  · intro r hr
    by_cases heq : r = req
    · subst heq
      exact ⟨b.nextEvent, lookup_insert _, fun hf => Nat.lt_irrefl _ (h.fired_lt _ hf)⟩
    · rw [lookup_insert_ne heq]
      exact h.event_of_pending r (Finset.mem_of_mem_insert_of_ne hr heq)
  · refine forall_lookup_insert ?_ fun r id hr => Nat.lt_succ_of_lt (h.event_lt r id hr)
    exact Nat.lt_succ_self _
  · exact fun id hid => Nat.lt_succ_of_lt (h.fired_lt id hid)
  · intro r r' id hr hr'
    rcases lookup_of_insert hr with ⟨rfl, hnew⟩ | ⟨-, ho⟩ <;>
      rcases lookup_of_insert hr' with ⟨rfl, hnew'⟩ | ⟨-, ho'⟩
    · rfl
    · exact (Nat.lt_irrefl _ (hnew ▸ h.event_lt _ _ ho')).elim
    · exact (Nat.lt_irrefl _ (hnew' ▸ h.event_lt _ _ ho)).elim
    · exact h.event_inj r r' id ho ho'

theorem WF.completeOne (h : b.WF) (req : ReqId) : (b.completeOne req).WF := by
  unfold SaveBook.completeOne
  split
  swap
  · exact h
  rename_i hpd
  obtain ⟨id, hid, -⟩ := h.event_of_pending req hpd
  rw [hid]
  refine ⟨?_, fun r i hr => h.event_lt r i (lookup_of_erase hr).2, ?_, ?_⟩
  · intro r hr
    obtain ⟨hne, hr⟩ := Finset.mem_erase.mp hr
    obtain ⟨i, hi, hfr⟩ := h.event_of_pending r hr
    refine ⟨i, (lookup_erase_ne hne).trans hi, ?_⟩
    intro hf
    rcases Finset.mem_insert.mp hf with rfl | hf
    · exact hne (h.event_inj r req i hi hid)
    · exact hfr hf
  · intro i hi
    rcases Finset.mem_insert.mp hi with rfl | hi
    · exact h.event_lt req i hid
    · exact h.fired_lt i hi
  · exact fun r r' i hr hr' =>
      h.event_inj r r' i (lookup_of_erase hr).2 (lookup_of_erase hr').2

theorem WF.track (h : b.WF) (reqs : List ReqId) : (b.track reqs).WF :=
  foldlRecOn (motive := WF) reqs _ h fun _ h r _ => h.trackOne r

theorem WF.complete (h : b.WF) (reqs : List ReqId) : (b.complete reqs).WF :=
  foldlRecOn (motive := WF) reqs _ h fun _ h r _ => h.completeOne r

variable {req r : ReqId}

theorem mem_pending_trackOne : r ∈ (b.trackOne req).pending ↔ r ∈ b.pending ∨ r = req := by
  unfold trackOne
  split
  · constructor
    · exact Or.inl
    · rintro (h | rfl) <;> assumption
  · simp only [Finset.mem_insert]
    exact or_comm

variable {reqs : List ReqId}

theorem mem_pending_track : r ∈ (b.track reqs).pending ↔ r ∈ b.pending ∨ r ∈ reqs := by
  induction reqs generalizing b with
  | nil => simp [track]
  | cons q reqs ih =>
    have hih := ih (b := b.trackOne q)
    rw [mem_pending_trackOne] at hih
    rw [List.mem_cons, ← or_assoc]
    exact hih

theorem mem_pending_completeOne : r ∈ (b.completeOne req).pending ↔ r ∈ b.pending ∧ r ≠ req := by
  unfold completeOne
  split
  · simp only [Finset.mem_erase]
    exact and_comm
  next hreq =>
    constructor
    · intro h
      exact ⟨h, fun heq => hreq (heq ▸ h)⟩
    · exact And.left

theorem mem_pending_complete : r ∈ (b.complete reqs).pending ↔ r ∈ b.pending ∧ r ∉ reqs := by
  induction reqs generalizing b with
  | nil => simp [complete]
  | cons q reqs ih =>
    have hih := ih (b := b.completeOne q)
    rw [mem_pending_completeOne] at hih
    rw [List.mem_cons, not_or, ← and_assoc]
    exact hih

/-- Completing requests only removes events. -/
theorem lookup_of_lookup_complete {id : Nat} (h : (b.complete reqs).events.lookup r = some id) :
    b.events.lookup r = some id := by
  refine foldlRecOn (motive := fun b => (events b).lookup r = some id → _) reqs _ (fun h => h) ?_ h
  intro b ih q _ h
  unfold completeOne at h
  split at h
  · exact ih (lookup_of_erase h).2
  · exact ih h

end SaveBook

/-! ## What is still to be copied -/

/-- The tasks the save thread has taken and not issued. -/
def SaveThread.unissued : SaveThread → List SaveTask
  | .collecting batch => batch
  | .drained batch => batch
  | .idle | .waiting _ _ | .finishing _ | .dead => []

/-- The requests the save thread is about to complete. -/
def SaveThread.completing : SaveThread → List ReqId
  | .finishing batch => batch.flatMap SaveTask.requestIds
  | .idle | .collecting _ | .drained _ | .waiting _ _ | .dead => []

def SaveRequest.blocks {β : Type} (r : SaveRequest β) : List (ReqId × BlockId) :=
  r.saves.flatMap LayerSave.blockIds

theorem SaveMode.mem_ownPart {m : SaveMode} {intent : SaveIntent} {ids : List BlockId}
    {hashes : List BlockHash} (h : m.ownPart intent = some (ids, hashes)) {b : BlockId}
    (hb : b ∈ ids) : b ∈ intent.blockIds := by
  unfold SaveMode.ownPart SaveMode.blockShard at h
  split at h
  · split at h
    · cases h
      exact hb
    · split at h
      · simp only [Option.some.injEq, unzip_eq_map, Prod.mk.injEq] at h
        rw [← h.1] at hb
        obtain ⟨p, hp, rfl⟩ := List.mem_map.mp hb
        exact (of_mem_zip (mem_of_mem_filter hp)).1
      · cases h
  · cases h
    exact hb

variable {p : ReqId × BlockId}

theorem SaveMode.mem_gather {m : SaveMode} {intents : List (ReqId × SaveIntent)}
    {r : List (ReqId × BlockId) × List BlockHash} (h : m.gather intents = some r) (hp : p ∈ r.1) :
    p ∈ intents.flatMap fun q => q.2.blockIds.map fun b => (q.1, b) := by
  induction intents generalizing r with
  | nil =>
    cases h
    cases hp
  | cons q rest ih =>
    rw [flatMap_cons, List.mem_append]
    unfold SaveMode.gather at h
    split at h
    · exact Or.inr (ih h hp)
    split at h
    · cases h
    rename_i ids hashes hown
    split at h
    · exact Or.inr (ih h hp)
    obtain ⟨r', hr', rfl⟩ := Option.map_eq_some_iff.mp h
    rcases List.mem_append.mp hp with hp | hp
    · obtain ⟨b, hb, rfl⟩ := List.mem_map.mp hp
      exact Or.inl (List.mem_map.mpr ⟨b, m.mem_ownPart hown hb, rfl⟩)
    · exact Or.inr (ih hr' hp)

/-- A save request names only blocks of the batch it was built from. -/
theorem SaveMode.mem_savesByLayer {m : SaveMode} {batch : List SaveTask} {saves : List LayerSave}
    (h : m.savesByLayer batch = some saves) (hp : p ∈ saves.flatMap LayerSave.blockIds) :
    p ∈ batch.flatMap SaveTask.blocks := by
  obtain ⟨r, hr, rfl⟩ := Option.map_eq_some_iff.mp h
  have hm : p ∈ r.1 := by
    split at hp
    · cases hp
    obtain ⟨l, hl, hpl⟩ := List.mem_flatMap.mp hp
    obtain ⟨layer, -, rfl⟩ := List.mem_map.mp hl
    exact hpl
  have hall := m.mem_gather hr hm
  rwa [flatMap_assoc] at hall

namespace SaveSystem

variable {β : Type} {m : SaveMode} {s s' : SaveSystem β} {ev : SaveEvent β}

/-- The blocks handed to `wait_for_save` and not yet copied or given up. -/
def outstanding (s : SaveSystem β) : List (ReqId × BlockId) :=
  (s.queue ++ s.thread.unissued).flatMap SaveTask.blocks ++ s.net.flatMap SaveRequest.blocks ++
    s.background.map fun item => (item.req, item.block)

theorem mem_outstanding {p : ReqId × BlockId} :
    p ∈ s.outstanding ↔
      (∃ t, (t ∈ s.queue ∨ t ∈ s.thread.unissued) ∧ p ∈ t.blocks) ∨
      (∃ r ∈ s.net, p ∈ r.blocks) ∨ ∃ item ∈ s.background, (item.req, item.block) = p := by
  simp only [outstanding, List.mem_append, List.mem_flatMap, List.mem_map, or_assoc]

/-- What a step can do.  The steps of the save thread that only change where it
is are one case. -/
inductive Step (m : SaveMode) : SaveSystem β → SaveEvent β → SaveSystem β → Prop where
  | write {s : SaveSystem β} {layerName : String} {block : BlockId} {bytes : β} :
      (∀ p ∈ s.held, p.2 ≠ block) →
      Step m s (.write layerName block bytes)
        { s with mem := fun l b => if l = layerName ∧ b = block then bytes else s.mem l b }
  | waitForSave {s : SaveSystem β} {task : SaveTask} : s.preempting = none →
      Step m s (.waitForSave task)
        { s with
          held := s.held ++ task.blocks
          book := s.book.track task.requestIds
          queue := s.queue ++ [task] }
  | take {s : SaveSystem β} {task : SaveTask} {rest : List SaveTask} :
      s.queue = task :: rest →
      Step m s .take
        { s with queue := rest, thread := .collecting (s.thread.unissued ++ [task]) }
  | thread {s : SaveSystem β} {ev : SaveEvent β} {thread : SaveThread} :
      thread.unissued ⊆ s.thread.unissued → Step m s ev { s with thread := thread }
  | issue {s : SaveSystem β} {batch : List SaveTask} {saves : List LayerSave} :
      s.thread = .drained batch → m.savesByLayer batch = some saves →
      Step m s .issue
        { s with
          thread := .waiting batch s.nextCall
          nextCall := s.nextCall + 1
          net := s.net ++ [⟨s.nextCall, saves, s.mem⟩] }
  | handle {s : SaveSystem β} {i : Nat} {accepted : Bool} {request : SaveRequest β}
      {spawned : List (CopyItem β)} :
      s.net[i]? = some request → spawned ⊆ request.items →
      Step m s (.handle i accepted)
        { s with
          net := s.net.eraseIdx i
          replies := s.replies ++ [request.call]
          background := s.background ++ spawned }
  | complete {s : SaveSystem β} {batch : List SaveTask} : s.thread = .finishing batch →
      Step m s .complete
        { s with
          thread := .idle
          book := s.book.complete (batch.flatMap SaveTask.requestIds) }
  | copy {s : SaveSystem β} {i : Nat} {item : CopyItem β} : s.background[i]? = some item →
      Step m s (.copy i)
        { s with
          background := s.background.eraseIdx i
          stored := s.stored ++
            [⟨item.hash, item.layerName, s.mem item.layerName item.block, item.issued⟩] }
  | giveUp {s : SaveSystem β} {i : Nat} :
      Step m s (.giveUp i) { s with background := s.background.eraseIdx i }
  | getFinished {s : SaveSystem β} {finishedReqIds : Finset ReqId} : s.preempting = none →
      Step m s (.getFinished finishedReqIds)
        ({ s with book := (s.book.getFinished finishedReqIds).1 }.release
          fun r => r ∈ (s.book.getFinished finishedReqIds).2)
  | handlePreemptions {s : SaveSystem β} {reqs : List ReqId} :
      Step m s (.handlePreemptions reqs)
        { s with preempting := some (reqs, s.book.eventsOf reqs) }
  | preemptionsReturn {s : SaveSystem β} {reqs : List ReqId} {events : List Nat} :
      s.preempting = some (reqs, events) → (∀ id ∈ events, id ∈ s.book.fired) →
      Step m s .preemptionsReturn ({ s with preempting := none }.release fun r => r ∈ reqs)

theorem step_cases (h : s.step m ev = some s') : Step m s ev s' := by
  cases ev with dsimp only [step] at h
  | write layerName block bytes =>
    obtain ⟨hf, rfl⟩ := guarded_eq_some.mp h
    exact .write hf
  | waitForSave task =>
    obtain ⟨⟨hid, -⟩, rfl⟩ := guarded_eq_some.mp h
    exact .waitForSave (Option.isNone_iff_eq_none.mp hid)
  | take =>
    split at h
    next task rest hq ht =>
      cases h
      have htk := Step.take (m := m) hq
      rwa [ht] at htk
    next task rest batch hq ht =>
      cases h
      have htk := Step.take (m := m) hq
      rwa [ht] at htk
    · cases h
  | drain =>
    split at h
    next batch hq ht =>
      cases h
      exact .thread (by rw [ht]; exact List.Subset.refl _)
    · cases h
  | issue =>
    split at h
    next batch ht =>
      split at h
      · cases h
        exact .thread (nil_subset _)
      · cases h
        exact .thread (nil_subset _)
      next saves _ hsvs =>
        cases h
        exact .issue ht hsvs
    · cases h
  | handle i accepted =>
    split at h
    next request hi =>
      cases h
      split
      · exact .handle hi (List.Subset.refl _)
      · have hn : Step m s (.handle i accepted) _ := .handle hi (nil_subset _)
        rwa [append_nil] at hn
    · cases h
  | receive =>
    split at h
    · obtain ⟨-, rfl⟩ := guarded_eq_some.mp h
      exact .thread (nil_subset _)
    · cases h
  | callFails =>
    split at h
    · cases h
      exact .thread (nil_subset _)
    · cases h
  | complete =>
    split at h
    next batch ht =>
      cases h
      exact .complete ht
    · cases h
  | copy i =>
    split at h
    next item hi =>
      cases h
      exact .copy hi
    · cases h
  | giveUp i =>
    split at h
    · cases h
      exact .giveUp
    · cases h
  | getFinished finishedReqIds =>
    obtain ⟨hid, rfl⟩ := guarded_eq_some.mp h
    exact .getFinished (Option.isNone_iff_eq_none.mp hid)
  | handlePreemptions reqs =>
    obtain ⟨-, rfl⟩ := guarded_eq_some.mp h
    exact .handlePreemptions
  | preemptionsReturn =>
    split at h
    next reqs events hp =>
      obtain ⟨hfired, rfl⟩ := guarded_eq_some.mp h
      exact .preemptionsReturn hp hfired
    · cases h

/-! ## The invariant -/

variable (s)

/-- The bytes stored are those at the issue of the RPC, and vLLM keeps every block
that is still to be copied. -/
def Safe : Prop :=
  (∀ c ∈ s.stored, c.bytes = c.issued) ∧ ∀ p ∈ s.outstanding, p ∈ s.held

/-- A request is completed only when nothing of it is left to copy, and
`get_finished` is not asked about a request that has a completed save and a newer
pending one. -/
def Settled : SaveEvent β → Prop
  | .complete => ∀ r ∈ s.thread.completing, ∀ p ∈ s.outstanding, p.1 ≠ r
  | .getFinished finishedReqIds => ∀ r ∈ s.book.completed, r ∈ s.book.pending →
      r ∉ finishedReqIds ∧ r ∉ s.book.finished
  | _ => True

instance : (ev : SaveEvent β) → Decidable (s.Settled ev)
  | .complete => inferInstanceAs (Decidable (∀ r ∈ _, ∀ p ∈ _, _))
  | .getFinished _ => inferInstanceAs (Decidable (∀ r ∈ _, _))
  | .write _ _ _ | .waitForSave _ | .take | .drain | .issue | .handle _ _ | .receive | .callFails
  | .copy _ | .giveUp _ | .handlePreemptions _ | .preemptionsReturn => isTrue trivial

variable {s}

structure Inv (s : SaveSystem β) : Prop where
  book : s.book.WF
  tracked : ∀ p ∈ s.outstanding, p.1 ∈ s.book.pending
  held : ∀ p ∈ s.outstanding, p ∈ s.held
  net_unchanged : ∀ r ∈ s.net, ∀ l ∈ r.saves, ∀ p ∈ l.blockIds,
    r.snapshot l.layerName p.2 = s.mem l.layerName p.2
  background_unchanged : ∀ item ∈ s.background, item.issued = s.mem item.layerName item.block
  stored_issued : ∀ c ∈ s.stored, c.bytes = c.issued
  /-- A blocked `handle_preemptions` waits for the event of every pending request it names. -/
  awaited : ∀ reqs events, s.preempting = some (reqs, events) →
    ∀ r ∈ reqs, ∀ id, s.book.events.lookup r = some id → id ∈ events

theorem inv_init (mem : DeviceMemory β) : (init mem).Inv where
  book := SaveBook.wf_empty
  tracked := by simp [init, outstanding, SaveThread.unissued]
  held := by simp [init, outstanding, SaveThread.unissued]
  net_unchanged := by simp [init]
  background_unchanged := by simp [init]
  stored_issued := by simp [init]
  awaited := by simp [init]

theorem mem_items {r : SaveRequest β} {item : CopyItem β} (h : item ∈ r.items) :
    ∃ l ∈ r.saves, (item.req, item.block) ∈ l.blockIds ∧ item.layerName = l.layerName ∧
      item.issued = r.snapshot l.layerName item.block := by
  obtain ⟨l, hl, hit⟩ := List.mem_flatMap.mp h
  refine ⟨l, hl, ?_⟩
  rw [← map_uncurry_zip_eq_zipWith] at hit
  obtain ⟨⟨q, hash⟩, hq, rfl⟩ := List.mem_map.mp hit
  exact ⟨(of_mem_zip hq).1, rfl, rfl⟩

section

variable (hi : s.Inv)
include hi

/-- The invariant survives a step that adds no blocks to copy and leaves the requests
pending and the blocks held. -/
theorem Inv.outstanding_mono (hsub : s'.outstanding ⊆ s.outstanding) (hb : s'.book = s.book)
    (hh : s'.held = s.held) (hp : s'.preempting = s.preempting)
    (hn : ∀ r ∈ s'.net, ∀ l ∈ r.saves, ∀ p ∈ l.blockIds,
      r.snapshot l.layerName p.2 = s'.mem l.layerName p.2)
    (hbg : ∀ item ∈ s'.background, item.issued = s'.mem item.layerName item.block)
    (hst : ∀ c ∈ s'.stored, c.bytes = c.issued) : s'.Inv := by
  refine ⟨hb ▸ hi.book, ?_, ?_, hn, hbg, hst, ?_⟩
  · rw [hb]
    exact fun p hp => hi.tracked p (hsub hp)
  · rw [hh]
    exact fun p hp => hi.held p (hsub hp)
  · rw [hb, hp]
    exact hi.awaited

theorem Inv.write {layerName : String} {block : BlockId} {bytes : β}
    (hf : ∀ p ∈ s.held, p.2 ≠ block) :
    Inv { s with mem := fun l b => if l = layerName ∧ b = block then bytes else s.mem l b } := by
  have hk : ∀ p ∈ s.outstanding, ∀ l,
      s.mem l p.2 = if l = layerName ∧ p.2 = block then bytes else s.mem l p.2 :=
    fun p hp l => (if_neg fun hl => hf p (hi.held p hp) hl.2).symm
  refine ⟨hi.book, hi.tracked, hi.held, ?_, ?_, hi.stored_issued, hi.awaited⟩
  · intro r hr l hl p hp
    have hout : p ∈ s.outstanding :=
      mem_outstanding.mpr (Or.inr (Or.inl ⟨r, hr, List.mem_flatMap.mpr ⟨l, hl, hp⟩⟩))
    exact (hi.net_unchanged r hr l hl p hp).trans (hk p hout _)
  · intro item hit
    have hout : (item.req, item.block) ∈ s.outstanding :=
      mem_outstanding.mpr (Or.inr (Or.inr ⟨item, hit, rfl⟩))
    exact (hi.background_unchanged item hit).trans (hk _ hout _)

theorem Inv.waitForSave (hid : s.preempting = none) (task : SaveTask) :
    Inv { s with
      held := s.held ++ task.blocks
      book := s.book.track task.requestIds
      queue := s.queue ++ [task] } := by
  have hcs : ∀ p ∈ outstanding { s with
      held := s.held ++ task.blocks
      book := s.book.track task.requestIds
      queue := s.queue ++ [task] }, p ∈ s.outstanding ∨ p ∈ task.blocks := by
    intro p hp
    rw [mem_outstanding] at hp ⊢
    simp only [List.mem_append, mem_singleton] at hp
    rcases hp with ⟨t, (ht | rfl) | ht, hpt⟩ | hp
    · exact Or.inl (Or.inl ⟨t, Or.inl ht, hpt⟩)
    · exact Or.inr hpt
    · exact Or.inl (Or.inl ⟨t, Or.inr ht, hpt⟩)
    · exact Or.inl (Or.inr hp)
  refine ⟨hi.book.track _, ?_, ?_, hi.net_unchanged, hi.background_unchanged, hi.stored_issued, ?_⟩
  · intro p hp
    rw [SaveBook.mem_pending_track]
    rcases hcs p hp with hp | hp
    · exact Or.inl (hi.tracked p hp)
    obtain ⟨q, hq, hpq⟩ := List.mem_flatMap.mp hp
    obtain ⟨b, -, rfl⟩ := List.mem_map.mp hpq
    exact Or.inr (List.mem_map.mpr ⟨q, hq, rfl⟩)
  · intro p hp
    rcases hcs p hp with hp | hp
    · exact mem_append_left _ (hi.held p hp)
    · exact mem_append_right _ hp
  · intro reqs events hp
    rw [hid] at hp
    cases hp

/-- Requests that are not pending can be released. -/
theorem Inv.release {released : ReqId → Bool} (hd : ∀ r, released r → r ∉ s.book.pending) :
    (s.release released).Inv := by
  refine ⟨hi.book, hi.tracked, ?_, hi.net_unchanged, hi.background_unchanged,
    hi.stored_issued, hi.awaited⟩
  intro p hp
  refine mem_filter.mpr ⟨hi.held p hp, ?_⟩
  rw [Bool.not_eq_true', Bool.eq_false_iff]
  exact fun hr => hd p.1 hr (hi.tracked p hp)

variable {batch : List SaveTask}

theorem Inv.complete (ht : s.thread = .finishing batch) (hse : s.Settled .complete) :
    Inv { s with
      thread := .idle
      book := s.book.complete (batch.flatMap SaveTask.requestIds) } := by
  have hout : outstanding { s with
      thread := .idle
      book := s.book.complete (batch.flatMap SaveTask.requestIds) } = s.outstanding := by
    simp only [outstanding, ht, SaveThread.unissued]
  refine ⟨hi.book.complete _, ?_, ?_, hi.net_unchanged, hi.background_unchanged,
    hi.stored_issued, ?_⟩
  · rw [hout]
    intro p hp
    refine SaveBook.mem_pending_complete.mpr ⟨hi.tracked p hp, ?_⟩
    intro hm
    have hcompleting : p.1 ∈ s.thread.completing := by
      rw [ht]
      exact hm
    exact hse p.1 hcompleting p hp rfl
  · rw [hout]
    exact hi.held
  · intro reqs events hp r hr id hid
    exact hi.awaited reqs events hp r hr id (SaveBook.lookup_of_lookup_complete hid)

theorem Inv.take {task : SaveTask} {rest : List SaveTask} (hq : s.queue = task :: rest) :
    Inv { s with queue := rest, thread := .collecting (s.thread.unissued ++ [task]) } := by
  refine hi.outstanding_mono ?_ rfl rfl rfl hi.4 hi.5 hi.6
  intro p hp
  rw [mem_outstanding] at hp ⊢
  simp only [SaveThread.unissued, List.mem_append, mem_singleton] at hp
  rcases hp with ⟨t, ht | ht | rfl, hpt⟩ | hp
  · exact Or.inl ⟨t, Or.inl (by simp [hq, ht]), hpt⟩
  · exact Or.inl ⟨t, Or.inr ht, hpt⟩
  · exact Or.inl ⟨t, Or.inl (by simp [hq]), hpt⟩
  · exact Or.inr hp

theorem Inv.thread {thread : SaveThread} (hunissued : thread.unissued ⊆ s.thread.unissued) :
    Inv { s with thread := thread } := by
  refine hi.outstanding_mono ?_ rfl rfl rfl hi.4 hi.5 hi.6
  intro p hp
  rw [mem_outstanding] at hp ⊢
  rcases hp with ⟨t, ht | ht, hpt⟩ | hp
  · exact Or.inl ⟨t, Or.inl ht, hpt⟩
  · exact Or.inl ⟨t, Or.inr (hunissued ht), hpt⟩
  · exact Or.inr hp

theorem Inv.issue {saves : List LayerSave} (ht : s.thread = .drained batch)
    (hsvs : m.savesByLayer batch = some saves) :
    Inv { s with
      thread := .waiting batch s.nextCall
      nextCall := s.nextCall + 1
      net := s.net ++ [⟨s.nextCall, saves, s.mem⟩] } := by
  refine hi.outstanding_mono ?_ rfl rfl rfl ?_ hi.5 hi.6
  · intro p hp
    rw [mem_outstanding] at hp ⊢
    simp only [SaveThread.unissued, List.mem_append, mem_singleton] at hp
    rcases hp with ⟨t, ht' | ht', hpt⟩ | ⟨r, hr | rfl, hpr⟩ | hp
    · exact Or.inl ⟨t, Or.inl ht', hpt⟩
    · cases ht'
    · exact Or.inr (Or.inl ⟨r, hr, hpr⟩)
    · obtain ⟨t, htb, hpt⟩ := List.mem_flatMap.mp (m.mem_savesByLayer hsvs hpr)
      exact Or.inl ⟨t, Or.inr (by rw [ht]; exact htb), hpt⟩
    · exact Or.inr (Or.inr hp)
  · intro r hr l hl p hp
    rcases List.mem_append.mp hr with hr | hr
    · exact hi.net_unchanged r hr l hl p hp
    · rw [mem_singleton.mp hr]

theorem Inv.handle {i : Nat} {request : SaveRequest β} {spawned : List (CopyItem β)}
    (hget : s.net[i]? = some request) (hspawned : spawned ⊆ request.items) :
    Inv { s with
      net := s.net.eraseIdx i
      replies := s.replies ++ [request.call]
      background := s.background ++ spawned } := by
  have hrequest := mem_of_getElem? hget
  refine hi.outstanding_mono ?_ rfl rfl rfl ?_ ?_ hi.6
  · intro p hp
    rw [mem_outstanding] at hp ⊢
    simp only [List.mem_append] at hp
    rcases hp with hp | ⟨r, hr, hpr⟩ | ⟨item, hit | hit, rfl⟩
    · exact Or.inl hp
    · exact Or.inr (Or.inl ⟨r, mem_of_mem_eraseIdx hr, hpr⟩)
    · exact Or.inr (Or.inr ⟨item, hit, rfl⟩)
    · obtain ⟨l, hl, hb, -⟩ := mem_items (hspawned hit)
      exact Or.inr (Or.inl ⟨request, hrequest, List.mem_flatMap.mpr ⟨l, hl, hb⟩⟩)
  · exact fun r hr => hi.net_unchanged r (mem_of_mem_eraseIdx hr)
  · intro item hit
    rcases List.mem_append.mp hit with hit | hit
    · exact hi.background_unchanged item hit
    obtain ⟨l, hl, hb, hlay, hissued⟩ := mem_items (hspawned hit)
    rw [hissued, hlay]
    exact hi.net_unchanged request hrequest l hl _ hb

/-- An item leaves the background task, copied or given up. -/
theorem Inv.eraseBackground (i : Nat) {stored : List (StoredBytes β)}
    (hstd : ∀ c ∈ stored, c.bytes = c.issued) :
    Inv { s with background := s.background.eraseIdx i, stored := stored } := by
  refine hi.outstanding_mono ?_ rfl rfl rfl hi.4 ?_ hstd
  · intro p hp
    rw [mem_outstanding] at hp ⊢
    rcases hp with hp | hp | ⟨item, hit, rfl⟩
    · exact Or.inl hp
    · exact Or.inr (Or.inl hp)
    · exact Or.inr (Or.inr ⟨item, mem_of_mem_eraseIdx hit, rfl⟩)
  · exact fun item hit => hi.background_unchanged item (mem_of_mem_eraseIdx hit)

theorem Inv.getFinished {finishedReqIds : Finset ReqId}
    (hse : s.Settled (.getFinished finishedReqIds)) :
    Inv ({ s with book := (s.book.getFinished finishedReqIds).1 }.release
      fun r => r ∈ (s.book.getFinished finishedReqIds).2) := by
  have hb : (s.book.getFinished finishedReqIds).1.WF :=
    ⟨hi.book.event_of_pending, hi.book.event_lt, hi.book.fired_lt, hi.book.event_inj⟩
  have hinv : Inv { s with book := (s.book.getFinished finishedReqIds).1 } :=
    ⟨hb, hi.tracked, hi.held, hi.4, hi.5, hi.6, hi.7⟩
  refine hinv.release ?_
  intro r hr hpd
  simp only [SaveBook.getFinished, Finset.mem_union, Finset.mem_inter, decide_eq_true_eq] at hr
  rcases hr with ⟨hc, hf | ⟨hf, -⟩⟩ | ⟨hc, hf⟩
  · exact (hse r hc hpd).2 hf
  · exact (hse r hc hpd).1 hf
  · exact (hse r hc hpd).1 hf

theorem Inv.preemptionsReturn {reqs : List ReqId} {events : List Nat}
    (hp : s.preempting = some (reqs, events)) (hfired : ∀ id ∈ events, id ∈ s.book.fired) :
    Inv ({ s with preempting := none }.release fun r => r ∈ reqs) := by
  have hinv : Inv { s with preempting := none } :=
    ⟨hi.book, hi.tracked, hi.held, hi.4, hi.5, hi.6, fun _ _ h => nomatch h⟩
  refine hinv.release ?_
  intro r hr hpd
  obtain ⟨id, hid, hunset⟩ := hi.book.event_of_pending r hpd
  exact hunset (hfired id (hi.awaited reqs events hp r (of_decide_eq_true hr) id hid))

theorem Inv.step (hse : s.Settled ev) (h : s.step m ev = some s') : s'.Inv := by
  cases step_cases h with
  | write hf => exact hi.write hf
  | waitForSave hidle => exact hi.waitForSave hidle _
  | take hq => exact hi.take hq
  | thread hunissued => exact hi.thread hunissued
  | issue ht hsvs => exact hi.issue ht hsvs
  | handle hget hspawned => exact hi.handle hget hspawned
  | complete ht => exact hi.complete ht hse
  | @copy i item hget =>
    refine hi.eraseBackground i ?_
    refine forall_mem_concat.mpr ⟨hi.stored_issued, ?_⟩
    exact (hi.background_unchanged item (mem_of_getElem? hget)).symm
  | @giveUp i => exact hi.eraseBackground i hi.stored_issued
  | getFinished => exact hi.getFinished hse
  | @handlePreemptions reqs =>
    refine ⟨hi.book, hi.tracked, hi.held, hi.4, hi.5, hi.6, ?_⟩
    intro reqs' events hp r hr id hid
    cases hp
    exact mem_filterMap.mpr ⟨r, hr, hid⟩
  | preemptionsReturn hp hfired => exact hi.preemptionsReturn hp hfired

end

/-! ## Every run -/

/-- In every run in which requests are completed when nothing of them is left to
copy, the bytes stored are those at the issue of the RPC, and vLLM keeps each
block until it is copied or given up. -/
theorem stored_bytes_as_issued (m : SaveMode) (mem : DeviceMemory β)
    {events : List (SaveEvent β)} {s : SaveSystem β}
    (hmeets : Run.Meets (step m) Settled (init mem) events)
    (hrun : Run.exec (step m) (init mem) events = some s) : s.Safe := by
  have hi : s.Inv := exec_invariant_of_meets (fun _ _ _ hi hsettled h => hi.step hsettled h)
    (inv_init mem) hmeets hrun
  exact ⟨hi.stored_issued, hi.held⟩

/-- One request saves one block, the server copies it before the save thread
sees the reply, and vLLM writes to the block after that. -/
theorem stored_bytes_as_issued_copied_first :
    ∃ s ∈ Run.exec (step ⟨none, false, false, ["layer_0"], 1, 0, by decide⟩)
        (init fun _ _ => 0)
        [.waitForSave ⟨[("r", ⟨[7], [[1]]⟩)]⟩, .take, .drain, .issue, .handle 0 true, .copy 0,
          .receive, .complete, .getFinished {"r"}, .write "layer_0" 7 1],
      s.stored.length = 1 ∧ s.Safe := by
  refine exists_mem_imp (Q := fun s => s.stored.length = 1) (by decide) fun s hs hstored => ?_
  exact ⟨hstored, stored_bytes_as_issued _ _ (by decide) hs⟩

/-- The server replies before it copies.  The request is completed and finished,
vLLM writes to its block, and the copy stores what vLLM wrote. -/
theorem block_reused_before_copy :
    ∃ s ∈ Run.exec (step ⟨none, false, false, ["layer_0"], 1, 0, by decide⟩)
        (init fun _ _ => 0)
        [.waitForSave ⟨[("r", ⟨[7], [[1]]⟩)]⟩, .take, .drain, .issue, .handle 0 true, .receive,
          .complete, .getFinished {"r"}, .write "layer_0" 7 1, .copy 0],
      ¬ s.Safe := by
  refine exists_mem_imp (Q := fun s => ∃ c ∈ s.stored, c.bytes ≠ c.issued) (by decide)
    fun s hs hrun => ?_
  obtain ⟨c, hc, hne⟩ := hrun
  exact fun hsafe => hne (hsafe.1 c hc)

end SaveSystem

end PegaFlow.Connector
