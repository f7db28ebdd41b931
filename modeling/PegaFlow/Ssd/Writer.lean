import PegaFlow.Lib.Run
import PegaFlow.Ssd.RingInvariant

/-!
# The SSD writer and its readers

The tasks of `SsdBackingStore` around one ring: `ssd_writer_loop`, which
prepares batches, keeps up to `write_inflight` writes running and commits them in
the order they were submitted, and the prefetch workers, which look entries up,
read them and ask afterwards whether they are still valid.

The state is an `SsdStore`, and `step` is one step of one task.  An interleaving
of the tasks is a list of events.  `FuturesOrdered` yields results in submission
order whatever order the writes finish in, so a write in flight keeps its result
until it is at the front (`complete`).  Three fields record the past and are read
by no step: `ledger.allocated`, `submitted` and `finished`.

The weak references of a write batch are upgraded before `prepareBatch` sees
them, so a batch is any list of candidates.
-/

namespace PegaFlow.Ssd

open List Run

variable {κ : Type}

/-- A write handed to the IO engine, with its result once it has one. -/
structure InflightWrite (κ : Type) where
  write : WriteInfo κ
  result : Option Bool

/-- How far a prefetch read is. -/
inductive ReadPhase where
  | queued
  | reading
  | done (success : Bool)
deriving DecidableEq

/-- A prefetch read of an entry that `get` returned. -/
structure PrefetchRead (κ : Type) where
  key : κ
  entry : SsdIndexEntry
  phase : ReadPhase

structure SsdStore (κ : Type) where
  ledger : Ledger κ
  pending : List (WriteInfo κ)
  inflight : List (InflightWrite κ)
  flushWaiters : Nat
  /-- The command channel is closed and the loop left. -/
  closed : Bool
  reads : List (PrefetchRead κ)
  /-- The entries whose reads were delivered, with their keys. -/
  delivered : List (κ × SsdIndexEntry)
  /-- Every write ever handed to the IO engine. -/
  submitted : List (WriteInfo κ)
  /-- Every write that has finished, with its outcome. -/
  finished : List (WriteInfo κ × Bool)

inductive StoreEvent (κ : Type) where
  | recvWrite (candidates : List (κ × SealedBlock))
  | recvFlush
  | fireFlush
  | close
  | submit
  | finish (i : Nat) (success : Bool)
  | complete
  | submitPrefix (keys : List κ)
  | startRead (i : Nat)
  | finishRead (i : Nat) (success : Bool)
  | validate (i : Nat)

namespace SsdStore

def ring (s : SsdStore κ) : SsdRingBuffer κ := s.ledger.ring

/-- A store with new rings and nothing to do. -/
def new (shardCapacities : List Nat) (h : shardCapacities ≠ []) : SsdStore κ :=
  ⟨Ledger.new shardCapacities h, [], [], 0, false, [], [], [], []⟩

variable (s : SsdStore κ)

/-- The writes prepared and not yet committed. -/
def outstanding : List (WriteInfo κ) :=
  s.inflight.map InflightWrite.write ++ s.pending

/-- The loop takes a new command only when nothing is pending. -/
def Receives : Prop :=
  s.closed = false ∧ s.pending.isEmpty ∧ s.flushWaiters = 0

instance : Decidable s.Receives :=
  inferInstanceAs (Decidable (_ ∧ _ ∧ _))

variable [DecidableEq κ]

/-- The requests of `submit_prefix`: the leading keys with an entry. -/
def prefixRequests (rb : SsdRingBuffer κ) : List κ → List (PrefetchRead κ)
  | [] => []
  | key :: keys =>
    match rb.get key with
    | some entry => ⟨key, entry, .queued⟩ :: prefixRequests rb keys
    | none => []

/-- One step of the writer or of a prefetch worker. -/
def step (writeInflight : Nat) (s : SsdStore κ) : StoreEvent κ → Option (SsdStore κ)
  | .recvWrite candidates =>
    if s.Receives then
      some { s with
        ledger := s.ledger.apply (.prepareBatch candidates)
        pending := (s.ring.prepareBatch candidates).2 }
    else none
  | .recvFlush => if s.Receives then some { s with flushWaiters := s.flushWaiters + 1 } else none
  | .fireFlush =>
    if 0 < s.flushWaiters ∧ s.pending.isEmpty ∧ s.inflight.isEmpty then
      some { s with flushWaiters := 0 }
    else none
  | .close => if s.Receives then some { s with closed := true } else none
  | .submit =>
    match s.pending with
    | [] => none
    | w :: rest =>
      if s.inflight.length < max writeInflight 1 then
        some { s with
          pending := rest
          inflight := s.inflight ++ [⟨w, none⟩]
          submitted := s.submitted ++ [w] }
      else none
  | .finish i success =>
    match s.inflight[i]? with
    | some ⟨w, none⟩ =>
      some { s with
        inflight := s.inflight.set i ⟨w, some success⟩
        finished := s.finished ++ [(w, success)] }
    | _ => none
  | .complete =>
    match s.inflight with
    | ⟨w, some success⟩ :: rest =>
      some { s with ledger := s.ledger.apply (.commit w.key success), inflight := rest }
    | _ => none
  | .submitPrefix keys => some { s with reads := s.reads ++ prefixRequests s.ring keys }
  | .startRead i =>
    match s.reads[i]? with
    | some ⟨key, entry, .queued⟩ =>
      some { s with reads := s.reads.set i ⟨key, entry, .reading⟩ }
    | _ => none
  | .finishRead i success =>
    match s.reads[i]? with
    | some ⟨key, entry, .reading⟩ =>
      some { s with reads := s.reads.set i ⟨key, entry, .done success⟩ }
    | _ => none
  | .validate i =>
    match s.reads[i]? with
    | some ⟨key, entry, .done success⟩ =>
      some { s with
        reads := s.reads.eraseIdx i
        delivered :=
          if success && s.ring.isOffsetValid entry then s.delivered ++ [(key, entry)]
          else s.delivered }
    | _ => none

/-- What a step can do, event by event. -/
inductive Step (n : Nat) : SsdStore κ → StoreEvent κ → SsdStore κ → Prop where
  | recvWrite {s : SsdStore κ} {candidates : List (κ × SealedBlock)} : s.Receives →
      Step n s (.recvWrite candidates)
        { s with
          ledger := s.ledger.apply (.prepareBatch candidates)
          pending := (s.ring.prepareBatch candidates).2 }
  | recvFlush {s : SsdStore κ} : Step n s .recvFlush { s with flushWaiters := s.flushWaiters + 1 }
  | fireFlush {s : SsdStore κ} : Step n s .fireFlush { s with flushWaiters := 0 }
  | close {s : SsdStore κ} : Step n s .close { s with closed := true }
  | submit {s : SsdStore κ} {w : WriteInfo κ} {rest : List (WriteInfo κ)} :
      s.pending = w :: rest → s.inflight.length < max n 1 →
      Step n s .submit
        { s with
          pending := rest
          inflight := s.inflight ++ [⟨w, none⟩]
          submitted := s.submitted ++ [w] }
  | finish {s : SsdStore κ} {i : Nat} {w : WriteInfo κ} {success : Bool} :
      s.inflight[i]? = some ⟨w, none⟩ →
      Step n s (.finish i success)
        { s with
          inflight := s.inflight.set i ⟨w, some success⟩
          finished := s.finished ++ [(w, success)] }
  | complete {s : SsdStore κ} {w : WriteInfo κ} {success : Bool} {rest : List (InflightWrite κ)} :
      s.inflight = ⟨w, some success⟩ :: rest →
      Step n s .complete
        { s with ledger := s.ledger.apply (.commit w.key success), inflight := rest }
  | submitPrefix {s : SsdStore κ} {keys : List κ} :
      Step n s (.submitPrefix keys) { s with reads := s.reads ++ prefixRequests s.ring keys }
  | readPhase {s : SsdStore κ} {ev : StoreEvent κ} {i : Nat} {r : PrefetchRead κ}
      {phase : ReadPhase} : s.reads[i]? = some r →
      Step n s ev { s with reads := s.reads.set i ⟨r.key, r.entry, phase⟩ }
  | validate {s : SsdStore κ} {i : Nat} {delivered : List (κ × SsdIndexEntry)} :
      Step n s (.validate i) { s with reads := s.reads.eraseIdx i, delivered := delivered }

variable {n : Nat} {s s' : SsdStore κ} {ev : StoreEvent κ}

theorem step_cases (h : s.step n ev = some s') : Step n s ev s' := by
  cases ev with dsimp only [step] at h
  | recvWrite candidates =>
    obtain ⟨hr, rfl⟩ := guarded_eq_some.mp h
    exact .recvWrite hr
  | recvFlush =>
    obtain ⟨-, rfl⟩ := guarded_eq_some.mp h
    exact .recvFlush
  | fireFlush =>
    obtain ⟨-, rfl⟩ := guarded_eq_some.mp h
    exact .fireFlush
  | close =>
    obtain ⟨-, rfl⟩ := guarded_eq_some.mp h
    exact .close
  | submit =>
    split at h
    · cases h
    next w rest hp =>
      obtain ⟨hlt, rfl⟩ := guarded_eq_some.mp h
      exact .submit hp hlt
  | finish i success =>
    split at h
    next w hi =>
      cases h
      exact .finish hi
    · cases h
  | complete =>
    split at h
    next w success rest hin =>
      cases h
      exact .complete hin
    · cases h
  | submitPrefix keys =>
    cases h
    exact .submitPrefix
  | startRead i | finishRead i success =>
    split at h
    next hi =>
      cases h
      exact .readPhase hi
    · cases h
  | validate i =>
    split at h
    · cases h
      exact .validate
    · cases h

/-! ## What every run keeps -/

/-- A step makes at most one call on the ring. -/
theorem step_ledger (h : s.step n ev = some s') :
    s'.ledger = s.ledger ∨ ∃ op, s'.ledger = s.ledger.apply op := by
  cases step_cases h with
  | @recvWrite candidates _ => exact Or.inr ⟨.prepareBatch candidates, rfl⟩
  | @complete w success _ _ => exact Or.inr ⟨.commit w.key success, rfl⟩
  | recvFlush | fireFlush | close | submit | finish | submitPrefix | readPhase | validate =>
    exact Or.inl rfl

variable {caps : List Nat} {hne : caps ≠ []} {events : List (StoreEvent κ)}

/-- What every call on the ring keeps, every run of the store keeps. -/
theorem ledger_invariant {P : Ledger κ → Prop} (hP : ∀ l op, P l → P (l.apply op))
    (hnew : P (.new caps hne)) (hrun : Run.exec (step n) (new caps hne) events = some s) :
    P s.ledger := by
  refine exec_invariant (I := fun s : SsdStore κ => P s.ledger) ?_ hnew hrun
  intro s ev s' hs h
  rcases step_ledger h with heq | ⟨op, heq⟩
  · rwa [heq]
  · rw [heq]
    exact hP s.ledger op hs

theorem wf_of_run (hpos : ∀ c ∈ caps, 0 < c)
    (hrun : Run.exec (step n) (new caps hne) events = some s) : s.ledger.WF :=
  ledger_invariant (fun _ op h => h.apply op) (.new hne hpos) hrun

theorem mem_prefixRequests {rb : SsdRingBuffer κ} {keys : List κ} {r : PrefetchRead κ}
    (h : r ∈ prefixRequests rb keys) : rb.get r.key = some r.entry := by
  induction keys with
  | nil => cases h
  | cons key keys ih =>
    unfold prefixRequests at h
    split at h
    next entry hget =>
      rcases mem_cons.mp h with rfl | h
      · exact hget
      · exact ih h
    · cases h

theorem allocated_subset_of_step (h : s.step n ev = some s') :
    s.ledger.allocated ⊆ s'.ledger.allocated := by
  rcases step_ledger h with heq | ⟨op, heq⟩
  · rw [heq]
    exact List.Subset.refl _
  · rw [heq]
    cases op with
    | prepareBatch candidates => exact subset_append_left _ _
    | commit key success => exact List.Subset.refl _

/-- Every entry that is indexed or being read was allocated under its key. -/
structure ReadsAllocated (s : SsdStore κ) : Prop where
  indexed : s.ledger.Indexed
  reads : ∀ r ∈ s.reads, ∃ w ∈ s.ledger.allocated, w.key = r.key ∧ w.entry = r.entry

theorem ReadsAllocated.step (hi : s.ReadsAllocated) (h : s.step n ev = some s') :
    s'.ReadsAllocated := by
  have hsub := allocated_subset_of_step h
  refine ⟨?_, ?_⟩
  · rcases step_ledger h with heq | ⟨op, heq⟩
    · rw [heq]
      exact hi.indexed
    · rw [heq]
      exact hi.indexed.apply op
  · -- A read that was there before, perhaps in another phase, or one of an indexed entry.
    have ho : ∀ r ∈ s.reads, ∃ w ∈ s'.ledger.allocated, w.key = r.key ∧ w.entry = r.entry := by
      intro r hr
      obtain ⟨w, hw, hwr⟩ := hi.reads r hr
      exact ⟨w, hsub hw, hwr⟩
    cases step_cases h with
    | recvWrite | recvFlush | fireFlush | close | submit | finish | complete => exact ho
    | submitPrefix =>
      intro r hr
      rcases mem_append.mp hr with hr | hr
      · exact ho r hr
      · obtain ⟨hlk, -⟩ := SsdRingBuffer.get_eq_some.mp (mem_prefixRequests hr)
        exact hi.indexed r.key _ hlk
    | readPhase hget =>
      intro r hr
      rcases mem_or_eq_of_mem_set hr with hr | rfl
      · exact ho r hr
      · have hrd := ho _ (mem_of_getElem? hget)
        exact hrd
    | validate => exact fun r hr => ho r (mem_of_mem_eraseIdx hr)

theorem readsAllocated_of_run (hrun : Run.exec (step n) (new caps hne) events = some s) :
    s.ReadsAllocated := by
  refine exec_invariant (fun _ _ _ hi h => hi.step h) ⟨?_, by simp [new]⟩ hrun
  intro k st h
  simp [new, Ledger.new, SsdRingBuffer.newSharded] at h

/-! ## Validated reads -/

/-- A prefetch read whose entry is still valid when it is checked was not
overwritten: no write submitted until then, of an allocation made after the
entry's, touches its bytes. -/
theorem validated_read_not_overwritten {n : Nat} {caps : List Nat} {hne : caps ≠ []}
    (hpos : ∀ c ∈ caps, 0 < c) {events : List (StoreEvent κ)} {s : SsdStore κ}
    (hrun : Run.exec (step n) (new caps hne) events = some s) {i : Nat} {r : PrefetchRead κ}
    {success : Bool} (hread : s.reads[i]? = some r) (_hdone : r.phase = .done success)
    (hvalid : s.ring.isOffsetValid r.entry = true) :
    (∃ w ∈ s.ledger.allocated, w.key = r.key ∧ w.entry = r.entry) ∧
    ∀ before w after, s.ledger.allocated = before ++ w :: after → w.entry = r.entry →
      ∀ v ∈ after, v ∈ s.submitted → v.entry.shardId = r.entry.shardId →
        r.entry.fileRange.Disjoint v.entry.fileRange := by
  refine ⟨(readsAllocated_of_run hrun).reads r (mem_of_getElem? hread), ?_⟩
  intro before w after heq hw v hv _ hshard
  have hlive := (SsdRingBuffer.isOffsetValid_iff.mp hvalid).2
  have hpair := (wf_of_run hpos hrun).disjoint_of_live
  rw [heq, pairwise_append] at hpair
  have hlater := (pairwise_cons.mp hpair.2.1).1 v hv
  rw [← hw]
  exact hlater (by rw [hw, hshard]) (by rw [hw]; exact hlive)

/-- A read of a block that a second block does not reach. -/
theorem validated_read_not_overwritten_one_read :
    ∃ s ∈ Run.exec (step 1) (new [8] (by decide) : SsdStore Nat)
        [.recvWrite [(0, .plain 4)], .submit, .finish 0 true, .complete, .submitPrefix [0],
          .startRead 0, .recvWrite [(1, .plain 4)], .submit, .finishRead 0 true],
      s.submitted.length = 2 ∧
      ∃ r, s.reads[0]? = some r ∧
        ∃ w ∈ s.ledger.allocated, w.key = r.key ∧ w.entry = r.entry := by
  refine exists_mem_imp (Q := fun s => s.submitted.length = 2 ∧
      ∃ r ∈ s.reads[0]?, r.phase = .done true ∧ s.ring.isOffsetValid r.entry = true) (by decide)
    fun s hs hrun => ?_
  obtain ⟨hlen, r, hr, hdone, hvalid⟩ := hrun
  refine ⟨hlen, r, hr, ?_⟩
  exact (validated_read_not_overwritten (by decide) hs hr hdone hvalid).1

/-! ## Two-phase commit -/

/-- The same space in the same file. -/
def SameAllocation (e f : SsdIndexEntry) : Prop :=
  e.shardId = f.shardId ∧ e.begin = f.begin ∧ e.fileOffset = f.fileOffset

instance (e f : SsdIndexEntry) : Decidable (SameAllocation e f) :=
  inferInstanceAs (Decidable (_ ∧ _ ∧ _))

variable (s)

/-- Whatever `get` returns is an allocation whose own write has succeeded. -/
def ReadableFinished : Prop :=
  ∀ k e, s.ring.get k = some e →
    ∃ w, (w, true) ∈ s.finished ∧ w.key = k ∧ SameAllocation w.entry e

/-- When the result of a successful write is committed, what the index holds for
its key is not the allocation of another write. -/
def OwnCommit : StoreEvent κ → Prop
  | .complete => ∀ w rest e, s.inflight = ⟨w, some true⟩ :: rest →
      s.ring.entries.lookup w.key = some (.writing e) → s.ring.isOffsetValid e →
      SameAllocation w.entry e
  | _ => True

/-- The candidates that `prepareBatch` finds no entry for. -/
def unindexed (candidates : List (κ × SealedBlock)) : List (κ × SealedBlock) :=
  candidates.filter fun c => (s.ring.entries.lookup c.1).isNone

/-- A batch allocates at most once for a key, and not while a write for the key
is outstanding. -/
def FreshKeys : StoreEvent κ → Prop
  | .recvWrite candidates =>
    ((s.unindexed candidates).map Prod.fst).Nodup ∧
      ∀ c ∈ s.unindexed candidates, ∀ w ∈ s.outstanding, w.key ≠ c.1
  | _ => True

instance : (ev : StoreEvent κ) → Decidable (s.FreshKeys ev)
  | .recvWrite _ => inferInstanceAs (Decidable (_ ∧ _))
  | .recvFlush | .fireFlush | .close | .submit | .finish _ _ | .complete | .submitPrefix _
  | .startRead _ | .finishRead _ _ | .validate _ => isTrue trivial

variable {s}

theorem finished_subset_of_step (h : s.step n ev = some s') : s.finished ⊆ s'.finished := by
  cases step_cases h with
  | finish => exact subset_append_left _ _
  | recvWrite | recvFlush | fireFlush | close | submit | complete | submitPrefix | readPhase
  | validate => exact List.Subset.refl _

/-- A kept result is that of a finished write. -/
def Recorded (s : SsdStore κ) : Prop :=
  ∀ iw ∈ s.inflight, ∀ ok, iw.result = some ok → (iw.write, ok) ∈ s.finished

theorem Recorded.step (hi : s.Recorded) (h : s.step n ev = some s') : s'.Recorded := by
  have hsub := finished_subset_of_step h
  cases step_cases h with
  | recvWrite | recvFlush | fireFlush | close | submitPrefix | readPhase | validate => exact hi
  | submit =>
    refine forall_mem_concat.mpr ⟨hi, ?_⟩
    intro ok hok
    cases hok
  | finish hget =>
    intro iw hiw ok hok
    rcases mem_or_eq_of_mem_set hiw with hiw | rfl
    · exact hsub (hi iw hiw ok hok)
    · cases hok
      exact mem_append_right _ mem_cons_self
  | complete hin => exact fun iw hiw => hi iw (by simp [hin, hiw])

/-- A kept result is that of a finished write, and a committed entry that of a
write that succeeded. -/
structure CommittedFinished (s : SsdStore κ) : Prop where
  recorded : ∀ iw ∈ s.inflight, ∀ ok, iw.result = some ok → (iw.write, ok) ∈ s.finished
  committed : ∀ k e, s.ring.entries.lookup k = some (.committed e) →
    ∃ w, (w, true) ∈ s.finished ∧ w.key = k ∧ SameAllocation w.entry e

theorem CommittedFinished.step (hi : s.CommittedFinished) (hown : s.OwnCommit ev)
    (h : s.step n ev = some s') : s'.CommittedFinished := by
  have hsub := finished_subset_of_step h
  have ho : ∀ k e, s.ring.entries.lookup k = some (.committed e) →
      ∃ w, (w, true) ∈ s'.finished ∧ w.key = k ∧ SameAllocation w.entry e := by
    intro k e hk
    obtain ⟨w, hw, hwe⟩ := hi.committed k e hk
    exact ⟨w, hsub hw, hwe⟩
  refine ⟨Recorded.step hi.recorded h, ?_⟩
  cases step_cases h with
  | recvFlush | fireFlush | close | submit | finish | submitPrefix | readPhase | validate =>
    exact ho
  | recvWrite =>
    intro k e hk
    exact ho k e (SsdRingBuffer.committed_of_prepareBatch hk)
  | @complete w success rest hin =>
    intro k e hk
    rcases SsdRingBuffer.lookup_of_lookup_commit hk with hk | ⟨rfl, rfl, e', he, hwg, hval⟩
    · exact ho k e hk
    -- The write that completes makes the entry readable, so it must be its own.
    cases he
    exact ⟨w, hi.recorded ⟨w, some true⟩ (by simp [hin]) true rfl, rfl,
      hown w rest e hin hwg hval⟩

theorem CommittedFinished.readableFinished (h : s.CommittedFinished) : s.ReadableFinished :=
  fun k e hget => h.committed k e (SsdRingBuffer.get_eq_some.mp hget).1

/-- The outstanding writes are for different keys, and the index holds none of
their keys for another allocation. -/
structure OutstandingOwn (s : SsdStore κ) : Prop where
  nodup : (s.outstanding.map WriteInfo.key).Nodup
  own : ∀ w ∈ s.outstanding, ∀ st, s.ring.entries.lookup w.key = some st → st = .writing w.entry

omit [DecidableEq κ] in
theorem map_write_set {inflight : List (InflightWrite κ)} {i : Nat} {w : WriteInfo κ}
    {old new : Option Bool} (h : inflight[i]? = some ⟨w, old⟩) :
    (inflight.set i ⟨w, new⟩).map InflightWrite.write = inflight.map InflightWrite.write := by
  obtain ⟨hlt, hi⟩ := List.getElem?_eq_some_iff.mp h
  rw [map_set]
  refine ext_getElem (by simp) ?_
  intro j h₁ h₂
  rw [getElem_set]
  split
  next hij =>
    subst hij
    simp [hi]
  · rfl

section

variable (hi : s.OutstandingOwn)
include hi

theorem OutstandingOwn.congr (hled : s'.ledger = s.ledger)
    (hout : s'.outstanding = s.outstanding) : s'.OutstandingOwn := by
  refine ⟨hout ▸ hi.nodup, ?_⟩
  rw [hout, ring, hled]
  exact hi.own

theorem OutstandingOwn.recvWrite {candidates : List (κ × SealedBlock)} (hr : s.Receives)
    (hfr : s.FreshKeys (.recvWrite candidates)) :
    OutstandingOwn { s with
      ledger := s.ledger.apply (.prepareBatch candidates)
      pending := (s.ring.prepareBatch candidates).2 } := by
  obtain ⟨hnd, hks⟩ := hfr
  have hout : s.outstanding = s.inflight.map InflightWrite.write := by
    rw [outstanding, isEmpty_iff.mp hr.2.1, append_nil]
  have hsub := s.ring.prepareLoop_keys_sublist (s.unindexed candidates)
  refine ⟨?_, ?_⟩
  · simp only [outstanding, map_append]
    rw [← map_append, map_append, nodup_append]
    refine ⟨hout ▸ hi.nodup, hsub.nodup hnd, ?_⟩
    intro k hk k' hk' heq
    subst heq
    obtain ⟨w, hw, rfl⟩ := mem_map.mp hk
    obtain ⟨c, hc, hck⟩ := mem_map.mp (hsub.subset hk')
    exact hks c hc w (hout ▸ hw) hck.symm
  · intro w hw st hst
    rcases mem_append.mp hw with hw | hw
    · refine hi.own w (hout ▸ hw) st (SsdRingBuffer.lookup_of_lookup_prepareLoop ?_ hst)
      intro hm
      obtain ⟨c, hc, hck⟩ := mem_map.mp hm
      exact hks c hc w (hout ▸ hw) hck.symm
    · exact SsdRingBuffer.prepareLoop_own hnd hw hst

theorem OutstandingOwn.step (hfr : s.FreshKeys ev) (h : s.step n ev = some s') :
    s'.OutstandingOwn := by
  cases step_cases h with
  | recvWrite hr => exact hi.recvWrite hr hfr
  | recvFlush | fireFlush | close | submitPrefix | readPhase | validate => exact ⟨hi.1, hi.2⟩
  | submit hp hlt => exact hi.congr rfl (by simp [outstanding, hp])
  | finish hget => exact hi.congr rfl (by simp only [outstanding, map_write_set hget])
  | @complete w success rest hin =>
    have hout : s.outstanding = w :: (rest.map InflightWrite.write ++ s.pending) := by
      simp [outstanding, hin]
    have hnd := hi.nodup
    rw [hout, map_cons, nodup_cons] at hnd
    refine ⟨hnd.2, ?_⟩
    intro v hv st hst
    rcases SsdRingBuffer.lookup_of_lookup_commit hst with ho | ⟨hk, -⟩
    · exact hi.own v (hout ▸ mem_cons_of_mem _ hv) st ho
    · exact (hnd.1 (mem_map.mpr ⟨v, hv, hk⟩)).elim

theorem OutstandingOwn.ownCommit (ev : StoreEvent κ) : s.OwnCommit ev := by
  cases ev with
  | complete =>
    intro w rest e hin hlk _
    have hm : w ∈ s.outstanding := by simp [outstanding, hin]
    cases hi.own w hm _ hlk
    exact ⟨rfl, rfl, rfl⟩
  | recvWrite | recvFlush | fireFlush | close | submit | finish | submitPrefix | startRead
  | finishRead | validate => trivial

end

/-- In every run in which a completed write finds no other allocation under its
key, whatever `get` returns was written.  Batches that allocate for a key only
while no write for it is outstanding, and once, give such runs. -/
theorem readable_finished_of_ownCommit (n : Nat) (caps : List Nat) (hne : caps ≠ []) :
    (∀ events (s : SsdStore κ), Run.Meets (step n) OwnCommit (new caps hne) events →
      Run.exec (step n) (new caps hne) events = some s → s.ReadableFinished) ∧
    (∀ events : List (StoreEvent κ), Run.Meets (step n) FreshKeys (new caps hne) events →
      Run.Meets (step n) OwnCommit (new caps hne) events) := by
  refine ⟨?_, ?_⟩
  · intro events s hmeets hrun
    refine (exec_invariant_of_meets (I := CommittedFinished)
      (fun _ _ _ hi hown h => hi.step hown h) ⟨by simp [new], ?_⟩ hmeets hrun).readableFinished
    intro k e hk
    simp [new, ring, Ledger.new, SsdRingBuffer.newSharded] at hk
  · intro events hmeets
    exact meets_of_invariant (I := OutstandingOwn)
      (fun _ _ _ hi hfresh h => hi.step hfresh h) (fun _ ev hi _ => hi.ownCommit ev)
      ⟨by simp [new, outstanding], by simp [new, outstanding]⟩ hmeets

/-- A batch names a key twice.  Both blocks are allocated, and the completion of
the first write makes the second allocation readable while its write runs. -/
theorem duplicate_key_readable_unwritten :
    ∃ s ∈ Run.exec (step 2) (new [1024] (by decide) : SsdStore BlockKey)
        [.recvWrite [(⟨"model", [1]⟩, .plain 512), (⟨"model", [1]⟩, .plain 512)],
          .submit, .submit, .finish 0 true, .complete],
      ¬ s.ReadableFinished := by
  refine exists_mem_imp (Q := fun s => ∃ e ∈ s.ring.get ⟨"model", [1]⟩, ∀ p ∈ s.finished, ¬ SameAllocation p.1.entry e) (by decide)
    fun s hs hrun => ?_
  obtain ⟨e, he, hnone⟩ := hrun
  refine ?_
  intro h
  obtain ⟨w, hw, -, hwe⟩ := h _ e he
  exact hnone _ hw hwe

/-- Two batches for different keys, the second while the first is being written. -/
theorem readable_finished_of_ownCommit_two_batches :
    ∃ s ∈ Run.exec (step 2) (new [1024] (by decide) : SsdStore BlockKey)
        [.recvWrite [(⟨"model", [1]⟩, .plain 512)], .submit,
          .recvWrite [(⟨"model", [2]⟩, .plain 512)], .finish 0 true, .complete],
      (s.ring.get ⟨"model", [1]⟩).isSome ∧ s.ReadableFinished := by
  refine exists_mem_imp (Q := fun s => (s.ring.get ⟨"model", [1]⟩).isSome) (by decide)
    fun s hs hget => ?_
  have hsound := readable_finished_of_ownCommit (κ := BlockKey) 2 [1024] (by decide)
  exact ⟨hget, hsound.1 _ s (hsound.2 _ (by decide)) hs⟩

end SsdStore

end PegaFlow.Ssd
