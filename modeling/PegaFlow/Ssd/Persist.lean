import PegaFlow.Ssd.Overlap
import PegaFlow.Ssd.Pruning

/-!
# Writes that reach the SSD

When does a block that was handed to the writer end up committed?  Its write can fail, its space
can be taken by the same batch or by the next one before the write is committed, a block that is
larger than the shard is dropped, and a key that is named twice confuses the index.  If none of
this happens (`Lasting`), every candidate of a batch has been committed or has a write on its way
that nothing can displace (`Reached`), by the invariant `Persisting`.

`committedBy` is the key that a step makes readable; the keys committed so far are a history that
no step reads.
-/

namespace PegaFlow.Ssd

open List AList

variable {κ : Type} [DecidableEq κ]

/-! ## Entries that stay -/

namespace SsdRingBuffer

variable {rb : SsdRingBuffer κ} {candidates : List (κ × SealedBlock)}

/-- The entry is in the index, or the tail of its shard has passed it. -/
def Remains (rb : SsdRingBuffer κ) (k : κ) (st : SsdEntryState) : Prop :=
  rb.entries.lookup k = some st ∨ st.entry.begin < (rb.shardAt st.entry.shardId).tail

theorem prepareOne_isSome (key : κ) {block : SealedBlock}
    (hf : block.memoryFootprint ≤ (rb.shardAt rb.nextShard).capacity) :
    ∃ rb' w, rb.prepareOne key block = some (rb', w) := by
  have hlt := rb.next_lt
  have hat := rb.getElem_shards hlt
  unfold prepareOne allocateContiguous
  simp only [hat, if_neg (Nat.not_lt_of_le hf)]
  exact ⟨_, _, rfl⟩

/-- Blocks that fit into every shard are all allocated. -/
theorem prepareLoop_keys (hf : ∀ c ∈ candidates, ∀ i < rb.shards.length,
      c.2.memoryFootprint ≤ (rb.shardAt i).capacity) :
    (rb.prepareLoop candidates).2.map WriteInfo.key = candidates.map Prod.fst := by
  induction candidates generalizing rb with
  | nil => rfl
  | cons c rest ih =>
    obtain ⟨key, block⟩ := c
    rw [forall_mem_cons] at hf
    obtain ⟨rb₁, w, hone⟩ := prepareOne_isSome key (hf.1 _ rb.next_lt)
    obtain ⟨hk, -, ha⟩ := prepareOne_allocates hone
    simp only [prepareLoop, hone, map_cons, hk]
    refine congrArg (key :: ·) (ih ?_)
    intro c hc i hi
    rw [ha.capacity_eq]
    exact hf.2 c hc i (ha.length_eq ▸ hi)

end SsdRingBuffer

theorem Tidy.remains_allocate {rb rb' : SsdRingBuffer κ} {w : WriteInfo κ} {popped rest : List κ}
    (h : Tidy rb) (ha : Allocates rb w rb') (hq : Enqueues rb w rb' popped rest)
    (hfr : ∀ i, w.key ∉ (rb.shardAt i).order) {k : κ} {st : SsdEntryState}
    (hr : rb.Remains k st) : rb'.Remains k st := by
  rcases hr with hst | hps
  · by_cases hpop : k ∈ popped
    · have hsh := h.shard_eq (i := w.entry.shardId) hst (by simp [hq.before, hpop])
      exact Or.inr (hsh ▸ hq.passed k hpop st hst)
    · rw [SsdRingBuffer.Remains, hq.lookup_eq k (ne_of_fresh hfr (h.queued k st hst)), if_neg hpop]
      exact Or.inl hst
  · exact Or.inr (hps.trans_le (ha.tail_le _))

/-- A batch of different keys on a ring without ghosts leaves every entry, the old ones and its
own, until the tail has passed it. -/
theorem Ledger.Full.prepareBatch_remains {rb : SsdRingBuffer κ} (h : Full rb)
    {candidates : List (κ × SealedBlock)} (hnd : (candidates.map Prod.fst).Nodup) :
    (∀ k st, rb.entries.lookup k = some st → (rb.prepareBatch candidates).1.Remains k st) ∧
      ∀ w ∈ (rb.prepareBatch candidates).2,
        (rb.prepareBatch candidates).1.Remains w.key (.writing w.entry) := by
  have hk : ((candidates.filter fun c => (rb.entries.lookup c.1).isNone).map Prod.fst).Nodup :=
    (filter_sublist.map Prod.fst).nodup hnd
  refine (SsdRingBuffer.prepareLoop_induct_fresh
    (P := fun rb' ws => Tidy rb' ∧ (∀ k st, rb.entries.lookup k = some st → rb'.Remains k st) ∧
      ∀ w ∈ ws, rb'.Remains w.key (.writing w.entry)) ?_ []
    ⟨h.toTidy, fun _ _ hst => Or.inl hst, by simp⟩ hk
    fun c hc => h.not_queued (mem_filter.mp hc).2).2
  rintro rb₁ w rb₂ popped rest ws ⟨htidy, ho, hnew⟩ ha hq hfr
  refine ⟨htidy.allocate ha hq hfr, ?_, ?_⟩
  · intro k st hst
    exact htidy.remains_allocate ha hq hfr (ho k st hst)
  · refine Run.forall_mem_concat.mpr ⟨fun v hv => htidy.remains_allocate ha hq hfr (hnew v hv), ?_⟩
    exact Or.inl ha.lookup_key

namespace SsdStore

variable {n : Nat} {s s' : SsdStore κ} {ev : StoreEvent κ} {caps : List Nat} {committed : List κ}

variable (s)

/-- The key that a step makes readable. -/
def committedBy : StoreEvent κ → List κ
  | .complete =>
    match s.inflight with
    | ⟨w, some success⟩ :: _ =>
      if ((s.ring.commit w.key success).1.get w.key).isSome then [w.key] else []
    | _ => []
  | _ => []

/-- No write fails, no batch names a key twice, and every batch leaves the outstanding writes
their space. -/
def Lasting : StoreEvent κ → Prop
  | .recvWrite candidates => s.BatchFits (.recvWrite candidates) ∧ (candidates.map Prod.fst).Nodup
  | .finish _ success => success
  | _ => True

instance (ev : StoreEvent κ) : Decidable (s.Lasting ev) := by
  cases ev with
  | recvWrite candidates => exact inferInstanceAs (Decidable (_ ∧ _))
  | finish i success => exact inferInstanceAs (Decidable (success))
  | _ => exact isTrue trivial

variable {s}

/-- The key was committed, or a write of it is on its way. -/
def Reached (committed : List κ) (s : SsdStore κ) (k : κ) : Prop :=
  k ∈ committed ∨ ∃ w ∈ s.outstanding, w.key = k

/-- Outstanding writes have their entries, of different keys, and everything indexed was
committed or is outstanding. -/
structure Persisting (caps : List Nat) (committed : List κ) (s : SsdStore κ) : Prop extends
    OutstandingFits caps s where
  full : Ledger.Full s.ring
  writing : ∀ w ∈ s.outstanding, s.ring.entries.lookup w.key = some (.writing w.entry)
  nodup : (s.outstanding.map WriteInfo.key).Nodup
  succeeded : ∀ a ∈ s.inflight, a.result ≠ some false
  indexed : ∀ k st, s.ring.entries.lookup k = some st → Reached committed s k

theorem persisting_new (hne : caps ≠ []) (hpos : ∀ c ∈ caps, 0 < c) :
    (new caps hne : SsdStore κ).Persisting caps [] where
  toOutstandingFits := outstandingFits_new hne hpos
  full := Ledger.full_new caps hne
  writing := nofun
  nodup := List.nodup_nil
  succeeded := nofun
  indexed k st h := by simp [new, ring, Ledger.new, SsdRingBuffer.newSharded] at h

variable (hi : s.Persisting caps committed)
include hi

/-- Candidates of a batch are committed already or have a write now. -/
theorem Persisting.recvWrite {candidates : List (κ × SealedBlock)}
    (hlast : s.Lasting (.recvWrite candidates)) (h : s.step n (.recvWrite candidates) = some s') :
    s'.Persisting caps committed ∧ (∀ k, Reached committed s k → Reached committed s' k) ∧
      ∀ c ∈ candidates, Reached committed s' c.1 := by
  obtain ⟨hf, hnd⟩ := hlast
  have hf' := hi.toOutstandingFits.step hf h
  obtain ⟨hr, heq⟩ := Run.guarded_eq_some.mp h
  have hring : s'.ring = (s.ring.prepareBatch candidates).1 := by
    rw [← heq]
    rfl
  have hout : s'.outstanding = s.outstanding ++ (s.ring.prepareBatch candidates).2 := by
    rw [← heq, outstanding, outstanding, isEmpty_iff.mp hr.2.1, append_nil]
  have hrd : ∀ k, Reached committed s k → Reached committed s' k := by
    rintro k (hk | ⟨w, hw, hwk⟩)
    · exact Or.inl hk
    · exact Or.inr ⟨w, hout ▸ mem_append_left _ hw, hwk⟩
  obtain ⟨ho, hnew⟩ := hi.full.prepareBatch_remains hnd
  have hks := s.ring.prepareLoop_keys_sublist (s.unindexed candidates)
  refine ⟨⟨hf', ?_, ?_, ?_, ?_, ?_⟩, hrd, ?_⟩
  · rw [hring]
    have hclean : Ledger.Clean (.prepareBatch candidates) := hnd
    exact hi.full.apply hclean
  · -- Whatever is outstanding has not been passed, so its entry was not dropped.
    intro w hw
    have hval := hf'.isOffsetValid hw
    rw [hring] at hval ⊢
    rw [hout, mem_append] at hw
    have hl := (SsdRingBuffer.isOffsetValid_iff.mp hval).2
    refine Or.resolve_right ?_ (Nat.not_lt_of_le hl)
    rcases hw with hw | hw
    · exact ho w.key (.writing w.entry) (hi.writing w hw)
    · exact hnew w hw
  · rw [hout, map_append, nodup_append]
    refine ⟨hi.nodup, hks.nodup ((filter_sublist.map Prod.fst).nodup hnd), ?_⟩
    rintro k hk k' hk' rfl
    obtain ⟨w, hw, rfl⟩ := mem_map.mp hk
    obtain ⟨c, hc, hck⟩ := mem_map.mp (hks.subset hk')
    have hn := (mem_filter.mp hc).2
    rw [hck, hi.writing w hw] at hn
    cases hn
  · rw [← heq]
    exact hi.succeeded
  · intro k st hst
    rw [hring] at hst
    rcases Ledger.lookup_prepareBatch_cases hst with hst | ⟨w, hw, hwk⟩
    · exact hrd k (hi.indexed k st hst)
    · exact Or.inr ⟨w, hout ▸ mem_append_right _ hw, hwk⟩
  · intro c hc
    cases hlk : s.ring.entries.lookup c.1 with
    | some st => exact hrd c.1 (hi.indexed c.1 st hlk)
    | none =>
      have hm : c ∈ s.unindexed candidates := mem_filter.mpr ⟨hc, by simp [hlk]⟩
      have hall : (s.ring.prepareLoop (s.unindexed candidates)).2.map WriteInfo.key =
          (s.unindexed candidates).map Prod.fst := by
        refine SsdRingBuffer.prepareLoop_keys ?_
        intro c hc i hlt
        have hcap := hf _ (mem_of_getElem? (SsdRingBuffer.shardAt_of_lt hlt))
        have hone := single_le_sum (by simp) _ (mem_map_of_mem (f := fun c =>
          c.2.memoryFootprint) hc)
        omega
      obtain ⟨w, hw, hwk⟩ := mem_map.mp (hall ▸ mem_map_of_mem hm)
      exact Or.inr ⟨w, hout ▸ mem_append_right _ hw, hwk⟩

/-- A write that is committed was successful, and its entry is readable then. -/
theorem Persisting.complete (h : s.step n .complete = some s') :
    s'.Persisting caps (committed ++ s.committedBy .complete) ∧
      ∀ k, Reached committed s k → Reached (committed ++ s.committedBy .complete) s' k := by
  have hbt : s.BatchFits .complete := trivial
  have hf' := hi.toOutstandingFits.step hbt h
  simp only [step] at h
  split at h
  next w success rest hin =>
    cases h
    have hout : s.outstanding = w :: (rest.map InflightWrite.write ++ s.pending) := by
      simp [outstanding, hin]
    have hw : w ∈ s.outstanding := by simp [hout]
    have hsuccess : success := by
      have hne := hi.succeeded ⟨w, some success⟩ (by simp [hin])
      cases success with
      | true => rfl
      | false => exact (hne rfl).elim
    subst hsuccess
    have hval := hi.toOutstandingFits.isOffsetValid hw
    have hcommit : s.ring.commit w.key true =
        ({ s.ring with entries := s.ring.entries.insert w.key (.committed w.entry) }, true) := by
      unfold SsdRingBuffer.commit
      rw [hi.writing w hw]
      simp [hval]
    have hget : (s.ring.commit w.key true).1.get w.key = some w.entry := by
      rw [hcommit]
      exact SsdRingBuffer.get_eq_some.mpr ⟨lookup_insert _, hval⟩
    have hby : s.committedBy .complete = [w.key] := by
      simp [committedBy, hin, hget]
    have hnd := hi.nodup
    rw [hout, map_cons, nodup_cons] at hnd
    have hrd : ∀ k, Reached committed s k → Reached (committed ++ [w.key])
        { s with ledger := s.ledger.apply (.commit w.key true), inflight := rest } k := by
      rintro k (hk | ⟨v, hv, hvk⟩)
      · exact Or.inl (mem_append_left _ hk)
      · rw [hout, mem_cons] at hv
        rcases hv with rfl | hv
        · exact Or.inl (by simp [hvk])
        · exact Or.inr ⟨v, hv, hvk⟩
    rw [hby]
    refine ⟨⟨hf', ?_, ?_, hnd.2, ?_, ?_⟩, hrd⟩
    · have hclean : Ledger.Clean (.commit w.key true) := rfl
      exact hi.full.apply hclean
    · intro v hv
      have hne : v.key ≠ w.key := fun heq => hnd.1 (heq ▸ mem_map_of_mem hv)
      have ho := hi.writing v (by rw [hout]; exact mem_cons_of_mem _ hv)
      change (s.ring.commit w.key true).1.entries.lookup v.key = _
      rw [hcommit]
      exact (lookup_insert_ne hne).trans ho
    · exact fun a ha => hi.succeeded a (by simp [hin, ha])
    · intro k st hst
      change (s.ring.commit w.key true).1.entries.lookup k = _ at hst
      rw [hcommit] at hst
      rcases Table.lookup_of_insert hst with ⟨rfl, -⟩ | ⟨-, ho⟩
      · exact Or.inl (by simp)
      · exact hrd k (hi.indexed k st ho)
  · cases h

/-- A step that leaves the ring and what is outstanding as they are. -/
theorem Persisting.congr (hf : s'.OutstandingFits caps) (hled : s'.ledger = s.ledger)
    (hout : s'.outstanding = s.outstanding) (hsucceeded : ∀ a ∈ s'.inflight, a.result ≠ some false) :
    s'.Persisting caps committed := by
  have hring : s'.ring = s.ring := congrArg Ledger.ring hled
  refine ⟨hf, ?_, ?_, ?_, hsucceeded, ?_⟩
  · rw [hring]
    exact hi.full
  · rw [hring, hout]
    exact hi.writing
  · rw [hout]
    exact hi.nodup
  · unfold Reached
    rw [hring, hout]
    exact hi.indexed


theorem Persisting.step (hl : s.Lasting ev) (h : s.step n ev = some s') :
    s'.Persisting caps (committed ++ s.committedBy ev) ∧
      ∀ k, Reached committed s k → Reached (committed ++ s.committedBy ev) s' k := by
  have hsm : s.BatchFits ev → s.committedBy ev = [] → s'.ledger = s.ledger →
      s'.outstanding = s.outstanding → (∀ a ∈ s'.inflight, a.result ≠ some false) →
      s'.Persisting caps (committed ++ s.committedBy ev) ∧
        ∀ k, Reached committed s k → Reached (committed ++ s.committedBy ev) s' k := by
    intro hfits hby hled hout hsucceeded
    rw [hby, append_nil]
    refine ⟨hi.congr (hi.toOutstandingFits.step hfits h) hled hout hsucceeded, ?_⟩
    intro k hk
    rwa [Reached, hout]
  cases ev with
  | recvWrite candidates =>
    obtain ⟨hpers, hrd, -⟩ := hi.recvWrite hl h
    have hby : s.committedBy (.recvWrite candidates) = [] := rfl
    rw [hby, append_nil]
    exact ⟨hpers, hrd⟩
  | complete => exact hi.complete h
  | submit =>
    cases step_cases h with
    | submit hp _ =>
      refine hsm trivial rfl rfl (by simp [outstanding, hp]) ?_
      refine Run.forall_mem_concat.mpr ⟨hi.succeeded, ?_⟩
      intro hf
      cases hf
    | readPhase => exact hsm trivial rfl rfl rfl hi.succeeded
  | finish i success =>
    cases step_cases h with
    | finish hget =>
      cases hl
      refine hsm trivial rfl rfl (by simp only [outstanding, map_write_set hget]) ?_
      intro a ha
      rcases mem_or_eq_of_mem_set ha with ha | rfl
      · exact hi.succeeded a ha
      · intro hf
        cases hf
    | readPhase => exact hsm trivial rfl rfl rfl hi.succeeded
  | recvFlush | fireFlush | close | submitPrefix | startRead | finishRead | validate =>
    cases step_cases h <;> exact hsm trivial rfl rfl rfl hi.succeeded

end SsdStore

end PegaFlow.Ssd
