import PegaFlow.Connector.Scheduler

/-!
# What a save intent names

Two questions about the save intents of a request, over everything vLLM can do
with it.

*Are the blocks computed?*  A step may save as many blocks as the counters say
were scheduled since the cache lookup.  The counters are not reset by a resume, and
the last intent of a request covers its whole block list, computed or not.  So the
answer is yes while the counted tokens are not ahead of the computed ones
(`Covered`).

*Are ids and hashes paired?*  Both slices are cut by the same indices, but the list
of block ids can end before the slice does.  They have the same length exactly when
it does not (`Paired`); the indices are consecutive in any case.
-/

namespace PegaFlow.Connector

open List Option Run

namespace Tracked

variable {t : Tracked} {n : Nat}

/-- The intent that saves the blocks up to `n`. -/
def cut (t : Tracked) (n : Nat) : SaveIntent :=
  ⟨(t.allocatedBlocks.drop t.nextStoredBlockIdx).take (n - t.nextStoredBlockIdx),
    (t.blockHashes.drop t.nextStoredBlockIdx).take (n - t.nextStoredBlockIdx)⟩

theorem length_cut_hashes (h : n ≤ t.blockHashes.length) :
    (t.cut n).blockHashes.length = n - t.nextStoredBlockIdx := by
  simp only [cut, length_take, length_drop]
  omega

theorem length_cut_ids :
    (t.cut n).blockIds.length = min n t.allocatedBlocks.length - t.nextStoredBlockIdx := by
  simp only [cut, length_take, length_drop]
  omega

theorem saveable_le (ctx : SchedulerContext) (t : Tracked) :
    t.saveable ctx ≤ t.blockHashes.length :=
  Nat.min_le_left _ _

theorem finalSaveable_le (t : Tracked) : t.finalSaveable ≤ t.blockHashes.length :=
  Nat.min_le_left _ _

end Tracked

namespace SchedulerRequest

variable {ctx : SchedulerContext} {s s' : SchedulerRequest} {ev : SchedulerEvent}

/-! ## What a step can do -/

/-- Save the blocks of `t` up to `n` in the state `s`. -/
def save (s : SchedulerRequest) (t : Tracked) (n : Nat) : SchedulerRequest :=
  s.emit t (t.consumeUpTo n)

variable {t : Tracked} {n : Nat}

theorem save_of_le (h : n ≤ t.nextStoredBlockIdx) : s.save t n = { s with tracked := some t } := by
  rw [save, Tracked.consumeUpTo, if_pos h]
  rfl

theorem save_of_lt (h : t.nextStoredBlockIdx < n) :
    s.save t n =
      { s with
        tracked := some { t with nextStoredBlockIdx := n }
        pendingSave := true
        intents := s.intents ++
          [⟨t.nextStoredBlockIdx, t.cut n, t.allocatedBlocks, t.blockHashes, s.present,
            s.residency⟩] } := by
  rw [save, Tracked.consumeUpTo, if_neg (Nat.not_le.mpr h)]
  rfl

variable (s)

/-- Saving moves the first unsaved block and may log an intent. -/
theorem save_eq (t : Tracked) (n : Nat) : ∃ next pending intents, s.save t n = { s with
        tracked := some { t with nextStoredBlockIdx := next }
        pendingSave := pending
        intents := intents } := by
  rcases Nat.lt_or_ge t.nextStoredBlockIdx n with h | h
  · exact ⟨_, _, _, save_of_lt h⟩
  · exact ⟨_, _, _, save_of_le h⟩

@[simp] theorem close_intents : s.close.intents = s.intents := by
  unfold close
  split <;> rfl

/-- The state in which a step saves. -/
def arrive (resumed : Bool) (numComputed numScheduled : Nat) : SchedulerRequest :=
  { s with
    residency := if resumed then s.residency + 1 else s.residency
    present := numComputed + numScheduled
    steps := s.steps + 1 }

variable {s}

/-- What a callback can do. -/
inductive Step (ctx : SchedulerContext) (s : SchedulerRequest) :
    SchedulerEvent → SchedulerRequest → Prop where
  | lookup {matchedBlocks : Nat} :
      Step ctx s (.lookup matchedBlocks)
        { s with externalMatchedBlocks :=
            if ctx.readEnabled then some matchedBlocks else s.externalMatchedBlocks }
  | refresh {t : Tracked} {blockHashes : List BlockHash} : s.tracked = some t →
      Step ctx s (.updateStateAfterAlloc blockHashes)
        { s with tracked := some { t with blockHashes := blockHashes } }
  | start {blockHashes : List BlockHash} : s.finished = false → s.tracked = none →
      Step ctx s (.updateStateAfterAlloc blockHashes)
        { s with tracked := some (.start blockHashes (s.externalMatchedBlocks.getD 0)) }
  | newRequest {t : Tracked} {blockIds : Option (List BlockId)} {nc ns : Nat} :
      s.tracked = some t →
      Step ctx s (.newRequest blockIds nc ns)
        ((s.arrive false nc ns).save ((newTracked t blockIds).countTokens ctx nc ns)
          (((newTracked t blockIds).countTokens ctx nc ns).saveable ctx))
  | cachedRequest {t : Tracked} {blockHashes : List BlockHash}
      {newBlockIds : Option (List BlockId)} {resumed : Bool} {nc ns : Nat} :
      s.tracked = some t →
      Step ctx s (.cachedRequest blockHashes newBlockIds resumed nc ns)
        ((s.arrive resumed nc ns).save
          ((cachedTracked t blockHashes newBlockIds resumed).countTokens ctx nc ns)
          (((cachedTracked t blockHashes newBlockIds resumed).countTokens ctx nc ns).saveable ctx))
  | unknown {blockHashes : List BlockHash} {newBlockIds : Option (List BlockId)} {resumed : Bool}
      {nc ns : Nat} : s.finished = false → s.tracked = none →
      Step ctx s (.cachedRequest blockHashes newBlockIds resumed nc ns) (s.arrive resumed nc ns)
  | preempt : Step ctx s .preempt { s with present := 0 }
  | finishQuiet : s.tracked = none ∨ s.pendingSave →
      Step ctx s .requestFinished s.close
  | finishEmpty {t : Tracked} : s.tracked = some t → s.pendingSave = false →
      t.allocatedBlocks = [] → Step ctx s .requestFinished { s with tracked := some t }.close
  | finishSave {t : Tracked} : s.tracked = some t → s.pendingSave = false →
      t.allocatedBlocks ≠ [] →
      Step ctx s .requestFinished (s.save t t.finalSaveable).close
  | saveFinished {tracked : Option Tracked} {externalMatchedBlocks : Option Nat} {held : Bool} :
      (tracked = s.tracked ∧ held = s.held ∧ externalMatchedBlocks = s.externalMatchedBlocks ∨
        s.held ∧ tracked = none ∧ held = false ∧ externalMatchedBlocks = none) →
      Step ctx s .saveFinished
        { s with
          pendingSave := false
          tracked := tracked
          held := held
          externalMatchedBlocks := externalMatchedBlocks }

theorem step_cases (h : s.step ctx ev = some s') : Step ctx s ev s' := by
  cases ev with simp only [step] at h
  | lookup matchedBlocks =>
    split at h
    · cases h
    split at h
    next hr =>
      cases h
      have hst : Step ctx s (.lookup matchedBlocks) _ := .lookup
      rwa [if_pos hr] at hst
    next hr =>
      cases h
      have hst : Step ctx s (.lookup matchedBlocks) _ := .lookup
      rwa [if_neg hr] at hst
  | updateStateAfterAlloc blockHashes =>
    split at h
    · cases h
    rename_i hfin
    split at h
    next t ht =>
      cases h
      exact .refresh ht
    next ht =>
      cases h
      exact .start (Bool.not_eq_true _ ▸ hfin) ht
  | newRequest blockIds nc ns =>
    split at h
    · cases h
    split at h
    next t ht =>
      cases h
      exact .newRequest ht
    · cases h
  | cachedRequest blockHashes newBlockIds resumed nc ns =>
    split at h
    · cases h
    rename_i hfin
    split at h
    next t ht =>
      cases h
      exact .cachedRequest ht
    next ht =>
      cases h
      exact .unknown (Bool.not_eq_true _ ▸ hfin) ht
  | preempt =>
    split at h
    · cases h
    · cases h
      exact .preempt
  | requestFinished =>
    split at h
    · cases h
    split at h
    next t ht =>
      cases h
      split
      next hpd =>
        exact .finishQuiet (Or.inr hpd)
      next hpd =>
        have hp : s.pendingSave = false := Bool.not_eq_true _ ▸ hpd
        unfold Tracked.consumeFinalSaveIntent
        split
        next hemp =>
          exact .finishEmpty ht hp hemp
        next hne =>
          exact .finishSave ht hp hne
    next ht =>
      cases h
      exact .finishQuiet (Or.inl ht)
  | saveFinished =>
    split at h
    next hh =>
      cases h
      exact .saveFinished (Or.inr ⟨hh, rfl, rfl, rfl⟩)
    · cases h
      exact .saveFinished (Or.inl ⟨rfl, rfl, rfl⟩)

end SchedulerRequest

/-! ## Computed blocks -/

/-- Every block of the intent holds only tokens that are present. -/
def IssuedIntent.Computed (v : Nat) (it : IssuedIntent) : Prop :=
  ∀ i, it.startBlockIdx ≤ i → i < it.startBlockIdx + it.intent.blockHashes.length →
    (i + 1) * v ≤ it.present

variable (ctx : SchedulerContext) (t : Tracked)

/-- The tokens counted for a request, in front of a step, are not ahead of those
computed. -/
def Tracked.CountedBy (numComputed numScheduled : Nat) : Prop :=
  if ctx.readEnabled then
    t.baseBlockIdx * ctx.virtualBlockSize + t.scheduledTokens ≤ numComputed
  else t.baseBlockIdx = 0 ∧ t.scheduledTokens ≤ numComputed + numScheduled

instance (nc ns : Nat) : Decidable (t.CountedBy ctx nc ns) :=
  inferInstanceAs (Decidable (ite _ _ _))

variable {nc ns : Nat}

variable {ctx : SchedulerContext} {t : Tracked}

theorem Tracked.CountedBy.saveable_mul_le (h : t.CountedBy ctx nc ns) :
    ((t.countTokens ctx nc ns).saveable ctx) * ctx.virtualBlockSize ≤ nc + ns := by
  have hdiv := Nat.div_mul_le_self (t.countTokens ctx nc ns).scheduledTokens ctx.virtualBlockSize
  calc ((t.countTokens ctx nc ns).saveable ctx) * ctx.virtualBlockSize
      ≤ (t.baseBlockIdx + (t.countTokens ctx nc ns).scheduledTokens / ctx.virtualBlockSize) *
          ctx.virtualBlockSize :=
        Nat.mul_le_mul_right _
          ((Nat.min_le_right _ _).trans (Nat.add_le_add_left (Nat.min_le_right _ _) _))
    _ ≤ t.baseBlockIdx * ctx.virtualBlockSize + (t.countTokens ctx nc ns).scheduledTokens := by
        rw [Nat.add_mul]
        omega
    _ ≤ nc + ns := by
        unfold CountedBy at h
        unfold Tracked.countTokens
        split at h
        next hr =>
          simp only [hr, if_true]
          omega
        next hr =>
          simp only [hr, h.1]
          simp only [Nat.zero_mul, Nat.zero_add, Bool.false_eq_true, if_false]
          omega

theorem Tracked.CountedBy.countTokens
    (h : t.CountedBy ctx nc ns) : (t.countTokens ctx nc ns).CountedBy ctx (nc + ns) 0 := by
  unfold CountedBy at h ⊢
  unfold Tracked.countTokens
  split
  next hr =>
    rw [if_pos hr] at h
    dsimp only
    omega
  next hr =>
    rw [if_neg hr] at h
    exact ⟨h.1, Nat.max_le.mpr ⟨h.2, Nat.le_refl _⟩⟩

namespace SchedulerRequest

variable {ctx : SchedulerContext} {s s' : SchedulerRequest} {ev : SchedulerEvent}

variable (ctx) (s)

def ComputedOnly : Prop :=
  ∀ it ∈ s.intents, it.Computed ctx.virtualBlockSize

/-- A step finds the counted tokens computed, or all hashed blocks computed by its
end.  A request finishes with a save pending, with nothing left to save, or with
everything computed that its last intent can name. -/
def Covered : SchedulerEvent → Prop
  | .newRequest _ nc ns => ∀ t ∈ s.tracked,
      t.CountedBy ctx nc ns ∨ t.blockHashes.length * ctx.virtualBlockSize ≤ nc + ns
  | .cachedRequest blockHashes _ _ nc ns => ∀ t ∈ s.tracked,
      t.CountedBy ctx nc ns ∨ blockHashes.length * ctx.virtualBlockSize ≤ nc + ns
  | .requestFinished => s.pendingSave ∨ ∀ t ∈ s.tracked,
      t.allocatedBlocks = [] ∨
      t.blockHashes.length ≤ t.nextStoredBlockIdx ∨
      t.baseBlockIdx + t.allocatedBlocks.length ≤ t.nextStoredBlockIdx ∨
      t.blockHashes.length * ctx.virtualBlockSize ≤ s.present ∨
      (t.baseBlockIdx + t.allocatedBlocks.length) * ctx.virtualBlockSize ≤ s.present
  | _ => True

variable {ctx} {s}

theorem ComputedOnly.save (h : s.ComputedOnly ctx) {t : Tracked} {n : Nat}
    (hn : n ≤ t.blockHashes.length)
    (hps : n ≤ t.nextStoredBlockIdx ∨ n * ctx.virtualBlockSize ≤ s.present) :
    (s.save t n).ComputedOnly ctx := by
  rcases Nat.lt_or_ge t.nextStoredBlockIdx n with hlt | hge
  · rw [save_of_lt hlt]
    refine forall_mem_concat.mpr ⟨h, ?_⟩
    intro i hlo hhi
    dsimp only at hlo hhi ⊢
    rw [t.length_cut_hashes hn] at hhi
    have hmul : n * ctx.virtualBlockSize ≤ s.present := by omega
    exact (Nat.mul_le_mul_right _ (by omega)).trans hmul
  · rw [save_of_le hge]
    exact h

theorem ComputedOnly.close (h : s.ComputedOnly ctx) : s.close.ComputedOnly ctx := by
  unfold ComputedOnly
  rwa [close_intents]

theorem ComputedOnly.schedule (h : s.ComputedOnly ctx) {t : Tracked} {resumed : Bool}
    (hcov : t.CountedBy ctx nc ns ∨ t.blockHashes.length * ctx.virtualBlockSize ≤ nc + ns) :
    ((s.arrive resumed nc ns).save (t.countTokens ctx nc ns)
      ((t.countTokens ctx nc ns).saveable ctx)).ComputedOnly ctx := by
  refine ComputedOnly.save (s := s.arrive resumed nc ns) h (Tracked.saveable_le _ _) (Or.inr ?_)
  rcases hcov with hct | hh
  · exact hct.saveable_mul_le
  · exact (Nat.mul_le_mul_right _ (Tracked.saveable_le _ _)).trans hh

theorem ComputedOnly.step (h : s.ComputedOnly ctx) (hcov : s.Covered ctx ev)
    (hst : s.step ctx ev = some s') : s'.ComputedOnly ctx := by
  cases step_cases hst with
  | lookup | refresh | start | unknown | preempt | saveFinished => exact h
  | newRequest ht | cachedRequest ht =>
    have hct := hcov _ ht
    exact h.schedule hct
  | finishQuiet => exact h.close
  | finishEmpty => exact ComputedOnly.close h
  | @finishSave t ht hpd hne =>
    refine (h.save t.finalSaveable_le ?_).close
    rcases hcov with hp | hcov
    · rw [hpd] at hp
      cases hp
    · have hmin₁ : t.finalSaveable ≤ t.blockHashes.length := Nat.min_le_left _ _
      have hmin₂ : t.finalSaveable ≤ t.baseBlockIdx + t.allocatedBlocks.length :=
        Nat.min_le_right _ _
      rcases hcov t ht with hemp | hle | hle | hle | hle
      · exact (hne hemp).elim
      · exact Or.inl (hmin₁.trans hle)
      · exact Or.inl (hmin₂.trans hle)
      · exact Or.inr ((Nat.mul_le_mul_right _ hmin₁).trans hle)
      · exact Or.inr ((Nat.mul_le_mul_right _ hmin₂).trans hle)

/-! ## Requests that are not preempted -/

/-- What vLLM does with a request it does not preempt: the first step starts at or
after the blocks the lookup covered, each later one where the last ended. -/
def Orderly (ctx : SchedulerContext) (s : SchedulerRequest) : SchedulerEvent → Prop
  | .newRequest _ nc _ => s.steps = 0 ∧
      ∀ t ∈ s.tracked, t.baseBlockIdx * ctx.virtualBlockSize ≤ nc
  | .cachedRequest _ _ resumed nc _ => 0 < s.steps ∧ resumed = false ∧ nc = s.present
  | .preempt => False
  | .requestFinished => s.Covered ctx .requestFinished
  | .lookup _ | .updateStateAfterAlloc _ | .saveFinished => True

/-- The counters of a request that was never preempted. -/
structure Counted (ctx : SchedulerContext) (s : SchedulerRequest) : Prop where
  held_finished : s.held → s.finished
  not_started : s.finished = false → s.tracked = none → s.steps = 0
  matched : ctx.readEnabled = false → s.externalMatchedBlocks = none
  base : ∀ t ∈ s.tracked, ctx.readEnabled = false → t.baseBlockIdx = 0
  unscheduled : ∀ t ∈ s.tracked, s.steps = 0 → t.scheduledTokens = 0
  counted : ∀ t ∈ s.tracked, 0 < s.steps → t.CountedBy ctx s.present 0

variable {resumed : Bool}

section

variable (h : s.Counted ctx)
include h

theorem Counted.schedule {t : Tracked} {n : Nat}
    (hbase : ctx.readEnabled = false → t.baseBlockIdx = 0) (hct : t.CountedBy ctx nc ns) :
    ((s.arrive resumed nc ns).save (t.countTokens ctx nc ns) n).Counted ctx := by
  obtain ⟨next, pending, intents, hs⟩ := save_eq (s.arrive resumed nc ns)
    (t.countTokens ctx nc ns) n
  rw [hs]
  refine ⟨h.held_finished, fun _ => nofun, h.matched, ?_, ?_, ?_⟩
  · rintro _ ⟨⟩ hr
    exact hbase hr
  · rintro _ - hz
    exact (Nat.succ_ne_zero _ hz).elim
  · rintro _ ⟨⟩ -
    exact hct.countTokens

theorem Counted.close : s.close.Counted ctx := by
  unfold SchedulerRequest.close
  split
  · exact ⟨fun _ => rfl, nofun, h.matched, h.base, h.unscheduled, h.counted⟩
  · exact ⟨fun _ => rfl, nofun, fun _ => rfl, nofun, nofun, nofun⟩

/-- Under the invariant a step of an unpreempted request finds its counted tokens
computed. -/
theorem Counted.countedBy_new {t : Tracked} (ht : s.tracked = some t)
    {blockIds : Option (List BlockId)} (hord : s.Orderly ctx (.newRequest blockIds nc ns)) :
    t.CountedBy ctx nc ns := by
  obtain ⟨hsteps, hfst⟩ := hord
  have hz := h.unscheduled t ht hsteps
  unfold Tracked.CountedBy
  split
  · rw [hz]
    exact hfst t ht
  next hr =>
    exact ⟨h.base t ht (Bool.not_eq_true _ ▸ hr), by rw [hz]; exact Nat.zero_le _⟩

theorem Counted.countedBy_cached {t : Tracked} (ht : s.tracked = some t)
    {blockHashes : List BlockHash} {newBlockIds : Option (List BlockId)}
    (hord : s.Orderly ctx (.cachedRequest blockHashes newBlockIds resumed nc ns)) :
    t.CountedBy ctx nc ns := by
  obtain ⟨hsteps, -, rfl⟩ := hord
  have hct := h.counted t ht hsteps
  unfold Tracked.CountedBy at hct ⊢
  split
  next hr =>
    rwa [if_pos hr] at hct
  next hr =>
    rw [if_neg hr] at hct
    exact ⟨hct.1, hct.2.trans (Nat.add_le_add_left (Nat.zero_le _) _)⟩

theorem Counted.step (hord : s.Orderly ctx ev) (hst : s.step ctx ev = some s') :
    s'.Counted ctx := by
  cases step_cases hst with
  | lookup =>
    refine ⟨h.held_finished, h.not_started, ?_, h.base, h.unscheduled, h.counted⟩
    intro hr
    simp only [hr, Bool.false_eq_true, if_false]
    exact h.matched hr
  | @refresh t _ ht =>
    refine ⟨h.held_finished, fun _ => nofun, h.matched, ?_, ?_, ?_⟩
    · rintro _ ⟨⟩
      exact h.base t ht
    · rintro _ ⟨⟩
      exact h.unscheduled t ht
    · rintro _ ⟨⟩
      exact h.counted t ht
  | start hfin hn =>
    have hsteps := h.not_started hfin hn
    refine ⟨h.held_finished, fun _ => nofun, h.matched, ?_, ?_, ?_⟩
    · rintro _ ⟨⟩ hr
      simp only [Tracked.start, h.matched hr, getD_none]
    · rintro _ ⟨⟩ -
      rfl
    · rintro _ - hpos
      exact (Nat.ne_of_gt hpos hsteps).elim
  | @newRequest t blockIds nc ns ht =>
    have hct := h.countedBy_new ht hord
    exact h.schedule (t := newTracked t blockIds) (h.base t ht) hct
  | @cachedRequest t blockHashes newBlockIds resumed nc ns ht =>
    have hct := h.countedBy_cached ht hord
    exact h.schedule (t := cachedTracked t blockHashes newBlockIds resumed) (h.base t ht) hct
  | unknown hfin hn => exact (Nat.ne_of_gt hord.1 (h.not_started hfin hn)).elim
  | preempt => exact hord.elim
  | finishQuiet => exact h.close
  | finishEmpty ht =>
    rw [← ht]
    exact h.close
  | @finishSave t ht _ _ =>
    refine Counted.close ?_
    obtain ⟨next, pending, intents, hs⟩ := save_eq s t t.finalSaveable
    rw [hs]
    refine ⟨h.held_finished, fun _ => nofun, h.matched, ?_, ?_, ?_⟩
    · rintro _ ⟨⟩
      exact h.base t ht
    · rintro _ ⟨⟩
      exact h.unscheduled t ht
    · rintro _ ⟨⟩
      exact h.counted t ht
  | saveFinished hcase =>
    rcases hcase with ⟨rfl, rfl, rfl⟩ | ⟨hh, rfl, rfl, rfl⟩
    · exact ⟨h.1, h.2, h.3, h.4, h.5, h.6⟩
    have hfin := h.held_finished hh
    exact ⟨nofun, fun hf => (Bool.false_ne_true (hf.symm.trans hfin)).elim, fun _ => rfl,
      nofun, nofun, nofun⟩

theorem Counted.covered (hord : s.Orderly ctx ev) : s.Covered ctx ev := by
  cases ev with
  | newRequest blockIds nc ns => exact fun t ht => Or.inl (h.countedBy_new ht hord)
  | cachedRequest blockHashes newBlockIds resumed nc ns =>
    exact fun t ht => Or.inl (h.countedBy_cached ht hord)
  | requestFinished => exact hord
  | lookup | updateStateAfterAlloc | preempt | saveFinished => trivial

end

theorem counted_init (ctx : SchedulerContext) : init.Counted ctx :=
  ⟨nofun, fun _ _ => rfl, fun _ => rfl, nofun, nofun, nofun⟩

/-- In every run of covered steps a save intent names only computed blocks, in both
modes and for every block size.  A run without preemptions is covered up to the
finish. -/
theorem intents_computed_of_covered (ctx : SchedulerContext) :
    (∀ events s, Run.Meets (step ctx) (Covered ctx) init events →
      Run.exec (step ctx) init events = some s → s.ComputedOnly ctx) ∧
    (∀ events, Run.Meets (step ctx) (Orderly ctx) init events →
      Run.Meets (step ctx) (Covered ctx) init events) := by
  refine ⟨?_, ?_⟩
  · intro events s hmeets hrun
    exact exec_invariant_of_meets (fun _ _ _ h hcov hstep => h.step hcov hstep)
      (by simp [ComputedOnly, init]) hmeets hrun
  · intro events hmeets
    exact meets_of_invariant (fun _ _ _ h hord hstep => h.step hord hstep)
      (fun _ _ h hord => h.covered hord) (counted_init ctx) hmeets

instance (ctx : SchedulerContext) (s : SchedulerRequest) :
    (ev : SchedulerEvent) → Decidable (s.Orderly ctx ev)
  | .newRequest _ _ _ => inferInstanceAs (Decidable (_ ∧ ∀ t ∈ s.tracked, _))
  | .cachedRequest _ _ _ _ _ => inferInstanceAs (Decidable (_ ∧ _ ∧ _))
  | .preempt => isFalse id
  | .requestFinished => inferInstanceAs (Decidable (_ ∨ ∀ t ∈ s.tracked, _))
  | .lookup _ | .updateStateAfterAlloc _ | .saveFinished => isTrue trivial

/-- A request with two blocks from the cache computes the rest in two steps. -/
theorem intents_computed_of_covered_two_chunks :
    ∃ s ∈ Run.exec (step ⟨true, 16⟩) init
        [.lookup 2, .updateStateAfterAlloc [[0], [1], [2], [3]],
          .newRequest (some [10, 11, 12]) 32 16,
          .cachedRequest [[0], [1], [2], [3]] (some [13]) false 48 16, .requestFinished],
      s.intents.length = 2 ∧ s.ComputedOnly ⟨true, 16⟩ := by
  refine exists_mem_imp (Q := fun s => s.intents.length = 2) (by decide) fun s hs hlen => ?_
  have hsound := intents_computed_of_covered ⟨true, 16⟩
  exact ⟨hlen, hsound.1 _ s (hsound.2 _ (by decide)) hs⟩

/-- A request is aborted after the first 10 tokens of its prompt.  Its last intent
saves the first block, which holds 16. -/
theorem aborted_prefill_saves_uncomputed :
    ∃ s ∈ Run.exec (step ⟨true, 16⟩) init
        [.lookup 0, .updateStateAfterAlloc [[0], [1], [2]], .newRequest (some [10]) 0 10,
          .requestFinished],
      ¬ s.ComputedOnly ⟨true, 16⟩ := by
  refine exists_mem_imp (Q := fun s => ∃ it ∈ s.intents, it.startBlockIdx = 0 ∧ 0 < it.intent.blockHashes.length ∧
      it.present = 10) (by decide)
    fun s hs hrun => ?_
  obtain ⟨it, hit, hstart, hlen, hpresent⟩ := hrun
  refine fun h => ?_
  have hfirst := h it hit 0 (by rw [hstart]) (by rw [hstart]; omega)
  rw [hpresent] at hfirst
  exact absurd hfirst (by decide)

end SchedulerRequest

/-! ## Paired ids and hashes -/

variable (t : Tracked) (q : Nat)

/-- The `q` blocks from the base on, or the hashes, end inside the block list or
before the first unsaved block. -/
def Tracked.ListFits : Prop :=
  t.baseBlockIdx = 0 ∨
  t.blockHashes.length ≤ max t.allocatedBlocks.length t.nextStoredBlockIdx ∨
  t.baseBlockIdx + q ≤ max t.allocatedBlocks.length t.nextStoredBlockIdx ∨
  t.baseBlockIdx + t.allocatedBlocks.length ≤ t.nextStoredBlockIdx

instance : Decidable (t.ListFits q) :=
  inferInstanceAs (Decidable (_ ∨ _ ∨ _ ∨ _))

theorem Tracked.listFits_iff : t.ListFits q ↔
      min t.blockHashes.length (t.baseBlockIdx + min t.allocatedBlocks.length q) ≤
        max t.allocatedBlocks.length t.nextStoredBlockIdx := by
  unfold Tracked.ListFits
  omega

namespace IssuedIntent

variable (it : IssuedIntent)

def Paired : Prop :=
  it.intent.blockIds.length = it.intent.blockHashes.length

/-- The `p`-th id and the `p`-th hash are those of block `startBlockIdx + p`. -/
def Cut : Prop :=
  ∀ p, (∀ b, it.intent.blockIds[p]? = some b →
      it.allocatedBlocks[it.startBlockIdx + p]? = some b) ∧
    ∀ h, it.intent.blockHashes[p]? = some h → it.blockHashes[it.startBlockIdx + p]? = some h

/-- The blocks an intent saves. -/
def indices : List Nat :=
  List.range' it.startBlockIdx it.intent.blockHashes.length

end IssuedIntent

theorem getElem?_of_take_drop {α : Type} {l : List α} {start n p : Nat} {a : α}
    (h : ((l.drop start).take n)[p]? = some a) : l[start + p]? = some a := by
  rw [getElem?_take] at h
  split at h
  · rwa [getElem?_drop] at h
  · cases h

namespace SchedulerRequest

variable {ctx : SchedulerContext} {s s' : SchedulerRequest} {ev : SchedulerEvent}

def AllPaired (s : SchedulerRequest) : Prop := ∀ it ∈ s.intents, it.Paired

def AllCut (s : SchedulerRequest) : Prop := ∀ it ∈ s.intents, it.Cut

/-- The block list of a step, or of a finishing request without a pending save, is
long enough for what is saved. -/
def ListsFit (ctx : SchedulerContext) (s : SchedulerRequest) : SchedulerEvent → Prop
  | .newRequest blockIds nc ns => ∀ t ∈ s.tracked,
      ((newTracked t blockIds).countTokens ctx nc ns).ListFits
        (((newTracked t blockIds).countTokens ctx nc ns).scheduledTokens / ctx.virtualBlockSize)
  | .cachedRequest blockHashes newBlockIds resumed nc ns => ∀ t ∈ s.tracked,
      ((cachedTracked t blockHashes newBlockIds resumed).countTokens ctx nc ns).ListFits
        (((cachedTracked t blockHashes newBlockIds resumed).countTokens ctx nc ns).scheduledTokens /
          ctx.virtualBlockSize)
  | .requestFinished => s.pendingSave ∨ ∀ t ∈ s.tracked,
      t.allocatedBlocks = [] ∨ t.ListFits t.allocatedBlocks.length
  | _ => True

variable {t : Tracked} {n : Nat}

theorem allPaired_save (hn : n ≤ t.blockHashes.length) :
    (s.save t n).AllPaired ↔
      s.AllPaired ∧ n ≤ max t.allocatedBlocks.length t.nextStoredBlockIdx := by
  rcases Nat.lt_or_ge t.nextStoredBlockIdx n with hlt | hge
  · have hpaired : (⟨t.nextStoredBlockIdx, t.cut n, t.allocatedBlocks, t.blockHashes, s.present,
        s.residency⟩ : IssuedIntent).Paired ↔
        n ≤ max t.allocatedBlocks.length t.nextStoredBlockIdx := by
      simp only [IssuedIntent.Paired, t.length_cut_ids, t.length_cut_hashes hn]
      omega
    rw [save_of_lt hlt]
    simp only [AllPaired, forall_mem_append, forall_mem_singleton, hpaired]
  · rw [save_of_le hge]
    exact (and_iff_left (hge.trans (Nat.le_max_right _ _))).symm

theorem allPaired_step (h : s.step ctx ev = some s') :
    s'.AllPaired ↔ s.AllPaired ∧ s.ListsFit ctx ev := by
  cases step_cases h with
  | lookup | refresh | start | preempt | saveFinished => exact (and_iff_left trivial).symm
  | unknown _ hn =>
    refine (and_iff_left ?_).symm
    intro t ht
    rw [hn] at ht
    cases ht
  | newRequest ht | cachedRequest ht =>
    rw [allPaired_save (Tracked.saveable_le _ _)]
    refine and_congr Iff.rfl ?_
    simp only [ListsFit, ht, mem_some_iff, forall_eq', Tracked.listFits_iff]
    rfl
  | finishQuiet hqt =>
    have hfit : s.ListsFit ctx .requestFinished := by
      rcases hqt with hn | hpd
      · refine Or.inr fun t ht => ?_
        rw [hn] at ht
        cases ht
      · exact Or.inl hpd
    simp only [AllPaired, close_intents, hfit, and_true]
  | finishEmpty ht hp hemp =>
    have hfit : s.ListsFit ctx .requestFinished := by
      refine Or.inr fun t' ht' => ?_
      cases ht.symm.trans ht'
      exact Or.inl hemp
    simp only [AllPaired, close_intents, hfit, and_true]
  | @finishSave t ht hp hne =>
    have hfit : s.ListsFit ctx .requestFinished ↔ t.ListFits t.allocatedBlocks.length := by
      simp only [ListsFit, hp, Bool.false_eq_true, false_or, ht, mem_some_iff, forall_eq', hne]
    have hclose : (s.save t t.finalSaveable).close.AllPaired ↔
        (s.save t t.finalSaveable).AllPaired := by
      simp only [AllPaired, close_intents]
    rw [hclose, allPaired_save t.finalSaveable_le, hfit, Tracked.listFits_iff, Nat.min_self]
    rfl

theorem AllCut.save (h : s.AllCut) (t : Tracked) (n : Nat) : (s.save t n).AllCut := by
  rcases Nat.lt_or_ge t.nextStoredBlockIdx n with hlt | hge
  · rw [save_of_lt hlt]
    refine forall_mem_concat.mpr ⟨h, ?_⟩
    exact fun p => ⟨fun _ hb => getElem?_of_take_drop hb, fun _ hh => getElem?_of_take_drop hh⟩
  · rw [save_of_le hge]
    exact h

theorem AllCut.step (h : s.AllCut) (hst : s.step ctx ev = some s') : s'.AllCut := by
  cases step_cases hst with
  | lookup | refresh | start | unknown | preempt | saveFinished => exact h
  | @newRequest _ _ nc ns _ => exact AllCut.save (s := s.arrive false nc ns) h _ _
  | @cachedRequest _ _ _ resumed nc ns _ => exact AllCut.save (s := s.arrive resumed nc ns) h _ _
  | finishQuiet | finishEmpty =>
    unfold AllCut
    rwa [close_intents]
  | @finishSave t _ _ _ =>
    have hs := h.save t t.finalSaveable
    unfold AllCut
    rw [close_intents]
    exact hs

/-! ## Consecutive indices -/

/-- The blocks saved in one residency, in the order they were saved. -/
def residencyIndices (s : SchedulerRequest) (residency : Nat) : List Nat :=
  (s.intents.filter fun it => it.residency = residency).flatMap IssuedIntent.indices

/-- What was saved in a residency is a range, and in the current one it ends at the
first unsaved block. -/
structure Contiguous (s : SchedulerRequest) : Prop where
  held_finished : s.held → s.finished
  not_started : s.finished = false → s.tracked = none → s.intents = []
  residency_le : ∀ it ∈ s.intents, it.residency ≤ s.residency
  range : ∀ residency, ∃ a n, s.residencyIndices residency = List.range' a n ∧
    (residency = s.residency → n = 0 ∨ ∀ t ∈ s.tracked, a + n = t.nextStoredBlockIdx)

theorem contiguous_init : init.Contiguous :=
  ⟨nofun, fun _ _ => rfl, nofun, fun _ => ⟨0, 0, rfl, fun _ => Or.inl rfl⟩⟩

theorem residencyIndices_save (hlt : t.nextStoredBlockIdx < n) (hn : n ≤ t.blockHashes.length)
    (residency : Nat) :
    (s.save t n).residencyIndices residency = s.residencyIndices residency ++
      if s.residency = residency then
        range' t.nextStoredBlockIdx (n - t.nextStoredBlockIdx) else [] := by
  rw [save_of_lt hlt, ← t.length_cut_hashes hn]
  simp only [residencyIndices, filter_append, flatMap_append, filter_singleton]
  split <;> simp_all [IssuedIntent.indices]

theorem Contiguous.save (h : s.Contiguous) {t₀ : Tracked} (ht₀ : s.tracked = some t₀)
    (hnx : t.nextStoredBlockIdx = t₀.nextStoredBlockIdx) (hn : n ≤ t.blockHashes.length) :
    (s.save t n).Contiguous := by
  rcases Nat.lt_or_ge t.nextStoredBlockIdx n with hlt | hge
  · have hs := residencyIndices_save (s := s) hlt hn
    rw [save_of_lt hlt] at hs ⊢
    refine ⟨h.held_finished, fun _ => nofun, ?_, ?_⟩
    · exact forall_mem_concat.mpr ⟨h.residency_le, Nat.le_refl _⟩
    · intro residency
      obtain ⟨a, k, hrg, hend⟩ := h.range residency
      rw [hs, hrg]
      by_cases hres : s.residency = residency
      · -- The new intent starts where the range of this residency ends.
        rw [if_pos hres]
        rcases hend hres.symm with rfl | hend
        · refine ⟨t.nextStoredBlockIdx, n - t.nextStoredBlockIdx, rfl, fun _ => Or.inr ?_⟩
          rintro _ ⟨⟩
          dsimp only
          omega
        · have hak := hend t₀ ht₀
          refine ⟨a, k + (n - t.nextStoredBlockIdx), ?_, fun _ => Or.inr ?_⟩
          · rw [hnx, ← hak, range'_append_1]
          · rintro _ ⟨⟩
            dsimp only
            omega
      · rw [if_neg hres, append_nil]
        exact ⟨a, k, rfl, fun heq => (hres heq.symm).elim⟩
  · rw [save_of_le hge]
    refine ⟨h.held_finished, fun _ => nofun, h.residency_le, ?_⟩
    intro residency
    obtain ⟨a, k, hrg, hend⟩ := h.range residency
    refine ⟨a, k, hrg, fun hres => ?_⟩
    rcases hend hres with hz | hend
    · exact Or.inl hz
    refine Or.inr ?_
    rintro _ ⟨⟩
    rw [hnx]
    exact hend t₀ ht₀

theorem Contiguous.arrive (h : s.Contiguous) (resumed : Bool) (nc ns : Nat) :
    (s.arrive resumed nc ns).Contiguous := by
  cases resumed with
  | false => exact ⟨h.held_finished, h.not_started, h.residency_le, h.range⟩
  | true =>
    refine ⟨h.held_finished, h.not_started, ?_, ?_⟩
    · exact fun it hit => Nat.le_succ_of_le (h.residency_le it hit)
    · intro residency
      obtain ⟨a, n, hrg, -⟩ := h.range residency
      by_cases hres : residency = s.residency + 1
      · refine ⟨0, 0, ?_, fun _ => Or.inl rfl⟩
        have hn : (s.intents.filter fun it => it.residency = residency) = [] := by
          rw [filter_eq_nil_iff]
          intro it hit
          have hle := h.residency_le it hit
          simp only [decide_eq_true_eq]
          omega
        change (s.intents.filter fun it => it.residency = residency).flatMap
          IssuedIntent.indices = _
        rw [hn]
        rfl
      · exact ⟨a, n, hrg, fun heq => (hres heq).elim⟩

theorem Contiguous.close (h : s.Contiguous) : s.close.Contiguous := by
  unfold SchedulerRequest.close
  split
  · exact ⟨fun _ => rfl, nofun, h.residency_le, h.range⟩
  refine ⟨fun _ => rfl, nofun, h.residency_le, ?_⟩
  intro residency
  obtain ⟨a, n, hrg, -⟩ := h.range residency
  exact ⟨a, n, hrg, fun _ => Or.inr nofun⟩

theorem Contiguous.step (h : s.Contiguous) (hst : s.step ctx ev = some s') : s'.Contiguous := by
  cases step_cases hst with
  | lookup | preempt => exact ⟨h.1, h.2, h.3, h.4⟩
  | @refresh t _ ht =>
    refine ⟨h.held_finished, fun _ => nofun, h.residency_le, ?_⟩
    intro residency
    obtain ⟨a, n, hrg, hend⟩ := h.range residency
    refine ⟨a, n, hrg, fun hres => (hend hres).imp_right ?_⟩
    rintro hnx _ ⟨⟩
    exact hnx t ht
  | start hfin hn =>
    refine ⟨h.held_finished, fun _ => nofun, h.residency_le, ?_⟩
    intro residency
    refine ⟨0, 0, ?_, fun _ => Or.inl rfl⟩
    simp only [residencyIndices, h.not_started hfin hn]
    rfl
  | @newRequest t blockIds nc ns ht =>
    refine (h.arrive false nc ns).save ht ?_ (Tracked.saveable_le _ _)
    rfl
  | @cachedRequest t _ _ resumed nc ns ht =>
    refine (h.arrive resumed nc ns).save ht ?_ (Tracked.saveable_le _ _)
    rfl
  | @unknown _ _ resumed nc ns _ _ => exact h.arrive resumed nc ns
  | finishQuiet => exact h.close
  | finishEmpty ht =>
    rw [← ht]
    exact h.close
  | @finishSave t ht _ _ => exact (h.save ht rfl t.finalSaveable_le).close
  | saveFinished hcase =>
    rcases hcase with ⟨rfl, rfl, rfl⟩ | ⟨hh, rfl, rfl, rfl⟩
    · exact ⟨h.1, h.2, h.3, h.4⟩
    have hfin := h.held_finished hh
    refine ⟨nofun, fun hf => (Bool.false_ne_true (hf.symm.trans hfin)).elim, h.residency_le, ?_⟩
    intro residency
    obtain ⟨a, n, hrg, -⟩ := h.range residency
    exact ⟨a, n, hrg, fun _ => Or.inr nofun⟩

/-- Over every run: the ids and hashes of all intents are of equal length exactly
when each step's block list was long enough, they are cut at the same indices, and
the blocks saved in one residency are consecutive. -/
theorem intents_paired_iff (ctx : SchedulerContext) (events : List SchedulerEvent)
    (s : SchedulerRequest) (hrun : Run.exec (step ctx) init events = some s) :
    (s.AllPaired ↔ Run.Meets (step ctx) (ListsFit ctx) init events) ∧
    s.AllCut ∧
    ∀ residency, ∃ a n, s.residencyIndices residency = List.range' a n := by
  refine ⟨?_, ?_, ?_⟩
  · have hiff := exec_iff_meets (I := AllPaired) (fun _ _ _ h => allPaired_step h) hrun
    rw [hiff]
    exact and_iff_right (by simp [AllPaired, init])
  · exact exec_invariant (fun _ _ _ h hstep => h.step hstep) (by simp [AllCut, init]) hrun
  · have hcont : s.Contiguous :=
      exec_invariant (fun _ _ _ h hstep => h.step hstep) contiguous_init hrun
    intro residency
    obtain ⟨a, n, hrange, -⟩ := hcont.range residency
    exact ⟨a, n, hrange⟩

/-- A request that is resumed with a fresh block list. -/
theorem intents_paired_iff_resumed :
    ∃ s ∈ Run.exec (step ⟨true, 16⟩) init
        [.lookup 0, .updateStateAfterAlloc [[0], [1], [2]], .newRequest (some [10, 11]) 0 32,
          .preempt, .cachedRequest [[0], [1], [2]] (some [20, 21, 22]) true 0 48,
          .requestFinished],
      s.residencyIndices 0 = [0, 1] ∧ s.residencyIndices 1 = [2] ∧ s.AllCut := by
  refine exists_mem_imp (Q := fun s => s.residencyIndices 0 = [0, 1] ∧ s.residencyIndices 1 = [2]) (by decide)
    fun s hs hrun => ?_
  obtain ⟨h₀, h₁⟩ := hrun
  exact ⟨h₀, h₁, (intents_paired_iff ⟨true, 16⟩ _ s hs).2.1⟩

/-- A request with two blocks from the cache is aborted with three of its five blocks
allocated and none saved.  The last intent names three hashes and one block. -/
theorem aborted_prefill_intent_unpaired :
    ∃ s ∈ Run.exec (step ⟨true, 16⟩) init
        [.lookup 2, .updateStateAfterAlloc [[0], [1], [2], [3], [4]],
          .newRequest (some [10, 11, 12]) 32 10, .requestFinished],
      ¬ s.AllPaired := by
  refine exists_mem_imp (Q := fun s => ∃ it ∈ s.intents, it.intent.blockIds.length ≠ it.intent.blockHashes.length) (by decide)
    fun s hs hrun => ?_
  obtain ⟨it, hit, hne⟩ := hrun
  exact fun h => hne (h it hit)

end SchedulerRequest

end PegaFlow.Connector
