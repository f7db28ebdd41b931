import PegaFlow.Lib.Run
import PegaFlow.Pd.DecodeWait

/-!
# Immediate ids of the decode ranks

Every rank of a decode instance gets the same metadata, step by step, and opens a wait on an
immediate id of its own counter (`process_wait_reqs` and `_DecodePeerState` of
`python/pegaflow/pd_connector/decode_worker.py`).  Rank 0 builds the handshakes for all ranks, with
its own id in each.  The ranks thus rely on their counters being in step.

A rank passes over a request that it still waits for.  Whether it does depends on when its wait ended,
and that differs between ranks: after an abort a request id may come again when one rank has finished
the older wait and another has not.  One of them then takes an id that the other one does not take,
and from there on their ids differ.

The ranks agree in runs in which no rank passes over a request that another one opens (`SameChoices`),
such as those in which no request id comes twice.  Requests without local blocks, for which an
assertion fails, are left out.
-/

namespace PegaFlow.Pd

open List Option Run

/-- The metadata of the steps, item by item: those of one step are its waits, then its releases. -/
inductive StepItem where
  | wait (reqId : ReqId) (req : WaitReqMeta)
  | release (reqId : ReqId)
deriving DecidableEq, Repr

/-- What a rank made of an item. -/
inductive Decision where
  | skipped
  | opened (immId : Nat)
  | released
deriving DecidableEq, Repr

def maxImmId : Nat := 0x3FFFFFFF

/-- `alloc_imm_id`: the counter after it. -/
def bumpImmId (nextImmId : Nat) : Nat :=
  if nextImmId + 1 > maxImmId then 1 else nextImmId + 1

structure DecodeRank where
  waits : DecodeWaitState
  nextImmId : Nat
  log : List Decision

/-- A prefill request of rank 0: the item it was made for, and the ids of its handshakes by rank. -/
structure Dispatch (n : Nat) where
  item : Nat
  handshakes : List (Fin (n + 1) × Nat)

structure DecodeRanks (n : Nat) where
  ranks : Fin (n + 1) → DecodeRank
  dispatched : List (Dispatch n)

inductive RankEvent (n : Nat) where
  | process (rank : Fin (n + 1))
  | rdmaDone (rank : Fin (n + 1)) (reqId : ReqId)
  | waitFails (rank : Fin (n + 1)) (reqId : ReqId)
  | prefillFails (rank : Fin (n + 1)) (remoteRequestId : String)
  | getFinished (rank : Fin (n + 1)) (engineFinished : Finset ReqId)

namespace DecodeRanks

variable {n : Nat}

def new (n : Nat) : DecodeRanks n := ⟨fun _ => ⟨.new, 1, []⟩, []⟩

variable (templates : List (Fin (n + 1))) (s : DecodeRanks n)

def setRank (r : Fin (n + 1)) (rank : DecodeRank) : DecodeRanks n :=
  { s with ranks := Function.update s.ranks r rank }

def setWaits (r : Fin (n + 1)) (waits : DecodeWaitState) : DecodeRanks n :=
  s.setRank r { s.ranks r with waits }

/-- A rank takes the next item.  `templates` are the ranks whose layouts rank 0 has. -/
def process (r : Fin (n + 1)) : StepItem → DecodeRanks n
  | .wait reqId req =>
    let rank := s.ranks r
    if rank.waits.hasWait reqId then s.setRank r { rank with log := rank.log ++ [.skipped] }
    else
      { s.setRank r
          { waits := rank.waits.registerWait reqId req
            nextImmId := bumpImmId rank.nextImmId
            log := rank.log ++ [.opened rank.nextImmId] } with
        dispatched :=
          if r = 0 ∧ req.prefillUrl ≠ "" then
            s.dispatched ++ [⟨rank.log.length, templates.map fun r => (r, rank.nextImmId)⟩]
          else s.dispatched }
  | .release reqId =>
    let rank := s.ranks r
    s.setRank r
      { rank with
        waits := rank.waits.markAborted reqId
        log := rank.log ++ [.released] }

def step (items : List StepItem) (templates : List (Fin (n + 1))) (s : DecodeRanks n) :
    RankEvent n → Option (DecodeRanks n)
  | .process r => (items[(s.ranks r).log.length]?).map (s.process templates r)
  | .rdmaDone r reqId => some (s.setWaits r ((s.ranks r).waits.recordRdmaDone reqId))
  | .waitFails r reqId => some (s.setWaits r ((s.ranks r).waits.markWaitFailed reqId).1)
  | .prefillFails r remoteRequestId =>
    some (s.setWaits r ((s.ranks r).waits.markPrefillFailed remoteRequestId).1)
  | .getFinished r engineFinished =>
    some (s.setWaits r ((s.ranks r).waits.afterGetFinished engineFinished))

/-! ## What a step does -/

/-- The cases of a step. -/
inductive Step (items : List StepItem) (templates : List (Fin (n + 1))) (s : DecodeRanks n) :
    RankEvent n → DecodeRanks n → Prop where
  | skipped {r : Fin (n + 1)} {reqId : ReqId} {req : WaitReqMeta}
      (hitem : items[(s.ranks r).log.length]? = some (.wait reqId req))
      (hwait : (s.ranks r).waits.hasWait reqId) :
      Step items templates s (.process r)
        (s.setRank r { s.ranks r with log := (s.ranks r).log ++ [.skipped] })
  | opened {r : Fin (n + 1)} {reqId : ReqId} {req : WaitReqMeta}
      (hitem : items[(s.ranks r).log.length]? = some (.wait reqId req))
      (hwait : (s.ranks r).waits.hasWait reqId = false) :
      Step items templates s (.process r)
        { s.setRank r
            { waits := (s.ranks r).waits.registerWait reqId req
              nextImmId := bumpImmId (s.ranks r).nextImmId
              log := (s.ranks r).log ++ [.opened (s.ranks r).nextImmId] } with
          dispatched :=
            if r = 0 ∧ req.prefillUrl ≠ "" then
              s.dispatched ++
                [⟨(s.ranks r).log.length, templates.map fun r' => (r', (s.ranks r).nextImmId)⟩]
            else s.dispatched }
  | released {r : Fin (n + 1)} {reqId : ReqId}
      (hitem : items[(s.ranks r).log.length]? = some (.release reqId)) :
      Step items templates s (.process r)
        (s.setRank r
          { s.ranks r with
            waits := (s.ranks r).waits.markAborted reqId
            log := (s.ranks r).log ++ [.released] })
  | ended (ev : RankEvent n) {r : Fin (n + 1)} {waits : DecodeWaitState}
      (hwaits : ∀ k, waits.hasWait k → (s.ranks r).waits.hasWait k) :
      Step items templates s ev (s.setWaits r waits)

variable {items : List StepItem} {templates : List (Fin (n + 1))} {s s' : DecodeRanks n}
variable {ev : RankEvent n}

theorem step_cases (h : s.step items templates ev = some s') : Step items templates s ev s' := by
  cases ev with
  | process r =>
    obtain ⟨item, hi, rfl⟩ := map_eq_some_iff.mp h
    cases item with
    | wait reqId req =>
      unfold process
      dsimp only
      split
      next hw => exact .skipped hi hw
      next hw => exact .opened hi (Bool.eq_false_of_not_eq_true hw)
    | release reqId => exact .released hi
  | rdmaDone r reqId =>
    cases h
    exact .ended _ fun _ => DecodeWaitState.hasWait_recordRdmaDone
  | waitFails r reqId =>
    cases h
    exact .ended _ fun _ => DecodeWaitState.hasWait_markWaitFailed
  | prefillFails r remoteRequestId =>
    cases h
    exact .ended _ fun _ => DecodeWaitState.hasWait_markPrefillFailed
  | getFinished r engineFinished =>
    cases h
    exact .ended _ fun _ => DecodeWaitState.hasWait_afterGetFinished

/-! ## Counters in step -/

/-- For a wait, the rank chooses as those ranks chose that have come to it before. -/
def SameChoice (s : DecodeRanks n) (r : Fin (n + 1)) : Option StepItem → Prop
  | some (.wait reqId _) =>
    ∀ r', ∀ d ∈ (s.ranks r').log[(s.ranks r).log.length]?,
      d = .skipped ↔ (s.ranks r).waits.hasWait reqId
  | _ => True

instance (r : Fin (n + 1)) : ∀ item, Decidable (s.SameChoice r item)
  | some (.wait _ _) => inferInstanceAs (Decidable (∀ _, _))
  | some (.release _) | none => isTrue trivial

/-- No rank passes over a request that another one opens. -/
def SameChoices (items : List StepItem) (s : DecodeRanks n) : RankEvent n → Prop
  | .process r => s.SameChoice r items[(s.ranks r).log.length]?
  | _ => True

instance : ∀ ev, Decidable (s.SameChoices items ev)
  | .process _ => inferInstanceAs (Decidable (SameChoice _ _ _))
  | .rdmaDone _ _ | .waitFails _ _ | .prefillFails _ _ | .getFinished _ _ => isTrue trivial

/-- The counter after what a rank has done. -/
def nextAfter (log : List Decision) : Nat :=
  log.foldl (fun immId d => match d with
    | .opened _ => bumpImmId immId
    | .skipped | .released => immId) 1

theorem nextAfter_opened (log : List Decision) (immId : Nat) :
    nextAfter (log ++ [.opened immId]) = bumpImmId (nextAfter log) := by
  simp only [nextAfter, foldl_append, foldl_cons, foldl_nil]

variable {d : Decision}

theorem nextAfter_of_not_opened (log : List Decision) (h : ∀ immId, d ≠ .opened immId) :
    nextAfter (log ++ [d]) = nextAfter log := by
  simp only [nextAfter, foldl_append, foldl_cons, foldl_nil]
  cases d with
  | opened immId => exact absurd rfl (h immId)
  | skipped | released => rfl

theorem getElem?_concat {α : Type} {l : List α} {a x : α} {p : Nat} :
    (l ++ [a])[p]? = some x ↔ l[p]? = some x ∨ p = l.length ∧ x = a := by
  rcases Nat.lt_trichotomy p l.length with hlt | rfl | hgt
  · rw [getElem?_append_left hlt]
    exact (or_iff_left fun h => Nat.ne_of_lt hlt h.1).symm
  · rw [getElem?_concat_length, getElem?_eq_none (Nat.le_refl _)]
    constructor
    · intro h
      exact Or.inr ⟨rfl, (some.inj h).symm⟩
    · rintro (h | ⟨-, rfl⟩)
      · cases h
      · rfl
  · rw [getElem?_eq_none (by rw [length_append]; exact hgt), getElem?_eq_none (Nat.le_of_lt hgt)]
    constructor
    · intro h
      cases h
    · rintro (h | ⟨h, -⟩)
      · cases h
      · exact absurd h (Nat.ne_of_gt hgt)

variable {r : Fin (n + 1)}

/-- A change of one rank's waits leaves the rest of its state. -/
theorem ranks_setWaits {β : Type} (g : DecodeRank → β) {waits : DecodeWaitState}
    (h : g { s.ranks r with waits } = g (s.ranks r)) (r' : Fin (n + 1)) :
    g ((s.setWaits r waits).ranks r') = g (s.ranks r') := by
  rw [setWaits, setRank, Function.apply_update fun _ => g, h, Function.update_eq_self]

/-- What the ranks have done agrees as far as it goes, and their ids follow from it. -/
structure InStep (items : List StepItem) (s : DecodeRanks n) : Prop where
  counter : ∀ r, (s.ranks r).nextImmId = nextAfter (s.ranks r).log
  ids : ∀ r (p : Nat) (immId : Nat), (s.ranks r).log[p]? = some (.opened immId) →
    immId = nextAfter ((s.ranks r).log.take p)
  releases : ∀ r (p : Nat) (d : Decision), (s.ranks r).log[p]? = some d →
    (d = .released ↔ ∃ reqId, items[p]? = some (.release reqId))
  agree : ∀ r r' (p : Nat) (d d' : Decision), (s.ranks r).log[p]? = some d → (s.ranks r').log[p]? = some d' → d = d'
  dispatched : ∀ d ∈ s.dispatched, ∀ e ∈ d.handshakes,
    (s.ranks 0).log[d.item]? = some (.opened e.2)

/-- A rank that is ahead has done what the other one has. -/
theorem InStep.take_eq (hi : s.InStep items) {r' : Fin (n + 1)}
    (hlt : (s.ranks r).log.length < (s.ranks r').log.length) :
    (s.ranks r').log.take (s.ranks r).log.length = (s.ranks r).log := by
  refine ext_getElem? fun p => ?_
  by_cases hp : p < (s.ranks r).log.length
  · rw [getElem?_take_of_lt hp, getElem?_eq_getElem hp, getElem?_eq_getElem (Nat.lt_trans hp hlt)]
    exact congrArg some (hi.agree r' r p _ _ (getElem?_eq_getElem _) (getElem?_eq_getElem _))
  · rw [getElem?_eq_none (Nat.not_lt.mp hp), getElem?_eq_none]
    rw [length_take]
    exact Nat.le_trans (Nat.min_le_left _ _) (Nat.not_lt.mp hp)

variable {rank : DecodeRank} {dispatched : List (Dispatch n)}

/-- A rank takes an item, with the outcome that the ranks ahead of it had. -/
theorem InStep.extend (hi : s.InStep items) (hlog : rank.log = (s.ranks r).log ++ [d])
    (hcounter : rank.nextImmId = nextAfter rank.log)
    (hid : ∀ immId, d = .opened immId → immId = nextAfter (s.ranks r).log)
    (hrl : d = .released ↔ ∃ reqId, items[(s.ranks r).log.length]? = some (.release reqId))
    (hagree : ∀ r' d', (s.ranks r').log[(s.ranks r).log.length]? = some d' → d' = d)
    (hdispatched : ∀ e ∈ dispatched, e ∈ s.dispatched ∨
      r = 0 ∧ e.item = (s.ranks r).log.length ∧ ∀ h ∈ e.handshakes, d = .opened h.2) :
    InStep items { s.setRank r rank with dispatched } := by
  have hself : (s.setRank r rank).ranks r = rank := Function.update_self _ _ _
  have hoth : ∀ r', r' ≠ r → (s.setRank r rank).ranks r' = s.ranks r' :=
    fun r' hr' => Function.update_of_ne hr' _ _
  -- what the log of a rank has after the step
  have hcs : ∀ {r' p x}, ((s.setRank r rank).ranks r').log[p]? = some x →
      (s.ranks r').log[p]? = some x ∨ r' = r ∧ p = (s.ranks r).log.length ∧ x = d := by
    intro r' p x h
    by_cases hr' : r' = r
    · subst hr'
      rw [hself, hlog] at h
      exact (getElem?_concat.mp h).imp_right fun h => ⟨rfl, h⟩
    · rw [hoth r' hr'] at h
      exact Or.inl h
  have htk : ∀ {r' p}, p ≤ (s.ranks r').log.length →
      ((s.setRank r rank).ranks r').log.take p = (s.ranks r').log.take p := by
    intro r' p hp
    by_cases hr' : r' = r
    · subst hr'
      rw [hself, hlog, take_append_of_le_length hp]
    · rw [hoth r' hr']
  refine ⟨?_, ?_, ?_, ?_, ?_⟩
  · exact (Function.forall_update_iff s.ranks fun _ rank =>
      rank.nextImmId = nextAfter rank.log).mpr ⟨hcounter, fun r' _ => hi.counter r'⟩
  · intro r' p immId h
    rcases hcs h with h | ⟨rfl, rfl, hd⟩
    · have hp := (List.getElem?_eq_some_iff.mp h).1
      exact (hi.ids r' p immId h).trans (congrArg nextAfter (htk (Nat.le_of_lt hp)).symm)
    · refine (hid immId hd.symm).trans (congrArg nextAfter ?_)
      exact ((htk (Nat.le_refl _)).trans (take_length)).symm
  · intro r' p x h
    rcases hcs h with h | ⟨rfl, rfl, rfl⟩
    · exact hi.releases r' p x h
    · exact hrl
  · intro r₁ r₂ p d₁ d₂ h₁ h₂
    rcases hcs h₁ with ho₁ | ⟨rfl, rfl, rfl⟩
    · rcases hcs h₂ with ho₂ | ⟨rfl, rfl, rfl⟩
      · exact hi.agree r₁ r₂ p d₁ d₂ ho₁ ho₂
      · exact hagree r₁ d₁ ho₁
    · rcases hcs h₂ with ho₂ | ⟨rfl, -, rfl⟩
      · exact (hagree r₂ d₂ ho₂).symm
      · rfl
  · intro e he h hh
    rcases hdispatched e he with he | ⟨rfl, hit, hopened⟩
    · have h0 := hi.dispatched e he h hh
      by_cases hr : (0 : Fin (n + 1)) = r
      · subst hr
        exact (congrArg (fun rank : DecodeRank => rank.log[e.item]?) hself).trans
          (hlog ▸ getElem?_concat.mpr (Or.inl h0))
      · exact (congrArg (fun rank : DecodeRank => rank.log[e.item]?) (hoth 0 hr)).trans h0
    · refine (congrArg (fun rank : DecodeRank => rank.log[e.item]?) hself).trans ?_
      rw [hlog, hit]
      exact getElem?_concat.mpr (Or.inr ⟨rfl, (hopened h hh).symm⟩)

theorem InStep.step (hi : s.InStep items) (hc : s.SameChoices items ev)
    (h : Step items templates s ev s') : s'.InStep items := by
  have hsm : ∀ {r reqId req}, items[(s.ranks r).log.length]? = some (.wait reqId req) →
      s.SameChoices items (.process r) → ∀ r' d, (s.ranks r').log[(s.ranks r).log.length]? = some d →
        (d = .skipped ↔ (s.ranks r).waits.hasWait reqId) := by
    intro r reqId req hit hc
    rw [SameChoices, hit] at hc
    exact hc
  cases h with
  | skipped hit hw =>
    next r reqId req =>
    refine hi.extend (d := .skipped) rfl ?_ ?_ ?_ ?_ fun e he => Or.inl he
    · exact (hi.counter r).trans (nextAfter_of_not_opened _ fun _ => Decision.noConfusion).symm
    · exact nofun
    · constructor
      · intro h
        cases h
      · rintro ⟨reqId', h⟩
        cases hit.symm.trans h
    · intro r' d hd
      exact (hsm hit hc r' d hd).mpr hw
  | opened hit hw =>
    next r reqId req =>
    refine hi.extend (d := .opened (s.ranks r).nextImmId) rfl ?_ ?_ ?_ ?_ ?_
    · rw [nextAfter_opened, hi.counter r]
    · intro immId h
      cases h
      exact hi.counter r
    · constructor
      · intro h
        cases h
      · rintro ⟨reqId', h⟩
        cases hit.symm.trans h
    · intro r' d hd
      have hlt := (List.getElem?_eq_some_iff.mp hd).1
      cases d with
      | skipped =>
        rw [(hsm hit hc r' _ hd).mp rfl] at hw
        cases hw
      | released =>
        obtain ⟨reqId', h⟩ := (hi.releases r' _ _ hd).mp rfl
        cases hit.symm.trans h
      | opened immId => rw [hi.ids r' _ immId hd, hi.take_eq hlt, hi.counter r]
    · intro e he
      split at he
      next h0 =>
        rcases mem_append.mp he with he | he
        · exact Or.inl he
        rw [mem_singleton.mp he]
        refine Or.inr ⟨h0.1, rfl, ?_⟩
        intro h hh
        obtain ⟨r', -, rfl⟩ := mem_map.mp hh
        rfl
      · exact Or.inl he
  | released hit =>
    next r reqId =>
    refine hi.extend (d := .released) rfl ?_ ?_ ?_ ?_ fun e he => Or.inl he
    · exact (hi.counter r).trans (nextAfter_of_not_opened _ fun _ => Decision.noConfusion).symm
    · exact nofun
    · exact iff_of_true rfl ⟨reqId, hit⟩
    · intro r' d hd
      exact (hi.releases r' _ d hd).mpr ⟨reqId, hit⟩
  | ended _ hws =>
    next r waits =>
    have hlog : ∀ r', ((s.setWaits r waits).ranks r').log = (s.ranks r').log :=
      ranks_setWaits DecodeRank.log rfl
    have hn : ∀ r', ((s.setWaits r waits).ranks r').nextImmId = (s.ranks r').nextImmId :=
      ranks_setWaits DecodeRank.nextImmId rfl
    refine ⟨?_, ?_, ?_, ?_, ?_⟩
    · intro r'
      rw [hn, hlog]
      exact hi.counter r'
    · intro r'
      rw [hlog]
      exact hi.ids r'
    · intro r'
      rw [hlog]
      exact hi.releases r'
    · intro r₁ r₂
      rw [hlog, hlog]
      exact hi.agree r₁ r₂
    · rw [hlog]
      exact hi.dispatched

theorem new_inStep (items : List StepItem) (n : Nat) : (new n).InStep items where
  counter := fun _ => rfl
  ids := nofun
  releases := nofun
  agree := nofun
  dispatched := nofun

/-! ## Request ids that come once -/

/-- No request id is waited for twice. -/
def DistinctWaits (items : List StepItem) : Prop :=
  ∀ (p p' : Nat) (reqId : ReqId) (req req' : WaitReqMeta), items[p]? = some (.wait reqId req) →
    items[p']? = some (.wait reqId req') → p = p'

/-- A rank waits for requests that it has come to, and has passed over none. -/
structure Fresh (items : List StepItem) (s : DecodeRanks n) : Prop where
  seen : ∀ r reqId, (s.ranks r).waits.hasWait reqId →
    ∃ p < (s.ranks r).log.length, ∃ req, items[p]? = some (.wait reqId req)
  opened : ∀ r, .skipped ∉ (s.ranks r).log

theorem Fresh.not_hasWait (hf : s.Fresh items) (hd : DistinctWaits items) {reqId : ReqId}
    {req : WaitReqMeta} (hi : items[(s.ranks r).log.length]? = some (.wait reqId req)) :
    (s.ranks r).waits.hasWait reqId = false := by
  rw [Bool.eq_false_iff]
  intro hw
  obtain ⟨p, hp, req', hi'⟩ := hf.seen r reqId hw
  exact Nat.ne_of_lt hp (hd p _ reqId req' req hi' hi)

theorem Fresh.sameChoices (hf : s.Fresh items) (hdt : DistinctWaits items) :
    s.SameChoices items ev := by
  cases ev with
  | process r =>
    rw [SameChoices]
    cases hi : items[(s.ranks r).log.length]? with
    | none => trivial
    | some item =>
      cases item with
      | release reqId => trivial
      | wait reqId req =>
        intro r' d hd
        refine iff_of_false ?_ ?_
        · rintro rfl
          exact hf.opened r' (mem_of_getElem? hd)
        · rw [hf.not_hasWait hdt hi]
          exact Bool.false_ne_true
  | _ => trivial

/-- A rank goes on. -/
theorem Fresh.setRank (hf : s.Fresh items) (hse : ∀ reqId, rank.waits.hasWait reqId →
      ∃ p < rank.log.length, ∃ req, items[p]? = some (.wait reqId req))
    (hopened : .skipped ∉ rank.log) : Fresh items { s.setRank r rank with dispatched } := by
  constructor
  · exact (Function.forall_update_iff s.ranks fun _ rank => ∀ reqId,
      rank.waits.hasWait reqId → ∃ p < rank.log.length, ∃ req,
        items[p]? = some (.wait reqId req)).mpr ⟨hse, fun r' _ => hf.seen r'⟩
  · exact (Function.forall_update_iff s.ranks fun _ rank => .skipped ∉ rank.log).mpr
      ⟨hopened, fun r' _ => hf.opened r'⟩

theorem Fresh.step (hf : s.Fresh items) (hdt : DistinctWaits items)
    (h : Step items templates s ev s') : s'.Fresh items := by
  have hlat : ∀ {r reqId d}, (s.ranks r).waits.hasWait reqId →
      ∃ p < ((s.ranks r).log ++ [d]).length, ∃ req, items[p]? = some (.wait reqId req) := by
    intro r reqId d hw
    obtain ⟨p, hp, hreq⟩ := hf.seen r reqId hw
    exact ⟨p, by rw [length_append]; exact Nat.lt_add_right 1 hp, hreq⟩
  have hlog : ∀ {r} {d : Decision}, d ≠ .skipped → .skipped ∉ (s.ranks r).log ++ [d] := by
    intro r d hd hm
    rcases mem_append.mp hm with hm | hm
    · exact hf.opened r hm
    · exact hd (mem_singleton.mp hm).symm
  cases h with
  | skipped hi hw =>
    rw [hf.not_hasWait hdt hi] at hw
    cases hw
  | opened hi hw =>
    next r reqId req =>
    refine hf.setRank ?_ (hlog Decision.noConfusion)
    intro reqId' hw'
    rcases DecodeWaitState.hasWait_registerWait hw' with rfl | hw'
    · exact ⟨_, by rw [length_append]; exact Nat.lt_succ_self _, req, hi⟩
    · exact hlat hw'
  | released hi =>
    refine hf.setRank ?_ (hlog Decision.noConfusion)
    exact fun reqId hw => hlat (DecodeWaitState.hasWait_markAborted hw)
  | ended _ hws =>
    exact hf.setRank (fun reqId hw => hf.seen _ reqId (hws reqId hw)) (hf.opened _)

theorem new_fresh (items : List StepItem) (n : Nat) : (new n).Fresh items where
  seen := nofun
  opened := fun _ => not_mem_nil

/-! ## Agreement -/

/-- A rank that has come to the item of a prefill request has opened its wait on the id that rank 0
sent for it. -/
def ImmIdsAgree (s : DecodeRanks n) : Prop :=
  ∀ d ∈ s.dispatched, ∀ e ∈ d.handshakes, d.item < (s.ranks e.1).log.length →
    (s.ranks e.1).log[d.item]? = some (.opened e.2)

/-- The ids agree in runs in which the ranks choose alike, and if no request id comes twice. -/
theorem imm_ids_agree {n : Nat} {items : List StepItem} {templates : List (Fin (n + 1))}
    {events : List (RankEvent n)} {s : DecodeRanks n}
    (hcond : Run.Meets (step items templates) (SameChoices items) (new n) events ∨
      DistinctWaits items)
    (hrun : Run.exec (step items templates) (new n) events = some s) : s.ImmIdsAgree := by
  have hmeets : Run.Meets (step items templates) (SameChoices items) (new n) events := by
    rcases hcond with hmeets | hdistinct
    · exact hmeets
    exact meets_of_invariant (I := Fresh items) (C := fun _ _ => True)
      (fun _ _ _ hf _ h => hf.step hdistinct (step_cases h))
      (fun _ _ hf _ => hf.sameChoices hdistinct) (new_fresh items n)
      (meets_of_forall fun _ _ => trivial)
  have hi : s.InStep items :=
    exec_invariant_of_meets (I := InStep items)
      (fun _ _ _ hi hev h => hi.step hev (step_cases h)) (new_inStep items n) hmeets hrun
  intro d hd e he hlt
  have hopened := hi.dispatched d hd e he
  rw [getElem?_eq_getElem hlt]
  exact congrArg some
    (hi.agree e.1 0 d.item _ _ (getElem?_eq_getElem hlt) hopened)

/-- A request with one block. -/
def oneWait : WaitReqMeta := ⟨[[0]], "prefill", "done", "url"⟩

/-- A request id comes again after an abort. -/
def reusedId : List StepItem := [.wait "a" oneWait, .release "a", .wait "a" oneWait, .wait "b" oneWait]

/-- Both ranks have ended the older wait before the id comes again. -/
theorem imm_ids_agree_reused_id :
    ∃ s ∈ Run.exec (step reusedId [0, 1]) (new 1)
      [.process 0, .process 1, .process 0, .process 1, .waitFails 0 "a", .waitFails 1 "a",
        .process 0, .process 0, .process 1, .process 1],
      s.dispatched.length = 3 ∧ (s.ranks 1).log.length = 4 ∧ s.ImmIdsAgree := by
  refine exists_mem_of_eq rfl fun hrun => ?_
  exact ⟨rfl, rfl, imm_ids_agree (Or.inl (by decide +kernel)) hrun⟩

/-- Only rank 0 has ended the older wait when the id comes again: rank 1 opens its wait for the next
request on the id 2, and rank 0 sends it the id 3. -/
theorem imm_ids_diverge :
    ∃ s ∈ Run.exec (step reusedId [0, 1]) (new 1)
      [.process 0, .process 1, .process 0, .process 1, .waitFails 0 "a", .process 0, .process 0,
        .process 1, .process 1],
      (∃ d ∈ s.dispatched, d.item = 3 ∧ d.handshakes = [(0, 3), (1, 3)]) ∧
        (s.ranks 1).log[3]? = some (.opened 2) := by
  refine ⟨_, rfl, ⟨⟨3, [(0, 3), (1, 3)]⟩, ?_, rfl, rfl⟩, rfl⟩
  exact mem_of_getElem? (i := 2) rfl

end DecodeRanks

end PegaFlow.Pd
