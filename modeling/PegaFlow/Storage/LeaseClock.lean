import PegaFlow.Lib.Run
import PegaFlow.Storage.Lease

/-!
# Leases and the clock

`QueryLeaseManager` of `pegaflow-core/src/lease.rs`, with the time at which leases expire and
with calls that run at the same time.  A call of `create`, `consume` or `release` reads the
clock, removes under the lock what had expired then, and takes the lock a second time for what it
is for; other calls may run in between.  The sweeper does the first half only, and
`release_instance` the second.  A call that is not interrupted is three events in a row.

`create` reads the clock again, some time after its sweep and before the lease is in the table.

Tokens are random, so a caller has a token from `create` or one that no lease will ever have.

The log has what the calls did, in the order in which they held the lock.
-/

namespace PegaFlow.Storage

open List Option AList Table Run

/-- A lease with the time at which it expires. -/
structure TimedLease extends QueryLease where
  expiresAt : Nat

/-- `DEFAULT_LEASE_TTL`, in nanoseconds. -/
def defaultLeaseTtl : Nat := 600 * 10 ^ 9

/-! ## The parts that hold the lock -/

namespace LeaseTable

/-- `sweep_expired`. -/
def sweepExpired (leases : Table LeaseId TimedLease) (now : Nat) : Table LeaseId TimedLease :=
  leases.retain fun lease => now < lease.expiresAt

/-- The second half of `consume`. -/
def consume (leases : Table LeaseId TimedLease) (instanceId : InstanceId) (id : LeaseId) :
    Except String (List FoundBlock) × Table LeaseId TimedLease :=
  match leases.lookup id with
  | none => (.error "query lease is unknown or expired", leases)
  | some lease =>
    if lease.instanceId ≠ instanceId then
      (.error s!"query lease belongs to instance {lease.instanceId}, got {instanceId}", leases)
    else if 1 < lease.remainingConsumers then
      (.ok lease.blocks,
        leases.insert id { lease with remainingConsumers := lease.remainingConsumers - 1 })
    else (.ok lease.blocks, leases.erase id)

def releaseInstance (leases : Table LeaseId TimedLease) (instanceId : InstanceId) :
    Table LeaseId TimedLease :=
  leases.retain fun lease => lease.instanceId ≠ instanceId

end LeaseTable

/-! ## Calls -/

/-- What `create` was asked for, and when it expires. -/
structure LeaseGrant where
  instanceId : InstanceId
  blocks : List FoundBlock
  consumers : Nat
  expiresAt : Nat

inductive LeaseOp where
  | create (instanceId : InstanceId) (blocks : List FoundBlock) (consumers : Nat)
  | consume (instanceId : InstanceId) (token : Option LeaseId)
  | release (token : Option LeaseId)
  | sweep

/-- The token that a call was given, if a lease has it. -/
def LeaseOp.token : LeaseOp → Option LeaseId
  | .consume _ token => token
  | .release token => token
  | _ => none

/-- A call, with the time it read and whether it has swept. -/
structure LeaseCall where
  op : LeaseOp
  now : Nat
  swept : Bool

inductive LeaseRecord where
  | created (id : LeaseId)
  /-- The blocks went to a call of the instance that had read this time. -/
  | consumed (id : LeaseId) (instanceId : InstanceId) (now : Nat) (blocks : List FoundBlock)
  | refused (token : Option LeaseId) (instanceId : InstanceId) (message : String)
  | released (id : LeaseId)
  /-- `release` found no lease. -/
  | notReleased
  /-- An instance was released when so many leases had been created. -/
  | releasedInstance (instanceId : InstanceId) (count : Nat)

def LeaseRecord.consumes (id : LeaseId) : LeaseRecord → Bool
  | .consumed id' _ _ _ => id' = id
  | _ => false

/-- What may come after a record: a lease is not consumed after it was released, or after its
instance was and it had been created by then. -/
def LeaseRecord.Precedes : LeaseRecord → LeaseRecord → Prop
  | .released id, .consumed id' _ _ _ => id' ≠ id
  | .releasedInstance instanceId count, .consumed id' instanceId' _ _ =>
    id' < count → instanceId' ≠ instanceId
  | _, _ => True

structure LeaseState where
  clock : Nat
  leases : Table LeaseId TimedLease
  granted : List LeaseGrant
  calls : Table Nat LeaseCall
  log : List LeaseRecord

inductive LeaseEvent where
  | tick (now : Nat)
  /-- A call reads the clock. -/
  | start (i : Nat) (op : LeaseOp)
  | sweep (i : Nat)
  /-- The second half of a call; `create` has read this time. -/
  | finish (i : Nat) (now : Nat)
  | releaseInstance (instanceId : InstanceId)

namespace LeaseState

def init : LeaseState := ⟨0, ∅, [], ∅, []⟩

/-- The second half of a call. -/
def act (s : LeaseState) (call : LeaseCall) (now : Nat) : LeaseState :=
  match call.op with
  | .create instanceId blocks consumers =>
    let expiresAt := now + defaultLeaseTtl
    { s with
      leases :=
        s.leases.insert s.granted.length ⟨⟨instanceId, blocks, max consumers 1⟩, expiresAt⟩
      granted := s.granted ++ [⟨instanceId, blocks, consumers, expiresAt⟩]
      log := s.log ++ [.created s.granted.length] }
  | .consume instanceId none =>
    { s with
      log := s.log ++ [.refused none instanceId "query lease is unknown or expired"] }
  | .consume instanceId (some id) =>
    match LeaseTable.consume s.leases instanceId id with
    | (.ok blocks, leases) =>
      { s with leases := leases, log := s.log ++ [.consumed id instanceId call.now blocks] }
    | (.error message, leases) =>
      { s with leases := leases, log := s.log ++ [.refused (some id) instanceId message] }
  | .release none => { s with log := s.log ++ [.notReleased] }
  | .release (some id) =>
    if (s.leases.lookup id).isSome then
      { s with leases := s.leases.erase id, log := s.log ++ [.released id] }
    else { s with log := s.log ++ [.notReleased] }
  | .sweep => s

def step (s : LeaseState) : LeaseEvent → Option LeaseState
  | .tick now => if s.clock ≤ now then some { s with clock := now } else none
  | .start i op =>
    if s.calls.lookup i = none ∧ ∀ id ∈ op.token, id < s.granted.length then
      some { s with calls := s.calls.insert i ⟨op, s.clock, false⟩ }
    else none
  | .sweep i =>
    match s.calls.lookup i with
    | some call =>
      if call.swept = false then
        some { s with
          leases := LeaseTable.sweepExpired s.leases call.now
          calls := s.calls.insert i { call with swept := true } }
      else none
    | none => none
  | .finish i now =>
    match s.calls.lookup i with
    | some call =>
      if call.swept ∧ call.now ≤ now ∧ now ≤ s.clock then
        some { s.act call now with calls := s.calls.erase i }
      else none
    | none => none
  | .releaseInstance instanceId =>
    some { s with
      leases := LeaseTable.releaseInstance s.leases instanceId
      log := s.log ++ [.releasedInstance instanceId s.granted.length] }

/-! ## What the manager keeps account of -/

/-- Leases are consumed as often as they may be, with their blocks, by their instance, before they
expire, and not after a release. -/
structure Accounted (s : LeaseState) : Prop where
  count : ∀ id g, s.granted[id]? = some g → s.log.countP (·.consumes id) ≤ max 1 g.consumers
  consumed : ∀ id instanceId now blocks, .consumed id instanceId now blocks ∈ s.log →
    ∃ g, s.granted[id]? = some g ∧ instanceId = g.instanceId ∧ blocks = g.blocks ∧
      now < g.expiresAt
  order : s.log.Pairwise LeaseRecord.Precedes

/-- The lease is what is left of the grant. -/
structure LeftOf (log : List LeaseRecord) (id : LeaseId) (lease : TimedLease) (g : LeaseGrant) :
    Prop where
  instanceId : lease.instanceId = g.instanceId
  blocks : lease.blocks = g.blocks
  expiresAt : lease.expiresAt = g.expiresAt
  pos : 0 < lease.remainingConsumers
  rest : log.countP (·.consumes id) + lease.remainingConsumers = max 1 g.consumers

/-- The record is about leases that had been created. -/
def Past (created : Nat) : LeaseRecord → Prop
  | .consumed id _ _ _ => id < created
  | .released id => id < created
  | .releasedInstance _ count => count ≤ created
  | _ => True

/-- What a call in progress relies on: its token is of a lease that exists, and if it has swept,
the lease has not expired at the time it read. -/
structure CallFits (leases : Table LeaseId TimedLease) (created : Nat) (call : LeaseCall) :
    Prop where
  known : ∀ id ∈ call.op.token, id < created
  alive : call.swept → ∀ id ∈ call.op.token, ∀ lease, leases.lookup id = some lease →
    call.now < lease.expiresAt

structure Inv (s : LeaseState) : Prop extends Accounted s where
  leases : ∀ id lease, s.leases.lookup id = some lease →
    ∃ g, s.granted[id]? = some g ∧ LeftOf s.log id lease g
  past : ∀ r ∈ s.log, Past s.granted.length r
  ended : ∀ r ∈ s.log, ∀ id lease now blocks, s.leases.lookup id = some lease →
    r.Precedes (.consumed id lease.instanceId now blocks)
  calls : ∀ i call, s.calls.lookup i = some call → CallFits s.leases s.granted.length call

variable {s s' : LeaseState} {id : LeaseId} {lease : TimedLease} {g : LeaseGrant}

theorem inv_init : init.Inv where
  count := nofun
  consumed := nofun
  order := .nil
  leases := nofun
  past := nofun
  ended := nofun
  calls := nofun

theorem Inv.lt_length (hi : s.Inv) (h : s.leases.lookup id = some lease) :
    id < s.granted.length := by
  obtain ⟨g, hg, -⟩ := hi.leases id lease h
  exact (List.getElem?_eq_some_iff.mp hg).1

/-- A record that consumes nothing comes after anything. -/
theorem precedes_of_not_consumes {a b : LeaseRecord} (h : ∀ id, b.consumes id = false) :
    a.Precedes b := by
  cases b with
  | consumed id' => simp [LeaseRecord.consumes] at h
  | _ => cases a <;> trivial

variable {log records : List LeaseRecord}

theorem countP_append_of_not_consumes (h : ∀ r ∈ records, ∀ id, r.consumes id = false)
    (id : LeaseId) : (log ++ records).countP (·.consumes id) = log.countP (·.consumes id) := by
  have hz : records.countP (·.consumes id) = 0 := by
    refine countP_eq_zero.mpr fun r hr => ?_
    rw [h r hr id]
    exact Bool.false_ne_true
  rw [countP_append, hz, Nat.add_zero]

theorem LeftOf.congr {log' : List LeaseRecord} (h : LeftOf log id lease g)
    (hct : log'.countP (·.consumes id) = log.countP (·.consumes id)) : LeftOf log' id lease g :=
  ⟨h.instanceId, h.blocks, h.expiresAt, h.pos, hct ▸ h.rest⟩

/-- Leases go, and nothing is consumed. -/
theorem Inv.shrink (hi : s.Inv) (hgr : s'.granted = s.granted)
    (hlss : ∀ id lease, s'.leases.lookup id = some lease → s.leases.lookup id = some lease)
    (hlog : s'.log = s.log ++ records) (hrec : ∀ r ∈ records, ∀ id, r.consumes id = false)
    (hps : ∀ r ∈ records, Past s.granted.length r)
    (hend : ∀ r ∈ records, ∀ id lease now blocks, s'.leases.lookup id = some lease →
      r.Precedes (.consumed id lease.instanceId now blocks))
    (hcs : ∀ i call, s'.calls.lookup i = some call → CallFits s'.leases s.granted.length call) :
    s'.Inv where
  count id g hg := by
    rw [hgr] at hg
    rw [hlog, countP_append_of_not_consumes hrec]
    exact hi.count id g hg
  consumed id instanceId now blocks h := by
    rw [hgr]
    rw [hlog] at h
    rcases mem_append.mp h with h | h
    · exact hi.consumed id instanceId now blocks h
    · have hnot := hrec _ h id
      simp [LeaseRecord.consumes] at hnot
  order := by
    rw [hlog, pairwise_append]
    have hpre : ∀ a, ∀ b ∈ records, LeaseRecord.Precedes a b :=
      fun _ b hb => precedes_of_not_consumes (hrec b hb)
    exact ⟨hi.order, pairwise_of_forall_mem_list fun a _ b hb => hpre a b hb,
      fun a _ b hb => hpre a b hb⟩
  leases id lease h := by
    obtain ⟨g, hg, hl⟩ := hi.leases id lease (hlss id lease h)
    refine ⟨g, hgr ▸ hg, hl.congr ?_⟩
    rw [hlog, countP_append_of_not_consumes hrec]
  past r hr := by
    rw [hlog] at hr
    rw [hgr]
    exact (mem_append.mp hr).elim (hi.past r) (hps r)
  ended r hr id lease now blocks h := by
    rw [hlog] at hr
    rcases mem_append.mp hr with hr | hr
    · exact hi.ended r hr id lease now blocks (hlss id lease h)
    · exact hend r hr id lease now blocks h
  calls i call h := hgr ▸ hcs i call h

variable {leases leases' : Table LeaseId TimedLease} {created created' : Nat} {call : LeaseCall}

/-- Calls rely on the table only as far as leases stay. -/
theorem CallFits.mono (h : CallFits leases created call) (hle : created ≤ created')
    (hlss : ∀ id lease, id < created → leases'.lookup id = some lease →
      ∃ old, leases.lookup id = some old ∧ old.expiresAt = lease.expiresAt) :
    CallFits leases' created' call where
  known id hid := Nat.lt_of_lt_of_le (h.known id hid) hle
  alive hswept id hid lease hls := by
    obtain ⟨old, ho, hexpires⟩ := hlss id lease (h.known id hid) hls
    exact hexpires ▸ h.alive hswept id hid old ho

variable {r : LeaseRecord}

theorem Past.mono (h : Past created r) (hle : created ≤ created') : Past created' r := by
  cases r with
  | consumed | released => exact Nat.lt_of_lt_of_le h hle
  | releasedInstance => exact Nat.le_trans h hle
  | _ => trivial

variable {now : Nat}

/-- Records of the past say nothing about a new lease. -/
theorem Past.precedes {instanceId : InstanceId} {blocks : List FoundBlock} (h : Past created r) :
    r.Precedes (.consumed created instanceId now blocks) := by
  cases r with
  | released => exact Nat.ne_of_gt h
  | releasedInstance => exact fun hlt => absurd h (Nat.not_le_of_lt hlt)
  | _ => trivial

theorem Past.not_consumes (h : Past created r) : r.consumes created = false := by
  cases r with
  | consumed => exact decide_eq_false (Nat.ne_of_lt h)
  | _ => rfl

variable {i : Nat}

theorem Inv.create {instanceId : InstanceId} {blocks : List FoundBlock} {consumers : Nat}
    (hi : s.Inv) :
    Inv { s with
      leases := s.leases.insert s.granted.length
        ⟨⟨instanceId, blocks, max consumers 1⟩, now + defaultLeaseTtl⟩
      granted := s.granted ++ [⟨instanceId, blocks, consumers, now + defaultLeaseTtl⟩]
      log := s.log ++ [.created s.granted.length]
      calls := s.calls.erase i } := by
  have hrec : ∀ r ∈ [LeaseRecord.created s.granted.length], ∀ id, r.consumes id = false := by
    simp [LeaseRecord.consumes]
  have hfr : s.log.countP (·.consumes s.granted.length) = 0 := by
    refine countP_eq_zero.mpr fun r hr => ?_
    rw [(hi.past r hr).not_consumes]
    exact Bool.false_ne_true
  have hle : ∀ g : LeaseGrant, s.granted.length ≤ (s.granted ++ [g]).length := by
    intro g
    rw [length_append]
    exact Nat.le_add_right _ _
  have ho : ∀ {id : Nat} {g g' : LeaseGrant}, s.granted[id]? = some g →
      (s.granted ++ [g'])[id]? = some g := by
    intro id g g' hg
    rwa [List.getElem?_append_left (List.getElem?_eq_some_iff.mp hg).1]
  refine ⟨⟨?_, ?_, ?_⟩, ?_, ?_, ?_, ?_⟩
  · intro id g hg
    rw [countP_append_of_not_consumes hrec]
    rcases Nat.lt_trichotomy id s.granted.length with hlt | rfl | hgt
    · rw [List.getElem?_append_left hlt] at hg
      exact hi.count id g hg
    · rw [hfr]
      exact Nat.zero_le _
    · rw [getElem?_eq_none (by rw [length_append]; exact hgt)] at hg
      cases hg
  · intro id instanceId now blocks h
    rcases mem_append.mp h with h | h
    · obtain ⟨g, hg, hrest⟩ := hi.consumed id instanceId now blocks h
      exact ⟨g, ho hg, hrest⟩
    · cases mem_singleton.mp h
  · refine pairwise_append.mpr ⟨hi.order, pairwise_singleton _ _, ?_⟩
    exact fun a _ b hb => precedes_of_not_consumes (hrec b hb)
  · intro id lease h
    rcases lookup_of_insert h with ⟨rfl, rfl⟩ | ⟨-, h⟩
    · refine ⟨_, getElem?_concat_length, rfl, rfl, rfl, Nat.le_max_right _ _, ?_⟩
      rw [countP_append_of_not_consumes hrec, hfr, Nat.zero_add, Nat.max_comm]
    · obtain ⟨g, hg, hl⟩ := hi.leases id lease h
      exact ⟨g, ho hg, hl.congr (countP_append_of_not_consumes hrec id)⟩
  · refine forall_mem_concat.mpr ⟨fun r hr => (hi.past r hr).mono (hle _), ?_⟩
    trivial
  · intro r hr id lease now blocks h
    rcases mem_append.mp hr with hr | hr
    · rcases lookup_of_insert h with ⟨rfl, rfl⟩ | ⟨-, h⟩
      · exact (hi.past r hr).precedes
      · exact hi.ended r hr id lease now blocks h
    · cases mem_singleton.mp hr
      trivial
  · intro i call h
    refine (hi.calls i call (lookup_of_erase h).2).mono (hle _) ?_
    intro id lease hid h
    rw [lookup_insert_ne (Nat.ne_of_lt hid)] at h
    exact ⟨lease, h, rfl⟩

/-- What a successful `consume` finds, and what it leaves. -/
theorem consume_eq_ok {instanceId : InstanceId} {blocks : List FoundBlock}
    (h : LeaseTable.consume leases instanceId id = (.ok blocks, leases')) :
    ∃ lease, leases.lookup id = some lease ∧ lease.instanceId = instanceId ∧
      lease.blocks = blocks ∧ ∀ id' lease', leases'.lookup id' = some lease' →
        id' ≠ id ∧ leases.lookup id' = some lease' ∨ id' = id ∧ 1 < lease.remainingConsumers ∧
          lease' = { lease with remainingConsumers := lease.remainingConsumers - 1 } := by
  unfold LeaseTable.consume at h
  split at h
  · cases h
  next lease hls =>
    split at h
    · cases h
    next hin =>
      refine ⟨lease, hls, not_not.mp hin, ?_⟩
      split at h
      next hmr =>
        cases h
        refine ⟨rfl, fun id' lease' h' => ?_⟩
        rcases lookup_of_insert h' with ⟨rfl, rfl⟩ | ⟨hne, h'⟩
        · exact Or.inr ⟨rfl, hmr, rfl⟩
        · exact Or.inl ⟨hne, h'⟩
      · cases h
        exact ⟨rfl, fun id' lease' h' => Or.inl (lookup_of_erase h')⟩

/-- What a refused `consume` leaves. -/
theorem consume_eq_error {instanceId : InstanceId} {message : String}
    (h : LeaseTable.consume leases instanceId id = (.error message, leases')) :
    leases' = leases := by
  unfold LeaseTable.consume at h
  split at h
  · cases h
    rfl
  · split at h
    · cases h
      rfl
    · split at h <;> cases h

theorem countP_concat_consumed {id' : Nat} {instanceId : InstanceId} {blocks : List FoundBlock} :
    (log ++ [LeaseRecord.consumed id instanceId now blocks]).countP (·.consumes id') =
      log.countP (·.consumes id') + if id = id' then 1 else 0 := by
  rw [countP_append, countP_singleton]
  simp only [LeaseRecord.consumes, decide_eq_true_eq]

theorem Inv.consume {instanceId : InstanceId} {blocks : List FoundBlock} (hi : s.Inv)
    (h : LeaseTable.consume s.leases instanceId id = (.ok blocks, leases))
    (hal : ∀ lease, s.leases.lookup id = some lease → now < lease.expiresAt) :
    Inv { s with
      leases := leases
      log := s.log ++ [.consumed id instanceId now blocks]
      calls := s.calls.erase i } := by
  obtain ⟨lease, hls, rfl, rfl, hlss⟩ := consume_eq_ok h
  obtain ⟨g, hg, hl⟩ := hi.leases id lease hls
  have hrest := hl.rest
  have hpos := hl.pos
  refine ⟨⟨?_, ?_, ?_⟩, ?_, ?_, ?_, ?_⟩
  · intro id' g' hg'
    rw [countP_concat_consumed]
    split
    next heq =>
      subst heq
      cases hg.symm.trans hg'
      omega
    · exact hi.count id' g' hg'
  · intro id' instanceId now' blocks h'
    rcases mem_append.mp h' with h' | h'
    · exact hi.consumed id' instanceId now' blocks h'
    · cases mem_singleton.mp h'
      exact ⟨g, hg, hl.instanceId, hl.blocks, hl.expiresAt ▸ hal lease hls⟩
  · refine pairwise_append.mpr ⟨hi.order, pairwise_singleton _ _, ?_⟩
    intro a ha b hb
    cases mem_singleton.mp hb
    exact hi.ended a ha id lease now lease.blocks hls
  · intro id' lease' h'
    rcases hlss id' lease' h' with ⟨hne, ho⟩ | ⟨rfl, hmr, rfl⟩
    · obtain ⟨g', hg', hl'⟩ := hi.leases id' lease' ho
      refine ⟨g', hg', hl'.congr ?_⟩
      rw [countP_concat_consumed, if_neg (Ne.symm hne), Nat.add_zero]
    · refine ⟨g, hg, hl.instanceId, hl.blocks, hl.expiresAt, Nat.sub_pos_of_lt hmr, ?_⟩
      rw [countP_concat_consumed, if_pos rfl]
      change _ + 1 + (lease.remainingConsumers - 1) = _
      omega
  · refine forall_mem_concat.mpr ⟨hi.past, ?_⟩
    exact hi.lt_length hls
  · intro r hr id' lease' now' blocks' h'
    rcases mem_append.mp hr with hmem | hmem
    · rcases hlss id' lease' h' with ⟨-, ho⟩ | ⟨rfl, -, rfl⟩
      · exact hi.ended r hmem id' lease' now' blocks' ho
      · exact hi.ended r hmem _ lease now' blocks' hls
    · cases mem_singleton.mp hmem
      trivial
  · intro j call hc
    refine (hi.calls j call (lookup_of_erase hc).2).mono (Nat.le_refl _) ?_
    intro id' lease' _ h'
    rcases hlss id' lease' h' with ⟨-, ho⟩ | ⟨rfl, -, rfl⟩
    · exact ⟨lease', ho, rfl⟩
    · exact ⟨lease, hls, rfl⟩

theorem lookup_of_retain {p : TimedLease → Bool} (h : (leases.retain p).lookup id = some lease) :
    leases.lookup id = some lease ∧ p lease := by
  rw [lookup_retain, filter_eq_some_iff] at h
  exact h

/-- A call ends, or none does, and leases only go. -/
theorem Inv.callsFit (hi : s.Inv)
    (hlss : ∀ id lease, leases.lookup id = some lease → s.leases.lookup id = some lease)
    (h : s.calls.lookup i = some call) : CallFits leases s.granted.length call :=
  (hi.calls i call h).mono (Nat.le_refl _) fun id lease _ h => ⟨lease, hlss id lease h, rfl⟩

theorem Inv.start {op : LeaseOp} (hi : s.Inv) (hknown : ∀ id ∈ op.token, id < s.granted.length) :
    Inv { s with calls := s.calls.insert i ⟨op, s.clock, false⟩ } := by
  refine hi.shrink rfl (fun _ _ h => h) (append_nil _).symm nofun nofun nofun ?_
  exact forall_lookup_insert ⟨hknown, nofun⟩ hi.calls

theorem Inv.sweep (hi : s.Inv) (hc : s.calls.lookup i = some call) :
    Inv { s with
      leases := LeaseTable.sweepExpired s.leases call.now
      calls := s.calls.insert i { call with swept := true } } := by
  refine hi.shrink rfl (fun _ _ h => (lookup_of_retain h).1) (append_nil _).symm nofun nofun
    nofun ?_
  intro j call' h
  rcases lookup_of_insert h with ⟨rfl, rfl⟩ | ⟨-, h⟩
  · refine ⟨(hi.calls j call hc).known, ?_⟩
    intro _ id _ lease hls
    exact of_decide_eq_true (lookup_of_retain hls).2
  · exact hi.callsFit (fun _ _ h => (lookup_of_retain h).1) h

theorem Inv.finish (hi : s.Inv) (hc : s.calls.lookup i = some call) (hswept : call.swept) :
    Inv { s.act call now with calls := s.calls.erase i } := by
  have hf := hi.calls i call hc
  have hcalls : ∀ j call', (s.calls.erase i).lookup j = some call' →
      CallFits s.leases s.granted.length call' :=
    fun j call' h => hi.calls j call' (lookup_of_erase h).2
  -- Calls that leave a record and the table as it is.
  have hlogged : ∀ r : LeaseRecord, (∀ id, r.consumes id = false) → Past s.granted.length r →
      (∀ b, r.Precedes b) → Inv { s with log := s.log ++ [r], calls := s.calls.erase i } := by
    intro r hr hps hprecedes
    exact hi.shrink rfl (fun _ _ h => h) rfl (by simpa using hr) (by simpa using hps)
      (by simpa using fun id lease now blocks _ => hprecedes _) hcalls
  obtain ⟨op, readAt, swept⟩ := call
  cases op with
  | create instanceId blocks consumers => exact hi.create
  | consume instanceId token =>
    cases token with
    | none => exact hlogged _ (fun _ => rfl) trivial fun _ => trivial
    | some id =>
      simp only [act]
      split
      next blocks leases hcs =>
        exact hi.consume hcs (hf.alive hswept id rfl)
      next message leases hcs =>
        cases consume_eq_error hcs
        exact hlogged _ (fun _ => rfl) trivial fun _ => trivial
  | release token =>
    cases token with
    | none => exact hlogged _ (fun _ => rfl) trivial fun _ => trivial
    | some id =>
      simp only [act]
      split
      · have herase : ∀ id' lease, (s.leases.erase id).lookup id' = some lease →
            s.leases.lookup id' = some lease :=
          fun _ _ h => (lookup_of_erase h).2
        refine hi.shrink rfl herase rfl (by simp [LeaseRecord.consumes]) ?_ ?_ ?_
        · simpa [Past] using hf.known id rfl
        · intro r hr id' lease now blocks h
          cases mem_singleton.mp hr
          exact (lookup_of_erase h).1
        · exact fun j call' h => hi.callsFit herase (lookup_of_erase h).2
      · exact hlogged _ (fun _ => rfl) trivial fun _ => trivial
  | sweep => exact hi.shrink rfl (fun _ _ h => h) (append_nil _).symm nofun nofun nofun hcalls

theorem Inv.releaseInstance (hi : s.Inv) (instanceId : InstanceId) :
    Inv { s with
      leases := LeaseTable.releaseInstance s.leases instanceId
      log := s.log ++ [.releasedInstance instanceId s.granted.length] } := by
  have hlss : ∀ id lease, (LeaseTable.releaseInstance s.leases instanceId).lookup id = some lease →
      s.leases.lookup id = some lease ∧ lease.instanceId ≠ instanceId :=
    fun _ _ h => (lookup_of_retain h).imp_right of_decide_eq_true
  refine hi.shrink rfl (fun id lease h => (hlss id lease h).1) rfl
    (by simp [LeaseRecord.consumes]) (by simp [Past]) ?_ ?_
  · intro r hr id lease now blocks h
    cases mem_singleton.mp hr
    exact fun _ => (hlss id lease h).2
  · exact fun i call h => hi.callsFit (fun id lease h => (hlss id lease h).1) h

variable {ev : LeaseEvent}

theorem Inv.step (hi : s.Inv) (h : s.step ev = some s') : s'.Inv := by
  cases ev with
  | tick now =>
    obtain ⟨-, rfl⟩ := guarded_eq_some.mp h
    exact hi.shrink rfl (fun _ _ h => h) (append_nil _).symm nofun nofun nofun hi.calls
  | start i op =>
    obtain ⟨⟨-, hknown⟩, rfl⟩ := guarded_eq_some.mp h
    exact hi.start hknown
  | sweep i =>
    simp only [LeaseState.step] at h
    split at h
    next call hc =>
      obtain ⟨-, rfl⟩ := guarded_eq_some.mp h
      exact hi.sweep hc
    · cases h
  | finish i now =>
    simp only [LeaseState.step] at h
    split at h
    next call hc =>
      obtain ⟨⟨hswept, -⟩, rfl⟩ := guarded_eq_some.mp h
      exact hi.finish hc hswept
    · cases h
  | releaseInstance instanceId =>
    cases h
    exact hi.releaseInstance instanceId

/-- Whatever the calls, their order and the clock, the account is right, and a `consume` by another
instance is refused and leaves the leases as they are. -/
theorem leases_accounted (events : List LeaseEvent) (hrun : Run.exec step init events = some s) :
    s.Accounted ∧ ∀ i call instanceId id g now s', s.calls.lookup i = some call →
      call.op = .consume instanceId (some id) → s.granted[id]? = some g →
      instanceId ≠ g.instanceId → s.step (.finish i now) = some s' →
      s'.leases = s.leases ∧
        ∃ message, s'.log = s.log ++ [.refused (some id) instanceId message] := by
  have hinv : s.Inv := exec_invariant (I := Inv) (fun _ _ _ hi h => hi.step h) inv_init hrun
  refine ⟨hinv.toAccounted, ?_⟩
  intro i call instanceId id g now s' hcall hop hg hne h
  simp only [step, hcall] at h
  obtain ⟨-, rfl⟩ := guarded_eq_some.mp h
  simp only [act, hop]
  split
  next hconsume =>
    obtain ⟨lease, hlease, hinstance, -⟩ := consume_eq_ok hconsume
    obtain ⟨g', hg', hleft⟩ := hinv.leases id lease hlease
    cases hg.symm.trans hg'
    exact absurd (hinstance.symm.trans hleft.instanceId) hne
  next hconsume =>
    cases consume_eq_error hconsume
    exact ⟨rfl, _, rfl⟩

/-- A call that is not interrupted. -/
def uninterrupted (i now : Nat) (op : LeaseOp) : List LeaseEvent :=
  [.tick now, .start i op, .sweep i, .finish i now]

/-- A lease for two consumers, with another instance in between, and a third that comes too late. -/
theorem leases_accounted_two_consumers :
    ∃ s ∈ Run.exec step init
        (uninterrupted 0 1 (.create "a" [(⟨"x", [1]⟩, .plain 8)] 2) ++
          uninterrupted 0 2 (.consume "a" (some 0)) ++ uninterrupted 0 3 (.consume "b" (some 0)) ++
          uninterrupted 0 4 (.consume "a" (some 0)) ++ uninterrupted 0 5 (.consume "a" (some 0))),
      s.log.countP (·.consumes 0) = 2 ∧ s.Accounted := by
  refine exists_mem_imp (Q := fun s => s.log.countP (·.consumes 0) = 2) (by decide)
    fun s hs hcount => ?_
  exact ⟨hcount, (leases_accounted _ hs).1⟩

/-! ## The manager without a clock -/

/-- The same leases, without their times. -/
structure Untimed (s : LeaseState) (m : LeaseManager) : Prop where
  granted : m.granted = s.granted.map fun g => ⟨g.instanceId, g.blocks, max g.consumers 1⟩
  leases : ∀ id, m.leases.lookup id = (s.leases.lookup id).map TimedLease.toQueryLease

/-- What a step of the manager without a clock can do. -/
inductive UntimedStep (m : LeaseManager) : LeaseManager → Prop where
  | same : UntimedStep m m
  | create : UntimedStep m (m.create instanceId blocks consumers).2
  | consume (h : m.consume instanceId token = .ok (blocks, m')) : UntimedStep m m'
  | release : UntimedStep m (m.release token)
  | sweepExpired : UntimedStep m (m.sweepExpired expired)

variable {m : LeaseManager} (hm : Untimed s m)
include hm

/-- Leases that are dropped are ones that a sweep can find expired. -/
theorem Untimed.retain (p : TimedLease → Bool) :
    ∃ expired, Untimed { s with leases := s.leases.retain p } (m.sweepExpired expired) := by
  refine ⟨s.leases.keys.filter fun id => ((s.leases.retain p).lookup id).isNone, hm.granted, ?_⟩
  intro id
  simp only [LeaseManager.sweepExpired, lookup_foldl_erase, mem_filter, lookup_retain, hm.leases]
  cases hls : s.leases.lookup id with
  | none => simp
  | some lease =>
    have hmem : id ∈ s.leases.keys := lookup_isSome.mp (by simp [hls])
    cases hp : p lease <;> simp [hmem, filter_some, hp]

theorem Untimed.insert (entry : TimedLease) (id id' : LeaseId) :
    (m.leases.insert id entry.toQueryLease).lookup id' =
      ((s.leases.insert id entry).lookup id').map TimedLease.toQueryLease := by
  by_cases hid : id' = id
  · subst hid
    rw [lookup_insert, lookup_insert, map_some]
  · rw [lookup_insert_ne hid, lookup_insert_ne hid, hm.leases]

theorem Untimed.erase (id id' : LeaseId) :
    (m.leases.erase id).lookup id' =
      ((s.leases.erase id).lookup id').map TimedLease.toQueryLease := by
  by_cases hid : id' = id
  · subst hid
    rw [lookup_erase, lookup_erase, map_none]
  · rw [lookup_erase_ne hid, lookup_erase_ne hid, hm.leases]

theorem Untimed.consume {instanceId : InstanceId} {blocks : List FoundBlock}
    (h : LeaseTable.consume s.leases instanceId id = (.ok blocks, leases)) :
    ∃ m', m.consume instanceId id = .ok (blocks, m') ∧ Untimed { s with leases := leases } m' := by
  have hlk := hm.leases id
  unfold LeaseTable.consume at h
  split at h
  · cases h
  next lease hls =>
    rw [hls, map_some] at hlk
    unfold LeaseManager.consume
    rw [hlk]
    dsimp only
    split at h
    · cases h
    next hin =>
      rw [if_neg hin]
      split at h
      next hmr =>
        cases h
        rw [if_pos hmr]
        exact ⟨_, rfl, hm.granted,
          hm.insert { lease with remainingConsumers := lease.remainingConsumers - 1 } id⟩
      next hl =>
        cases h
        rw [if_neg hl]
        exact ⟨_, rfl, hm.granted, hm.erase id⟩

/-- The part of a call that holds the lock does what the manager without a clock does. -/
theorem Untimed.act : ∃ m', UntimedStep m m' ∧ Untimed (s.act call now) m' := by
  obtain ⟨op, readAt, swept⟩ := call
  cases op with
  | create instanceId blocks consumers =>
    refine ⟨(m.create instanceId blocks consumers).2, .create, ?_, ?_⟩
    · simp [LeaseState.act, hm.granted]
    · have hlen : m.granted.length = s.granted.length := by rw [hm.granted, length_map]
      intro id
      simp only [LeaseManager.create, hlen]
      exact hm.insert ⟨⟨instanceId, blocks, max consumers 1⟩, now + defaultLeaseTtl⟩ _ id
  | consume instanceId token =>
    cases token with
    | none => exact ⟨m, .same, hm.granted, hm.leases⟩
    | some id =>
      simp only [LeaseState.act]
      split
      next hcs =>
        obtain ⟨m', hm', huntimed⟩ := hm.consume hcs
        exact ⟨m', .consume hm', huntimed.granted, huntimed.leases⟩
      next hcs =>
        cases consume_eq_error hcs
        exact ⟨m, .same, hm.granted, hm.leases⟩
  | release token =>
    cases token with
    | none => exact ⟨m, .same, hm.granted, hm.leases⟩
    | some id =>
      simp only [LeaseState.act]
      split
      · exact ⟨m.release id, .release, hm.granted, hm.erase id⟩
      · exact ⟨m, .same, hm.granted, hm.leases⟩
  | sweep => exact ⟨m, .same, hm⟩

/-- Every step is a step of the manager without a clock. -/
theorem Untimed.step (h : s.step ev = some s') : ∃ m', UntimedStep m m' ∧ Untimed s' m' := by
  cases ev with
  | tick now | start i op =>
    obtain ⟨-, rfl⟩ := guarded_eq_some.mp h
    exact ⟨m, .same, hm.granted, hm.leases⟩
  | sweep i =>
    simp only [LeaseState.step] at h
    split at h
    · obtain ⟨-, rfl⟩ := guarded_eq_some.mp h
      obtain ⟨expired, hretain⟩ := hm.retain _
      exact ⟨_, .sweepExpired, hretain.granted, hretain.leases⟩
    · cases h
  | finish i now =>
    simp only [LeaseState.step] at h
    split at h
    · obtain ⟨-, rfl⟩ := guarded_eq_some.mp h
      obtain ⟨m', hst, hm'⟩ := hm.act
      exact ⟨m', hst, hm'.granted, hm'.leases⟩
    · cases h
  | releaseInstance instanceId =>
    cases h
    obtain ⟨expired, hretain⟩ := hm.retain _
    exact ⟨_, .sweepExpired, hretain.granted, hretain.leases⟩

omit hm

end LeaseState

end PegaFlow.Storage
