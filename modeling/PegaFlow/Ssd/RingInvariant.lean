import Mathlib.Algebra.Order.BigOperators.Group.List
import Mathlib.Algebra.Order.Group.Nat
import PegaFlow.Lib.CircularLog
import PegaFlow.Ssd.Ring

/-!
# The rings as circular logs

Every shard of an `SsdRingBuffer` is a `CircularLog`: `prepareBatch` appends to
the log of the shard under the cursor, `commit` touches no log.  The history a
log needs is what the writer was handed, so a `Ledger` pairs the ring with every
`WriteInfo` it returned, oldest first, and the operations act on ledgers.

* `Allocates` says everything one allocation does, to the shards and to the
  index.  `prepareLoop_induct` reduces a statement about `prepareBatch` to it.
* `Ledger.WF` is the invariant: each shard's log is well formed and each
  allocation is where its log puts it.

The last part collects what follows for every sequence of calls.
-/

set_option linter.unusedSectionVars false

namespace PegaFlow.Ssd

open List Option Table SsdRingBuffer

variable {κ : Type}

/-! ## Shards -/

/-- A shard by number. -/
def SsdRingBuffer.shardAt (rb : SsdRingBuffer κ) (i : Nat) : SsdShardRing κ :=
  rb.shards[i]?.getD (SsdShardRing.new 0)

variable {i : Nat} {rb : SsdRingBuffer κ}

theorem SsdRingBuffer.shardAt_of_lt (h : i < rb.shards.length) :
    rb.shards[i]? = some (rb.shardAt i) := by
  simp [shardAt, getElem?_eq_getElem h]

theorem SsdRingBuffer.shardAt_of_get {shard : SsdShardRing κ}
    (h : rb.shards[i]? = some shard) : rb.shardAt i = shard := by
  simp [shardAt, h]

theorem SsdRingBuffer.isOffsetValid_iff {e : SsdIndexEntry} :
    rb.isOffsetValid e ↔
      e.shardId < rb.shards.length ∧ (rb.shardAt e.shardId).tail ≤ e.begin := by
  unfold isOffsetValid shardAt
  cases h : rb.shards[e.shardId]? with
  | none => simp [getElem?_eq_none_iff.mp h]
  | some shard =>
    obtain ⟨hlt, -⟩ := List.getElem?_eq_some_iff.mp h
    simp [hlt]

theorem SsdRingBuffer.shardAt_setShard (rb : SsdRingBuffer κ) (j : Nat) (shard : SsdShardRing κ)
    (h : i < rb.shards.length) :
    (rb.setShard i shard).shardAt j = if i = j then shard else rb.shardAt j := by
  unfold shardAt setShard
  rw [getElem?_set]
  split
  · simp
  · rfl

/-- Queueing a key changes nothing but the queue of its shard. -/
theorem getD_modify_order (shards : List (SsdShardRing κ)) (i j : Nat) (key : κ) :
    ∃ order, (shards.modify i fun s => { s with order := s.order ++ [key] })[j]?.getD
        (SsdShardRing.new 0) =
      if i = j then { shards[j]?.getD (SsdShardRing.new 0) with order := order }
      else shards[j]?.getD (SsdShardRing.new 0) := by
  rw [getElem?_modify]
  cases h : shards[j]? with
  | none =>
    refine ⟨[], ?_⟩
    split <;> rfl
  | some shard =>
    refine ⟨shard.order ++ [key], ?_⟩
    split <;> rfl

/-! ## Pruning -/

section

variable [DecidableEq κ]

/-- Pruning only removes entries. -/
theorem lookup_of_lookup_pruneFront {newTail : Nat} {order : List κ}
    {entries : Table κ SsdEntryState} {k : κ} {st : SsdEntryState}
    (h : (pruneFront newTail order entries).2.lookup k = some st) : entries.lookup k = some st := by
  induction order generalizing entries with
  | nil => exact h
  | cons key order ih =>
    unfold pruneFront at h
    split at h
    · split at h
      · exact h
      · exact (lookup_of_erase (ih h)).2
    · exact (lookup_of_erase (ih h)).2

/-! ## One allocation -/

/-- What making the allocation `w` does to a ring. -/
structure Allocates (rb : SsdRingBuffer κ) (w : WriteInfo κ) (rb' : SsdRingBuffer κ) :
    Prop where
  shard_lt : w.entry.shardId < rb.shards.length
  length_eq : rb'.shards.length = rb.shards.length
  len_eq : w.entry.len = w.block.memoryFootprint
  len_le : w.entry.len ≤ (rb.shardAt w.entry.shardId).capacity
  begin_eq : w.entry.begin = (rb.shardAt w.entry.shardId).beginFor w.entry.len
  offset_eq : w.entry.fileOffset = w.entry.begin % (rb.shardAt w.entry.shardId).capacity
  capacity_eq : ∀ i, (rb'.shardAt i).capacity = (rb.shardAt i).capacity
  head_eq : (rb'.shardAt w.entry.shardId).head = w.entry.begin + w.entry.len
  tail_eq : (rb'.shardAt w.entry.shardId).tail =
    max (rb.shardAt w.entry.shardId).tail
      (w.entry.begin + w.entry.len - (rb.shardAt w.entry.shardId).capacity)
  elsewhere : ∀ i, i ≠ w.entry.shardId → rb'.shardAt i = rb.shardAt i
  lookup_key : rb'.entries.lookup w.key = some (.writing w.entry)
  /-- The index has nothing new under any other key. -/
  lookup_of_ne : ∀ k st, k ≠ w.key → rb'.entries.lookup k = some st →
    rb.entries.lookup k = some st

namespace SsdRingBuffer

variable {rb rb' : SsdRingBuffer κ}

variable (rb)

theorem getElem_shards {i : Nat} (h : i < rb.shards.length) :
    rb.shards[i] = rb.shardAt i := by
  simp [shardAt, getElem?_eq_getElem h]

theorem advanceTail_length (i newTail : Nat) (h : i < rb.shards.length) :
    (rb.advanceTail i newTail h).shards.length = rb.shards.length := by
  unfold advanceTail
  dsimp only
  split
  · rfl
  · exact length_set

theorem shardAt_advanceTail (i newTail j : Nat) (h : i < rb.shards.length) :
    ∃ order, (rb.advanceTail i newTail h).shardAt j =
      if i = j then { rb.shardAt i with tail := max (rb.shardAt i).tail newTail, order := order }
      else rb.shardAt j := by
  have hat := rb.getElem_shards h
  unfold advanceTail
  dsimp only
  rw [hat]
  split
  next hle =>
    refine ⟨(rb.shardAt i).order, ?_⟩
    rw [Nat.max_eq_left hle]
    split
    next hij =>
      rw [hij]
    · rfl
  next hgt =>
    refine ⟨(pruneFront newTail (rb.shardAt i).order rb.entries).1, ?_⟩
    rw [Nat.max_eq_right (Nat.le_of_not_le hgt)]
    exact rb.shardAt_setShard j _ h

variable {rb} {i : Nat} {k : κ} {st : SsdEntryState}

theorem lookup_of_lookup_advanceTail {newTail : Nat} {h : i < rb.shards.length}
    (hk : (rb.advanceTail i newTail h).entries.lookup k = some st) :
    rb.entries.lookup k = some st := by
  unfold advanceTail at hk
  dsimp only at hk
  split at hk
  · exact hk
  · exact lookup_of_lookup_pruneFront hk

theorem allocateContiguous_spec {size start offset : Nat} {hi : i < rb.shards.length}
    (h : rb.allocateContiguous i size hi = some (start, offset, rb')) :
    size ≤ (rb.shardAt i).capacity ∧ start = (rb.shardAt i).beginFor size ∧
      offset = start % (rb.shardAt i).capacity ∧ rb'.shards.length = rb.shards.length ∧
      (∀ j, ∃ order, rb'.shardAt j =
        if i = j then
          ⟨(rb.shardAt i).capacity, start + size,
            max (rb.shardAt i).tail (start + size - (rb.shardAt i).capacity), order⟩
        else rb.shardAt j) ∧
      ∀ k st, rb'.entries.lookup k = some st → rb.entries.lookup k = some st := by
  have hat := rb.getElem_shards hi
  unfold allocateContiguous at h
  simp only [hat] at h
  split at h
  · cases h
  rename_i hf
  obtain ⟨rfl, rfl, rfl⟩ := h
  refine ⟨Nat.le_of_not_lt hf, rfl, rfl, ?_, ?_, ?_⟩
  · rw [advanceTail_length]
    exact length_set
  · intro j
    obtain ⟨order, hord⟩ := shardAt_advanceTail
      (rb.setShard i { rb.shardAt i with head := (rb.shardAt i).beginFor size + size }) i
      ((rb.shardAt i).beginFor size + size - (rb.shardAt i).capacity) j
      (hi.trans_eq length_set.symm)
    refine ⟨order, hord.trans ?_⟩
    rw [shardAt_setShard rb i _ hi, shardAt_setShard rb j _ hi, if_pos rfl]
    split <;> rfl
  · intro k st hk
    have hprev := lookup_of_lookup_advanceTail hk
    exact hprev

variable {key : κ} {w : WriteInfo κ}

theorem prepareOne_allocates {block : SealedBlock} (h : rb.prepareOne key block = some (rb', w)) :
    w.key = key ∧ w.block = block ∧ Allocates rb w rb' := by
  unfold prepareOne at h
  dsimp only at h
  split at h
  · cases h
  rename_i start offset rb₁ ha
  obtain ⟨hlen, hsta, hoff, hlength, hshards, hlk⟩ := allocateContiguous_spec ha
  obtain ⟨rfl, rfl⟩ := h
  -- The shards after the key is queued: only the allocating shard differs.
  have hat : ∀ j, ∃ order, (rb₁.shards.modify rb.nextShard fun s =>
        { s with order := s.order ++ [key] })[j]?.getD (SsdShardRing.new 0) =
      if rb.nextShard = j then
        ⟨(rb.shardAt rb.nextShard).capacity, start + block.memoryFootprint,
          max (rb.shardAt rb.nextShard).tail
            (start + block.memoryFootprint - (rb.shardAt rb.nextShard).capacity), order⟩
      else rb.shardAt j := by
    intro j
    obtain ⟨order, hord⟩ := getD_modify_order rb₁.shards rb.nextShard j key
    obtain ⟨order₁, hord₁⟩ := hshards j
    refine ⟨order, hord.trans ?_⟩
    change (if rb.nextShard = j then { rb₁.shardAt j with order := order } else rb₁.shardAt j) = _
    rw [hord₁]
    split <;> rfl
  refine ⟨rfl, rfl, rb.next_lt, ?_, rfl, hlen, hsta, hoff, ?_, ?_, ?_, ?_, ?_, ?_⟩
  · exact (length_modify ..).trans hlength
  · intro j
    obtain ⟨order, hord⟩ := hat j
    unfold shardAt at hord ⊢
    rw [hord]
    split
    next hj =>
      rw [hj]
    · rfl
  · obtain ⟨order, hord⟩ := hat rb.nextShard
    unfold shardAt at hord ⊢
    rw [hord, if_pos rfl]
  · obtain ⟨order, hord⟩ := hat rb.nextShard
    unfold shardAt at hord ⊢
    rw [hord, if_pos rfl]
  · intro j hj
    obtain ⟨order, hord⟩ := hat j
    unfold shardAt at hord ⊢
    rw [hord, if_neg (Ne.symm hj)]
  · exact AList.lookup_insert _
  · intro k st hk hst
    rcases lookup_of_insert hst with ⟨heq, -⟩ | ⟨-, hst⟩
    · exact (hk heq).elim
    · exact hlk k st hst

variable {P : SsdRingBuffer κ → List (WriteInfo κ) → Prop} {candidates : List (κ × SealedBlock)}

/-- A statement about a ring and the allocations made in it survives the loop of
`prepareBatch` when it survives each round. -/
theorem prepareLoop_induct_one (ws : List (WriteInfo κ))
    (hst : ∀ rb w rb' ws, P rb ws → rb.prepareOne w.key w.block = some (rb', w) →
      (w.key, w.block) ∈ candidates → P rb' (ws ++ [w])) (h : P rb ws) :
    P (rb.prepareLoop candidates).1 (ws ++ (rb.prepareLoop candidates).2) := by
  induction candidates generalizing rb ws with
  | nil => simpa [prepareLoop] using h
  | cons c rest ih =>
    obtain ⟨key, block⟩ := c
    have hr : ∀ rb w rb' ws, P rb ws → rb.prepareOne w.key w.block = some (rb', w) →
        (w.key, w.block) ∈ rest → P rb' (ws ++ [w]) :=
      fun rb w rb' ws hP hone hm => hst rb w rb' ws hP hone (mem_cons_of_mem _ hm)
    unfold prepareLoop
    split
    · exact ih ws hr h
    next rb₁ w hone =>
      obtain ⟨rfl, rfl, -⟩ := prepareOne_allocates hone
      have hw : P rb₁ (ws ++ [w]) := hst rb w rb₁ ws h hone mem_cons_self
      have hall := ih (ws ++ [w]) hr hw
      rwa [append_assoc] at hall

/-- The same for a statement that survives each allocation. -/
theorem prepareLoop_induct (ws : List (WriteInfo κ))
    (hst : ∀ rb w rb' ws, P rb ws → Allocates rb w rb' → (w.key, w.block) ∈ candidates →
      P rb' (ws ++ [w])) (h : P rb ws) :
    P (rb.prepareLoop candidates).1 (ws ++ (rb.prepareLoop candidates).2) := by
  refine prepareLoop_induct_one ws ?_ h
  intro rb w rb' ws hP hone hm
  exact hst rb w rb' ws hP (prepareOne_allocates hone).2.2 hm

variable {e : SsdIndexEntry}

/-- Preparing a batch makes nothing readable. -/
theorem committed_of_prepareBatch
    (h : (rb.prepareBatch candidates).1.entries.lookup k = some (.committed e)) :
    rb.entries.lookup k = some (.committed e) := by
  revert k e
  refine prepareLoop_induct (P := fun rb' _ => ∀ {k e},
    rb'.entries.lookup k = some (.committed e) → rb.entries.lookup k = some (.committed e)) [] ?_ id
  intro rb₁ w rb₂ _ hprev ha _ k e hk
  by_cases hkey : k = w.key
  · subst hkey
    cases ha.lookup_key.symm.trans hk
  · exact hprev (ha.lookup_of_ne k _ hkey hk)

variable (rb) (candidates)

/-- The writes of a batch are for some of the candidates, in their order. -/
theorem prepareLoop_sublist :
    ((rb.prepareLoop candidates).2.map fun w => (w.key, w.block)).Sublist candidates := by
  induction candidates generalizing rb with
  | nil => exact List.Sublist.refl _
  | cons c rest ih =>
    unfold prepareLoop
    split
    · exact (ih rb).cons _
    next rb₁ w hone =>
      obtain ⟨hk, hb, -⟩ := prepareOne_allocates hone
      rw [map_cons, hk, hb]
      exact (ih rb₁).cons_cons _

theorem prepareLoop_keys_sublist :
    ((rb.prepareLoop candidates).2.map WriteInfo.key).Sublist (candidates.map Prod.fst) := by
  have h := (rb.prepareLoop_sublist candidates).map Prod.fst
  rwa [List.map_map] at h

variable {rb} {candidates}

theorem prepareLoop_len (hw : w ∈ (rb.prepareLoop candidates).2) :
    w.entry.len = w.block.memoryFootprint := by
  refine prepareLoop_induct (P := fun _ ws => ∀ w ∈ ws, w.entry.len = w.block.memoryFootprint)
    [] ?_ (by simp) w hw
  intro rb₁ v rb₂ ws hws ha _ u hu
  rcases mem_append.mp hu with hu | hu
  · exact hws u hu
  · rw [mem_singleton.mp hu]
    exact ha.len_eq

/-- A batch allocates no more bytes than its candidates have. -/
theorem prepareLoop_bytes_le (rb : SsdRingBuffer κ) (candidates : List (κ × SealedBlock)) :
    ((rb.prepareLoop candidates).2.map fun w => w.entry.len).sum ≤
      (candidates.map fun c => c.2.memoryFootprint).sum := by
  have hlen : ((rb.prepareLoop candidates).2.map fun w => w.entry.len) =
      ((rb.prepareLoop candidates).2.map fun w => (w.key, w.block)).map
        fun c => c.2.memoryFootprint := by
    rw [List.map_map]
    exact map_congr_left fun w hw => prepareLoop_len hw
  rw [hlen]
  exact ((rb.prepareLoop_sublist candidates).map _).sum_le_sum fun _ _ => Nat.zero_le _

/-- A batch leaves the entries of other keys as they were, or prunes them. -/
theorem lookup_of_lookup_prepareLoop (hk : k ∉ candidates.map Prod.fst)
    (h : (rb.prepareLoop candidates).1.entries.lookup k = some st) :
    rb.entries.lookup k = some st := by
  refine prepareLoop_induct (P := fun rb' _ =>
    rb'.entries.lookup k = some st → rb.entries.lookup k = some st) [] ?_ id h
  intro rb₁ w rb₂ _ hprev ha hm hst
  have hne : k ≠ w.key := by
    rintro rfl
    exact hk (List.mem_map.mpr ⟨_, hm, rfl⟩)
  exact hprev (ha.lookup_of_ne k st hne hst)

/-- A batch without repeated keys leaves each of its allocations under its own
key, unless it prunes it again. -/
theorem prepareLoop_own (hnd : (candidates.map Prod.fst).Nodup)
    (hw : w ∈ (rb.prepareLoop candidates).2)
    (h : (rb.prepareLoop candidates).1.entries.lookup w.key = some st) : st = .writing w.entry := by
  induction candidates generalizing rb with
  | nil => cases hw
  | cons c rest ih =>
    obtain ⟨hk, hr⟩ := nodup_cons.mp hnd
    unfold prepareLoop at hw h
    split at hw
    next hone =>
      simp only [hone] at h
      exact ih hr hw h
    next rb₁ v hone =>
      simp only [hone] at h
      obtain ⟨hvkey, -, ha⟩ := prepareOne_allocates hone
      rcases mem_cons.mp hw with rfl | hw
      · have hprev := lookup_of_lookup_prepareLoop (by rw [hvkey]; exact hk) h
        rw [ha.lookup_key] at hprev
        exact (some.inj hprev).symm
      · exact ih hr hw h

theorem commit_shards (rb : SsdRingBuffer κ) (key : κ) (success : Bool) :
    (rb.commit key success).1.shards = rb.shards := by
  unfold commit
  split
  · rfl
  · rfl
  · split
    · rfl
    · split <;> rfl

/-- `commit` adds nothing to the index but the committed form of a valid entry
that was being written under the key. -/
theorem lookup_of_lookup_commit {success : Bool}
    (h : (rb.commit key success).1.entries.lookup k = some st) :
    rb.entries.lookup k = some st ∨
      k = key ∧ success ∧ ∃ e, st = .committed e ∧
        rb.entries.lookup key = some (.writing e) ∧ rb.isOffsetValid e := by
  unfold commit at h
  split at h
  · exact Or.inl h
  · exact Or.inl h
  next e hk =>
    split at h
    · exact Or.inl (lookup_of_erase h).2
    next hval =>
      split at h
      next hsuccess =>
        rcases lookup_of_insert h with ⟨rfl, rfl⟩ | ⟨-, h⟩
        · exact Or.inr ⟨rfl, hsuccess, e, rfl, hk, by simpa using hval⟩
        · exact Or.inl h
      · exact Or.inl (lookup_of_erase h).2

theorem get_eq_some :
    rb.get k = some e ↔
      rb.entries.lookup k = some (.committed e) ∧ rb.isOffsetValid e := by
  unfold get
  split
  next e' hk =>
    rw [ite_none_right_eq_some, hk]
    constructor
    · rintro ⟨hv, he⟩
      cases he
      exact ⟨rfl, hv⟩
    · rintro ⟨he, hv⟩
      cases he
      exact ⟨hv, rfl⟩
  next hne =>
    constructor
    · intro h
      cases h
    · rintro ⟨he, -⟩
      exact (hne e he).elim

end SsdRingBuffer

/-! ## Ledgers -/

/-- A ring with every allocation made in it, oldest first. -/
structure Ledger (κ : Type) where
  ring : SsdRingBuffer κ
  allocated : List (WriteInfo κ)

/-- The calls that change a ring. -/
inductive RingOp (κ : Type) where
  | prepareBatch (candidates : List (κ × SealedBlock))
  | commit (key : κ) (success : Bool)

namespace Ledger

def new (shardCapacities : List Nat) (h : shardCapacities ≠ []) : Ledger κ :=
  ⟨SsdRingBuffer.newSharded shardCapacities h, []⟩

def apply (l : Ledger κ) : RingOp κ → Ledger κ
  | .prepareBatch candidates =>
    ⟨(l.ring.prepareBatch candidates).1, l.allocated ++ (l.ring.prepareBatch candidates).2⟩
  | .commit key success => ⟨(l.ring.commit key success).1, l.allocated⟩

/-- The ledger after a sequence of calls. -/
def run (l : Ledger κ) (ops : List (RingOp κ)) : Ledger κ := ops.foldl apply l

variable {l : Ledger κ}

/-- What a call survives when each allocation does, and when it speaks of the
shards and the allocations only. -/
theorem apply_induct {P : Ledger κ → Prop} (op : RingOp κ)
    (hshards : ∀ rb rb' ws, rb'.shards = rb.shards → P ⟨rb, ws⟩ → P ⟨rb', ws⟩)
    (hal : ∀ rb w rb' ws, P ⟨rb, ws⟩ → Allocates rb w rb' →
      (∃ cs, op = .prepareBatch cs ∧ (w.key, w.block) ∈ cs) → P ⟨rb', ws ++ [w]⟩) (h : P l) :
    P (l.apply op) := by
  cases op with
  | prepareBatch candidates =>
    refine prepareLoop_induct (P := fun rb ws => P ⟨rb, ws⟩) l.allocated ?_ h
    intro rb w rb' ws hP ha hm
    exact hal rb w rb' ws hP ha ⟨candidates, rfl, mem_of_mem_filter hm⟩
  | commit key success =>
    exact hshards l.ring _ l.allocated (l.ring.commit_shards key success) h

/-- The log of one shard. -/
def log (l : Ledger κ) (i : Nat) : CircularLog where
  cap := (l.ring.shardAt i).capacity
  head := (l.ring.shardAt i).head
  tail := (l.ring.shardAt i).tail
  ranges := (l.allocated.filter fun w => w.entry.shardId = i).map fun w => w.entry.logicalRange

variable {rb rb' : SsdRingBuffer κ} {w : WriteInfo κ}

/-- An allocation appends to the log of its shard. -/
theorem log_of_allocates (h : Allocates rb w rb') (ws : List (WriteInfo κ)) (i : Nat) :
    log ⟨rb', ws ++ [w]⟩ i =
      if i = w.entry.shardId then (log ⟨rb, ws⟩ i).append w.entry.len else log ⟨rb, ws⟩ i := by
  split
  next hi =>
    subst hi
    have hsta : w.entry.begin = CircularLog.nextStart (rb.shardAt w.entry.shardId).capacity
        (rb.shardAt w.entry.shardId).head w.entry.len := h.begin_eq
    simp only [log, CircularLog.append, h.capacity_eq, h.head_eq, h.tail_eq, ← hsta,
      filter_append, map_append]
    simp [SsdIndexEntry.logicalRange]
  next hi =>
    simp only [log, h.elsewhere i hi, filter_append, map_append]
    simp [Ne.symm hi]

/-- The log of every shard is well formed, and every allocation is stored where
the log puts it. -/
structure WF (l : Ledger κ) : Prop where
  log : ∀ i < l.ring.shards.length, (l.log i).WF
  shard_lt : ∀ w ∈ l.allocated, w.entry.shardId < l.ring.shards.length
  offset : ∀ w ∈ l.allocated,
    w.entry.fileOffset = w.entry.begin % (l.ring.shardAt w.entry.shardId).capacity

theorem log_of_shards_eq (ws : List (WriteInfo κ)) (h : rb'.shards = rb.shards) (i : Nat) :
    log ⟨rb', ws⟩ i = log ⟨rb, ws⟩ i := by
  simp only [log, shardAt, h]

variable {ws : List (WriteInfo κ)}

theorem WF.of_shards_eq (h : rb'.shards = rb.shards) (hl : WF ⟨rb, ws⟩) : WF ⟨rb', ws⟩ := by
  refine ⟨?_, ?_, ?_⟩
  · intro i hi
    rw [log_of_shards_eq ws h]
    exact hl.log i (h ▸ hi)
  · intro w hw
    rw [h]
    exact hl.shard_lt w hw
  · intro w hw
    have := hl.offset w hw
    simpa only [shardAt, h] using this

theorem WF.of_allocates (hl : WF ⟨rb, ws⟩) (h : Allocates rb w rb') : WF ⟨rb', ws ++ [w]⟩ := by
  refine ⟨?_, ?_, ?_⟩
  · intro i hi
    have hlog := hl.log i (h.length_eq ▸ hi)
    rw [log_of_allocates h]
    split
    next heq =>
      subst heq
      exact hlog.append h.len_le
    · exact hlog
  · intro v hv
    simp only [h.length_eq]
    rcases mem_append.mp hv with hv | hv
    · exact hl.shard_lt v hv
    · rw [mem_singleton.mp hv]
      exact h.shard_lt
  · intro v hv
    simp only [h.capacity_eq]
    rcases mem_append.mp hv with hv | hv
    · exact hl.offset v hv
    · rw [mem_singleton.mp hv]
      exact h.offset_eq

theorem WF.apply (h : l.WF) (op : RingOp κ) : (l.apply op).WF :=
  apply_induct op (fun _ _ _ hs hl => hl.of_shards_eq hs)
    (fun _ _ _ _ hl ha _ => hl.of_allocates ha) h

variable {caps : List Nat} (hne : caps ≠ [])

theorem shardAt_new (i : Nat) :
    (new caps hne : Ledger κ).ring.shardAt i = SsdShardRing.new (caps[i]?.getD 0) := by
  simp only [new, newSharded, shardAt, getElem?_map]
  cases caps[i]? <;> rfl

theorem WF.new (hpos : ∀ c ∈ caps, 0 < c) : (Ledger.new caps hne : Ledger κ).WF := by
  refine ⟨?_, by simp [Ledger.new], by simp [Ledger.new]⟩
  intro i hi
  have hlt : i < caps.length := by simpa [Ledger.new, newSharded] using hi
  unfold Ledger.log
  rw [shardAt_new, getElem?_eq_getElem hlt]
  exact CircularLog.wf_empty (hpos _ (getElem_mem hlt))

theorem WF.run (h : l.WF) (ops : List (RingOp κ)) : (l.run ops).WF :=
  foldlRecOn (motive := Ledger.WF) ops _ h fun _ h op _ => h.apply op

/-- Every entry of the index was allocated under its key. -/
def Indexed (l : Ledger κ) : Prop :=
  ∀ k st, l.ring.entries.lookup k = some st →
    ∃ w ∈ l.allocated, w.key = k ∧ w.entry = st.entry

theorem Indexed.apply (h : l.Indexed) (op : RingOp κ) : (l.apply op).Indexed := by
  cases op with
  | prepareBatch candidates =>
    refine prepareLoop_induct (P := fun rb ws => Indexed ⟨rb, ws⟩) l.allocated ?_ h
    intro rb w rb' ws hidx ha _ k st hk
    by_cases hkey : k = w.key
    · subst hkey
      refine ⟨w, by simp, rfl, ?_⟩
      cases ha.lookup_key.symm.trans hk
      rfl
    · obtain ⟨v, hv, hvk⟩ := hidx k st (ha.lookup_of_ne k st hkey hk)
      exact ⟨v, mem_append_left _ hv, hvk⟩
  | commit key success =>
    intro k st hk
    rcases lookup_of_lookup_commit hk with ho | ⟨rfl, -, e, rfl, ho, -⟩
    · exact h k st ho
    · exact h k (.writing e) ho

/-! ## What follows for the allocations -/

theorem mem_log (hw : w ∈ l.allocated) : w.entry.logicalRange ∈ (l.log w.entry.shardId).ranges := by
  refine List.mem_map.mpr ⟨w, ?_, rfl⟩
  simp [hw]

theorem WF.fileRange_eq (h : l.WF) (hw : w ∈ l.allocated) :
    w.entry.fileRange =
      ByteRange.place (l.log w.entry.shardId).cap w.entry.logicalRange := by
  simp only [SsdIndexEntry.fileRange, ByteRange.place, h.offset w hw]
  rfl

/-- No allocation made after one that the tail has not passed overlaps it in the
file. -/
theorem WF.disjoint_of_live (h : l.WF) :
    l.allocated.Pairwise fun w v =>
      w.entry.shardId = v.entry.shardId →
      (l.ring.shardAt w.entry.shardId).tail ≤ w.entry.begin →
      w.entry.fileRange.Disjoint v.entry.fileRange := by
  rw [pairwise_iff_forall_sublist]
  intro w v hsub hsh hl
  have hw : w ∈ l.allocated := hsub.subset (by simp)
  have hv : v ∈ l.allocated := hsub.subset (by simp)
  have hlog := (h.log w.entry.shardId (h.shard_lt w hw)).disjoint_of_live
  rw [Ledger.log, pairwise_map, pairwise_filter, pairwise_iff_forall_sublist] at hlog
  rw [h.fileRange_eq hw, h.fileRange_eq hv, ← hsh]
  exact hlog hsub (by simp) (by simp [hsh]) hl

theorem WF.inside_file (h : l.WF) (hw : w ∈ l.allocated) :
    w.entry.fileRange.Inside ⟨0, (l.ring.shardAt w.entry.shardId).capacity⟩ := by
  rw [h.fileRange_eq hw]
  exact (h.log _ (h.shard_lt w hw)).inside_file (mem_log hw)

/-! ## Capacities, cursors and alignment -/

/-- The capacities are those the ring was made with. -/
def HasCapacities (caps : List Nat) (l : Ledger κ) : Prop :=
  l.ring.shards.map SsdShardRing.capacity = caps

theorem HasCapacities.apply (h : l.HasCapacities caps) (op : RingOp κ) :
    (l.apply op).HasCapacities caps := by
  refine apply_induct op ?_ ?_ h
  · intro rb rb' ws hs hl
    exact (congrArg (map SsdShardRing.capacity) hs).trans hl
  · intro rb w rb' ws hl ha _
    refine Eq.trans ?_ hl
    apply ext_getElem
    · simp [ha.length_eq]
    · intro i h₁ h₂
      have hi : i < rb.shards.length := by simpa using h₂
      have hi' : i < rb'.shards.length := by simpa using h₁
      have hcap := ha.capacity_eq i
      simp only [shardAt, getElem?_eq_getElem hi, getElem?_eq_getElem hi', getD_some] at hcap
      simpa using hcap

theorem HasCapacities.new : (Ledger.new caps hne : Ledger κ).HasCapacities caps := by
  simp [HasCapacities, Ledger.new, newSharded, SsdShardRing.new, Function.comp_def]

theorem HasCapacities.run (h : l.HasCapacities caps) (ops : List (RingOp κ)) :
    (l.run ops).HasCapacities caps :=
  foldlRecOn (motive := HasCapacities caps) ops _ h fun _ h op _ => h.apply op

/-- One ledger's rings have as many shards as the other's and cursors at least
as far. -/
structure Precedes (l l' : Ledger κ) : Prop where
  length_eq : l'.ring.shards.length = l.ring.shards.length
  head_le : ∀ i, (l.ring.shardAt i).head ≤ (l'.ring.shardAt i).head
  tail_le : ∀ i, (l.ring.shardAt i).tail ≤ (l'.ring.shardAt i).tail

theorem precedes_apply (l : Ledger κ) (op : RingOp κ) : l.Precedes (l.apply op) := by
  refine apply_induct (P := l.Precedes) op ?_ ?_ ⟨rfl, fun _ => Nat.le_refl _, fun _ => Nat.le_refl _⟩
  · intro rb rb' ws hs hl
    refine ⟨(congrArg length hs).trans hl.length_eq, ?_, ?_⟩
    · simpa only [shardAt, hs] using hl.head_le
    · simpa only [shardAt, hs] using hl.tail_le
  · intro rb w rb' ws hl ha _
    have hlog := log_of_allocates ha ws
    refine ⟨ha.length_eq.trans hl.length_eq, ?_, ?_⟩
    · intro i
      refine (hl.head_le i).trans ?_
      change (Ledger.log ⟨rb, ws⟩ i).head ≤ (Ledger.log ⟨rb', ws ++ [w]⟩ i).head
      rw [hlog]
      split
      · exact CircularLog.head_le_append _ _
      · exact Nat.le_refl _
    · intro i
      refine (hl.tail_le i).trans ?_
      change (Ledger.log ⟨rb, ws⟩ i).tail ≤ (Ledger.log ⟨rb', ws ++ [w]⟩ i).tail
      rw [hlog]
      split
      · exact CircularLog.tail_le_append _ _
      · exact Nat.le_refl _

end Ledger

/-- The blocks of a call have sizes that are multiples of `a`. -/
def RingOp.SizesAligned (a : Nat) : RingOp κ → Prop
  | .prepareBatch candidates => ∀ c ∈ candidates, a ∣ c.2.memoryFootprint
  | .commit _ _ => True

namespace Ledger

def Aligned (a : Nat) (l : Ledger κ) : Prop := ∀ i, (l.log i).Aligned a

variable {a : Nat} {l : Ledger κ}

theorem Aligned.apply (h : l.Aligned a) {op : RingOp κ} (hop : op.SizesAligned a) :
    (l.apply op).Aligned a := by
  refine apply_induct op ?_ ?_ h
  · intro rb rb' ws hs hl i
    rw [log_of_shards_eq ws hs]
    exact hl i
  · intro rb w rb' ws hl ha hm i
    rw [log_of_allocates ha]
    split
    · obtain ⟨candidates, rfl, hc⟩ := hm
      refine (hl i).append ?_
      rw [ha.len_eq]
      exact hop _ hc
    · exact hl i

variable {caps : List Nat}

theorem Aligned.new (hne : caps ≠ []) (h : ∀ c ∈ caps, a ∣ c) :
    (Ledger.new caps hne : Ledger κ).Aligned a := by
  intro i
  refine ⟨?_, ?_, by simp [Ledger.log, Ledger.new]⟩
  · simp only [Ledger.log, shardAt_new, SsdShardRing.new]
    cases hc : caps[i]? with
    | none => exact Nat.dvd_zero a
    | some c => exact h c (mem_of_getElem? hc)
  · simp only [Ledger.log, shardAt_new, SsdShardRing.new]
    exact Nat.dvd_zero a

theorem Aligned.run (h : l.Aligned a) {ops : List (RingOp κ)} (hops : ∀ op ∈ ops, op.SizesAligned a) :
    (l.run ops).Aligned a :=
  foldlRecOn (motive := Ledger.Aligned a) ops _ h fun _ h op hop => h.apply (hops op hop)

def Tight (l : Ledger κ) : Prop := ∀ i, (l.log i).Tight

theorem Tight.apply (h : l.Tight) (op : RingOp κ) : (l.apply op).Tight := by
  refine apply_induct op ?_ ?_ h
  · intro rb rb' ws hs hl i
    rw [log_of_shards_eq ws hs]
    exact hl i
  · intro rb w rb' ws hl ha _ i
    rw [log_of_allocates ha]
    split
    · exact (hl i).append _
    · exact hl i

theorem Tight.new (hne : caps ≠ []) : (Ledger.new caps hne : Ledger κ).Tight := by
  intro i
  unfold Ledger.log
  rw [shardAt_new]
  exact CircularLog.tight_empty _

/-! ## Every sequence of calls -/

/-- The allocations of a shard that its tail has not passed, oldest first. -/
def live (l : Ledger κ) (i : Nat) : List SsdIndexEntry :=
  (l.allocated.map WriteInfo.entry).filter fun e =>
    e.shardId = i ∧ (l.ring.shardAt i).tail ≤ e.begin

theorem WF.live_disjoint (h : l.WF) (i : Nat) :
    (l.live i).Pairwise fun e f => e.fileRange.Disjoint f.fileRange := by
  rw [live, pairwise_filter, pairwise_map]
  refine h.disjoint_of_live.imp ?_
  intro w v hd hw hv
  simp only [decide_eq_true_eq] at hw hv
  exact hd (hw.1.trans hv.1.symm) (hw.1 ▸ hw.2)

/-- For every sequence of `prepareBatch` and `commit` calls on a new ring, and
every shard after it: the allocations the tail has not passed are stored in
disjoint ranges inside the file, the cursors are at most the capacity apart, the
next call moves neither back, and aligned sizes are stored at aligned offsets. -/
theorem new_run_sound (caps : List Nat) (hne : caps ≠ []) (hpos : ∀ c ∈ caps, 0 < c)
    (ops : List (RingOp κ)) (i : Nat) (shard : SsdShardRing κ)
    (hshard : ((new caps hne).run ops).ring.shards[i]? = some shard) :
    caps[i]? = some shard.capacity ∧
    (((new caps hne).run ops).live i).Pairwise
      (fun e f => e.fileRange.Disjoint f.fileRange) ∧
    (∀ e ∈ ((new caps hne).run ops).live i, e.fileRange.Inside ⟨0, shard.capacity⟩) ∧
    (shard.tail ≤ shard.head ∧ shard.head - shard.tail ≤ shard.capacity) ∧
    (∀ op, ∃ shard', (((new caps hne).run ops).apply op).ring.shards[i]? = some shard' ∧
      shard.tail ≤ shard'.tail ∧ shard.head ≤ shard'.head) ∧
    ((∀ c ∈ caps, 512 ∣ c) → (∀ op ∈ ops, op.SizesAligned 512) →
      ∀ w ∈ ((new caps hne).run ops).allocated, w.entry.shardId = i →
        512 ∣ w.entry.fileOffset) := by
  have hwf := (WF.new (κ := κ) hne hpos).run ops
  have hcaps : ((new caps hne).run ops : Ledger κ).HasCapacities caps :=
    (HasCapacities.new hne).run ops
  have hat := shardAt_of_get hshard
  obtain ⟨hlt, -⟩ := List.getElem?_eq_some_iff.mp hshard
  have hlog := hwf.log i hlt
  refine ⟨?_, hwf.live_disjoint i, ?_, ?_, ?_, ?_⟩
  · rw [← hcaps, getElem?_map, hshard]
    rfl
  · intro e he
    simp only [live, List.mem_filter, List.mem_map, decide_eq_true_eq] at he
    obtain ⟨⟨w, hw, rfl⟩, hi, -⟩ := he
    have hinside := hwf.inside_file hw
    rwa [hi, hat] at hinside
  · have htail := hlog.tail_le_head
    have hhead := hlog.head_le
    simp only [Ledger.log, hat] at htail hhead
    omega
  · intro op
    have hprec := precedes_apply ((new caps hne).run ops) op
    refine ⟨_, shardAt_of_lt (hprec.length_eq ▸ hlt), ?_, ?_⟩
    · exact hat ▸ hprec.tail_le i
    · exact hat ▸ hprec.head_le i
  · intro halign hops w hw hi
    have haligned := (Aligned.new (κ := κ) hne halign).run hops
    have hstart := (haligned w.entry.shardId).place (mem_log hw)
    rwa [← hwf.fileRange_eq hw] at hstart

/-- Three blocks of 4 bytes through a ring of 8: the third wraps around and
passes the first. -/
theorem new_run_sound_wrapping :
    (((new [8] (by decide)).run
        [.prepareBatch [(0, .plain 4), (1, .plain 4), (2, .plain 4)],
          .commit 1 true] : Ledger Nat).live 0).length = 2 ∧
      (((new [8] (by decide)).run
        [.prepareBatch [(0, .plain 4), (1, .plain 4), (2, .plain 4)],
          .commit 1 true] : Ledger Nat).live 0).Pairwise
        (fun e f => e.fileRange.Disjoint f.fileRange) :=
  ⟨by decide, (new_run_sound [8] (by decide) (by decide)
    [.prepareBatch [(0, .plain 4), (1, .plain 4), (2, .plain 4)],
      .commit 1 true] 0 _ (getElem?_eq_getElem (by decide))).2.1⟩

end Ledger

end

/-- The capacities the store opens its files with are as the ring needs them. -/
theorem alignedShardCapacity_ok {capacityBytes shardCount capacity : Nat}
    (h : alignedShardCapacity capacityBytes shardCount = .ok capacity) :
    0 < capacity ∧ 512 ∣ capacity ∧ capacity ≤ capacityBytes / shardCount := by
  unfold alignedShardCapacity at h
  dsimp only at h
  split at h
  · cases h
  next hne =>
    cases h
    exact ⟨Nat.pos_of_ne_zero hne, Nat.dvd_mul_left _ _, Nat.div_mul_le_self _ _⟩

end PegaFlow.Ssd
