import Mathlib.Data.List.Induction
import PegaFlow.Lib.Run
import PegaFlow.Ssd.RingInvariant

/-!
# Pruning the index

When the tail of a shard advances, `advanceTail` drops keys from the front of the
shard's queue, with their entries, until the entry of the first key is one the
tail has not passed.  It looks the entry up by key.  A key can be queued where it
has no entry any more, after a failed or expired write, and be allocated again
elsewhere: such a *ghost* then stands for an entry of another place.

* A ghost in another shard compares that entry with the wrong tail and can drop a
  readable entry.  An entry stays readable when it is queued in its own shard only
  (`OwnQueue`).
* A ghost in the same shard stops the pruning too early and leaves entries behind
  that the tail has passed.  Nothing is left behind when keys are allocated only
  while they are queued nowhere (`NoGhosts`), by the invariant `Tidy`.

`Prunes` says exactly what `advanceTail` does, and `Enqueues` what an allocation
does to the queues and to the index.
-/

namespace PegaFlow.Ssd

open List Option AList Run SsdRingBuffer

variable {κ : Type} [DecidableEq κ]

/-! ## What pruning does -/

/-- The outcome of the loop of `advanceTail`: a prefix of the queue is dropped with
the entries of its keys, up to an entry the tail has not passed. -/
structure DropsFront (newTail : Nat) (order : List κ) (entries : Table κ SsdEntryState)
    (popped : List κ) (pruned : List κ × Table κ SsdEntryState) : Prop where
  order_eq : order = popped ++ pruned.1
  lookup_eq : ∀ k, pruned.2.lookup k = if k ∈ popped then none else entries.lookup k
  passed : ∀ k ∈ popped, ∀ st, entries.lookup k = some st → st.entry.begin < newTail
  front : ∀ k ∈ pruned.1.head?,
    ∃ st, pruned.2.lookup k = some st ∧ newTail ≤ st.entry.begin

theorem DropsFront.cons {newTail : Nat} {order popped : List κ} {entries : Table κ SsdEntryState}
    {pruned : List κ × Table κ SsdEntryState} {key : κ}
    (hkey : ∀ st, entries.lookup key = some st → st.entry.begin < newTail)
    (h : DropsFront newTail order (entries.erase key) popped pruned) :
    DropsFront newTail (key :: order) entries (key :: popped) pruned where
  order_eq := congrArg (key :: ·) h.order_eq
  lookup_eq := by
    intro k
    rw [h.lookup_eq]
    by_cases hk : k = key
    · subst hk
      simp [lookup_erase]
    · simp [hk, lookup_erase_ne hk]
  passed := by
    intro k hk st hst
    by_cases heq : k = key
    · exact hkey st (heq ▸ hst)
    · refine h.passed k ((mem_cons.mp hk).resolve_left heq) st ?_
      rwa [lookup_erase_ne heq]
  front := h.front

theorem pruneFront_drops (newTail : Nat) (order : List κ) (entries : Table κ SsdEntryState) :
    ∃ popped, DropsFront newTail order entries popped (pruneFront newTail order entries) := by
  induction order generalizing entries with
  | nil => exact ⟨[], rfl, by simp [pruneFront], by simp, by simp [pruneFront]⟩
  | cons key order ih =>
    obtain ⟨popped, hr⟩ := ih (entries.erase key)
    unfold pruneFront
    split
    next state hk =>
      split
      next hle =>
        exact ⟨[], rfl, by simp, by simp, by simp [hk, hle]⟩
      next hlt =>
        refine ⟨key :: popped, hr.cons ?_⟩
        intro st hst
        cases hk.symm.trans hst
        exact Nat.lt_of_not_le hlt
    next hk =>
      refine ⟨key :: popped, hr.cons ?_⟩
      intro st hst
      cases hk.symm.trans hst

/-- What the tail of shard `i` takes out of a ring. -/
structure Prunes (rb : SsdRingBuffer κ) (i : Nat) (popped : List κ) (rb' : SsdRingBuffer κ) :
    Prop where
  order_eq : (rb.shardAt i).order = popped ++ (rb'.shardAt i).order
  lookup_eq : ∀ k, rb'.entries.lookup k = if k ∈ popped then none else rb.entries.lookup k
  passed : ∀ k ∈ popped, ∀ st, rb.entries.lookup k = some st →
    st.entry.begin < (rb'.shardAt i).tail
  /-- The tail stayed where it was, or it has not passed the entry of the first key. -/
  front : (rb'.shardAt i).tail = (rb.shardAt i).tail ∨
    ∀ k ∈ (rb'.shardAt i).order.head?,
      ∃ st, rb'.entries.lookup k = some st ∧ (rb'.shardAt i).tail ≤ st.entry.begin

namespace SsdRingBuffer

variable {rb rb' : SsdRingBuffer κ}

theorem advanceTail_prunes (rb : SsdRingBuffer κ) (i newTail : Nat) (h : i < rb.shards.length) :
    ∃ popped, Prunes rb i popped (rb.advanceTail i newTail h) := by
  have hat := rb.getElem_shards h
  unfold advanceTail
  dsimp only
  rw [hat]
  split
  · exact ⟨[], by simp, by simp, by simp, Or.inl rfl⟩
  obtain ⟨popped, hd⟩ := pruneFront_drops newTail (rb.shardAt i).order rb.entries
  have hsh : ∀ shard entries, ({ rb.setShard i shard with entries := entries } :
      SsdRingBuffer κ).shardAt i = shard := by
    intro shard entries
    exact (rb.shardAt_setShard i shard h).trans (if_pos rfl)
  refine ⟨popped, ?_, hd.lookup_eq, ?_, Or.inr ?_⟩
  · rw [hsh]
    exact hd.order_eq
  · rw [hsh]
    exact hd.passed
  · rw [hsh]
    exact hd.front

theorem allocateContiguous_prunes {i size start offset : Nat} {hi : i < rb.shards.length}
    (h : rb.allocateContiguous i size hi = some (start, offset, rb')) :
    ∃ popped, Prunes rb i popped rb' := by
  have hat := rb.getElem_shards hi
  unfold allocateContiguous at h
  simp only [hat] at h
  split at h
  · cases h
  obtain ⟨-, -, rfl⟩ := h
  -- Moving the head changes neither the queue nor the tail nor the index.
  obtain ⟨popped, hp⟩ := advanceTail_prunes
    (rb.setShard i { rb.shardAt i with head := (rb.shardAt i).beginFor size + size }) i
    ((rb.shardAt i).beginFor size + size - (rb.shardAt i).capacity)
    (hi.trans_eq length_set.symm)
  have hsh := (rb.shardAt_setShard i
    { rb.shardAt i with head := (rb.shardAt i).beginFor size + size } hi).trans (if_pos rfl)
  refine ⟨popped, ?_, hp.lookup_eq, hp.passed, ?_⟩
  · rw [← hp.order_eq, hsh]
  · refine hp.front.imp_left ?_
    intro ht
    rw [ht, hsh]

end SsdRingBuffer

/-- What making the allocation `w` does to the queue of its shard and to the
entries of the other keys. -/
structure Enqueues (rb : SsdRingBuffer κ) (w : WriteInfo κ) (rb' : SsdRingBuffer κ)
    (popped rest : List κ) : Prop where
  before : (rb.shardAt w.entry.shardId).order = popped ++ rest
  after : (rb'.shardAt w.entry.shardId).order = rest ++ [w.key]
  lookup_eq : ∀ k, k ≠ w.key →
    rb'.entries.lookup k = if k ∈ popped then none else rb.entries.lookup k
  passed : ∀ k ∈ popped, ∀ st, rb.entries.lookup k = some st →
    st.entry.begin < (rb'.shardAt w.entry.shardId).tail
  front : (rb'.shardAt w.entry.shardId).tail = (rb.shardAt w.entry.shardId).tail ∨
    ∀ k ∈ rest.head?, k ≠ w.key → ∃ st, rb'.entries.lookup k = some st ∧
      (rb'.shardAt w.entry.shardId).tail ≤ st.entry.begin

namespace SsdRingBuffer

variable {rb rb' : SsdRingBuffer κ}

theorem prepareOne_enqueues {key : κ} {block : SealedBlock} {w : WriteInfo κ}
    (h : rb.prepareOne key block = some (rb', w)) :
    ∃ popped rest, Enqueues rb w rb' popped rest := by
  unfold prepareOne at h
  dsimp only at h
  split at h
  · cases h
  rename_i start offset rb₁ ha
  obtain ⟨popped, hp⟩ := allocateContiguous_prunes ha
  obtain ⟨-, -, -, hlen, -, -⟩ := allocateContiguous_spec ha
  obtain ⟨rfl, rfl⟩ := h
  have hlt : rb.nextShard < rb₁.shards.length := hlen ▸ rb.next_lt
  have hsh : (rb₁.shards.modify rb.nextShard fun s =>
        { s with order := s.order ++ [key] })[rb.nextShard]?.getD (SsdShardRing.new 0) =
      { rb₁.shardAt rb.nextShard with
        order := (rb₁.shardAt rb.nextShard).order ++ [key] } := by
    rw [getElem?_modify, shardAt_of_lt hlt]
    simp
  refine ⟨popped, (rb₁.shardAt rb.nextShard).order, hp.order_eq, ?_, ?_, ?_, ?_⟩
  · exact congrArg SsdShardRing.order hsh
  · intro k hk
    rw [← hp.lookup_eq]
    exact lookup_insert_ne hk
  · intro k hk st hst
    exact (hp.passed k hk st hst).trans_eq (congrArg SsdShardRing.tail hsh).symm
  · refine hp.front.imp ?_ ?_
    · intro ht
      exact (congrArg SsdShardRing.tail hsh).trans ht
    · intro hfront k hk hne
      obtain ⟨st, hst, hle⟩ := hfront k hk
      exact ⟨st, (lookup_insert_ne hne).trans hst, (congrArg SsdShardRing.tail hsh).trans_le hle⟩

end SsdRingBuffer

/-! ## Readable entries -/

variable {rb rb' : SsdRingBuffer κ} {w : WriteInfo κ}

theorem Allocates.tail_le (h : Allocates rb w rb')
    (i : Nat) : (rb.shardAt i).tail ≤ (rb'.shardAt i).tail := by
  by_cases hi : i = w.entry.shardId
  · rw [hi, h.tail_eq]
    exact Nat.le_max_left _ _
  · rw [h.elsewhere i hi]

/-- An allocation queues its own key and no other. -/
theorem Enqueues.mem_of_mem {popped rest : List κ}
    (hq : Enqueues rb w rb' popped rest) (ha : Allocates rb w rb') {k : κ} (hne : k ≠ w.key)
    {i : Nat} (hk : k ∈ (rb'.shardAt i).order) : k ∈ (rb.shardAt i).order := by
  by_cases hi : i = w.entry.shardId
  · subst hi
    rw [hq.after, mem_append, mem_singleton] at hk
    rw [hq.before]
    exact mem_append_right _ (hk.resolve_right hne)
  · rwa [← ha.elsewhere i hi]

namespace Ledger

variable (l : Ledger κ)

/-- The next ring operation as a step of a run. -/
def step (op : RingOp κ) : Option (Ledger κ) := some (l.apply op)

theorem exec_step (ops : List (RingOp κ)) : Run.exec step l ops = some (l.run ops) := by
  induction ops generalizing l with
  | nil => rfl
  | cons op ops ih => exact ih (l.apply op)

/-- No readable key is queued in a shard other than its entry's when a batch is
prepared. -/
def OwnQueue : RingOp κ → Prop
  | .prepareBatch _ => ∀ k e, l.ring.get k = some e →
      ∀ i, k ∈ (l.ring.shardAt i).order → i = e.shardId
  | .commit _ _ => True

/-- The candidates that `prepareBatch` allocates for are different keys, queued
nowhere. -/
def NoGhosts : RingOp κ → Prop
  | .prepareBatch candidates =>
    ((candidates.filter fun c => (l.ring.entries.lookup c.1).isNone).map Prod.fst).Nodup ∧
      ∀ c ∈ candidates.filter fun c => (l.ring.entries.lookup c.1).isNone,
        ∀ shard ∈ l.ring.shards, c.1 ∉ shard.order
  | .commit _ _ => True

instance : (op : RingOp κ) → Decidable (l.NoGhosts op)
  | .prepareBatch _ => inferInstanceAs (Decidable (_ ∧ _))
  | .commit _ _ => isTrue trivial

end Ledger

namespace SsdRingBuffer

variable {rb rb' : SsdRingBuffer κ} {k : κ} {e : SsdIndexEntry}

/-- The entry is returned for the key, or the tail of its shard has passed it. -/
def Kept (rb : SsdRingBuffer κ) (k : κ) (e : SsdIndexEntry) : Prop :=
  rb.get k = some e ∨ e.begin < (rb.shardAt e.shardId).tail

/-- An allocation drops a readable entry that is queued in its own shard only when
the tail has passed it. -/
theorem prepareOne_kept {w : WriteInfo κ} (h : rb.prepareOne w.key w.block = some (rb', w))
    (hne : k ≠ w.key) (hget : rb.get k = some e)
    (hown : ∀ i, k ∈ (rb.shardAt i).order → i = e.shardId) : rb'.Kept k e := by
  obtain ⟨popped, rest, hq⟩ := prepareOne_enqueues h
  obtain ⟨-, -, ha⟩ := prepareOne_allocates h
  obtain ⟨hlk, hval⟩ := get_eq_some.mp hget
  by_cases hpop : k ∈ popped
  · have hsh := hown w.entry.shardId (by rw [hq.before]; exact mem_append_left _ hpop)
    exact Or.inr (hsh ▸ hq.passed k hpop _ hlk)
  · by_cases hl : (rb'.shardAt e.shardId).tail ≤ e.begin
    · refine Or.inl (get_eq_some.mpr ⟨?_, isOffsetValid_iff.mpr ⟨?_, hl⟩⟩)
      · rw [hq.lookup_eq k hne, if_neg hpop, hlk]
      · exact ha.length_eq ▸ (isOffsetValid_iff.mp hval).1
    · exact Or.inr (Nat.lt_of_not_le hl)

theorem prepareBatch_kept {candidates : List (κ × SealedBlock)} (hget : rb.get k = some e)
    (hown : ∀ i, k ∈ (rb.shardAt i).order → i = e.shardId) :
    (rb.prepareBatch candidates).1.Kept k e := by
  have hindexed : ∀ c ∈ candidates.filter fun c => (rb.entries.lookup c.1).isNone, k ≠ c.1 := by
    rintro c hc rfl
    have hn := (mem_filter.mp hc).2
    rw [(get_eq_some.mp hget).1] at hn
    cases hn
  refine (prepareLoop_induct_one (P := fun rb' _ =>
    (rb'.get k = some e ∧ ∀ i, k ∈ (rb'.shardAt i).order → i = e.shardId) ∨
      e.begin < (rb'.shardAt e.shardId).tail) [] ?_ (Or.inl ⟨hget, hown⟩)).imp_left And.left
  rintro rb₁ w rb₂ _ hprev hone hm
  have hne := hindexed _ hm
  obtain ⟨popped, rest, hq⟩ := prepareOne_enqueues hone
  obtain ⟨-, -, ha⟩ := prepareOne_allocates hone
  rcases hprev with ⟨hget₁, hown₁⟩ | hps
  · refine (prepareOne_kept hone hne hget₁ hown₁).imp_left fun hget₂ => ⟨hget₂, ?_⟩
    intro i hi
    exact hown₁ i (hq.mem_of_mem ha hne hi)
  · exact Or.inr (hps.trans_le (ha.tail_le _))

/-- A commit leaves what is readable. -/
theorem commit_get {key : κ} {success : Bool} (hget : rb.get k = some e) :
    (rb.commit key success).1.get k = some e := by
  obtain ⟨hlk, hval⟩ := get_eq_some.mp hget
  have hval' : (rb.commit key success).1.isOffsetValid e := by
    unfold isOffsetValid at hval ⊢
    rwa [commit_shards]
  refine get_eq_some.mpr ⟨?_, hval'⟩
  unfold commit
  split
  · exact hlk
  · exact hlk
  next entry hk =>
    have hne : k ≠ key := by
      rintro rfl
      cases hk.symm.trans hlk
    split
    · exact (lookup_erase_ne hne).trans hlk
    split
    · exact (lookup_insert_ne hne).trans hlk
    · exact (lookup_erase_ne hne).trans hlk

end SsdRingBuffer

/-- A call keeps a readable entry until the tail of its shard has passed it. -/
theorem Ledger.apply_kept {l : Ledger κ} {op : RingOp κ} {k : κ} {e : SsdIndexEntry}
    (h : l.ring.Kept k e) (hown : l.OwnQueue op) : (l.apply op).ring.Kept k e := by
  rcases h with hget | hps
  · cases op with
    | prepareBatch candidates => exact prepareBatch_kept hget (hown k e hget)
    | commit key success => exact Or.inl (commit_get hget)
  · exact Or.inr (hps.trans_le ((l.precedes_apply op).tail_le e.shardId))

/-! ## Rings without ghosts -/

/-- A statement about a ring and the writes made so far survives a batch of
different keys that are queued nowhere when it survives each allocation for such a
key. -/
theorem SsdRingBuffer.prepareLoop_induct_fresh {P : SsdRingBuffer κ → List (WriteInfo κ) → Prop}
    (hst : ∀ rb w rb' popped rest ws, P rb ws → Allocates rb w rb' →
      Enqueues rb w rb' popped rest → (∀ i, w.key ∉ (rb.shardAt i).order) → P rb' (ws ++ [w]))
    {rb : SsdRingBuffer κ} (ws : List (WriteInfo κ)) (h : P rb ws)
    {candidates : List (κ × SealedBlock)} (hnd : (candidates.map Prod.fst).Nodup)
    (hfr : ∀ c ∈ candidates, ∀ i, c.1 ∉ (rb.shardAt i).order) :
    P (rb.prepareLoop candidates).1 (ws ++ (rb.prepareLoop candidates).2) := by
  induction candidates generalizing rb ws with
  | nil => simpa [prepareLoop] using h
  | cons c rest ih =>
    obtain ⟨key, block⟩ := c
    obtain ⟨hk, hr⟩ := nodup_cons.mp hnd
    rw [forall_mem_cons] at hfr
    unfold prepareLoop
    split
    · exact ih ws h hr hfr.2
    next rb₁ w hone =>
      obtain ⟨rfl, rfl, ha⟩ := prepareOne_allocates hone
      obtain ⟨popped, left, hq⟩ := prepareOne_enqueues hone
      have hn := ih (ws ++ [w]) (hst rb w rb₁ popped left ws h ha hq hfr.1) hr ?_
      · rwa [append_assoc] at hn
      · intro c hc i hi
        have hne : c.1 ≠ w.key := fun heq => hk (mem_map.mpr ⟨c, hc, heq⟩)
        exact hfr.2 c hc i (hq.mem_of_mem ha hne hi)

/-- Every indexed key is queued in the shard of its entry, no key is queued twice,
the queues are in the order of the entries, and no tail has passed an entry. -/
structure Tidy (rb : SsdRingBuffer κ) : Prop where
  tail_le_head : ∀ i, (rb.shardAt i).tail ≤ (rb.shardAt i).head
  nodup : ∀ i, (rb.shardAt i).order.Nodup
  apart : ∀ i j k, k ∈ (rb.shardAt i).order → k ∈ (rb.shardAt j).order → i = j
  queued : ∀ k st, rb.entries.lookup k = some st → k ∈ (rb.shardAt st.entry.shardId).order
  live : ∀ k st, rb.entries.lookup k = some st →
    (rb.shardAt st.entry.shardId).tail ≤ st.entry.begin
  below_head : ∀ k st, rb.entries.lookup k = some st →
    st.entry.begin ≤ (rb.shardAt st.entry.shardId).head
  sorted : ∀ i, (rb.shardAt i).order.Pairwise fun a b => ∀ sa sb,
    rb.entries.lookup a = some sa → rb.entries.lookup b = some sb →
      sa.entry.begin ≤ sb.entry.begin

namespace Tidy

variable {rb rb' : SsdRingBuffer κ} {w : WriteInfo κ} {popped rest : List κ}

variable {k : κ} {st : SsdEntryState} {i : Nat}

/-- A queued key's entry is in the shard it is queued in. -/
theorem shard_eq (h : Tidy rb) (hst : rb.entries.lookup k = some st) (hk : k ∈ (rb.shardAt i).order) :
    st.entry.shardId = i :=
  h.apart _ _ k (h.queued k st hst) hk

/-- Nothing in the queue behind an entry that the tail has not passed is expired. -/
theorem live_after (h : Tidy rb) (ha : Allocates rb w rb') (hq : Enqueues rb w rb' popped rest)
    (hfr : ∀ i, w.key ∉ (rb.shardAt i).order) (hk : k ∈ rest)
    (hst : rb.entries.lookup k = some st) (hsh : st.entry.shardId = w.entry.shardId) :
    (rb'.shardAt w.entry.shardId).tail ≤ st.entry.begin := by
  rcases hq.front with ht | hfront
  · rw [ht, ← hsh]
    exact h.live k st hst
  · cases rest with
    | nil => cases hk
    | cons first rest =>
      have hne : first ≠ w.key := by
        rintro rfl
        exact hfr w.entry.shardId (by simp [hq.before])
      obtain ⟨st₁, hst₁, hle⟩ := hfront first rfl hne
      have ho := ha.lookup_of_ne first st₁ hne hst₁
      rcases mem_cons.mp hk with rfl | hk
      · cases hst.symm.trans ho
        exact hle
      · have hsorted := h.sorted w.entry.shardId
        rw [hq.before, pairwise_append, pairwise_cons] at hsorted
        exact hle.trans (hsorted.2.1.1 k hk st₁ st ho hst)

omit [DecidableEq κ] in
/-- A key that is queued nowhere is not the one at hand. -/
theorem ne_of_fresh (hfr : ∀ i, w.key ∉ (rb.shardAt i).order) (hk : k ∈ (rb.shardAt i).order) :
    k ≠ w.key :=
  fun heq => hfr i (heq ▸ hk)

/-- An entry after an allocation is the new one, or an old one that was not
dropped. -/
theorem entry_cases (ha : Allocates rb w rb') (hq : Enqueues rb w rb' popped rest)
    (hst : rb'.entries.lookup k = some st) :
    k = w.key ∧ st = .writing w.entry ∨ rb.entries.lookup k = some st ∧ k ∉ popped := by
  by_cases hk : k = w.key
  · subst hk
    cases ha.lookup_key.symm.trans hst
    exact Or.inl ⟨rfl, rfl⟩
  · refine Or.inr ⟨ha.lookup_of_ne k st hk hst, ?_⟩
    intro hpop
    rw [hq.lookup_eq k hk, if_pos hpop] at hst
    cases hst

theorem mem_rest (h : Tidy rb) (hq : Enqueues rb w rb' popped rest)
    (hst : rb.entries.lookup k = some st) (hpop : k ∉ popped)
    (hsh : st.entry.shardId = w.entry.shardId) : k ∈ rest := by
  have hk := h.queued k st hst
  rw [hsh, hq.before] at hk
  exact (mem_append.mp hk).resolve_left hpop

/-- The queues without the new key are as they were, or shorter. -/
theorem sorted_old (h : Tidy rb) (ha : Allocates rb w rb')
    (hfr : ∀ i, w.key ∉ (rb.shardAt i).order) {order : List κ}
    (hsub : order.Sublist (rb.shardAt i).order) :
    order.Pairwise fun a b => ∀ sa sb, rb'.entries.lookup a = some sa →
      rb'.entries.lookup b = some sb → sa.entry.begin ≤ sb.entry.begin := by
  refine ((h.sorted i).sublist hsub).imp_of_mem ?_
  intro a b hamem hbmem hab sa sb hsa hsb
  have hane := ne_of_fresh hfr (hsub.subset hamem)
  have hbne := ne_of_fresh hfr (hsub.subset hbmem)
  exact hab sa sb (ha.lookup_of_ne a sa hane hsa) (ha.lookup_of_ne b sb hbne hsb)

theorem allocate_sorted (h : Tidy rb) (ha : Allocates rb w rb')
    (hq : Enqueues rb w rb' popped rest) (hfr : ∀ i, w.key ∉ (rb.shardAt i).order)
    (hsta : (rb.shardAt w.entry.shardId).head ≤ w.entry.begin) :
    (rb'.shardAt w.entry.shardId).order.Pairwise fun a b => ∀ sa sb,
      rb'.entries.lookup a = some sa → rb'.entries.lookup b = some sb →
        sa.entry.begin ≤ sb.entry.begin := by
  have hsub : rest.Sublist (rb.shardAt w.entry.shardId).order := by
    rw [hq.before]
    exact sublist_append_right _ _
  rw [hq.after, pairwise_append]
  refine ⟨h.sorted_old ha hfr hsub, pairwise_singleton _ _, ?_⟩
  intro a hamem b hbmem sa sb hsa hsb
  rw [mem_singleton.mp hbmem] at hsb
  cases ha.lookup_key.symm.trans hsb
  have ho := ha.lookup_of_ne a sa (ne_of_fresh hfr (hsub.subset hamem)) hsa
  have hbelow := h.below_head a sa ho
  rw [h.shard_eq ho (hsub.subset hamem)] at hbelow
  exact hbelow.trans hsta

/-- The new key is queued in its own shard and nowhere else. -/
theorem only_queued (ha : Allocates rb w rb') (hfr : ∀ i, w.key ∉ (rb.shardAt i).order)
    (hi : w.key ∈ (rb'.shardAt i).order) : i = w.entry.shardId := by
  by_contra hne
  rw [ha.elsewhere i hne] at hi
  exact hfr i hi

theorem allocate (h : Tidy rb) (ha : Allocates rb w rb') (hq : Enqueues rb w rb' popped rest)
    (hfr : ∀ i, w.key ∉ (rb.shardAt i).order) : Tidy rb' := by
  have hsta : (rb.shardAt w.entry.shardId).head ≤ w.entry.begin := by
    rw [ha.begin_eq]
    exact CircularLog.head_le_nextStart _ _ _
  have hlen := ha.len_le
  have ht := h.tail_le_head w.entry.shardId
  refine ⟨?_, ?_, ?_, ?_, ?_, ?_, ?_⟩
  · intro i
    by_cases hi : i = w.entry.shardId
    · rw [hi, ha.tail_eq, ha.head_eq]
      omega
    · rw [ha.elsewhere i hi]
      exact h.tail_le_head i
  · intro i
    by_cases hi : i = w.entry.shardId
    · have hnd := h.nodup w.entry.shardId
      have hkey := hfr w.entry.shardId
      rw [hq.before] at hnd hkey
      rw [hi, hq.after, ← concat_eq_append]
      exact (nodup_append.mp hnd).2.1.concat (fun hm => hkey (by simp [hm]))
    · rw [ha.elsewhere i hi]
      exact h.nodup i
  · intro i j k hi hj
    by_cases hk : k = w.key
    · subst hk
      rw [only_queued ha hfr hi, only_queued ha hfr hj]
    · exact h.apart i j k (hq.mem_of_mem ha hk hi) (hq.mem_of_mem ha hk hj)
  · intro k st hst
    rcases entry_cases ha hq hst with ⟨rfl, rfl⟩ | ⟨ho, hpop⟩
    · rw [SsdEntryState.entry, hq.after]
      exact mem_append_right _ mem_cons_self
    · by_cases hsh : st.entry.shardId = w.entry.shardId
      · rw [hsh, hq.after]
        exact mem_append_left _ (h.mem_rest hq ho hpop hsh)
      · rw [ha.elsewhere _ hsh]
        exact h.queued k st ho
  · intro k st hst
    rcases entry_cases ha hq hst with ⟨rfl, rfl⟩ | ⟨ho, hpop⟩
    · rw [SsdEntryState.entry, ha.tail_eq]
      omega
    · by_cases hsh : st.entry.shardId = w.entry.shardId
      · rw [hsh]
        exact h.live_after ha hq hfr (h.mem_rest hq ho hpop hsh) ho hsh
      · rw [ha.elsewhere _ hsh]
        exact h.live k st ho
  · intro k st hst
    rcases entry_cases ha hq hst with ⟨rfl, rfl⟩ | ⟨ho, hpop⟩
    · rw [SsdEntryState.entry, ha.head_eq]
      omega
    · have hbelow := h.below_head k st ho
      by_cases hsh : st.entry.shardId = w.entry.shardId
      · rw [hsh] at hbelow ⊢
        rw [ha.head_eq]
        omega
      · rwa [ha.elsewhere _ hsh]
  · intro i
    by_cases hi : i = w.entry.shardId
    · rw [hi]
      exact h.allocate_sorted ha hq hfr hsta
    · rw [ha.elsewhere i hi]
      exact h.sorted_old ha hfr (List.Sublist.refl _)

/-- Dropping entries, or changing their state, keeps a ring tidy. -/
theorem of_entries (h : Tidy rb) (hshards : rb'.shards = rb.shards)
    (hes : ∀ k st, rb'.entries.lookup k = some st →
      ∃ st₁, rb.entries.lookup k = some st₁ ∧ st₁.entry = st.entry) : Tidy rb' := by
  have hat : ∀ i, rb'.shardAt i = rb.shardAt i := by
    intro i
    unfold shardAt
    rw [hshards]
  refine ⟨?_, ?_, ?_, ?_, ?_, ?_, ?_⟩
  · simpa only [hat] using h.tail_le_head
  · simpa only [hat] using h.nodup
  · simpa only [hat] using h.apart
  · intro k st hst
    obtain ⟨st₁, hst₁, heq⟩ := hes k st hst
    rw [hat, ← heq]
    exact h.queued k st₁ hst₁
  · intro k st hst
    obtain ⟨st₁, hst₁, heq⟩ := hes k st hst
    rw [hat, ← heq]
    exact h.live k st₁ hst₁
  · intro k st hst
    obtain ⟨st₁, hst₁, heq⟩ := hes k st hst
    rw [hat, ← heq]
    exact h.below_head k st₁ hst₁
  · intro i
    rw [hat]
    refine (h.sorted i).imp ?_
    intro a b hab sa sb hsa hsb
    obtain ⟨sa₁, hsa₁, hea⟩ := hes a sa hsa
    obtain ⟨sb₁, hsb₁, heb⟩ := hes b sb hsb
    rw [← hea, ← heb]
    exact hab sa₁ sb₁ hsa₁ hsb₁

theorem commit (h : Tidy rb) (key : κ) (success : Bool) : Tidy (rb.commit key success).1 := by
  refine h.of_entries (rb.commit_shards key success) ?_
  intro k st hst
  rcases lookup_of_lookup_commit hst with ho | ⟨rfl, -, e, rfl, ho, -⟩
  · exact ⟨st, ho, rfl⟩
  · exact ⟨.writing e, ho, rfl⟩

end Tidy

namespace Ledger

variable {l : Ledger κ} {op : RingOp κ}

variable {rb : SsdRingBuffer κ} {k : κ}

omit [DecidableEq κ] in
theorem not_queued (h : ∀ shard ∈ rb.shards, k ∉ shard.order) (i : Nat) :
    k ∉ (rb.shardAt i).order := by
  unfold shardAt
  cases hi : rb.shards[i]? with
  | none => simp [SsdShardRing.new]
  | some shard => exact h shard (mem_of_getElem? hi)

theorem tidy_apply (h : Tidy l.ring) (hop : l.NoGhosts op) : Tidy (l.apply op).ring := by
  cases op with
  | prepareBatch candidates =>
    exact prepareLoop_induct_fresh (P := fun rb _ => Tidy rb)
      (fun _ _ _ _ _ _ h ha hq hfr => h.allocate ha hq hfr) [] h hop.1
      fun c hc => not_queued (hop.2 c hc)
  | commit key success => exact h.commit key success

theorem tidy_new (caps : List Nat) (hne : caps ≠ []) : Tidy (new caps hne : Ledger κ).ring := by
  have hes : ∀ k st, (new caps hne : Ledger κ).ring.entries.lookup k ≠ some st := by
    simp [new, newSharded]
  refine ⟨?_, ?_, ?_, ?_, ?_, ?_, ?_⟩
  · intro i
    rw [shardAt_new]
    exact Nat.le_refl 0
  · intro i
    rw [shardAt_new]
    exact nodup_nil
  · intro i j k hi
    rw [shardAt_new] at hi
    cases hi
  · exact fun k st hst => (hes k st hst).elim
  · exact fun k st hst => (hes k st hst).elim
  · exact fun k st hst => (hes k st hst).elim
  · intro i
    rw [shardAt_new]
    exact List.Pairwise.nil

theorem ownQueue_of_tidy (h : Tidy l.ring) (op : RingOp κ) : l.OwnQueue op := by
  cases op with
  | prepareBatch candidates =>
    intro k e hget i hi
    exact (h.shard_eq (get_eq_some.mp hget).1 hi).symm
  | commit key success => trivial

/-- In every sequence of calls in which no readable key is queued in a foreign
shard when a batch is prepared, an entry that `get` returned is returned until the
tail of its shard has passed it.  Sequences without ghosts are such. -/
theorem readable_kept_of_ownQueue (caps : List Nat) (hne : caps ≠ []) :
    (∀ (ops ops' : List (RingOp κ)) (k : κ) (e : SsdIndexEntry),
      Run.Meets step OwnQueue (new caps hne) (ops ++ ops') →
      ((new caps hne).run ops).ring.get k = some e →
      ((new caps hne).run (ops ++ ops')).ring.get k = some e ∨
        e.begin < (((new caps hne).run (ops ++ ops')).ring.shardAt e.shardId).tail) ∧
    (∀ ops : List (RingOp κ), Run.Meets step NoGhosts (new caps hne) ops →
      Run.Meets step OwnQueue (new caps hne) ops) := by
  refine ⟨?_, ?_⟩
  · intro ops ops' k e hmeets hget
    have hlater := hmeets.of_append (exec_step (new caps hne) ops)
    have hrun : exec step ((new caps hne).run ops) ops' =
        some ((new caps hne).run (ops ++ ops')) := by
      rw [exec_step]
      simp only [Ledger.run, foldl_append]
    refine exec_invariant_of_meets (I := fun l : Ledger κ => l.ring.Kept k e) ?_
      (Or.inl hget) hlater hrun
    intro l op l' hkept hown hstep
    cases hstep
    exact apply_kept hkept hown
  · intro ops hmeets
    refine meets_of_invariant (I := fun l : Ledger κ => Tidy l.ring) ?_
      (fun l op h _ => ownQueue_of_tidy h op) (tidy_new caps hne) hmeets
    intro l op l' h hop hstep
    cases hstep
    exact tidy_apply h hop

/-- The first write of a key fails and the second is committed. -/
def failedThenWritten : List (RingOp BlockKey) :=
  [.prepareBatch [(⟨"model", [1]⟩, .plain 512)], .commit ⟨"model", [1]⟩ false,
    .prepareBatch [(⟨"model", [1]⟩, .plain 512)], .commit ⟨"model", [1]⟩ true]

/-- The two writes are in different shards.  The tail of the first shard passes the
failed position and takes the readable entry with it, while its own shard still
holds it. -/
theorem ghost_removes_readable :
    ∃ e ∈ ((new [1024, 1024] (by decide)).run failedThenWritten).ring.get ⟨"model", [1]⟩,
      ((new [1024, 1024] (by decide)).run (failedThenWritten ++
        [.prepareBatch [(⟨"model", [2]⟩, .plain 512), (⟨"model", [3]⟩, .plain 512),
          (⟨"model", [4]⟩, .plain 512)]])).ring.get ⟨"model", [1]⟩ = none ∧
      (((new [1024, 1024] (by decide)).run (failedThenWritten ++
        [.prepareBatch [(⟨"model", [2]⟩, .plain 512), (⟨"model", [3]⟩, .plain 512),
          (⟨"model", [4]⟩, .plain 512)]])).ring.shardAt e.shardId).tail ≤ e.begin := by
  decide

/-- A committed block stays readable while another is written. -/
theorem readable_kept_of_ownQueue_two_blocks :
    ∃ e ∈ ((new [1024] (by decide) : Ledger BlockKey).run
        [.prepareBatch [(⟨"model", [1]⟩, .plain 512)], .commit ⟨"model", [1]⟩ true]).ring.get
          ⟨"model", [1]⟩,
      ((new [1024] (by decide) : Ledger BlockKey).run
        [.prepareBatch [(⟨"model", [1]⟩, .plain 512)], .commit ⟨"model", [1]⟩ true,
          .prepareBatch [(⟨"model", [2]⟩, .plain 512)]]).ring.get ⟨"model", [1]⟩ = some e ∨
      e.begin < (((new [1024] (by decide) : Ledger BlockKey).run
        [.prepareBatch [(⟨"model", [1]⟩, .plain 512)], .commit ⟨"model", [1]⟩ true,
          .prepareBatch [(⟨"model", [2]⟩, .plain 512)]]).ring.shardAt e.shardId).tail := by
  have hget : ∃ e, ((new [1024] (by decide) : Ledger BlockKey).run
      [.prepareBatch [(⟨"model", [1]⟩, .plain 512)], .commit ⟨"model", [1]⟩ true]).ring.get
        ⟨"model", [1]⟩ = some e :=
    isSome_iff_exists.mp (by decide)
  obtain ⟨e, he⟩ := hget
  have hsound := readable_kept_of_ownQueue (κ := BlockKey) [1024] (by decide)
  exact ⟨e, he, hsound.1 _ [.prepareBatch [(⟨"model", [2]⟩, .plain 512)]] _ e
    (hsound.2 _ (by decide)) he⟩

/-! ## The index holds nothing expired -/

/-- No entry of the index is one that the tail of its shard has passed. -/
def IndexPruned (l : Ledger κ) : Prop :=
  ∀ k st, l.ring.entries.lookup k = some st → l.ring.isOffsetValid st.entry

/-- One of the calls allocated for the key, and the key was not committed since. -/
def Uncommitted (l : Ledger κ) (ops : List (RingOp κ)) (k : κ) : Prop :=
  ∃ before candidates after, ops = before ++ .prepareBatch candidates :: after ∧
    (∃ w ∈ ((l.run before).ring.prepareBatch candidates).2, w.key = k) ∧
    ∀ success, .commit k success ∉ after

variable {e : SsdIndexEntry}

omit [DecidableEq κ] in
theorem isOffsetValid_of_mem (hk : k ∈ (rb.shardAt e.shardId).order)
    (ht : (rb.shardAt e.shardId).tail ≤ e.begin) : rb.isOffsetValid e := by
  refine isOffsetValid_iff.mpr ⟨?_, ht⟩
  by_contra hge
  unfold shardAt at hk
  rw [getElem?_eq_none (Nat.le_of_not_lt hge)] at hk
  cases hk

theorem indexPruned_of_tidy (h : Tidy l.ring) : l.IndexPruned :=
  fun k st hst => isOffsetValid_of_mem (h.queued k st hst) (h.live k st hst)

theorem run_concat (l : Ledger κ) (ops : List (RingOp κ)) (op : RingOp κ) :
    l.run (ops ++ [op]) = (l.run ops).apply op := by
  simp only [run, foldl_append, foldl_cons, foldl_nil]

/-- An entry after a batch was there before, or the batch allocated for its key. -/
theorem lookup_prepareBatch_cases {candidates : List (κ × SealedBlock)} {st : SsdEntryState}
    (h : (rb.prepareBatch candidates).1.entries.lookup k = some st) :
    rb.entries.lookup k = some st ∨ ∃ w ∈ (rb.prepareBatch candidates).2, w.key = k := by
  refine prepareLoop_induct (P := fun rb' ws => rb'.entries.lookup k = some st →
    rb.entries.lookup k = some st ∨ ∃ w ∈ ws, w.key = k) [] ?_ Or.inl h
  intro rb₁ w rb₂ ws hprev ha _ hst
  by_cases hk : k = w.key
  · exact Or.inr ⟨w, by simp, hk.symm⟩
  refine (hprev (ha.lookup_of_ne k st hk hst)).imp_right ?_
  rintro ⟨v, hv, hvk⟩
  exact ⟨v, mem_append_left _ hv, hvk⟩

variable {key : κ}

/-- A commit leaves nothing that is being written under its key. -/
theorem lookup_commit_writing {success : Bool}
    (h : (rb.commit key success).1.entries.lookup k = some (.writing e)) :
    k ≠ key ∧ rb.entries.lookup k = some (.writing e) := by
  rcases lookup_of_lookup_commit h with ho | ⟨-, -, e', he, -⟩
  · refine ⟨?_, ho⟩
    rintro rfl
    unfold commit at h
    rw [ho] at h
    dsimp only at h
    split at h
    · simp [lookup_erase] at h
    · split at h
      · simp at h
      · simp [lookup_erase] at h
  · cases he

/-- A key with an entry that is being written has a write that was not committed
yet. -/
theorem uncommitted_of_writing (hnew : ∀ k st, l.ring.entries.lookup k ≠ some st)
    {ops : List (RingOp κ)} (h : (l.run ops).ring.entries.lookup k = some (.writing e)) :
    l.Uncommitted ops k := by
  induction ops using reverseRecOn with
  | nil => exact (hnew k _ h).elim
  | append_singleton ops op ih =>
    rw [run_concat] at h
    cases op with
    | prepareBatch candidates =>
      rcases lookup_prepareBatch_cases h with ho | hw
      · obtain ⟨before, cs, after, rfl, hw, hn⟩ := ih ho
        exact ⟨before, cs, after ++ [.prepareBatch candidates], by simp, hw, by simpa using hn⟩
      · exact ⟨ops, candidates, [], rfl, hw, by simp⟩
    | commit key success =>
      obtain ⟨hne, ho⟩ := lookup_commit_writing h
      obtain ⟨before, cs, after, rfl, hw, hn⟩ := ih ho
      exact ⟨before, cs, after ++ [.commit key success], by simp, hw, by simp [hn, hne]⟩

/-- Batches without repeated keys whose writes all succeed. -/
def Clean : RingOp κ → Prop
  | .prepareBatch candidates => (candidates.map Prod.fst).Nodup
  | .commit _ success => success

instance : (op : RingOp κ) → Decidable (Clean op)
  | .prepareBatch _ => inferInstanceAs (Decidable (List.Nodup _))
  | .commit _ _ => inferInstanceAs (Decidable (_ = true))

/-- A tidy ring in which every queued key has an entry. -/
structure Full (rb : SsdRingBuffer κ) : Prop extends Tidy rb where
  indexed : ∀ i k, k ∈ (rb.shardAt i).order → (rb.entries.lookup k).isSome

theorem Full.allocate {rb' : SsdRingBuffer κ} {w : WriteInfo κ} {popped rest : List κ} (h : Full rb)
    (ha : Allocates rb w rb') (hq : Enqueues rb w rb' popped rest)
    (hfr : ∀ i, w.key ∉ (rb.shardAt i).order) : Full rb' := by
  refine ⟨h.toTidy.allocate ha hq hfr, ?_⟩
  intro i k hk
  by_cases hkey : k = w.key
  · rw [hkey, ha.lookup_key]
    rfl
  · have ho := hq.mem_of_mem ha hkey hk
    have hpop : k ∉ popped := by
      intro hpop
      -- A dropped key is queued in no other shard, and no second time in this one.
      have hi : i = w.entry.shardId := h.apart i w.entry.shardId k ho (by simp [hq.before, hpop])
      have hnd := h.nodup w.entry.shardId
      rw [hi, hq.after, mem_append, mem_singleton] at hk
      rw [hq.before] at hnd
      exact (nodup_append.mp hnd).2.2 k hpop k (hk.resolve_right hkey) rfl
    rw [hq.lookup_eq k hkey, if_neg hpop]
    exact h.indexed i k ho

/-- A successful commit drops no entry that the tail has not passed. -/
theorem commit_isSome
    (hval : ∀ st, rb.entries.lookup key = some st → rb.isOffsetValid st.entry)
    (hk : (rb.entries.lookup k).isSome) : ((rb.commit key true).1.entries.lookup k).isSome := by
  unfold commit
  split
  · exact hk
  · exact hk
  next entry hkey =>
    have hent : rb.isOffsetValid entry := hval _ hkey
    simp only [hent, Bool.not_true, Bool.false_eq_true, if_false, if_true]
    by_cases heq : k = key
    · rw [heq, lookup_insert]
      rfl
    · rwa [lookup_insert_ne heq]

theorem Full.not_queued (h : Full rb) (hk : (rb.entries.lookup k).isNone) (i : Nat) :
    k ∉ (rb.shardAt i).order := by
  intro hi
  have hs := h.indexed i k hi
  rw [isNone_iff_eq_none.mp hk] at hs
  cases hs

theorem Full.apply (h : Full l.ring) (hop : Clean op) : Full (l.apply op).ring := by
  cases op with
  | prepareBatch candidates =>
    refine prepareLoop_induct_fresh (P := fun rb _ => Full rb)
      (fun _ _ _ _ _ _ h ha hq hfr => h.allocate ha hq hfr) [] h
      ((filter_sublist.map Prod.fst).nodup hop) ?_
    exact fun c hc => h.not_queued (mem_filter.mp hc).2
  | commit key success =>
    cases hop
    refine ⟨h.toTidy.commit key true, ?_⟩
    intro i k hk
    refine commit_isSome (fun st hst => indexPruned_of_tidy h.toTidy key st hst) (h.indexed i k ?_)
    unfold shardAt at hk ⊢
    rwa [apply, commit_shards] at hk

theorem noGhosts_of_full (h : Full l.ring) (hop : Clean op) : l.NoGhosts op := by
  cases op with
  | prepareBatch candidates =>
    refine ⟨(filter_sublist.map Prod.fst).nodup hop, ?_⟩
    intro c hc shard hsh hk
    obtain ⟨i, hi⟩ := getElem?_of_mem hsh
    refine h.not_queued (mem_filter.mp hc).2 i ?_
    rwa [shardAt_of_get hi]
  | commit key success => trivial

theorem full_new (caps : List Nat) (hne : caps ≠ []) : Full (new caps hne : Ledger κ).ring := by
  refine ⟨tidy_new caps hne, ?_⟩
  intro i k hk
  rw [shardAt_new] at hk
  cases hk

/-- After every sequence of calls that allocate for a key only while it is queued
nowhere, no tail has passed an entry of the index, and a key that `prepareBatch`
skips is readable or has a write that was not committed yet.  Batches without
repeated keys whose writes all succeed are such calls. -/
theorem index_pruned_of_noGhosts (caps : List Nat) (hne : caps ≠ []) :
    (∀ ops : List (RingOp κ), Run.Meets step NoGhosts (new caps hne) ops →
      ((new caps hne).run ops).IndexPruned ∧
      ∀ k, (((new caps hne).run ops).ring.entries.lookup k).isSome →
        (((new caps hne).run ops).ring.get k).isSome ∨ (new caps hne).Uncommitted ops k) ∧
    (∀ ops : List (RingOp κ), (∀ op ∈ ops, Clean op) →
      Run.Meets step NoGhosts (new caps hne) ops) := by
  refine ⟨?_, ?_⟩
  · intro ops hmeets
    have htidy : Tidy ((new caps hne).run ops).ring := by
      refine exec_invariant_of_meets (I := fun l : Ledger κ => Tidy l.ring) ?_
        (tidy_new caps hne) hmeets (exec_step _ ops)
      intro l op l' h hop hstep
      cases hstep
      exact tidy_apply h hop
    have hpruned := indexPruned_of_tidy htidy
    refine ⟨hpruned, ?_⟩
    intro k hk
    obtain ⟨st, hst⟩ := isSome_iff_exists.mp hk
    cases st with
    | committed e =>
      rw [get_eq_some.mpr ⟨hst, hpruned k _ hst⟩]
      exact Or.inl rfl
    | writing e =>
      refine Or.inr (uncommitted_of_writing ?_ hst)
      simp [new, newSharded]
  · intro ops hclean
    refine meets_of_invariant (I := fun l : Ledger κ => Full l.ring) ?_
      (fun l op h hop => noGhosts_of_full h hop) (full_new caps hne)
      (meets_of_forall hclean)
    intro l op l' h hop hstep
    cases hstep
    exact h.apply hop

/-- The ring after a write of key 1 that fails, one of key 2 that succeeds, and a
batch for key 1 again and for keys 3 and 4. -/
def ghostAtFront : Ledger BlockKey :=
  (new [1536] (by decide)).run
    [.prepareBatch [(⟨"model", [1]⟩, .plain 512)], .commit ⟨"model", [1]⟩ false,
      .prepareBatch [(⟨"model", [2]⟩, .plain 512)], .commit ⟨"model", [2]⟩ true,
      .prepareBatch [(⟨"model", [1]⟩, .plain 512), (⟨"model", [3]⟩, .plain 512),
        (⟨"model", [4]⟩, .plain 512)]]

/-- The second allocation of key 1 keeps its failed position at the front of the
queue from being dropped, and key 2 stays in the index after the tail has passed
it.  It is not readable, and the next batch skips it. -/
theorem ghost_keeps_expired :
    ¬ ghostAtFront.IndexPruned ∧ ghostAtFront.ring.get ⟨"model", [2]⟩ = none ∧
      (ghostAtFront.ring.prepareBatch [(⟨"model", [2]⟩, .plain 512)]).2 = [] := by
  refine ⟨?_, by decide, by decide⟩
  have hentry : ∃ st ∈ ghostAtFront.ring.entries.lookup ⟨"model", [2]⟩,
      ghostAtFront.ring.isOffsetValid st.entry = false := by
    decide
  obtain ⟨st, hst, hinvalid⟩ := hentry
  intro h
  have hvalid := h _ st hst
  rw [hinvalid] at hvalid
  cases hvalid

/-- Four blocks through a file of three: the first is dropped from the index. -/
theorem index_pruned_of_noGhosts_wrapping :
    (((new [1536] (by decide) : Ledger BlockKey).run
        [.prepareBatch [(⟨"model", [1]⟩, .plain 512), (⟨"model", [2]⟩, .plain 512)],
          .commit ⟨"model", [1]⟩ true, .commit ⟨"model", [2]⟩ true,
          .prepareBatch [(⟨"model", [3]⟩, .plain 512), (⟨"model", [4]⟩, .plain 512)]]).ring.get
            ⟨"model", [2]⟩).isSome ∧
      ((new [1536] (by decide) : Ledger BlockKey).run
        [.prepareBatch [(⟨"model", [1]⟩, .plain 512), (⟨"model", [2]⟩, .plain 512)],
          .commit ⟨"model", [1]⟩ true, .commit ⟨"model", [2]⟩ true,
          .prepareBatch [(⟨"model", [3]⟩, .plain 512), (⟨"model", [4]⟩, .plain 512)]]).IndexPruned := by
  have hsound := index_pruned_of_noGhosts (κ := BlockKey) [1536] (by decide)
  exact ⟨by decide, (hsound.1 _ (hsound.2 _ (by decide))).1⟩

end Ledger

end PegaFlow.Ssd
