import PegaFlow.Common.HyperLogLog
import PegaFlow.Lib.Run

/-!
# The sliding window of sketches

`HllTracker` of `pegaflow-common/src/hll.rs`: a sketch for each slot of time in which a hash was
recorded.  A metric drops the slots that are older than the window and estimates the union of the
others.  The union of all slots but the last one is kept in `merged` and computed again only when a
slot was added or dropped since.

Instants are numbers of nanoseconds, and `clock` is the last one that was read.  The hashes of a slot
and the slots that were dropped are recorded for the statements; no step reads them.
-/

namespace PegaFlow.Common

open List

structure WindowSlot (b : Nat) where
  hll : HyperLogLog b
  start : Nat
  requestCount : Nat
  hashes : List BlockHash

/-- Both are positive: `MultiWindowHllTracker::new` makes them of at least a minute. -/
structure Durations where
  slot : Nat
  window : Nat
  slot_pos : 0 < slot
  window_pos : 0 < window

structure HllTracker (b : Nat) where
  /-- The oldest one first. -/
  slots : List (WindowSlot b)
  merged : HyperLogLog b
  mergedDirty : Bool
  clock : Nat
  dropped : List (WindowSlot b)

variable {b : Nat}

namespace HyperLogLog

variable (hll : HyperLogLog b)

def merge (other : HyperLogLog b) : HyperLogLog b :=
  { hll with registers := fun i =>
      if hll.registers i < other.registers i then other.registers i else hll.registers i }

def clear : HyperLogLog b := { hll with registers := fun _ => 0 }

def insertAll : List BlockHash → HyperLogLog b → Option (HyperLogLog b)
  | [], hll => some hll
  | hash :: hashes, hll => (hll.insert hash).bind (insertAll hashes)

end HyperLogLog

namespace HllTracker

variable (d : Durations) (t : HllTracker b)

def new (h : 4 ≤ b ∧ b ≤ 18) (now : Nat) : HllTracker b := ⟨[], .new h, false, now, []⟩

def pushSlot (start : Nat) : HllTracker b :=
  { t with mergedDirty := true, slots := t.slots ++ [⟨.new t.merged.bits_mem, start, 0, []⟩] }

/-- The first half of `record`: a new slot if there is none or the last one is over. -/
def rotate : HllTracker b :=
  match t.slots.getLast? with
  | none => t.pushSlot t.clock
  | some last =>
    let elapsed := t.clock - last.start
    if d.slot ≤ elapsed then
      -- the number of periods is cast to `u32`
      t.pushSlot (last.start + d.slot * (elapsed / d.slot % 2 ^ 32))
    else t

def recordInLast (hash : BlockHash) : Option (HllTracker b) :=
  t.slots.getLast?.bind fun slot => (slot.hll.insert hash).map fun hll =>
    { t with slots := t.slots.dropLast ++
        [⟨hll, slot.start, slot.requestCount + 1, slot.hashes ++ [hash]⟩] }

/-- `now.duration_since(start) >= window_duration`. -/
def isOld (now : Nat) (slot : WindowSlot b) : Bool := d.window ≤ now - slot.start

def expireOldSlots : HllTracker b :=
  let old := isOld d t.clock
  { t with
    slots := t.slots.dropWhile old
    mergedDirty := t.mergedDirty || !(t.slots.takeWhile old).isEmpty
    dropped := t.dropped ++ t.slots.takeWhile old }

def ensureMerged : HllTracker b :=
  if t.mergedDirty then
    { t with
      mergedDirty := false
      merged := (t.slots.take (t.slots.length - 1)).foldl (fun hll slot => hll.merge slot.hll)
        t.merged.clear }
  else t

/-- The state after `metric`. -/
def metric : HllTracker b := (t.expireOldSlots d).ensureMerged

/-- The registers that `union_cardinality` estimates the cardinality from. -/
def unionRegisters : Option (Fin (2 ^ b) → Nat) :=
  t.slots.getLast?.map fun back i => max (t.merged.registers i) (back.hll.registers i)

def totalRequests : Nat := (t.slots.map (·.requestCount)).sum

inductive Call where
  | record (hash : BlockHash)
  | metric

def call : Call → Option (HllTracker b)
  | .record hash => (t.rotate d).recordInLast hash
  | .metric => some (t.metric d)

/-- Each call reads the clock first, which does not go back. -/
def step (ev : Nat × Call) : Option (HllTracker b) :=
  if t.clock ≤ ev.1 then { t with clock := ev.1 }.call d ev.2 else none

end HllTracker

/-! ## Unions of sketches -/

namespace HyperLogLog

/-- The registers of a sketch of the hashes. -/
def marks (hashes : List BlockHash) : Fin (2 ^ b) → Nat := (hashes.map mark).foldr (· ⊔ ·) ⊥

variable {hll : HyperLogLog b} {l m : List BlockHash}

theorem marks_append : marks (b := b) (l ++ m) = marks l ⊔ marks m := by
  induction l with
  | nil => exact (bot_sup_eq _).symm
  | cons hash l ih =>
    exact (congrArg (mark hash ⊔ ·) ih).trans (sup_assoc _ _ _).symm

theorem marks_perm (h : l.Perm m) : marks (b := b) l = marks m := by
  have hcomm : LeftCommutative (α := Fin (2 ^ b) → Nat) (· ⊔ ·) := ⟨sup_left_comm⟩
  exact (h.map mark).foldr_eq ⊥

theorem registers_merge {other : HyperLogLog b} :
    (hll.merge other).registers = hll.registers ⊔ other.registers := by
  funext i
  simp only [merge, Pi.sup_apply]
  split <;> omega

theorem insertAll_eq (hll : HyperLogLog b) (h : ∀ hash ∈ l, rank hash b ≤ 255) :
    ∃ hll', insertAll l hll = some hll' ∧ hll'.registers = hll.registers ⊔ marks l := by
  induction l generalizing hll with
  | nil => exact ⟨hll, rfl, (sup_bot_eq _).symm⟩
  | cons hash l ih =>
    obtain ⟨hle, hl⟩ := forall_mem_cons.mp h
    obtain ⟨hll', heq, hreg⟩ :=
      ih (hll.raise ⟨bucket hash b, bucket_lt hll.bits_mem.2⟩ (rank hash b)) hl
    refine ⟨hll', ?_, ?_⟩
    · rw [insertAll, insert_eq, u8, if_pos (Nat.lt_succ_of_le hle)]
      exact heq
    · rw [hreg, registers_raise rfl, sup_assoc]
      rfl

end HyperLogLog

open HyperLogLog

/-- The sketch and the count are those of the hashes. -/
structure WindowSlot.Sound (slot : WindowSlot b) : Prop where
  registers : slot.hll.registers = marks slot.hashes
  count : slot.requestCount = slot.hashes.length
  fits : ∀ hash ∈ slot.hashes, rank hash b ≤ 255

theorem registers_foldl_merge {slots : List (WindowSlot b)} {hll : HyperLogLog b}
    (h : ∀ slot ∈ slots, slot.Sound) :
    (slots.foldl (fun hll slot => hll.merge slot.hll) hll).registers =
      hll.registers ⊔ marks (slots.flatMap (·.hashes)) := by
  induction slots generalizing hll with
  | nil => exact (sup_bot_eq _).symm
  | cons slot slots ih =>
    obtain ⟨hs, hslots⟩ := forall_mem_cons.mp h
    rw [foldl_cons, ih hslots, registers_merge, hs.registers, flatMap_cons, marks_append,
      sup_assoc]

/-- What is dropped from the front of a list with the old elements first is what is old. -/
theorem dropWhile_eq_filter {α : Type} {p : α → Bool} {l : List α}
    (h : l.Pairwise fun x y => p y → p x) : l.dropWhile p = l.filter (!p ·) := by
  induction l with
  | nil => rfl
  | cons x l ih =>
    obtain ⟨hx, hl⟩ := pairwise_cons.mp h
    by_cases hp : p x
    · simpa [hp] using ih hl
    · have hyoung : l.filter (!p ·) = l :=
        filter_eq_self.mpr fun y hy => by simpa using mt (hx y hy) hp
      simp [hp, hyoung]

namespace HllTracker

structure Inv (d : Durations) (t : HllTracker b) : Prop where
  sound : ∀ slot ∈ t.slots, slot.Sound
  past : ∀ slot ∈ t.slots, slot.start ≤ t.clock
  ordered : t.slots.Pairwise (·.start ≤ ·.start)
  clean : t.mergedDirty = false →
    t.merged.registers = marks (t.slots.dropLast.flatMap (·.hashes))
  old : ∀ slot ∈ t.dropped, isOld d t.clock slot

variable {d : Durations} {t t' : HllTracker b} {now : Nat} {hash : BlockHash} {slot : WindowSlot b}

theorem isOld_iff : isOld d now slot ↔ d.window ≤ now - slot.start := decide_eq_true_iff

theorem inv_new (h : 4 ≤ b ∧ b ≤ 18) : (new h now).Inv d :=
  ⟨nofun, nofun, Pairwise.nil, fun _ => rfl, nofun⟩

section

variable (ht : t.Inv d)
include ht

theorem Inv.tick (hnow : t.clock ≤ now) : { t with clock := now }.Inv d where
  sound := ht.sound
  past := fun slot hs => (ht.past slot hs).trans hnow
  ordered := ht.ordered
  clean := ht.clean
  old := by
    intro slot hs
    have ho := isOld_iff.mp (ht.old slot hs)
    exact isOld_iff.mpr (by dsimp only; omega)

theorem Inv.pushSlot {start : Nat} (hle : start ≤ t.clock)
    (hge : ∀ slot ∈ t.slots, slot.start ≤ start) : (t.pushSlot start).Inv d where
  sound := forall_mem_append.mpr ⟨ht.sound, forall_mem_singleton.mpr ⟨rfl, rfl, nofun⟩⟩
  past := forall_mem_append.mpr ⟨ht.past, forall_mem_singleton.mpr hle⟩
  ordered := pairwise_append.mpr ⟨ht.ordered, pairwise_singleton _ _,
    fun slot hs => forall_mem_singleton.mpr (hge slot hs)⟩
  clean := nofun
  old := ht.old

/-- There is a slot after the rotation. -/
theorem Inv.rotate : (t.rotate d).Inv d ∧ (t.rotate d).slots ≠ [] := by
  unfold HllTracker.rotate
  rcases eq_nil_or_concat' t.slots with hnil | ⟨init, last, heq⟩
  · rw [hnil]
    exact ⟨ht.pushSlot le_rfl (by rw [hnil]; exact nofun), by simp [HllTracker.pushSlot]⟩
  · have hl := ht.past last (by rw [heq]; exact mem_concat_self)
    have hge : ∀ slot ∈ t.slots, slot.start ≤ last.start := by
      have hord := ht.ordered
      rw [heq, pairwise_append] at hord
      rw [heq]
      exact forall_mem_append.mpr ⟨fun slot hs => hord.2.2 slot hs last mem_cons_self,
        forall_mem_singleton.mpr le_rfl⟩
    rw [heq, getLast?_concat]
    dsimp only
    split
    · refine ⟨ht.pushSlot ?_ fun slot hs => (hge slot hs).trans (Nat.le_add_right _ _),
        by simp [HllTracker.pushSlot]⟩
      have hmul := (Nat.mul_le_mul_left d.slot (Nat.mod_le _ (2 ^ 32))).trans
        (Nat.mul_div_le (t.clock - last.start) d.slot)
      omega
    · exact ⟨ht, by simp [heq]⟩

theorem Inv.recordInLast (hne : t.slots ≠ []) (hle : rank hash b ≤ 255) :
    ∃ t', t.recordInLast hash = some t' ∧ t'.Inv d := by
  obtain ⟨init, slot, heq⟩ := (eq_nil_or_concat' t.slots).resolve_left hne
  obtain ⟨hs, hps, hord, hclean, ho⟩ := ht
  rw [heq] at hs hps hord hclean
  obtain ⟨hs, hslot⟩ := forall_mem_append.mp hs
  have hslot := forall_mem_singleton.mp hslot
  rw [HllTracker.recordInLast, heq, getLast?_concat, Option.bind_some, insert_eq, u8,
    if_pos (Nat.lt_succ_of_le hle), dropLast_concat]
  refine ⟨_, rfl, ?_, ?_, ?_, ?_, ho⟩
  · refine forall_mem_append.mpr ⟨hs, forall_mem_singleton.mpr ⟨?_, ?_, ?_⟩⟩
    · rw [registers_raise rfl, hslot.registers, marks_append]
      exact congrArg (_ ⊔ ·) (sup_bot_eq _).symm
    · rw [hslot.count, length_append, length_singleton]
    · exact forall_mem_append.mpr ⟨hslot.fits, forall_mem_singleton.mpr hle⟩
  · rw [forall_mem_append, forall_mem_singleton] at hps ⊢
    exact hps
  · rw [pairwise_append] at hord ⊢
    simpa using hord
  · simpa using hclean

theorem Inv.unionRegisters
    (hm : t.merged.registers = marks (t.slots.dropLast.flatMap (·.hashes))) :
    t.unionRegisters.getD (fun _ => 0) = marks (t.slots.flatMap (·.hashes)) := by
  rw [HllTracker.unionRegisters]
  rcases eq_nil_or_concat' t.slots with hnil | ⟨init, back, heq⟩
  · rw [hnil]
    rfl
  · have hback := ht.sound back (by rw [heq]; exact mem_concat_self)
    rw [heq, dropLast_concat] at hm
    rw [heq, getLast?_concat, flatMap_append, marks_append, ← hm, flatMap_singleton,
      ← hback.registers]
    rfl

theorem Inv.slots_expireOldSlots :
    (t.expireOldSlots d).slots = (t.dropped ++ t.slots).filter (!isOld d t.clock ·) := by
  have hdropped : t.dropped.filter (!isOld d t.clock ·) = [] :=
    filter_eq_nil_iff.mpr fun slot hs => by simp [ht.old slot hs]
  rw [filter_append, hdropped, nil_append]
  refine dropWhile_eq_filter (ht.ordered.imp fun hle ho => ?_)
  rw [isOld_iff] at ho ⊢
  omega

theorem Inv.expireOldSlots : (t.expireOldSlots d).Inv d := by
  have hsub : (t.expireOldSlots d).slots.Sublist t.slots := dropWhile_sublist _
  refine ⟨fun slot hs => ht.sound slot (hsub.subset hs),
    fun slot hs => ht.past slot (hsub.subset hs), ht.ordered.sublist hsub, ?_,
    forall_mem_append.mpr ⟨ht.old, fun slot hs => all_eq_true.mp all_takeWhile slot hs⟩⟩
  intro hdirty
  -- nothing was dropped
  obtain ⟨hclean, hn⟩ := Bool.or_eq_false_iff.mp hdirty
  have hnil : t.slots.takeWhile (isOld d t.clock) = [] := by simpa using hn
  have hsm := takeWhile_append_dropWhile (p := isOld d t.clock) (l := t.slots)
  rw [hnil, nil_append] at hsm
  simp only [HllTracker.expireOldSlots, hsm]
  exact ht.clean hclean

theorem Inv.ensureMerged : t.ensureMerged.Inv d ∧ t.ensureMerged.slots = t.slots ∧
    t.ensureMerged.merged.registers = marks (t.slots.dropLast.flatMap (·.hashes)) := by
  unfold HllTracker.ensureMerged
  split
  next =>
    have hm : ((t.slots.take (t.slots.length - 1)).foldl (fun hll slot => hll.merge slot.hll)
        t.merged.clear).registers = marks (t.slots.dropLast.flatMap (·.hashes)) := by
      rw [← dropLast_eq_take, registers_foldl_merge fun slot hs =>
        ht.sound slot (dropLast_subset _ hs)]
      exact bot_sup_eq _
    exact ⟨⟨ht.sound, ht.past, ht.ordered, fun _ => hm, ht.old⟩, rfl, hm⟩
  next hdirty => exact ⟨ht, rfl, ht.clean (by simpa using hdirty)⟩

end

theorem Inv.step {ev : Nat × Call} (ht : t.Inv d) (h : t.step d ev = some t') : t'.Inv d := by
  obtain ⟨now, call⟩ := ev
  rw [HllTracker.step, Option.ite_none_right_eq_some] at h
  obtain ⟨hnow, h⟩ := h
  have htick := ht.tick hnow
  cases call with
  | metric =>
    cases h
    exact htick.expireOldSlots.ensureMerged.1
  | record hash =>
    obtain ⟨hrot, hne⟩ := htick.rotate
    by_cases hle : rank hash b ≤ 255
    · obtain ⟨t₁, heq, hi⟩ := hrot.recordInLast hne hle
      cases heq.symm.trans h
      exact hi
    · obtain ⟨slot, -, hs⟩ := Option.bind_eq_some_iff.mp h
      rw [insert_eq, u8, if_neg (by omega)] at hs
      cases hs

end HllTracker

end PegaFlow.Common
