import PegaFlow.Lib.Range

/-!
# Lists of copies between two memories

A memory gives a value to every offset of every space, where a space is what
addresses cannot cross: a device, an allocation.  A `Copy` moves a range of one memory
to a range of another of the same size, and `runAll` performs a list of copies, one
after another.

Nothing is assumed about the ranges.  A place no copy writes is unchanged
(`runAll_of_not_writes`).  A place that some copies write has the value those copies
agree on (`runAll_of_agree`), which covers disjoint targets and repeated copies alike.  So
a copy is done if every other copy has a disjoint target or is the same (`read_runAll`).
-/

/-- The values of a memory, by space and offset. -/
abbrev Memory (κ β : Type) := κ → Nat → β

/-- The `len` values from `start` on. -/
def Memory.read {κ β : Type} (mem : Memory κ β) (k : κ) (start len : Nat) : List β :=
  (List.range len).map fun i => mem k (start + i)

theorem Memory.read_eq_read {κ κ' β : Type} {mem : Memory κ β} {mem' : Memory κ' β} {k : κ}
    {k' : κ'} {start start' len : Nat}
    (h : ∀ i, i < len → mem k (start + i) = mem' k' (start' + i)) :
    mem.read k start len = mem'.read k' start' len :=
  List.map_congr_left fun i hi => h i (List.mem_range.mp hi)

/-- A copy of `size` values from one memory to another. -/
structure Copy (κ κ' : Type) where
  source : κ
  sourceStart : Nat
  target : κ'
  targetStart : Nat
  size : Nat

namespace Copy

variable {κ κ' β : Type} [DecidableEq κ']

variable (src : Memory κ β) (dst : Memory κ' β) (c : Copy κ κ')

/-- The copy writes to the offset `x` of the space `k`. -/
def Writes (k : κ') (x : Nat) : Prop :=
  k = c.target ∧ x ∈ (⟨c.targetStart, c.size⟩ : ByteRange)

instance (k : κ') (x : Nat) : Decidable (c.Writes k x) :=
  inferInstanceAs (Decidable (_ ∧ _))

/-- The value the copy writes to the offset `x`. -/
def value (x : Nat) : β :=
  src c.source (c.sourceStart + (x - c.targetStart))

def run : Memory κ' β :=
  fun k x => if c.Writes k x then c.value src x else dst k x

def runAll (cs : List (Copy κ κ')) : Memory κ' β :=
  cs.foldl (run src) dst

/-- The targets of the copies share no place. -/
def Apart (c c' : Copy κ κ') : Prop :=
  c.target ≠ c'.target ∨
    (⟨c.targetStart, c.size⟩ : ByteRange).Disjoint ⟨c'.targetStart, c'.size⟩

variable {src : Memory κ β} {dst : Memory κ' β} {c : Copy κ κ'} {cs : List (Copy κ κ')}
variable {k : κ'} {x start len : Nat}

theorem runAll_of_not_writes (h : ∀ c ∈ cs, ¬ c.Writes k x) : runAll src dst cs k x = dst k x := by
  induction cs generalizing dst with
  | nil => rfl
  | cons c cs ih =>
    have hrun : run src dst c k x = dst k x := if_neg (h c List.mem_cons_self)
    exact (ih fun c' hc' => h c' (List.mem_cons_of_mem c hc')).trans hrun

theorem runAll_of_agree {v : β} (hwrites : ∃ c ∈ cs, c.Writes k x)
    (hagree : ∀ c ∈ cs, c.Writes k x → c.value src x = v) : runAll src dst cs k x = v := by
  -- The last copy that writes to the place decides.
  induction cs generalizing dst with
  | nil => simp at hwrites
  | cons c cs ih =>
    by_cases hlat : ∃ c' ∈ cs, c'.Writes k x
    · exact ih hlat fun c' hc' => hagree c' (List.mem_cons_of_mem c hc')
    have hc : c.Writes k x := by
      obtain ⟨c', hc', hw⟩ := hwrites
      rcases List.mem_cons.mp hc' with rfl | hm
      · exact hw
      · exact absurd ⟨c', hm, hw⟩ hlat
    have hrun : run src dst c k x = v :=
      (if_pos hc).trans (hagree c List.mem_cons_self hc)
    have hr : runAll src (run src dst c) cs k x = run src dst c k x :=
      runAll_of_not_writes fun c' hc' hw => hlat ⟨c', hc', hw⟩
    exact hr.trans hrun

theorem read_runAll (hc : c ∈ cs) (h : ∀ c' ∈ cs, c' = c ∨ c.Apart c') :
    (runAll src dst cs).read c.target c.targetStart c.size
      = src.read c.source c.sourceStart c.size := by
  refine Memory.read_eq_read ?_
  intro i hi
  have hm : c.targetStart + i ∈ (⟨c.targetStart, c.size⟩ : ByteRange) :=
    ⟨Nat.le_add_right _ _, Nat.add_lt_add_left hi _⟩
  refine runAll_of_agree ⟨c, hc, rfl, hm⟩ ?_
  intro c' hc' hw
  rcases h c' hc' with rfl | hne | hd
  · rw [value, Nat.add_sub_cancel_left]
  · exact absurd hw.1 hne
  · exact absurd hw.2 (hd _ hm)

/-- A range that no copy writes to is unchanged. -/
theorem read_runAll_of_not_writes (h : ∀ c ∈ cs, ∀ x ∈ (⟨start, len⟩ : ByteRange), ¬ c.Writes k x) :
    (runAll src dst cs).read k start len = dst.read k start len :=
  Memory.read_eq_read fun _ hi =>
    runAll_of_not_writes fun c hc =>
      h c hc _ ⟨Nat.le_add_right _ _, Nat.add_lt_add_left hi _⟩

/-- A copy that continues another on both sides makes one copy with it. -/
theorem run_run (k : κ) (k' : κ') (a b m n : Nat) :
    run src (run src dst ⟨k, a, k', b, m⟩) ⟨k, a + m, k', b + m, n⟩ =
      run src dst ⟨k, a, k', b, m + n⟩ := by
  funext j x
  simp only [run, Writes, value, ByteRange.mem_iff]
  by_cases hj : j = k'
  · by_cases hx : b + m ≤ x ∧ x < b + m + n
    · rw [if_pos ⟨hj, hx⟩, if_pos ⟨hj, by omega, by omega⟩]
      congr 1
      omega
    · rw [if_neg fun h => hx h.2]
      refine if_congr (and_congr_right fun _ => ?_) rfl rfl
      omega
  · simp [hj]

end Copy
