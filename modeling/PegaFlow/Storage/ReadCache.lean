import PegaFlow.Lib.Table

/-!
# The read cache

`pegaflow-core/src/cache.rs` and `pegaflow-core/src/storage/read_cache.rs`: an LRU cache without
a bound of its own, with TinyLFU admission if that is configured.

The cache is a `Table` whose first entry was used last, so the victim is its last entry.
`AList.insert` puts a key in front, which is both how a block is inserted and how a lookup
marks it as used.

The sketch that counts accesses hashes a key once for each of its rows.  The source draws the
hash functions at random, and rows and counters are as many as fit the cache; here they are
part of the state.  The counters are bytes that do not wrap.
-/

namespace PegaFlow.Storage

open List

variable {κ ν : Type}

/-! ## Access frequencies -/

/-- A row of the sketch. -/
structure EstimatorRow (κ : Type) where
  hash : κ → Nat
  counters : List Nat

def incrNoOverflow (counter : Nat) : Nat := min 255 (counter + 1)

namespace EstimatorRow

variable (row : EstimatorRow κ) (key : κ)

def index : Nat := row.hash key % row.counters.length

def incr : EstimatorRow κ :=
  { row with counters := row.counters.modify (row.index key) incrNoOverflow }

def get : Nat := row.counters[row.index key]?.getD 0

def age (shift : Nat) : EstimatorRow κ :=
  { row with counters := row.counters.map (· >>> shift) }

end EstimatorRow

/-- The counts age after a window of accesses. -/
structure TinyLfu (κ : Type) where
  estimator : List (EstimatorRow κ)
  windowCounter : Nat
  windowLimit : Nat

namespace TinyLfu

/-- `Estimator::get`: the least of the counters of the key. -/
def get (f : TinyLfu κ) (key : κ) : Nat :=
  f.estimator.foldl (fun least row => min least (row.get key)) 255

def incr (f : TinyLfu κ) (key : κ) : TinyLfu κ :=
  let full := f.windowCounter = f.windowLimit ∨ f.windowLimit * 2 < f.windowCounter
  { f with
    estimator := (if full then f.estimator.map (·.age 1) else f.estimator).map (·.incr key)
    windowCounter := if full then 0 else f.windowCounter + 1 }

/-- A sketch in which nothing has been counted. -/
def new (hashes : List (κ → Nat)) (slots cacheSize : Nat) : TinyLfu κ :=
  ⟨hashes.map fun hash => ⟨hash, List.replicate slots 0⟩, 0, cacheSize * 8⟩

end TinyLfu

/-! ## The cache -/

/-- `TinyLfuCache`, most recently used first. -/
structure TinyLfuCache (κ ν : Type) where
  lru : Table κ ν
  freq : Option (TinyLfu κ)

inductive CacheInsertOutcome where
  | insertedNew
  | alreadyExists
  | rejected
deriving DecidableEq

namespace TinyLfuCache

def empty (freq : Option (TinyLfu κ)) : TinyLfuCache κ ν := ⟨∅, freq⟩

/-- The admission policy refuses a key that was used less often than the victim. -/
def rejects (freq : Option (TinyLfu κ)) (lru : Table κ ν) (key : κ) : Bool :=
  match freq, lru.entries.getLast? with
  | some freq, some victim => decide (freq.get key < freq.get victim.1)
  | _, _ => false

variable [DecidableEq κ]

variable (c : TinyLfuCache κ ν) (key : κ)

def containsKey : Bool := (c.lru.lookup key).isSome

def get : Option ν × TinyLfuCache κ ν :=
  match c.lru.lookup key with
  | some value => (some value, ⟨c.lru.insert key value, c.freq.map (·.incr key)⟩)
  | none => (none, c)

/-- `TinyLfuCache::insert`.  The access is counted whatever the outcome. -/
def insert (c : TinyLfuCache κ ν) (key : κ) (value : ν) : CacheInsertOutcome × TinyLfuCache κ ν :=
  let freq := c.freq.map (·.incr key)
  if c.containsKey key then (.alreadyExists, ⟨c.lru, freq⟩)
  else if rejects freq c.lru key then (.rejected, ⟨c.lru, freq⟩)
  else (.insertedNew, ⟨c.lru.insert key value, freq⟩)

def removeLru : Option ((κ × ν) × TinyLfuCache κ ν) :=
  c.lru.entries.getLast?.map fun victim =>
    ((victim.1, victim.2), { c with lru := c.lru.erase victim.1 })

/-- `ReadCache::remove_lru_batch`. -/
def removeLruBatch : Nat → TinyLfuCache κ ν → List (κ × ν) × TinyLfuCache κ ν
  | 0, c => ([], c)
  | n + 1, c =>
    match c.removeLru with
    | none => ([], c)
    | some (victim, c') => (victim :: (removeLruBatch n c').1, (removeLruBatch n c').2)

def removeAll (c : TinyLfuCache κ ν) : List (κ × ν) × TinyLfuCache κ ν :=
  (c.lru.entries.map fun e => (e.1, e.2), { c with lru := ∅ })

/-- `ReadCache::batch_insert` and `batch_insert_refs`. -/
def batchInsert : List (κ × ν) → TinyLfuCache κ ν → TinyLfuCache κ ν
  | [], c => c
  | (key, value) :: blocks, c => batchInsert blocks (c.insert key value).2

/-- The lookups of `ReadCache::get_blocks` and `get_prefix_blocks`, for their effect on the
cache. -/
def touch : List κ → TinyLfuCache κ ν → TinyLfuCache κ ν
  | [], c => c
  | key :: keys, c => touch keys (c.get key).2

/-- No insert of the list is refused. -/
def Admits : List (κ × ν) → TinyLfuCache κ ν → Prop
  | [], _ => True
  | (key, value) :: blocks, c =>
    (c.insert key value).1 ≠ .rejected ∧ Admits blocks (c.insert key value).2

instance decidableAdmits : (blocks : List (κ × ν)) → (c : TinyLfuCache κ ν) →
    Decidable (Admits blocks c)
  | [], _ => isTrue trivial
  | (key, value) :: blocks, c =>
    have := decidableAdmits blocks (c.insert key value).2
    inferInstanceAs (Decidable (_ ∧ _))

/-! ## What is resident -/

variable {c : TinyLfuCache κ ν} {key k : κ} {value v : ν} {blocks : List (κ × ν)}

theorem lookup_get (c : TinyLfuCache κ ν) (key k : κ) :
    (c.get key).2.lru.lookup k = c.lru.lookup k := by
  unfold get
  split
  next found hfd =>
    by_cases hk : k = key
    · rw [hk, AList.lookup_insert, hfd]
    · exact AList.lookup_insert_ne hk
  · rfl

theorem lookup_touch (keys : List κ) (c : TinyLfuCache κ ν) (k : κ) :
    (touch keys c).lru.lookup k = c.lru.lookup k := by
  induction keys generalizing c with
  | nil => rfl
  | cons key keys ih => exact (ih _).trans (lookup_get c key k)

theorem lookup_insert_of_some (h : c.lru.lookup k = some v) :
    (c.insert key value).2.lru.lookup k = some v := by
  unfold insert
  dsimp only
  split
  · exact h
  next hnew =>
    split
    · exact h
    rw [AList.lookup_insert_ne, h]
    rintro rfl
    rw [containsKey, h] at hnew
    exact hnew rfl

theorem of_lookup_insert (h : (c.insert key value).2.lru.lookup k = some v) :
    c.lru.lookup k = some v ∨ k = key ∧ v = value := by
  unfold insert at h
  dsimp only at h
  split at h
  · exact Or.inl h
  split at h
  · exact Or.inl h
  rcases Table.lookup_of_insert h with hnew | ⟨-, ho⟩
  · exact Or.inr hnew
  · exact Or.inl ho

theorem isSome_insert (h : (c.insert key value).1 ≠ .rejected) :
    ((c.insert key value).2.lru.lookup key).isSome := by
  unfold insert at h ⊢
  dsimp only at h ⊢
  split
  · assumption
  next hnew =>
    rw [if_neg hnew] at h
    split
    next hrejects =>
      rw [if_pos hrejects] at h
      exact (h rfl).elim
    · rw [AList.lookup_insert]
      rfl

theorem lookup_batchInsert_of_some (h : c.lru.lookup k = some v) :
    (batchInsert blocks c).lru.lookup k = some v := by
  induction blocks generalizing c with
  | nil => exact h
  | cons block blocks ih => exact ih (lookup_insert_of_some h)

theorem of_lookup_batchInsert (h : (batchInsert blocks c).lru.lookup k = some v) :
    c.lru.lookup k = some v ∨ (k, v) ∈ blocks := by
  induction blocks generalizing c with
  | nil => exact Or.inl h
  | cons block blocks ih =>
    rcases ih h with ho | hm
    · rcases of_lookup_insert ho with ho | ⟨rfl, rfl⟩
      · exact Or.inl ho
      · exact Or.inr mem_cons_self
    · exact Or.inr (mem_cons_of_mem _ hm)

/-- What is inserted without being refused is resident. -/
theorem isSome_batchInsert (hadmits : Admits blocks c) (h : (key, value) ∈ blocks) :
    ((batchInsert blocks c).lru.lookup key).isSome := by
  induction blocks generalizing c with
  | nil => cases h
  | cons block blocks ih =>
    obtain ⟨hfst, hr⟩ := hadmits
    rcases mem_cons.mp h with rfl | h
    · obtain ⟨found, hfd⟩ := Option.isSome_iff_exists.mp (isSome_insert hfst)
      rw [batchInsert, lookup_batchInsert_of_some hfd]
      rfl
    · exact ih hr h

/-- An eviction removes the keys it returns and no other. -/
theorem lookup_removeLruBatch (n : Nat) (c : TinyLfuCache κ ν) (k : κ) :
    (removeLruBatch n c).2.lru.lookup k =
      if k ∈ (removeLruBatch n c).1.map Prod.fst then none else c.lru.lookup k := by
  induction n generalizing c with
  | zero => simp [removeLruBatch]
  | succ n ih =>
    unfold removeLruBatch
    split
    · simp
    next victim c' hremove =>
      obtain ⟨e, -, heq⟩ := Option.map_eq_some_iff.mp hremove
      cases heq
      rw [ih]
      by_cases hk : k = e.1
      · subst hk
        simp [AList.lookup_erase]
      · rw [AList.lookup_erase_ne hk]
        simp only [map_cons, mem_cons, hk, false_or]

/-- The blocks of the cache with their keys. -/
def resident (c : TinyLfuCache κ ν) : List (κ × ν) := c.lru.entries.map fun e => (e.1, e.2)

theorem removeLru_perm {victim : κ × ν} {c' : TinyLfuCache κ ν}
    (h : c.removeLru = some (victim, c')) : c.resident.Perm (victim :: c'.resident) := by
  obtain ⟨e, he, heq⟩ := Option.map_eq_some_iff.mp h
  cases heq
  have hm := mem_of_getLast? he
  obtain ⟨v, before, after, -, hes, herase⟩ :=
    exists_of_kerase (mem_keys_of_mem hm)
  have hv : v = e.2 := by
    have hboth : (⟨e.1, v⟩ : Sigma fun _ => ν) ∈ c.lru.entries := by simp [hes]
    exact c.lru.nodupKeys.eq_of_mk_mem hboth hm
  subst hv
  unfold resident AList.erase
  dsimp only
  rw [herase, hes, map_append, map_append]
  exact perm_middle

/-- What is evicted was resident, and what was resident is evicted or still there. -/
theorem removeLruBatch_perm (n : Nat) (c : TinyLfuCache κ ν) :
    c.resident.Perm ((removeLruBatch n c).1 ++ (removeLruBatch n c).2.resident) := by
  induction n generalizing c with
  | zero => exact List.Perm.refl _
  | succ n ih =>
    unfold removeLruBatch
    split
    · exact List.Perm.refl _
    next victim c' hremove => exact (removeLru_perm hremove).trans ((ih c').cons victim)

/-- Nothing is evicted only if nothing is there. -/
theorem removeLruBatch_eq_nil {n : Nat} (h : (removeLruBatch (n + 1) c).1 = []) :
    c.resident = [] := by
  unfold removeLruBatch at h
  split at h
  next hremove =>
    rw [removeLru, Option.map_eq_none_iff, getLast?_eq_none_iff] at hremove
    rw [resident, hremove]
    rfl
  next => cases h

end TinyLfuCache

/-! ## What the sketch knows of a key -/

namespace EstimatorRow

variable {row : EstimatorRow κ} {key k : κ}

theorem get_age (shift : Nat) : (row.age shift).get key = row.get key >>> shift := by
  unfold get age index
  rw [length_map, getElem?_map]
  cases row.counters[row.hash key % row.counters.length]? <;> simp

theorem get_incr (hpos : 0 < row.counters.length) :
    (row.incr k).get key =
      if row.index k = row.index key then incrNoOverflow (row.get key) else row.get key := by
  have hlt : row.index key < row.counters.length := Nat.mod_lt _ hpos
  have hindex : (row.incr k).index key = row.index key := by simp [index, incr]
  rw [get, get, hindex, incr, getElem?_modify, getElem?_eq_getElem hlt]
  split <;> rfl

end EstimatorRow

namespace TinyLfu

/-- `Estimator::new`, and no access yet. -/
def zero (hashes : List (κ → Nat)) (slots limit : Nat) : TinyLfu κ :=
  ⟨hashes.map fun hash => ⟨hash, List.replicate slots 0⟩, 0, limit⟩

/-- The counts age before the next access is counted. -/
def Full (f : TinyLfu κ) : Prop :=
  f.windowCounter = f.windowLimit ∨ f.windowLimit * 2 < f.windowCounter

instance (f : TinyLfu κ) : Decidable f.Full := inferInstanceAs (Decidable (_ ∨ _))

/-- What the sketch makes of a count before it counts the next access. -/
def aged (f : TinyLfu κ) (n : Nat) : Nat := if f.Full then n / 2 else n

/-- A counter for the key alone, as the sketch counts an access to `k`. -/
def count [DecidableEq κ] (f : TinyLfu κ) (key k : κ) (n : Nat) : Nat :=
  if k = key then incrNoOverflow (f.aged n) else f.aged n

/-- That counter after a list of accesses. -/
def reference [DecidableEq κ] (key : κ) : TinyLfu κ → List κ → Nat → Nat
  | _, [], n => n
  | f, k :: keys, n => reference key (f.incr k) keys (f.count key k n)

/-- Every row has counters, and the window is not overrun. -/
structure Sized (f : TinyLfu κ) : Prop where
  rows : ∀ row ∈ f.estimator, 0 < row.counters.length
  window : f.windowCounter ≤ f.windowLimit

variable {f : TinyLfu κ} {key k : κ} {n : Nat}

theorem le_get : n ≤ f.get key ↔ n ≤ 255 ∧ ∀ row ∈ f.estimator, n ≤ row.get key := by
  have hfold : ∀ (rows : List (EstimatorRow κ)) (m : Nat),
      n ≤ rows.foldl (fun least row => min least (row.get key)) m ↔
        n ≤ m ∧ ∀ row ∈ rows, n ≤ row.get key := by
    intro rows
    induction rows with
    | nil => simp
    | cons row rows ih =>
      intro m
      rw [foldl_cons, ih, Nat.le_min, forall_mem_cons, and_assoc]
  exact hfold f.estimator 255

section

variable (hs : f.Sized)
include hs

/-- The rows before the access is counted. -/
theorem Sized.aged (h : ∀ row ∈ f.estimator, n ≤ row.get key) :
    ∀ row ∈ if f.Full then f.estimator.map (·.age 1) else f.estimator,
      0 < row.counters.length ∧ f.aged n ≤ row.get key := by
  unfold TinyLfu.aged
  split
  · refine forall_mem_map.mpr fun row hrow => ⟨?_, ?_⟩
    · simpa [EstimatorRow.age] using hs.rows row hrow
    · rw [EstimatorRow.get_age, Nat.shiftRight_one]
      exact Nat.div_le_div_right (h row hrow)
  · exact fun row hrow => ⟨hs.rows row hrow, h row hrow⟩

theorem Sized.incr (k : κ) : (f.incr k).Sized where
  rows := by
    refine forall_mem_map.mpr fun row hrow => ?_
    have hpos := (hs.aged (fun row _ => Nat.zero_le (row.get k)) row hrow).1
    simpa [EstimatorRow.incr] using hpos
  window := by
    have hwindow := hs.window
    simp only [TinyLfu.incr]
    split <;> omega

theorem Sized.count_le_get [DecidableEq κ] (h : n ≤ f.get key) :
    f.count key k n ≤ (f.incr k).get key := by
  obtain ⟨hn, hrows⟩ := le_get.mp h
  have haged : f.aged n ≤ 255 := by
    unfold TinyLfu.aged
    split <;> omega
  unfold count incrNoOverflow
  refine le_get.mpr ⟨by split <;> omega, forall_mem_map.mpr fun row hrow => ?_⟩
  obtain ⟨hpos, hle⟩ := hs.aged hrows row hrow
  rw [EstimatorRow.get_incr hpos, incrNoOverflow]
  split
  next hk =>
    rw [hk, if_pos rfl]
    omega
  · split <;> omega

/-- No access leaves the sketch below the counter of the key. -/
theorem Sized.reference_le_get [DecidableEq κ] (keys : List κ) (h : n ≤ f.get key) :
    reference key f keys n ≤ (keys.foldl TinyLfu.incr f).get key ∧
      (keys.foldl TinyLfu.incr f).windowCounter ≤ f.windowLimit := by
  induction keys generalizing f n with
  | nil => exact ⟨h, hs.window⟩
  | cons k keys ih => exact ih (hs.incr k) (hs.count_le_get h)

end

/-- What the sketch says of a key is never below a counter of its own. -/
theorem reference_le_estimate [DecidableEq κ] (hashes : List (κ → Nat)) (slots limit : Nat)
    (hslots : 0 < slots) (keys : List κ) (key : κ) :
    reference key (zero hashes slots limit) keys 0 ≤
        (keys.foldl TinyLfu.incr (zero hashes slots limit)).get key ∧
      (keys.foldl TinyLfu.incr (zero hashes slots limit)).windowCounter ≤ limit := by
  refine Sized.reference_le_get ⟨?_, Nat.zero_le limit⟩ keys (Nat.zero_le _)
  exact forall_mem_map.mpr fun hash _ => by simpa using hslots

/-- The counts age before the fourth access, and `7` shares a counter with `3`. -/
theorem reference_le_estimate_aged :
    reference 3 (zero [id, (· * 5)] 4 3) [3, 7, 3, 3] 0 = 2 ∧
      reference 3 (zero [id, (· * 5)] 4 3) [3, 7, 3, 3] 0 ≤
        ([3, 7, 3, 3].foldl TinyLfu.incr (zero [id, (· * 5)] 4 3)).get 3 :=
  ⟨by decide, (reference_le_estimate [id, (· * 5)] 4 3 (by decide) [3, 7, 3, 3] 3).1⟩

end TinyLfu

end PegaFlow.Storage
