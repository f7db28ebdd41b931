import Mathlib.Data.Nat.GCD.Basic
import PegaFlow.Pd.HeadPlan

/-!
# The head mapping of a deployment

A deployment has a prefill and a decode side of different tensor-parallel sizes.  The engine places
the KV heads (`heldHead`): with at most as many ranks as heads each rank holds a run of them, with
more ranks than heads each head is held by a run of ranks.

The plans of all prefill ranks should write every head slot of every decode rank once, from a slot
with the same head, and each decode rank should expect as many immediates as plans target it
(`Mapped`).  The code knows nothing of heads that are held twice.  Its numbering agrees with the
placement where heads are not replicated; where they are, only for equal sizes or a single head.
Besides, a decode side that is not told the prefill size takes its own (`Supported`).
-/

namespace PegaFlow.Pd

open List Loop

/-! ## Placement -/

/-- The sizes that the placement is defined for. -/
def Placed (totalHeads tp : Nat) : Prop :=
  tp ≤ totalHeads ∧ tp ∣ totalHeads ∨ totalHeads < tp ∧ totalHeads ∣ tp

def headsPerRank (totalHeads tp : Nat) : Nat := max 1 (totalHeads / tp)

/-- The head in a slot of a rank. -/
def heldHead (totalHeads tp rank slot : Nat) : Nat :=
  if tp ≤ totalHeads then rank * (totalHeads / tp) + slot else rank * totalHeads / tp

variable {K tp x : Nat}

theorem headsPerRank_pos (K tp : Nat) : 0 < headsPerRank K tp := Nat.le_max_left ..

theorem headsPerRank_of_le (htp : 0 < tp) (h : tp ≤ K) : headsPerRank K tp = K / tp :=
  Nat.max_eq_right (Nat.div_pos h htp)

theorem headsPerRank_of_lt (h : K < tp) : headsPerRank K tp = 1 := by
  rw [headsPerRank, Nat.div_eq_of_lt h]
  rfl

/-- The head slots of all ranks. -/
theorem headsPerRank_mul (htp : 0 < tp) (h : Placed K tp) : headsPerRank K tp * tp = max K tp := by
  rcases h with ⟨hle, hdvd⟩ | ⟨hlt, -⟩
  · rw [headsPerRank_of_le htp hle, Nat.div_mul_cancel hdvd, Nat.max_eq_left hle]
  · rw [headsPerRank_of_lt hlt, Nat.one_mul, Nat.max_eq_right hlt.le]

theorem headsPerRank_dvd (htp : 0 < tp) (h : Placed K tp) : headsPerRank K tp ∣ K := by
  rcases h with ⟨hle, hdvd⟩ | ⟨hlt, -⟩
  · rw [headsPerRank_of_le htp hle]
    exact Nat.div_dvd_of_dvd hdvd
  · rw [headsPerRank_of_lt hlt]
    exact Nat.one_dvd _

/-- The head at a place of the tiling by ranks. -/
theorem heldHead_tile (htp : 0 < tp) (x : Nat) :
    heldHead K tp (x / headsPerRank K tp) (x % headsPerRank K tp) =
      if tp ≤ K then x else x * K / tp := by
  rw [heldHead]
  split
  next hle => rw [headsPerRank_of_le htp hle, Nat.div_add_mod']
  next hgt => rw [headsPerRank_of_lt (Nat.lt_of_not_le hgt), Nat.div_one]

/-- The two sides of a deployment and the handshakes of a request.  The decode side may be
configured with the size of the prefill side and the number of heads. -/
structure Topology where
  prefillTp : Nat
  decodeTp : Nat
  totalHeads : Nat
  headBytes : Nat
  useMla : Bool
  handshakes : List PdHandshake
  prefillTpSize : Option Nat
  totalNumKvHeads : Option Nat
  prefillTp_pos : 0 < prefillTp
  decodeTp_pos : 0 < decodeTp
  totalHeads_pos : 0 < totalHeads
  headBytes_pos : 0 < headBytes
  dvd : prefillTp ∣ decodeTp ∨ decodeTp ∣ prefillTp
  placed : useMla = false → Placed totalHeads prefillTp ∧ Placed totalHeads decodeTp
  onePerRank : OnePerRank handshakes decodeTp
  blockLen : useMla = false → ∀ h ∈ handshakes, ∃ layer layers lens, h.layers = layer :: layers ∧
    layer.blockLens = headsPerRank totalHeads decodeTp * headBytes :: lens
  prefillTpSize_eq : prefillTpSize = none ∨ prefillTpSize = some prefillTp
  totalNumKvHeads_eq : totalNumKvHeads = none ∨ totalNumKvHeads = some totalHeads

namespace Topology

variable {t : Topology}

/-- The KV cache of a rank. -/
def layout (t : Topology) (tp : Nat) : KvLayout :=
  if t.useMla then .blocks else .hnd (headsPerRank t.totalHeads tp) t.headBytes

def prefillWorker (t : Topology) (rank : Nat) : PrefillWorker :=
  ⟨rank, t.prefillTp, t.useMla, t.layout t.prefillTp⟩

def decodeWorker (t : Topology) : DecodeWorker :=
  ⟨t.decodeTp, t.useMla, t.layout t.decodeTp, t.prefillTpSize, t.totalNumKvHeads⟩

/-- The plans of the prefill ranks, in order. -/
def plans (t : Topology) : Except String (List PushLayoutPlan) :=
  (List.range t.prefillTp).mapM' fun rank => (t.prefillWorker rank).buildPushLayoutPlan t.handshakes

/-- The copies of all prefill ranks. -/
def copies (t : Topology) (plans : List PushLayoutPlan) : List HeadCopy :=
  plans.zipIdx.flatMap fun (plan, rank) =>
    plan.copies rank (headsPerRank t.totalHeads t.prefillTp)

/-- How many plans target a decode rank. -/
def targeting (plans : List PushLayoutPlan) (rank : Nat) : Nat :=
  plans.countP fun plan => rank ∈ plan.ranks

/-- Every head slot of the decode side is written once, from a slot with the same head. -/
structure Written (t : Topology) (plans : List PushLayoutPlan) : Prop where
  once : ∀ rank < t.decodeTp, ∀ slot < headsPerRank t.totalHeads t.decodeTp,
    (t.copies plans).countP (fun copy => copy.target = (rank, slot)) = 1
  same : ∀ copy ∈ t.copies plans,
    heldHead t.totalHeads t.prefillTp copy.source.1 copy.source.2 =
      heldHead t.totalHeads t.decodeTp copy.target.1 copy.target.2

variable (t)

/-- Every decode rank is the target of one prefill rank. -/
def OneSource (plans : List PushLayoutPlan) : Prop :=
  ∀ rank < t.decodeTp, targeting plans rank = 1

/-- The plans and the expected counts of a deployment are right. -/
def Mapped : Prop :=
  ∃ plans, t.plans = .ok plans ∧ (if t.useMla then t.OneSource plans else t.Written plans) ∧
    ∃ expected, t.decodeWorker.expectedImmCount = .ok expected ∧
      ∀ rank < t.decodeTp, expected rank = targeting plans rank

/-- No head is replicated, or the sizes are equal, or there is one head and it is not replicated
more often on the decode side. -/
def Aligned : Prop :=
  t.prefillTp ≤ t.totalHeads ∧ t.decodeTp ≤ t.totalHeads ∨ t.prefillTp = t.decodeTp ∨
    t.totalHeads = 1 ∧ t.decodeTp ≤ t.prefillTp

/-- The deployments whose heads are mapped right: besides, the decode side knows the size of the
prefill side if that matters. -/
def Supported : Prop :=
  t.Aligned ∧
    (t.prefillTpSize = some t.prefillTp ∨ t.prefillTp ≤ t.decodeTp ∨ t.totalHeads = 1)

variable {t}

theorem prefillTp_dvd (h : t.prefillTp ≤ t.decodeTp) : t.prefillTp ∣ t.decodeTp :=
  t.dvd.elim id fun hdvd =>
    dvd_of_eq (Nat.le_antisymm h (Nat.le_of_dvd t.prefillTp_pos hdvd))

theorem decodeTp_dvd (h : t.decodeTp ≤ t.prefillTp) : t.decodeTp ∣ t.prefillTp :=
  t.dvd.elim (fun hdvd => dvd_of_eq (Nat.le_antisymm h (Nat.le_of_dvd t.decodeTp_pos hdvd))) id

/-! ## Heads -/

variable (t)

/-- The head slots of a prefill rank, and of a decode rank. -/
def localHeads : Nat := headsPerRank t.totalHeads t.prefillTp

def remoteHeads : Nat := headsPerRank t.totalHeads t.decodeTp

theorem localHeads_pos : 0 < t.localHeads := headsPerRank_pos ..

theorem remoteHeads_pos : 0 < t.remoteHeads := headsPerRank_pos ..

/-- The total that the prefill side takes. -/
def total : Nat := min (t.localHeads * t.prefillTp) (t.remoteHeads * t.decodeTp)

variable {t}

theorem total_eq (hmla : t.useMla = false) :
    t.total = min (max t.totalHeads t.prefillTp) (max t.totalHeads t.decodeTp) := by
  obtain ⟨hp, hd⟩ := t.placed hmla
  rw [total, localHeads, remoteHeads, headsPerRank_mul t.prefillTp_pos hp,
    headsPerRank_mul t.decodeTp_pos hd]

/-- A side tiles the lesser one of the totals of the two sides. -/
theorem tiled_of_placed {heads tp : Nat} (other : Nat) (hpos : 0 < tp) (hp : Placed heads tp) :
    Tiled tp (headsPerRank heads tp) (min (max heads tp) (max heads other)) where
  pos := headsPerRank_pos ..
  dvd := by
    by_cases hle : tp ≤ heads
    · rw [Nat.max_eq_left hle, Nat.min_eq_left (Nat.le_max_left ..)]
      exact headsPerRank_dvd hpos hp
    · rw [headsPerRank_of_lt (Nat.lt_of_not_le hle)]
      exact Nat.one_dvd _
  covers := by
    rw [← headsPerRank_mul hpos hp, Nat.mul_comm]
    exact Nat.min_le_left ..

theorem tiled_prefill (hmla : t.useMla = false) : Tiled t.prefillTp t.localHeads t.total := by
  rw [total_eq hmla]
  exact tiled_of_placed _ t.prefillTp_pos (t.placed hmla).1

theorem tiled_decode (hmla : t.useMla = false) : Tiled t.decodeTp t.remoteHeads t.total := by
  rw [total_eq hmla, Nat.min_comm]
  exact tiled_of_placed _ t.decodeTp_pos (t.placed hmla).2

theorem total_pos : 0 < t.total :=
  Nat.lt_min.mpr ⟨Nat.mul_pos t.localHeads_pos t.prefillTp_pos,
    Nat.mul_pos t.remoteHeads_pos t.decodeTp_pos⟩

/-- The plan of a rank. -/
def planOf (t : Topology) (rank : Nat) : PushLayoutPlan :=
  (LayoutArgs.ofRank t.prefillTp t.localHeads t.remoteHeads t.total rank).headPlan t.handshakes

/-- The prefill side reads the heads of a decode rank off a block. -/
theorem remoteNumKvHeads_eq (hmla : t.useMla = false) {h : PdHandshake} (hh : h ∈ t.handshakes)
    (numKvHeads fallback : Nat) :
    remoteNumKvHeads h (.hnd numKvHeads t.headBytes) fallback = t.remoteHeads := by
  obtain ⟨layer, layers, lens, hls, hlens⟩ := t.blockLen hmla h hh
  simp only [remoteNumKvHeads, hls, hlens]
  rw [Nat.mul_mod_left, Nat.mul_div_cancel _ t.headBytes_pos]
  exact Nat.max_eq_right t.remoteHeads_pos

theorem prefillWorker_buildPushLayoutPlan (hmla : t.useMla = false) (rank : Nat) :
    (t.prefillWorker rank).buildPushLayoutPlan t.handshakes =
      (LayoutArgs.ofRank t.prefillTp t.localHeads t.remoteHeads t.total rank).buildPushLayoutPlan
        t.handshakes := by
  cases hhs : t.handshakes with
  | nil => rfl
  | cons first rest =>
    have hm : first ∈ t.handshakes := hhs ▸ mem_cons_self
    have htp := t.onePerRank.tpSizes first hm
    simp only [PrefillWorker.buildPushLayoutPlan, prefillWorker, layout, hmla, htp,
      Bool.false_eq_true, if_false, KvLayout.numKvHeads, remoteNumKvHeads_eq hmla hm]
    rfl

theorem plans_eq (hmla : t.useMla = false) :
    t.plans = .ok ((List.range t.prefillTp).map t.planOf) := by
  refine mapM_eq_ok_map fun rank hr => ?_
  rw [prefillWorker_buildPushLayoutPlan hmla]
  have heven : (LayoutArgs.ofRank t.prefillTp t.localHeads t.remoteHeads t.total rank).Even
      t.decodeTp := ⟨mem_range.mp hr, total_pos, tiled_prefill hmla, tiled_decode hmla⟩
  exact heven.buildPushLayoutPlan_eq rfl t.onePerRank t.decodeTp_pos t.dvd

variable (t)

theorem copies_perm : (t.copies ((List.range t.prefillTp).map t.planOf)).Perm
      ((List.range t.total).map (copyOf t.localHeads t.remoteHeads)) := by
  rw [copies, Tiles.zipIdx_map_range, flatMap_map]
  exact LayoutArgs.copies_perm ((Nat.min_le_left ..).trans_eq (Nat.mul_comm ..))

theorem targeting_eq (b : Nat) : targeting ((List.range t.prefillTp).map t.planOf) b =
      Tiles.sources t.prefillTp t.localHeads t.remoteHeads t.total b :=
  LayoutArgs.countP_ranks t.handshakes b

/-- Every slot is written once exactly if the decode side has no more slots than the total. -/
theorem once_iff : (∀ rank < t.decodeTp, ∀ slot < t.remoteHeads,
        (t.copies ((List.range t.prefillTp).map t.planOf)).countP
          (fun copy => copy.target = (rank, slot)) = 1) ↔
      t.remoteHeads * t.decodeTp ≤ t.total := by
  have hct : ∀ {rank slot}, slot < t.remoteHeads →
      (t.copies ((range t.prefillTp).map t.planOf)).countP
          (fun copy => copy.target = (rank, slot)) =
        if rank * t.remoteHeads + slot < t.total then 1 else 0 := by
    intro rank slot hs
    rw [t.copies_perm.countP_eq, countP_map, ← Tiles.countP_tile hs]
    rfl
  constructor
  · intro honce
    -- the last slot of the last rank
    have hl := honce (t.decodeTp - 1) (Nat.sub_one_lt t.decodeTp_pos.ne') (t.remoteHeads - 1)
      (Nat.sub_one_lt t.remoteHeads_pos.ne')
    rw [hct (Nat.sub_one_lt t.remoteHeads_pos.ne')] at hl
    split at hl
    next hlt =>
      obtain ⟨d, hd⟩ := Nat.exists_eq_add_of_lt t.decodeTp_pos
      rw [hd, Nat.zero_add, Nat.add_sub_cancel, Nat.mul_comm] at hlt
      rw [hd, Nat.zero_add, Nat.mul_succ]
      omega
    · cases hl
  · intro hle rank hr slot hs
    rw [hct hs, if_pos]
    calc rank * t.remoteHeads + slot < rank * t.remoteHeads + t.remoteHeads :=
          Nat.add_lt_add_left hs _
      _ = t.remoteHeads * (rank + 1) := by rw [Nat.mul_succ, Nat.mul_comm]
      _ ≤ t.remoteHeads * t.decodeTp := Nat.mul_le_mul_left _ hr
      _ ≤ t.total := hle

theorem same_iff : (∀ copy ∈ t.copies ((List.range t.prefillTp).map t.planOf),
        heldHead t.totalHeads t.prefillTp copy.source.1 copy.source.2 =
          heldHead t.totalHeads t.decodeTp copy.target.1 copy.target.2) ↔ ∀ x < t.total,
        (if t.prefillTp ≤ t.totalHeads then x else x * t.totalHeads / t.prefillTp) =
          if t.decodeTp ≤ t.totalHeads then x else x * t.totalHeads / t.decodeTp := by
  simp only [t.copies_perm.mem_iff, forall_mem_map, mem_range, copyOf]
  refine forall₂_congr fun x _ => ?_
  rw [localHeads, remoteHeads, heldHead_tile t.prefillTp_pos, heldHead_tile t.decodeTp_pos]

variable {t}

theorem room_iff (hmla : t.useMla = false) :
    t.remoteHeads * t.decodeTp ≤ t.total ↔
      t.decodeTp ≤ t.totalHeads ∨ t.decodeTp ≤ t.prefillTp := by
  obtain ⟨-, hd⟩ := t.placed hmla
  rw [total_eq hmla, remoteHeads, headsPerRank_mul t.decodeTp_pos hd]
  omega

/-- With room for all slots and a replicated head on the prefill side, the first head that is not
the first one comes from the wrong place. -/
theorem aligned_of_written (hmla : t.useMla = false)
    (hrm : t.decodeTp ≤ t.totalHeads ∨ t.decodeTp ≤ t.prefillTp)
    (hsm : ∀ x < t.total,
      (if t.prefillTp ≤ t.totalHeads then x else x * t.totalHeads / t.prefillTp) =
        if t.decodeTp ≤ t.totalHeads then x else x * t.totalHeads / t.decodeTp) : t.Aligned := by
  by_cases hp : t.prefillTp ≤ t.totalHeads
  · exact Or.inl ⟨hp, hrm.elim id fun h => h.trans hp⟩
  by_cases heq : t.prefillTp = t.decodeTp
  · exact Or.inr (Or.inl heq)
  refine Or.inr (Or.inr ⟨?_, by omega⟩)
  by_contra hone
  have hpos := t.totalHeads_pos
  have hlt : t.decodeTp < t.prefillTp := by omega
  rw [total_eq hmla] at hsm
  by_cases hd : t.decodeTp ≤ t.totalHeads
  · have h := hsm 1 (by omega)
    rw [if_neg hp, if_pos hd, Nat.div_eq_of_lt (by omega)] at h
    cases h
  · obtain ⟨k, hk⟩ : t.totalHeads ∣ t.decodeTp := by
      rcases (t.placed hmla).2 with h | h
      · exact absurd h.1 hd
      · exact h.2
    have hkd : k < t.decodeTp := by
      have := Nat.mul_le_mul_right k (by omega : 2 ≤ t.totalHeads)
      omega
    have h := hsm k (by omega)
    rw [if_neg hp, if_neg hd, Nat.mul_comm, ← hk, Nat.div_self t.decodeTp_pos,
      Nat.div_eq_of_lt hlt] at h
    cases h

theorem written_iff (hmla : t.useMla = false) :
    t.Written ((List.range t.prefillTp).map t.planOf) ↔ t.Aligned := by
  constructor
  · intro h
    exact aligned_of_written hmla ((room_iff hmla).mp (t.once_iff.mp h.once)) (t.same_iff.mp h.same)
  · intro h
    refine ⟨t.once_iff.mpr ((room_iff hmla).mpr ?_), t.same_iff.mpr fun x hx => ?_⟩
    · rcases h with h | h | h <;> omega
    · rw [total_eq hmla] at hx
      rcases h with ⟨hp, hd⟩ | heq | ⟨hone, hle⟩
      · rw [if_pos hp, if_pos hd]
      · rw [heq]
      · have hpos := t.decodeTp_pos
        rw [hone, Nat.div_eq_of_lt (by omega), Nat.div_eq_of_lt (by omega)]
        split <;> split <;> omega

/-! ## Expected counts -/

variable (t)

/-- What the decode side takes for the size of the prefill side, the total and the heads of a
prefill rank. -/
def assumedTp : Nat := t.prefillTpSize.getD t.decodeTp

def assumedTotal : Nat := t.totalNumKvHeads.getD (t.remoteHeads * t.decodeTp)

def assumedHeads : Nat := (t.assumedTotal + t.assumedTp - 1) / t.assumedTp

theorem assumedTp_eq : t.assumedTp = t.decodeTp ∨ t.assumedTp = t.prefillTp := by
  rw [assumedTp]
  rcases t.prefillTpSize_eq with h | h <;> rw [h]
  · exact Or.inl rfl
  · exact Or.inr rfl

variable {t}

theorem assumedTotal_eq (hmla : t.useMla = false) :
    t.assumedTotal = t.totalHeads ∨ t.assumedTotal = max t.totalHeads t.decodeTp := by
  rw [assumedTotal]
  rcases t.totalNumKvHeads_eq with h | h <;> rw [h]
  · exact Or.inr (headsPerRank_mul t.decodeTp_pos (t.placed hmla).2)
  · exact Or.inl rfl

theorem assumedTp_pos (t : Topology) : 0 < t.assumedTp := by
  have := t.prefillTp_pos
  have := t.decodeTp_pos
  rcases t.assumedTp_eq with h | h <;> omega

theorem assumedTotal_pos (hmla : t.useMla = false) : 0 < t.assumedTotal := by
  have := t.totalHeads_pos
  rcases assumedTotal_eq hmla with h | h <;> omega

/-- The assumed size divides the assumed total or is at least as large. -/
theorem assumedTp_dvd_or_le (hmla : t.useMla = false) :
    t.assumedTp ∣ t.assumedTotal ∨ t.assumedTotal ≤ t.assumedTp := by
  obtain ⟨hp, hd⟩ := t.placed hmla
  have hheads : t.assumedTp ∣ t.totalHeads ∨ t.totalHeads ≤ t.assumedTp := by
    rcases t.assumedTp_eq with h | h <;> rw [h]
    · exact hd.imp And.right fun h => h.1.le
    · exact hp.imp And.right fun h => h.1.le
  rcases assumedTotal_eq hmla with h | h <;> rw [h]
  · exact hheads
  rcases Nat.le_total t.decodeTp t.totalHeads with hle | hle
  · rw [Nat.max_eq_left hle]
    exact hheads
  · rw [Nat.max_eq_right hle]
    rcases t.assumedTp_eq with h | h <;> rw [h]
    · exact Or.inl (Nat.dvd_refl _)
    · exact t.dvd.imp_right (Nat.le_of_dvd t.prefillTp_pos)

theorem assumedHeads_of_dvd (h : t.assumedTp ∣ t.assumedTotal) :
    t.assumedHeads = t.assumedTotal / t.assumedTp := by
  have hpos := t.assumedTp_pos
  obtain ⟨k, hk⟩ := h
  rw [hk, Nat.mul_div_cancel_left k hpos]
  refine Nat.div_eq_of_lt_le ?_ ?_
  · rw [Nat.mul_comm]
    omega
  · rw [Nat.succ_mul, Nat.mul_comm]
    omega

theorem assumedHeads_of_le (hmla : t.useMla = false) (h : t.assumedTotal ≤ t.assumedTp) :
    t.assumedHeads = 1 := by
  have := assumedTotal_pos hmla
  exact Nat.div_eq_of_lt_le (by omega) (by omega)

theorem tiled_assumed_prefill (hmla : t.useMla = false) :
    Tiled t.assumedTp t.assumedHeads t.assumedTotal := by
  have hpos := t.assumedTp_pos
  by_cases hle : t.assumedTotal ≤ t.assumedTp
  · rw [assumedHeads_of_le hmla hle]
    exact ⟨Nat.one_pos, Nat.one_dvd _, by omega⟩
  · have hdvd := (assumedTp_dvd_or_le hmla).resolve_right hle
    rw [assumedHeads_of_dvd hdvd]
    exact ⟨Nat.div_pos (by omega) hpos, Nat.div_dvd_of_dvd hdvd, (Nat.mul_div_cancel' hdvd).ge⟩

theorem tiled_assumed_decode (hmla : t.useMla = false) :
    Tiled t.decodeTp t.remoteHeads t.assumedTotal := by
  have hd := (t.placed hmla).2
  have hsl : t.decodeTp * t.remoteHeads = max t.totalHeads t.decodeTp := by
    rw [Nat.mul_comm]
    exact headsPerRank_mul t.decodeTp_pos hd
  refine ⟨t.remoteHeads_pos, ?_, ?_⟩
  · rcases assumedTotal_eq hmla with h | h <;> rw [h]
    · exact headsPerRank_dvd t.decodeTp_pos hd
    · rw [← hsl]
      exact Nat.dvd_mul_left ..
  · rcases assumedTotal_eq hmla with h | h <;> omega

theorem assumed_dvd (t : Topology) : t.assumedTp ∣ t.decodeTp ∨ t.decodeTp ∣ t.assumedTp := by
  rcases t.assumedTp_eq with h | h <;> rw [h]
  · exact Or.inl (Nat.dvd_refl _)
  · exact t.dvd

/-- The expected count of a rank: at least one. -/
def expectedOf (t : Topology) (rank : Nat) : Nat :=
  let sources := Tiles.sources t.assumedTp t.assumedHeads t.remoteHeads t.assumedTotal rank
  if sources = 0 then 1 else sources

theorem expectedImmCount_eq (hmla : t.useMla = false) :
    ∃ expected, t.decodeWorker.expectedImmCount = .ok expected ∧
      ∀ rank < t.decodeTp, expected rank = t.expectedOf rank := by
  obtain ⟨counts, hcts, hlk⟩ := LayoutArgs.sourceCounts_eq (assumedTotal_pos hmla)
    (tiled_assumed_prefill hmla) (tiled_assumed_decode hmla) t.decodeTp_pos t.assumed_dvd
  refine ⟨fun rank => if rank < t.decodeTp then (counts.lookup rank).getD 1 else 1, ?_, ?_⟩
  · have htp : (if t.assumedTp = 0 then t.decodeTp else t.assumedTp) = t.assumedTp :=
      if_neg t.assumedTp_pos.ne'
    have hceil : ceilDiv t.assumedTotal t.assumedTp = .ok t.assumedHeads := by
      rw [ceilDiv, require_ok (assumedTotal_pos hmla), require_ok t.assumedTp_pos]
      rfl
    have hheads : (t.layout t.decodeTp).numKvHeads = t.remoteHeads := by
      rw [layout, hmla]
      rfl
    rw [DecodeWorker.expectedImmCount, decodeWorker, hmla, hheads]
    change (ceilDiv t.assumedTotal (if t.assumedTp = 0 then t.decodeTp else t.assumedTp) >>= _) = _
    rw [htp, hceil]
    change (decodeRankSourceCounts (if t.assumedTp = 0 then t.decodeTp else t.assumedTp) t.decodeTp
      t.assumedHeads t.remoteHeads t.assumedTotal false >>= _) = _
    rw [htp, hcts]
    rfl
  · intro rank hr
    exact (if_pos hr).trans (hlk rank 1)

/-- Every slot of a rank is below the total. -/
theorem Aligned.mul_lt_total (h : t.Aligned) (hmla : t.useMla = false) {b : Nat}
    (hb : b < t.decodeTp) : b * t.remoteHeads < t.total := by
  have hrm : t.remoteHeads * t.decodeTp ≤ t.total :=
    (room_iff hmla).mpr (by rcases h with h | h | h <;> omega)
  calc b * t.remoteHeads < t.decodeTp * t.remoteHeads :=
        Nat.mul_lt_mul_of_pos_right hb t.remoteHeads_pos
    _ = t.remoteHeads * t.decodeTp := Nat.mul_comm ..
    _ ≤ t.total := hrm

section

variable (hmla : t.useMla = false)
include hmla

theorem expectedOf_eq_one (hdvd : t.remoteHeads ∣ t.assumedHeads) (b : Nat) :
    t.expectedOf b = 1 := by
  have hpre := tiled_assumed_prefill hmla
  rw [expectedOf]
  by_cases hb : b * t.remoteHeads < t.assumedTotal
  · rw [Tiles.sources_eq_one hpre.pos t.remoteHeads_pos hdvd hpre.covers hb]
    rfl
  · rw [Tiles.sources_eq_zero (Nat.le_of_not_lt hb)]
    rfl

theorem targeting_eq_one (h : t.Aligned) (hdvd : t.remoteHeads ∣ t.localHeads) {b : Nat}
    (hb : b < t.decodeTp) : targeting ((List.range t.prefillTp).map t.planOf) b = 1 := by
  have hpre := tiled_prefill hmla
  rw [targeting_eq, Tiles.sources_eq_one hpre.pos t.remoteHeads_pos hdvd hpre.covers
    (h.mul_lt_total hmla hb)]

/-- Without replication both sides count the heads of the model. -/
theorem total_of_le (hp : t.prefillTp ≤ t.totalHeads) (hd : t.decodeTp ≤ t.totalHeads) :
    t.total = t.totalHeads ∧ t.assumedTotal = t.totalHeads ∧
      t.assumedHeads = t.totalHeads / t.assumedTp := by
  have htot : t.assumedTotal = t.totalHeads := by
    rcases assumedTotal_eq hmla with h | h <;> omega
  have hdvd : t.assumedTp ∣ t.totalHeads := by
    obtain ⟨hpp, hpd⟩ := t.placed hmla
    rcases t.assumedTp_eq with h | h <;> rw [h]
    · exact (hpd.resolve_right fun hlt => by omega).2
    · exact (hpp.resolve_right fun hlt => by omega).2
  refine ⟨?_, htot, ?_⟩
  · rw [total_eq hmla]
    omega
  · rw [assumedHeads_of_dvd (htot ▸ hdvd), htot]

/-- A decode rank's heads are part of a prefill rank's, in fact and in the decode side's view. -/
theorem remoteHeads_dvd (hle : t.prefillTp ≤ t.decodeTp ∨ t.totalHeads = 1) :
    t.remoteHeads ∣ t.localHeads ∧ t.remoteHeads ∣ t.assumedHeads := by
  by_cases hone : t.remoteHeads = 1
  · rw [hone]
    exact ⟨Nat.one_dvd _, Nat.one_dvd _⟩
  have hheads : t.totalHeads ≠ 1 := by
    intro h
    have hdvd := headsPerRank_dvd t.decodeTp_pos (t.placed hmla).2
    exact hone (Nat.dvd_one.mp (h ▸ hdvd))
  have hle := hle.resolve_right hheads
  have hd : t.decodeTp ≤ t.totalHeads :=
    Nat.le_of_not_lt fun hlt => hone (headsPerRank_of_lt hlt)
  have hp : t.prefillTp ≤ t.totalHeads := hle.trans hd
  have hdvdK : t.decodeTp ∣ t.totalHeads :=
    ((t.placed hmla).2.resolve_right fun h => Nat.not_lt.mpr hd h.1).2
  have hdvd := prefillTp_dvd hle
  obtain ⟨-, -, hasm⟩ := total_of_le hmla hp hd
  rw [hasm, localHeads, remoteHeads, headsPerRank_of_le t.decodeTp_pos hd,
    headsPerRank_of_le t.prefillTp_pos hp]
  refine ⟨Nat.div_dvd_div_left hdvdK hdvd, ?_⟩
  rcases t.assumedTp_eq with h | h
  · rw [h]
  · rw [h]
    exact Nat.div_dvd_div_left hdvdK hdvd

/-- A decode side that takes its own size for that of more prefill ranks counts too few. -/
theorem expectedOf_ne_targeting (hp : t.prefillTp ≤ t.totalHeads) (hlt : t.decodeTp < t.prefillTp)
    (hn : t.prefillTpSize = none) :
    t.expectedOf 0 ≠ targeting ((List.range t.prefillTp).map t.planOf) 0 := by
  have hd : t.decodeTp ≤ t.totalHeads := hlt.le.trans hp
  have hassumedTp : t.assumedTp = t.decodeTp := by
    rw [assumedTp, hn]
    rfl
  obtain ⟨htot, -, hasm⟩ := total_of_le hmla hp hd
  have hrem : t.remoteHeads = t.totalHeads / t.decodeTp := headsPerRank_of_le t.decodeTp_pos hd
  have hloc : t.localHeads < t.remoteHeads := by
    obtain ⟨hpp, hpd⟩ := t.placed hmla
    have hpp := (hpp.resolve_right fun h => Nat.not_lt.mpr hp h.1).2
    have hpd := (hpd.resolve_right fun h => Nat.not_lt.mpr hd h.1).2
    rw [hrem, localHeads, headsPerRank_of_le t.prefillTp_pos hp]
    exact (Nat.div_lt_div_left t.totalHeads_pos.ne' hpp hpd).mpr hlt
  have hle : t.remoteHeads ≤ t.total := by
    rw [htot, hrem]
    exact Nat.div_le_self ..
  have hdvd : t.remoteHeads ∣ t.assumedHeads := by
    rw [hasm, hassumedTp, hrem]
  rw [expectedOf_eq_one hmla hdvd, targeting_eq]
  exact (Tiles.one_lt_sources t.localHeads_pos hloc (tiled_prefill hmla).covers hle).ne

theorem counts_iff (h : t.Aligned) :
    (∀ b < t.decodeTp,
        t.expectedOf b = targeting ((List.range t.prefillTp).map t.planOf) b) ↔
      t.prefillTpSize = some t.prefillTp ∨ t.prefillTp ≤ t.decodeTp ∨ t.totalHeads = 1 := by
  constructor
  · intro hcts
    by_contra hnot
    rw [not_or, not_or] at hnot
    obtain ⟨hs, hlt, hone⟩ := hnot
    have hle : t.prefillTp ≤ t.totalHeads := by rcases h with h | h | h <;> omega
    exact expectedOf_ne_targeting hmla hle (Nat.lt_of_not_le hlt)
      (t.prefillTpSize_eq.resolve_right hs) (hcts 0 t.decodeTp_pos)
  · intro hknown b hb
    by_cases hle : t.prefillTp ≤ t.decodeTp ∨ t.totalHeads = 1
    · obtain ⟨hloc, hasm⟩ := remoteHeads_dvd hmla hle
      rw [expectedOf_eq_one hmla hasm, targeting_eq_one hmla h hloc hb]
    · -- both sides count with the same sizes
      have hs := hknown.resolve_right hle
      rw [not_or] at hle
      obtain ⟨hp, hd⟩ : t.prefillTp ≤ t.totalHeads ∧ t.decodeTp ≤ t.totalHeads := by
        rcases h with h | h | h <;> omega
      have hassumedTp : t.assumedTp = t.prefillTp := by
        rw [assumedTp, hs]
        rfl
      obtain ⟨htot, hassumedTotal, hasm⟩ := total_of_le hmla hp hd
      have hloc : t.assumedHeads = t.localHeads := by
        rw [hasm, hassumedTp, localHeads, headsPerRank_of_le t.prefillTp_pos hp]
      have hpre := tiled_prefill hmla
      have hpos := Tiles.sources_pos hpre.pos t.remoteHeads_pos hpre.covers (h.mul_lt_total hmla hb)
      rw [targeting_eq, expectedOf, hloc, hassumedTp, hassumedTotal, ← htot]
      exact if_neg hpos.ne'

theorem mapped_iff_of_heads : t.Mapped ↔ t.Supported := by
  obtain ⟨expected, hexpected, heq⟩ := expectedImmCount_eq hmla
  constructor
  · rintro ⟨plans, hpls, hwr, expected', hexpected', hcts⟩
    cases (plans_eq hmla).symm.trans hpls
    cases hexpected.symm.trans hexpected'
    rw [hmla, written_iff hmla] at hwr
    refine ⟨hwr, (counts_iff hmla hwr).mp fun b hb => ?_⟩
    rw [← heq b hb, hcts b hb]
  · rintro ⟨haligned, hknown⟩
    refine ⟨_, plans_eq hmla, ?_, expected, hexpected, fun b hb => ?_⟩
    · rw [hmla]
      exact (written_iff hmla).mpr haligned
    · rw [heq b hb]
      exact (counts_iff hmla haligned).mpr hknown b hb

end

/-! ## MLA -/

/-- The decode ranks of a prefill rank. -/
def mlaRanks (t : Topology) (rank : Nat) : List Nat :=
  if t.decodeTp ≤ t.prefillTp then
    if rank % (t.prefillTp / t.decodeTp) = 0 then [rank / (t.prefillTp / t.decodeTp)] else []
  else List.range' (rank * (t.decodeTp / t.prefillTp)) (t.decodeTp / t.prefillTp)

/-- The prefill rank of a decode rank. -/
def mlaSource (t : Topology) (b : Nat) : Nat :=
  if t.decodeTp ≤ t.prefillTp then b * (t.prefillTp / t.decodeTp)
  else b / (t.decodeTp / t.prefillTp)

theorem mem_mlaRanks (t : Topology) (rank b : Nat) :
    b ∈ t.mlaRanks rank ↔ rank = t.mlaSource b := by
  rw [mlaRanks, mlaSource]
  split
  next hle =>
    have hpos : 0 < t.prefillTp / t.decodeTp := Nat.div_pos hle t.decodeTp_pos
    split
    next hmod =>
      rw [mem_singleton]
      constructor
      · rintro rfl
        exact (Nat.div_mul_cancel (Nat.dvd_of_mod_eq_zero hmod)).symm
      · rintro rfl
        exact (Nat.mul_div_cancel b hpos).symm
    next hmod =>
      refine iff_of_false not_mem_nil ?_
      rintro rfl
      exact hmod (Nat.mul_mod_left ..)
  next hgt =>
    have hpos : 0 < t.decodeTp / t.prefillTp := Nat.div_pos (by omega) t.prefillTp_pos
    rw [mem_range'_1]
    constructor
    · rintro ⟨hle, hlt⟩
      exact (Nat.div_eq_of_lt_le hle (by rwa [Nat.succ_mul])).symm
    · rintro rfl
      exact ⟨Nat.div_mul_le_self .., Nat.lt_div_mul_add hpos⟩

theorem mlaSource_lt (t : Topology) (b : Nat) : t.mlaSource b < t.prefillTp ↔ b < t.decodeTp := by
  rw [mlaSource]
  split
  next hle =>
    have hpos : 0 < t.prefillTp / t.decodeTp := Nat.div_pos hle t.decodeTp_pos
    have hmul : t.decodeTp * (t.prefillTp / t.decodeTp) = t.prefillTp :=
      Nat.mul_div_cancel' (decodeTp_dvd hle)
    have hlt : b * (t.prefillTp / t.decodeTp) < t.decodeTp * (t.prefillTp / t.decodeTp) ↔
        b < t.decodeTp := Nat.mul_lt_mul_right hpos
    rwa [hmul] at hlt
  next hgt =>
    have hpos : 0 < t.decodeTp / t.prefillTp := Nat.div_pos (by omega) t.prefillTp_pos
    rw [Nat.div_lt_iff_lt_mul hpos, Nat.mul_div_cancel' (prefillTp_dvd (by omega))]

/-- The plan of a rank. -/
def mlaPlan (t : Topology) (rank : Nat) : PushLayoutPlan :=
  ⟨(t.mlaRanks rank).map fun b => ⟨handshakeOf t.handshakes b, []⟩⟩

theorem ranks_mlaPlan (t : Topology) (rank : Nat) : (t.mlaPlan rank).ranks = t.mlaRanks rank := by
  rw [PushLayoutPlan.ranks, mlaPlan, map_map]
  exact (map_congr_left fun b _ => tpRank_handshakeOf t.handshakes b).trans (map_id _)

theorem buildMlaPlan_eq {rank : Nat} (hr : rank < t.prefillTp) :
    LayoutArgs.buildMlaPlan ⟨rank, t.prefillTp, 1, 1, 1, true⟩ t.decodeTp t.handshakes =
      .ok (t.mlaPlan rank) := by
  have hfd : ∀ b ∈ t.mlaRanks rank,
      handshakeByRank t.handshakes b = .ok (handshakeOf t.handshakes b) := by
    intro b hb
    refine t.onePerRank.handshakeByRank ((t.mlaSource_lt b).mp ?_)
    rwa [← (t.mem_mlaRanks rank b).mp hb]
  rw [mlaPlan]
  rw [mlaRanks] at hfd ⊢
  unfold LayoutArgs.buildMlaPlan
  by_cases hle : t.decodeTp ≤ t.prefillTp
  · have hmod := Nat.mod_eq_zero_of_dvd (decodeTp_dvd hle)
    rw [if_pos hle] at hfd ⊢
    simp only [hle, if_true, require_ok hmod, bind, Except.bind]
    by_cases hz : rank % (t.prefillTp / t.decodeTp) = 0
    · rw [if_pos hz] at hfd ⊢
      rw [if_neg (not_not.mpr hz), hfd _ (mem_singleton_self _)]
      rfl
    · rw [if_pos hz, if_neg hz]
      rfl
  · have hmod := Nat.mod_eq_zero_of_dvd (prefillTp_dvd (Nat.le_of_not_le hle))
    rw [if_neg hle] at hfd ⊢
    simp only [hle, if_false, require_ok hmod, bind, Except.bind]
    rw [mapM_eq_ok_map (g := fun b => ⟨handshakeOf t.handshakes b, []⟩) fun b hb => by
      rw [hfd b hb]
      rfl]
    rfl

theorem prefillWorker_mla (hmla : t.useMla) {rank : Nat} (hr : rank < t.prefillTp) :
    (t.prefillWorker rank).buildPushLayoutPlan t.handshakes = .ok (t.mlaPlan rank) := by
  have hp := LayoutArgs.buildPushLayoutPlan_eq_ite ⟨rank, t.prefillTp, 1, 1, 1, true⟩
    hr Nat.one_pos Nat.one_pos Nat.one_pos t.onePerRank t.decodeTp_pos
  rw [if_pos rfl, buildMlaPlan_eq hr] at hp
  rw [← hp]
  cases t.handshakes with
  | nil => rfl
  | cons first rest =>
    have hheads : remoteNumKvHeads first .blocks 1 = 1 := by
      unfold remoteNumKvHeads
      cases first.layers <;> rfl
    simp only [PrefillWorker.buildPushLayoutPlan, prefillWorker, layout, hmla, if_true,
      KvLayout.numKvHeads, hheads]
    rfl

theorem mapped_of_mla (hmla : t.useMla) : t.Mapped := by
  have hone : t.OneSource ((range t.prefillTp).map t.mlaPlan) := by
    intro b hb
    rw [targeting, countP_map]
    refine Tiles.countP_range_eq_one ((t.mlaSource_lt b).mpr hb) fun rank _ => ?_
    rw [Function.comp_apply, decide_eq_true_iff, ranks_mlaPlan, mem_mlaRanks]
  refine ⟨(range t.prefillTp).map t.mlaPlan, ?_, ?_, fun _ => 1, ?_, fun b hb => ?_⟩
  · exact mapM_eq_ok_map fun rank hr => prefillWorker_mla hmla (mem_range.mp hr)
  · rw [if_pos hmla]
    exact hone
  · rw [DecodeWorker.expectedImmCount, decodeWorker, if_pos hmla]
    rfl
  · exact (hone b hb).symm

/-! ## The result -/

theorem mapped_iff (t : Topology) : t.Mapped ↔ t.useMla = true ∨ t.Supported := by
  cases hmla : t.useMla with
  | true => exact iff_of_true (mapped_of_mla hmla) (Or.inl rfl)
  | false =>
    rw [mapped_iff_of_heads hmla]
    exact (or_iff_right Bool.false_ne_true).symm

/-- Two heads, on two prefill ranks and replicated on four decode ranks. -/
def replicated : Topology where
  prefillTp := 2
  decodeTp := 4
  totalHeads := 2
  headBytes := 8
  useMla := false
  handshakes := (List.range 4).map fun rank => ⟨rank, 4, 1, [⟨0, [0], [8, 8]⟩]⟩
  prefillTpSize := some 2
  totalNumKvHeads := some 2
  prefillTp_pos := by decide
  decodeTp_pos := by decide
  totalHeads_pos := by decide
  headBytes_pos := by decide
  dvd := Or.inl (by decide)
  placed _ := ⟨Or.inl (by decide), Or.inr (by decide)⟩
  onePerRank := ⟨by rw [List.map_map]; exact .of_eq (List.map_id _), by simp⟩
  blockLen _ h hh := by
    obtain ⟨rank, -, rfl⟩ := List.mem_map.mp hh
    exact ⟨_, _, _, rfl, rfl⟩
  prefillTpSize_eq := Or.inr rfl
  totalNumKvHeads_eq := Or.inr rfl

/-- Half of the decode ranks are written by nobody. -/
theorem replicas_not_written :
    replicated.plans.toOption.map (fun plans => (List.range 4).map (targeting plans)) =
        some [1, 1, 0, 0] ∧
      ¬ replicated.Mapped := by
  refine ⟨by decide +kernel, ?_⟩
  rw [mapped_iff_of_heads rfl]
  rintro ⟨h | h | h, -⟩
  · exact absurd h.2 (by decide)
  · exact absurd h (by decide)
  · exact absurd h.1 (by decide)

end Topology

end PegaFlow.Pd
