import PegaFlow.Pd.Handshake

/-!
# The tensor-parallel mapping of KV heads

Which heads of which decode rank a prefill rank pushes (`layout_mapping.py` of
`python/pegaflow/pd_connector/`, `_build_push_layout_plan`, `_remote_num_kv_heads` and
`_total_num_kv_heads` of `prefill_worker.py`), and how many prefill ranks a decode rank expects to
hear from (`_refresh_expected_imm_counts` of `decode_worker.py`).

Both sides number the heads themselves, `rank * local_heads + offset` modulo the total, and take the
first rank that has a head as its owner.  The total of the prefill side is a guess from the sizes of
both sides; the decode side reads its configuration.

A `HeadSlice` carries the assertions of its `__post_init__`.  A failed assertion is an error with
its text.  The branch of a worker without registered KV caches is left out.
-/

namespace PegaFlow.Pd

/-- `assert`. -/
def require (p : Prop) [Decidable p] (message : String) : Except String Unit :=
  if p then .ok () else .error message

theorem require_ok {p : Prop} [Decidable p] {message : String} (h : p) :
    require p message = .ok () := if_pos h

structure HeadSlice where
  localStart : Nat
  localEnd : Nat
  remoteStart : Nat
  remoteEnd : Nat
  globalHeads : List Nat
  local_lt : localStart < localEnd
  remote_lt : remoteStart < remoteEnd
  same_length : localEnd - localStart = remoteEnd - remoteStart
  heads_length : globalHeads.length = localEnd - localStart

structure PushTargetPlan where
  handshake : PdHandshake
  /-- No slices stand for the whole rank. -/
  headSlices : List HeadSlice

structure PushLayoutPlan where
  targets : List PushTargetPlan

/-- The decode ranks of a plan. -/
def PushLayoutPlan.ranks (plan : PushLayoutPlan) : List Nat :=
  plan.targets.map fun target => target.handshake.tpRank

/-! ## Heads of a rank -/

def rankGlobalHeads (rank localHeads totalHeads : Nat) : List Nat :=
  (List.range localHeads).map fun offset => (rank * localHeads + offset) % totalHeads

def ownerRankForGlobalHead (globalHead rankCount localHeads totalHeads : Nat) : Except String Nat :=
  match (List.range rankCount).find? fun rank =>
      globalHead ∈ rankGlobalHeads rank localHeads totalHeads with
  | some rank => .ok rank
  | none =>
    .error (s!"PdConnector could not find owner for global KV head {globalHead}; " ++
      s!"rank_count={rankCount} local_heads={localHeads} total_heads={totalHeads}")

/-! ## Slices -/

namespace HeadSlice

/-- One head. -/
def single (localIdx remoteIdx globalHead : Nat) : HeadSlice where
  localStart := localIdx
  localEnd := localIdx + 1
  remoteStart := remoteIdx
  remoteEnd := remoteIdx + 1
  globalHeads := [globalHead]
  local_lt := Nat.lt_succ_self _
  remote_lt := Nat.lt_succ_self _
  same_length := by omega
  heads_length := by simp

variable (prev item : HeadSlice)

/-- One slice goes on where the other ends. -/
def Joins : Prop :=
  prev.localEnd = item.localStart ∧ prev.remoteEnd = item.remoteStart ∧
    prev.globalHeads.getLast?.map (· + 1) = item.globalHeads.head?

instance : Decidable (prev.Joins item) :=
  inferInstanceAs (Decidable (_ ∧ _ ∧ _))

def join (h : prev.Joins item) : HeadSlice where
  localStart := prev.localStart
  localEnd := item.localEnd
  remoteStart := prev.remoteStart
  remoteEnd := item.remoteEnd
  globalHeads := prev.globalHeads ++ item.globalHeads
  local_lt := by have := prev.local_lt; have := item.local_lt; have := h.1; omega
  remote_lt := by have := prev.remote_lt; have := item.remote_lt; have := h.2.1; omega
  same_length := by
    have := prev.local_lt
    have := item.local_lt
    have := prev.remote_lt
    have := item.remote_lt
    have := prev.same_length
    have := item.same_length
    have := h.1
    have := h.2.1
    omega
  heads_length := by
    have := prev.local_lt
    have := item.local_lt
    have := prev.heads_length
    have := item.heads_length
    have := h.1
    rw [List.length_append]
    omega

/-- The order of the key `(local_start, remote_start)`. -/
def Le (a b : HeadSlice) : Prop :=
  a.localStart < b.localStart ∨ a.localStart = b.localStart ∧ a.remoteStart ≤ b.remoteStart

instance : DecidableRel Le := fun _ _ => inferInstanceAs (Decidable (_ ∨ _ ∧ _))

end HeadSlice

/-- The loop of `_coalesce_head_slices`, with the last slice so far. -/
def coalesceFrom (prev : HeadSlice) : List HeadSlice → List HeadSlice
  | [] => [prev]
  | item :: rest =>
    if h : prev.Joins item then coalesceFrom (prev.join item h) rest
    else prev :: coalesceFrom item rest

def coalesceHeadSlices (slices : List HeadSlice) : List HeadSlice :=
  match slices.insertionSort HeadSlice.Le with
  | [] => []
  | first :: rest => coalesceFrom first rest

def dropFullRankSlice (localNumKvHeads remoteNumKvHeads : Nat) : List HeadSlice → List HeadSlice
  | [only] =>
    if only.localStart = 0 ∧ only.localEnd = localNumKvHeads ∧ only.remoteStart = 0 ∧
        only.remoteEnd = remoteNumKvHeads then []
    else [only]
  | slices => slices

/-! ## The plan of a prefill rank -/

/-- The arguments of `build_push_layout_plan` but the handshakes. -/
structure LayoutArgs where
  prefillTpRank : Nat
  prefillTpSize : Nat
  localNumKvHeads : Nat
  remoteNumKvHeads : Nat
  totalNumKvHeads : Nat
  useMla : Bool

/-- `handshakes_by_rank[rank]`: of two handshakes with one rank the later one counts. -/
def handshakeByRank (handshakes : List PdHandshake) (rank : Nat) : Except String PdHandshake :=
  match handshakes.reverse.find? (·.tpRank == rank) with
  | some handshake => .ok handshake
  | none => .error s!"{rank}"

def assertHandshakeTpConsistency (handshakes : List PdHandshake) (tpSize : Nat) :
    Except String Unit :=
  require (∀ h ∈ handshakes, h.tpSize = tpSize)
    ("PdConnector handshakes disagree on decode TP size: " ++
      toString (handshakes.map PdHandshake.tpSize))

namespace LayoutArgs

variable (args : LayoutArgs) (decodeTpSize : Nat) (handshakes : List PdHandshake)

/-- `_build_mla_plan`. -/
def buildMlaPlan : Except String PushLayoutPlan := do
  let message := "PdConnector MLA heterogeneous TP requires divisible TP sizes; " ++
    s!"prefill_tp={args.prefillTpSize} decode_tp={decodeTpSize}"
  if args.prefillTpSize ≥ decodeTpSize then
    require (args.prefillTpSize % decodeTpSize = 0) message
    let ratio := args.prefillTpSize / decodeTpSize
    if args.prefillTpRank % ratio ≠ 0 then
      return ⟨[]⟩
    let handshake ← handshakeByRank handshakes (args.prefillTpRank / ratio)
    return ⟨[⟨handshake, []⟩]⟩
  else
    require (decodeTpSize % args.prefillTpSize = 0) message
    let ratio := decodeTpSize / args.prefillTpSize
    let targets ← (List.range' (args.prefillTpRank * ratio) ratio).mapM' fun decodeRank => do
      let handshake ← handshakeByRank handshakes decodeRank
      return ⟨handshake, []⟩
    return ⟨targets⟩

/-- One round of the loop over the heads of the rank. -/
def addHead (targetSlices : Table Nat (List HeadSlice))
    (head : Nat × Nat) : Except String (Table Nat (List HeadSlice)) := do
  let (globalHead, localIdx) := head
  let owner ← ownerRankForGlobalHead globalHead args.prefillTpSize args.localNumKvHeads
    args.totalNumKvHeads
  if owner ≠ args.prefillTpRank then
    return targetSlices
  let decodeRank ← ownerRankForGlobalHead globalHead decodeTpSize args.remoteNumKvHeads
    args.totalNumKvHeads
  let remoteHeads := rankGlobalHeads decodeRank args.remoteNumKvHeads args.totalNumKvHeads
  let remoteIdx := remoteHeads.idxOf globalHead
  return targetSlices.insert decodeRank
    ((targetSlices.lookup decodeRank).getD [] ++ [.single localIdx remoteIdx globalHead])

/-- The target of one decode rank. -/
def targetPlan
    (targetSlices : Table Nat (List HeadSlice)) (rank : Nat) : Except String PushTargetPlan := do
  let handshake ← handshakeByRank handshakes rank
  return ⟨handshake, dropFullRankSlice args.localNumKvHeads args.remoteNumKvHeads
    (coalesceHeadSlices ((targetSlices.lookup rank).getD []))⟩

/-- The part of `build_push_layout_plan` for heads that are split over the ranks. -/
def buildHeadPlan : Except String PushLayoutPlan := do
  require (args.prefillTpSize = decodeTpSize ∨ args.prefillTpSize % decodeTpSize = 0 ∨
      decodeTpSize % args.prefillTpSize = 0)
    ("PdConnector heterogeneous layout mapping requires divisible TP sizes; " ++
      s!"prefill_tp={args.prefillTpSize} decode_tp={decodeTpSize}")
  require (args.prefillTpSize * args.localNumKvHeads ≥ args.totalNumKvHeads)
    ("PdConnector prefill KV-head coverage is smaller than total KV heads; " ++
      s!"prefill_tp={args.prefillTpSize} local_heads={args.localNumKvHeads} " ++
      s!"total_heads={args.totalNumKvHeads}")
  require (decodeTpSize * args.remoteNumKvHeads ≥ args.totalNumKvHeads)
    ("PdConnector decode KV-head coverage is smaller than total KV heads; " ++
      s!"decode_tp={decodeTpSize} remote_heads={args.remoteNumKvHeads} " ++
      s!"total_heads={args.totalNumKvHeads}")
  let localHeads := rankGlobalHeads args.prefillTpRank args.localNumKvHeads args.totalNumKvHeads
  let targetSlices ← localHeads.zipIdx.foldlM (args.addHead decodeTpSize) ∅
  let targets ← (Pairing.sorted targetSlices.keys).mapM' (args.targetPlan handshakes targetSlices)
  return ⟨targets⟩

def buildPushLayoutPlan (decodeHandshakes : List PdHandshake) : Except String PushLayoutPlan :=
  match decodeHandshakes with
  | [] => .error "PdConnector push request has no handshakes"
  | first :: _ => do
      require (args.prefillTpRank < args.prefillTpSize) "assertion failed"
      require (0 < args.localNumKvHeads) "assertion failed"
      require (0 < args.remoteNumKvHeads) "assertion failed"
      require (0 < args.totalNumKvHeads) "assertion failed"
      assertHandshakeTpConsistency decodeHandshakes first.tpSize
      let available := Pairing.sorted (decodeHandshakes.map PdHandshake.tpRank)
      require (available.length = first.tpSize)
        ("PdConnector requires one decode handshake per TP rank; " ++
          s!"decode_tp={first.tpSize} available={available}")
      if args.useMla then args.buildMlaPlan first.tpSize decodeHandshakes
      else args.buildHeadPlan first.tpSize decodeHandshakes

end LayoutArgs

/-! ## The prefill worker -/

/-- The first registered KV cache: a `FlashAttnHndLayout`, or one without KV heads. -/
inductive KvLayout where
  | hnd (numKvHeads headBytes : Nat)
  | blocks
deriving DecidableEq, Repr

def KvLayout.numKvHeads : KvLayout → Nat
  | .hnd numKvHeads _ => numKvHeads
  | .blocks => 1

structure PrefillWorker where
  tpRank : Nat
  tpSize : Nat
  useMla : Bool
  layout : KvLayout

def remoteNumKvHeads (handshake : PdHandshake) (localLayout : KvLayout) (fallback : Nat) : Nat :=
  match handshake.layers, localLayout with
  | layer :: _, .hnd _ headBytes =>
    match layer.blockLens with
    | [] => fallback
    | blockLen :: _ =>
      if blockLen % headBytes ≠ 0 then fallback else max 1 (blockLen / headBytes)
  | _, _ => fallback

def totalNumKvHeads (localHeads localTpSize remoteHeads remoteTpSize : Nat) (useMla : Bool) : Nat :=
  if useMla then localHeads else min (localHeads * localTpSize) (remoteHeads * remoteTpSize)

/-- `_build_push_layout_plan`. -/
def PrefillWorker.buildPushLayoutPlan (w : PrefillWorker) (handshakes : List PdHandshake) :
    Except String PushLayoutPlan :=
  match handshakes with
  | [] => .error "PdConnector push request has no handshakes"
  | firstHandshake :: _ =>
    let localHeads := w.layout.numKvHeads
    let remoteHeads := remoteNumKvHeads firstHandshake w.layout localHeads
    let totalHeads := totalNumKvHeads localHeads w.tpSize remoteHeads firstHandshake.tpSize
      w.useMla
    LayoutArgs.buildPushLayoutPlan
      ⟨w.tpRank, w.tpSize, localHeads, remoteHeads, totalHeads, w.useMla⟩ handshakes

/-! ## The decode worker -/

def placeholderHandshakes (decodeTpSize : Nat) : List PdHandshake :=
  (List.range decodeTpSize).map fun rank => ⟨rank, decodeTpSize, 1, []⟩

def decodeRankSourceCounts (prefillTpSize decodeTpSize localNumKvHeads remoteNumKvHeads
    totalNumKvHeads : Nat) (useMla : Bool) : Except String (Table Nat Nat) :=
  (List.range prefillTpSize).foldlM (fun counts prefillTpRank => do
    let plan ← LayoutArgs.buildPushLayoutPlan
      ⟨prefillTpRank, prefillTpSize, localNumKvHeads, remoteNumKvHeads, totalNumKvHeads, useMla⟩
      (placeholderHandshakes decodeTpSize)
    return counts.tally plan.ranks) ∅

/-- What the expected counts of a decode worker depend on: `pegaflow.pd.prefill_tp_size` and the
head count of the model may be absent. -/
structure DecodeWorker where
  tpSize : Nat
  useMla : Bool
  layout : KvLayout
  prefillTpSize : Option Nat
  totalNumKvHeads : Option Nat

def ceilDiv (value divisor : Nat) : Except String Nat := do
  require (value > 0) "assertion failed"
  require (divisor > 0) "assertion failed"
  return (value + divisor - 1) / divisor

/-- `_refresh_expected_imm_counts`, and the lookup of `expected_imm_count`. -/
def DecodeWorker.expectedImmCount (w : DecodeWorker) : Except String (Nat → Nat) := do
  if w.useMla then
    return fun _ => 1
  let remoteHeads := w.layout.numKvHeads
  let configured := w.prefillTpSize.getD w.tpSize
  let prefillTpSize := if configured = 0 then w.tpSize else configured
  let totalHeads := w.totalNumKvHeads.getD (remoteHeads * w.tpSize)
  let localHeads ← ceilDiv totalHeads prefillTpSize
  let sourceCounts ← decodeRankSourceCounts prefillTpSize w.tpSize localHeads remoteHeads totalHeads
    false
  return fun rank => if rank < w.tpSize then (sourceCounts.lookup rank).getD 1 else 1

end PegaFlow.Pd
