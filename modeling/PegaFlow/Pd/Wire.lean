import Mathlib.Data.List.Basic
import PegaFlow.Lib.Loop

/-!
# The handshake on the wire

A decode rank tells the prefill side where to write and how to signal (`Handshake` of
`pegaflow-pd-wire/src/lib.rs`).  `from_json` parses the message and validates it; what a message
parses to is a parameter here.  Fields that are not validated are left out.

A transfer that fails or is aborted is signalled with an immediate of its own, which is `imm_id` with
a flag bit flipped unless the handshake gives it.  A handshake is validated by itself, so an
immediate that it gives may be one of another handshake; those derived from `imm_id` never are.
-/

namespace PegaFlow.Pd.Wire

open List

abbrev ImmId := BitVec 32

def failImmFlag : ImmId := 0x80000000

def abortImmFlag : ImmId := 0x40000000

/-- The bits that an `imm_id` keeps clear. -/
def immFlagBits : ImmId := failImmFlag ||| abortImmFlag

def maxImmId : ImmId := ~~~ immFlagBits

def failImm (immId : ImmId) : ImmId := immId ^^^ failImmFlag

def abortImm (immId : ImmId) : ImmId := immId ^^^ abortImmFlag

structure Region where
  regionIdx : Nat
  baseAddr : Nat
  blockLen : Nat
  blockStride? : Option Nat

def Region.blockStride (region : Region) : Nat := region.blockStride?.getD region.blockLen

structure Layer where
  layerName : String
  layerIdx : Nat
  blockIds : Option (List Nat)
  regions : List Region

structure Handshake where
  requestId : String
  tpRank : Nat
  tpSize : Nat
  blockSize : Nat
  blockIds : Option (List Nat)
  layers : List Layer
  immId : ImmId
  failImmId? : Option ImmId
  abortImmId? : Option ImmId

namespace Handshake

variable (h : Handshake)

/-- The block ids of a layer: its own, or else those that the layers share. -/
def layerBlockIds (layer : Layer) : Option (List Nat) := layer.blockIds.or h.blockIds

def failImmId (h : Handshake) : ImmId := h.failImmId?.getD (failImm h.immId)

def abortImmId (h : Handshake) : ImmId := h.abortImmId?.getD (abortImm h.immId)

def hex (immId : ImmId) : String := "0x" ++ String.ofList (Nat.toDigits 16 immId.toNat)

def validateImmIds : Except String Unit :=
  if h.immId &&& immFlagBits ≠ 0 then
    .error s!"imm_id {hex h.immId} uses reserved flag bits (max {hex maxImmId})"
  else if h.failImmId = h.immId ∨ h.abortImmId = h.immId ∨ h.abortImmId = h.failImmId then
    .error ("imm_id/fail_imm_id/abort_imm_id must be distinct: " ++
      s!"{hex h.immId}/{hex h.failImmId}/{hex h.abortImmId}")
  else if h.failImmId &&& immFlagBits = 0 then
    .error s!"fail_imm_id {hex h.failImmId} must set a reserved flag bit"
  else if h.abortImmId &&& immFlagBits = 0 then
    .error s!"abort_imm_id {hex h.abortImmId} must set a reserved flag bit"
  else .ok ()

/-- The regions of a layer, from a position on. -/
def validateRegions (layerIdx : Nat) : Nat → List Region → Except String Unit
  | _, [] => .ok ()
  | position, region :: regions =>
    if region.regionIdx ≠ position then
      .error s!"layer {layerIdx} regions must be ordered by region_idx"
    else if region.baseAddr = 0 ∨ region.blockLen = 0 then
      .error s!"layer {layerIdx} region {region.regionIdx} has an invalid address range"
    else if region.blockStride < region.blockLen then
      .error (s!"layer {layerIdx} region {region.regionIdx} block_stride {region.blockStride} " ++
        s!"is smaller than block_len {region.blockLen}")
    else validateRegions layerIdx (position + 1) regions

def validateLayer (layer : Layer) : Except String Unit :=
  if layer.layerName = "" then .error s!"layer {layer.layerIdx} has an empty layer_name"
  else
    match h.layerBlockIds layer with
    | none =>
      .error s!"layer {layer.layerIdx} has no block_ids and the handshake has no shared block_ids"
    | some blockIds =>
      if blockIds = [] then .error s!"layer {layer.layerIdx} has empty block_ids"
      else if ¬ blockIds.IsChain (· < ·) then
        .error s!"layer {layer.layerIdx} block_ids must be strictly increasing"
      else if layer.regions.isEmpty then .error s!"layer {layer.layerIdx} has no regions"
      else validateRegions layer.layerIdx 0 layer.regions

def validateLayers (h : Handshake) : List Nat → List Layer → Except String Unit
  | _, [] => .ok ()
  | seen, layer :: layers =>
    (h.validateLayer layer).bind fun _ =>
      if layer.layerIdx ∈ seen then .error s!"duplicate layer_idx {layer.layerIdx}"
      else h.validateLayers (layer.layerIdx :: seen) layers

def validate : Except String Unit :=
  if h.requestId = "" then .error "request_id must not be empty"
  else if h.tpSize = 0 ∨ h.tpSize ≤ h.tpRank then
    .error s!"invalid tp_rank/tp_size: {h.tpRank}/{h.tpSize}"
  else if h.blockSize = 0 then .error "block_size must be positive"
  else h.validateImmIds.bind fun _ => h.validateLayers [] h.layers

/-- `parse` is the parser of `serde_json`. -/
def fromJson (parse : String → Except String Handshake) (json : String) :
    Except String Handshake :=
  match parse json with
  | .error err => .error s!"invalid handshake JSON: {err}"
  | .ok h => h.validate.map fun _ => h

/-! ## Immediates of accepted handshakes -/

def immIds (h : Handshake) : List ImmId := [h.immId, h.failImmId, h.abortImmId]

/-- The immediate signals failure or abort. -/
def Signals (h : Handshake) (x : ImmId) : Prop := x = h.failImmId ∨ x = h.abortImmId

/-- The immediates that the handshake gives for failure and abort. -/
def overrides (h : Handshake) : List ImmId := h.failImmId?.toList ++ h.abortImmId?.toList

/-- No immediate that the handshake gives signals failure or abort of the other one. -/
def Apart (h h' : Handshake) : Prop := ∀ x ∈ h.overrides, ¬ h'.Signals x

variable {h h' : Handshake} {x : ImmId} {parse : String → Except String Handshake}

theorem mem_immIds : x ∈ h.immIds ↔ x = h.immId ∨ h.Signals x := by
  simp [immIds, Signals]

theorem validateImmIds_of_fromJson {json : String} (hok : fromJson parse json = .ok h) :
    h.validateImmIds = .ok () := by
  unfold fromJson at hok
  split at hok
  · cases hok
  obtain ⟨_, hval, rfl⟩ := Loop.map_eq_ok.mp hok
  unfold validate at hval
  split_ifs at hval
  obtain ⟨_, himms, -⟩ := Loop.bind_eq_ok.mp hval
  exact himms

theorem validateImmIds_ok (hok : h.validateImmIds = .ok ()) :
    h.immId &&& immFlagBits = 0 ∧ h.immIds.Nodup ∧ ∀ x, h.Signals x → x &&& immFlagBits ≠ 0 := by
  unfold validateImmIds at hok
  split_ifs at hok with hclear hd hf habort
  rw [not_or, not_or] at hd
  refine ⟨not_not.mp hclear, ?_, ?_⟩
  · simp only [immIds, nodup_cons, mem_cons, not_mem_nil, or_false, not_or]
    exact ⟨⟨Ne.symm hd.1, Ne.symm hd.2.1⟩, Ne.symm hd.2.2, id, nodup_nil⟩
  · rintro x (rfl | rfl)
    · exact hf
    · exact habort

theorem signals_of_override (hx : x ∈ h.overrides) : h.Signals x := by
  rcases mem_append.mp hx with hx | hx
  · exact Or.inl (by rw [failImmId, Option.mem_toList.mp hx, Option.getD_some])
  · exact Or.inr (by rw [abortImmId, Option.mem_toList.mp hx, Option.getD_some])

/-- An immediate for failure or abort is given or derived. -/
theorem Signals.given_or_derived (hx : h.Signals x) :
    x ∈ h.overrides ∨ x = failImm h.immId ∨ x = abortImm h.immId := by
  rw [overrides, mem_append, Option.mem_toList, Option.mem_toList]
  rcases hx with rfl | rfl
  · rw [failImmId]
    cases h.failImmId? with
    | none => exact Or.inr (Or.inl rfl)
    | some x => exact Or.inl (Or.inl rfl)
  · rw [abortImmId]
    cases h.abortImmId? with
    | none => exact Or.inr (Or.inr rfl)
    | some x => exact Or.inl (Or.inr rfl)

variable {a b : ImmId}

/-- The flag of failures is not set in an immediate derived for aborts. -/
theorem failImm_ne_abortImm (ha : a &&& immFlagBits = 0) (hb : b &&& immFlagBits = 0) :
    failImm a ≠ abortImm b := by
  intro heq
  have hbit := congrArg (·.getLsbD 31) heq
  have ha' := congrArg (·.getLsbD 31) ha
  have hb' := congrArg (·.getLsbD 31) hb
  simp [failImm, abortImm, immFlagBits, failImmFlag, abortImmFlag] at hbit ha' hb'
  rw [ha', hb'] at hbit
  cases hbit

theorem derived_ne (ha : a &&& immFlagBits = 0) (hb : b &&& immFlagBits = 0) (hne : a ≠ b)
    (hx : x = failImm a ∨ x = abortImm a) : ¬ (x = failImm b ∨ x = abortImm b) := by
  rintro (rfl | rfl)
  · rcases hx with heq | heq
    · exact hne ((BitVec.xor_left_inj _).mp heq).symm
    · exact failImm_ne_abortImm hb ha heq
  · rcases hx with heq | heq
    · exact failImm_ne_abortImm ha hb heq.symm
    · exact hne ((BitVec.xor_left_inj _).mp heq).symm

/-- The three immediates of an accepted handshake differ, and two of different `imm_id` have one in
common exactly if one of them gives an immediate that signals failure or abort of the other. -/
theorem immIds_disjoint_iff {json json' : String} (hok : fromJson parse json = .ok h)
    (hok' : fromJson parse json' = .ok h') (hne : h.immId ≠ h'.immId) :
    h.immIds.Nodup ∧ h'.immIds.Nodup ∧
      (h.immIds.Disjoint h'.immIds ↔ h.Apart h' ∧ h'.Apart h) := by
  obtain ⟨hclear, hnodup, hflag⟩ := validateImmIds_ok (validateImmIds_of_fromJson hok)
  obtain ⟨hclear', hnodup', hflag'⟩ := validateImmIds_ok (validateImmIds_of_fromJson hok')
  refine ⟨hnodup, hnodup', fun hdisjoint => ⟨fun x hx hx' => ?_, fun x hx hx' => ?_⟩, ?_⟩
  · exact hdisjoint (mem_immIds.mpr (Or.inr (signals_of_override hx))) (mem_immIds.mpr (Or.inr hx'))
  · exact hdisjoint (mem_immIds.mpr (Or.inr hx')) (mem_immIds.mpr (Or.inr (signals_of_override hx)))
  · rintro ⟨hapart, hapart'⟩ x hx hx'
    rcases mem_immIds.mp hx with rfl | hx
    · rcases mem_immIds.mp hx' with heq | hx'
      · exact hne heq
      · exact hflag' _ hx' hclear
    · rcases mem_immIds.mp hx' with rfl | hx'
      · exact hflag _ hx hclear'
      · rcases hx.given_or_derived with hgiven | hderived
        · exact hapart x hgiven hx'
        · rcases hx'.given_or_derived with hgiven | hderived'
          · exact hapart' x hgiven hx
          · exact derived_ne hclear hclear' hne hderived hderived'

/-- A handshake with one block of one layer. -/
def oneBlock (immId : ImmId) (failImmId? : Option ImmId) : Handshake :=
  ⟨"req", 0, 1, 16, some [3], [⟨"layer", 0, none, [⟨0, 4096, 1024, none⟩]⟩], immId, failImmId?, none⟩

/-- A parser for two messages, of which the second gives its immediate for failures. -/
def parseTwo (failImmId? : Option ImmId) (json : String) : Except String Handshake :=
  .ok (if json = "first" then oneBlock 1 none else oneBlock 2 failImmId?)

theorem immIds_disjoint_derived :
    ∃ h h', fromJson (parseTwo none) "first" = .ok h ∧ fromJson (parseTwo none) "second" = .ok h' ∧
      h.immIds.Disjoint h'.immIds := by
  have hfirst : fromJson (parseTwo none) "first" = .ok (oneBlock 1 none) := rfl
  have hsecond : fromJson (parseTwo none) "second" = .ok (oneBlock 2 none) := rfl
  have hdisjoint := (immIds_disjoint_iff hfirst hsecond (by decide)).2.2
  exact ⟨_, _, hfirst, hsecond, hdisjoint.mpr ⟨nofun, nofun⟩⟩

/-- The second handshake signals failure with the immediate of the first one. -/
theorem given_failImm_aliases :
    ∃ h h', fromJson (parseTwo (some (failImm 1))) "first" = .ok h ∧
      fromJson (parseTwo (some (failImm 1))) "second" = .ok h' ∧ h.immId ≠ h'.immId ∧
      ¬ h.immIds.Disjoint h'.immIds := by
  refine ⟨_, _, rfl, rfl, by decide, fun hdisjoint => ?_⟩
  exact hdisjoint (a := failImm 1) (by decide) (by decide)

end Handshake

end PegaFlow.Pd.Wire
