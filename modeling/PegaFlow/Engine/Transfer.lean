import PegaFlow.Block
import PegaFlow.Lib.Copy
import PegaFlow.Lib.Loop
import PegaFlow.Engine.Topology

/-!
# Transfers between devices and pinned memory

`build_copy_descs` of `pegaflow-core/src/gpu_worker.rs`, and the copies of a save and of a
load.  A block of a layer is paired with the host segments of a stored slot: a contiguous
block with the first segment, a split block with two segments, or with the two halves of a
single one.

A device address is a number, and devices have separate memories.  The copy backend is
taken to perform exactly the descriptors it is given.
-/

namespace PegaFlow.Engine

/-- The host side of a block: made for a save, or a slot of a cached block, from an
offset. -/
inductive HostBlock where
  | owned (raw : RawBlock)
  | cached (sealedBlock : SealedBlock) (slotId offset : Nat)

namespace HostBlock

/-- `HostBlock::raw`, which panics if the slot is missing. -/
def raw : HostBlock → Option RawBlock
  | .owned raw => some raw
  | .cached sealedBlock slotId _ => sealedBlock.getSlot slotId

def hostOffset : HostBlock → Nat
  | .owned _ => 0
  | .cached _ _ offset => offset

end HostBlock

structure TransferBlock where
  blockIdx : Nat
  block : HostBlock

structure LayerTransferData where
  layerName : String
  layout : KVCacheLayout
  blocks : List TransferBlock

/-- One copy between a device range and a host range. -/
structure CopyDesc where
  device : Nat
  host : HostPtr
  size : Nat
deriving DecidableEq

/-- How building the descriptors can fail. -/
inductive TransferFault where
  | failed (e : EngineError)
  | panicked
deriving DecidableEq

/-! ## Descriptors -/

/-- The descriptors of a block with the slot `raw`.  There are none if `raw` has no
segment; the source unwraps the first one. -/
def rawDescs (raw : RawBlock) (hostOffset : Nat) : BlockCopies → Option (List CopyDesc)
  | .split k v =>
    match raw.segmentMappedPtr 0 with
    | none => none
    | some first =>
      let kPtr := first.add hostOffset
      let vPtr :=
        match raw.segmentMappedPtr 1 with
        | some second => second.add hostOffset
        | none => kPtr.add k.bytes
      some [⟨k.addr, kPtr, k.bytes⟩, ⟨v.addr, vPtr, v.bytes⟩]
  | .contiguous c =>
    match raw.segmentMappedPtr 0 with
    | none => none
    | some first => some [⟨c.addr, first.add hostOffset, c.bytes⟩]

def blockDescs (layer : LayerTransferData) (block : TransferBlock) :
    Except TransferFault (List CopyDesc) :=
  match layer.layout.blockCopies block.blockIdx with
  | .error e => .error (.failed (.storage s!"layer {layer.layerName}: {e}"))
  | .ok copies =>
    match block.block.raw with
    | none => .error .panicked
    | some raw =>
      match rawDescs raw block.block.hostOffset copies with
      | none => .error .panicked
      | some descs => .ok descs

variable (deviceId : Int) (d : CopyDesc) (layers : List LayerTransferData)

/-- The blocks of all layers, each with its layer. -/
def transfers : List (LayerTransferData × TransferBlock) :=
  layers.flatMap fun layer => layer.blocks.map fun block => (layer, block)

/-- The descriptors of all blocks, and the number of bytes they copy. -/
def buildCopyDescs : Except TransferFault (List CopyDesc × Nat) :=
  ((transfers layers).mapM' fun item => blockDescs item.1 item.2).map fun parts =>
    (parts.flatten, (parts.flatten.map CopyDesc.size).sum)

/-! ## Copies -/

/-- The copy from the device to the host. -/
def CopyDesc.toHost : Copy Int Nat :=
  ⟨deviceId, d.device, d.host.alloc, d.host.offset, d.size⟩

/-- The copy from the host to the device. -/
def CopyDesc.toDevice : Copy Nat Int :=
  ⟨d.host.alloc, d.host.offset, deviceId, d.device, d.size⟩

section

variable {β : Type}

variable (deviceId : Int) (mem : Memory Int β) (host : Memory Nat β)

def d2h (descs : List CopyDesc) : Memory Nat β :=
  Copy.runAll mem host (descs.map (CopyDesc.toHost deviceId))

def h2d (mem : Memory Int β) (descs : List CopyDesc) : Memory Int β :=
  Copy.runAll host mem (descs.map (CopyDesc.toDevice deviceId))

/-- What the device ranges of a block hold. -/
def contents (deviceId : Int) (copies : BlockCopies) : List (List β) :=
  copies.toList.map fun c => mem.read deviceId c.addr c.bytes

/-- What the host ranges of descriptors hold. -/
def hostContents (descs : List CopyDesc) : List (List β) :=
  descs.map fun d => host.read d.host.alloc d.host.offset d.size

end

/-! ## What is built -/

variable {raw : RawBlock} {offset : Nat} {copies copies' : BlockCopies} {descs : List CopyDesc}
variable {layer : LayerTransferData} {block : TransferBlock}

/-- The descriptors, block by block. -/
def Built (items : List (LayerTransferData × TransferBlock)) (parts : List (List CopyDesc)) :
    Prop :=
  List.Forall₂ (fun item part => blockDescs item.1 item.2 = .ok part) items parts

variable (d d' : CopyDesc) {layers : List LayerTransferData}

theorem buildCopyDescs_eq_ok {total : Nat} :
    buildCopyDescs layers = .ok (descs, total) ↔
      ∃ parts, Built (transfers layers) parts ∧ descs = parts.flatten ∧
        total = (descs.map CopyDesc.size).sum := by
  unfold buildCopyDescs Built
  simp only [← Loop.mapM_eq_ok]
  cases (transfers layers).mapM' fun item => blockDescs item.1 item.2 with
  | error e => simp [Except.map]
  | ok parts =>
    simp only [Except.map, Except.ok.injEq, Prod.mk.injEq, exists_eq_left']
    constructor
    · rintro ⟨rfl, rfl⟩
      exact ⟨rfl, rfl⟩
    · rintro ⟨rfl, rfl⟩
      exact ⟨rfl, rfl⟩

theorem buildCopyDescs_eq_error {e : TransferFault} (h : buildCopyDescs layers = .error e) :
    ∃ item ∈ transfers layers, blockDescs item.1 item.2 = .error e := by
  unfold buildCopyDescs at h
  cases hl : (transfers layers).mapM' fun item => blockDescs item.1 item.2 with
  | error e' =>
    rw [hl] at h
    cases h
    exact Loop.mapM_eq_error hl
  | ok parts =>
    rw [hl] at h
    cases h

theorem blockDescs_eq_ok :
    blockDescs layer block = .ok descs ↔
      block.blockIdx < layer.layout.numBlocks ∧
        ∃ raw, block.block.raw = some raw ∧
          rawDescs raw block.block.hostOffset (layer.layout.copiesOf block.blockIdx)
            = some descs := by
  unfold blockDescs Addressing.blockCopies
  by_cases hrg : block.blockIdx < layer.layout.numBlocks
  · rw [if_neg (Nat.not_le.mpr hrg)]
    cases hr : block.block.raw with
    | none => simp
    | some raw =>
      cases hds :
          rawDescs raw block.block.hostOffset (layer.layout.copiesOf block.blockIdx) with
      | none => simp [hds]
      | some built => simp [hds, hrg]
  · rw [if_pos (Nat.not_lt.mp hrg)]
    simp [hrg]

/-! ## Host segments -/

/-- The host range of the descriptor is inside the segment. -/
def CopyDesc.Inside (d : CopyDesc) (segment : Segment) : Prop :=
  d.host.alloc = segment.ptr.alloc ∧
    (⟨d.host.offset, d.size⟩ : ByteRange).Inside ⟨segment.ptr.offset, segment.size⟩

instance (d : CopyDesc) (segment : Segment) : Decidable (d.Inside segment) :=
  inferInstanceAs (Decidable (_ ∧ _))

/-- The segments that the descriptors of a block point into. -/
def segmentsFor (raw : RawBlock) : BlockCopies → List Segment
  | .contiguous _ => raw.segments.take 1
  | .split _ _ =>
    match raw.segments with
    | [] => []
    | [first] => [first, first]
    | first :: second :: _ => [first, second]

/-- The slot holds what a block of the layer reads from `offset` on: a contiguous block in
its first segment, a split block in two segments or with both halves in its only one. -/
def SlotHolds (raw : RawBlock) (offset : Nat) (a : Addressing) : Prop :=
  match a.seg, raw.segments with
  | _, [] => False
  | .contiguous, first :: _ => offset + a.blockBytes ≤ first.size
  | .split _, [first] => offset + 2 * a.segmentBytes ≤ first.size
  | .split _, first :: second :: _ =>
    offset + a.segmentBytes ≤ first.size ∧ offset + a.segmentBytes ≤ second.size

/-- A slot holds a block exactly if its descriptors can be built and stay inside. -/
theorem slotHolds_iff {a : Addressing} (i : Nat) :
    SlotHolds raw offset a ↔
      ∃ descs, rawDescs raw offset (a.copiesOf i) = some descs ∧
        List.Forall₂ CopyDesc.Inside descs (segmentsFor raw (a.copiesOf i)) := by
  obtain ⟨segments⟩ := raw
  unfold SlotHolds Addressing.copiesOf
  cases a.seg with
  | contiguous =>
    cases segments with
    | nil => simp [rawDescs, RawBlock.segmentMappedPtr]
    | cons first rest =>
      simp [segmentsFor, rawDescs, RawBlock.segmentMappedPtr, CopyDesc.Inside, HostPtr.add,
        ByteRange.Inside, Nat.add_assoc]
  | split kv =>
    cases segments with
    | nil => simp [rawDescs, RawBlock.segmentMappedPtr]
    | cons first rest =>
      cases rest with
      | nil =>
        simp [segmentsFor, rawDescs, RawBlock.segmentMappedPtr, CopyDesc.Inside,
          HostPtr.add, ByteRange.Inside, Nat.add_assoc]
        omega
      | cons second rest =>
        simp [segmentsFor, rawDescs, RawBlock.segmentMappedPtr, CopyDesc.Inside,
          HostPtr.add, ByteRange.Inside, Nat.add_assoc]

/-! ## Copies with separate targets -/

/-- The segments share no byte. -/
def SegmentsApart (s s' : Segment) : Prop :=
  s.ptr.alloc ≠ s'.ptr.alloc ∨
    (⟨s.ptr.offset, s.size⟩ : ByteRange).Disjoint ⟨s'.ptr.offset, s'.size⟩

/-- The host ranges of the descriptors share no byte. -/
def HostApart : Prop :=
  d.host.alloc ≠ d'.host.alloc ∨
    (⟨d.host.offset, d.size⟩ : ByteRange).Disjoint ⟨d'.host.offset, d'.size⟩

/-- The device ranges of the descriptors share no byte. -/
def DeviceApart : Prop :=
  (⟨d.device, d.size⟩ : ByteRange).Disjoint ⟨d'.device, d'.size⟩

theorem hostApart_of_inside {s s' : Segment} {d d' : CopyDesc} (h : SegmentsApart s s')
    (hd : d.Inside s) (hd' : d'.Inside s') : HostApart d d' := by
  rcases h with hne | hdj
  · exact Or.inl (hd.1 ▸ hd'.1 ▸ hne)
  · exact Or.inr (hdj.mono hd.2 hd'.2)

section

variable {β : Type} {mem : Memory Int β} {host : Memory Nat β} {deviceId : Int} {d : CopyDesc}

/-- A save copies every range whose target no other descriptor shares. -/
theorem d2h_read (hd : d ∈ descs) (h : ∀ d' ∈ descs, d' = d ∨ HostApart d d') :
    (d2h deviceId mem host descs).read d.host.alloc d.host.offset d.size
      = mem.read deviceId d.device d.size := by
  refine Copy.read_runAll (c := d.toHost deviceId) (List.mem_map_of_mem hd) ?_
  intro c hc
  obtain ⟨d', hd', rfl⟩ := List.mem_map.mp hc
  rcases h d' hd' with rfl | hap
  · exact Or.inl rfl
  · exact Or.inr hap

/-- A save changes no allocation that it does not copy to. -/
theorem d2h_read_of_ne {p : HostPtr} {len : Nat} (h : ∀ d ∈ descs, d.host.alloc ≠ p.alloc) :
    (d2h deviceId mem host descs).read p.alloc p.offset len = host.read p.alloc p.offset len := by
  refine Copy.read_runAll_of_not_writes ?_
  intro c hc x _ hw
  obtain ⟨d, hd, rfl⟩ := List.mem_map.mp hc
  exact h d hd hw.1.symm

/-- A load copies every range whose target no other descriptor shares. -/
theorem h2d_read (hd : d ∈ descs) (h : ∀ d' ∈ descs, d' = d ∨ DeviceApart d d') :
    (h2d deviceId host mem descs).read deviceId d.device d.size
      = host.read d.host.alloc d.host.offset d.size := by
  refine Copy.read_runAll (c := d.toDevice deviceId) (List.mem_map_of_mem hd) ?_
  intro c hc
  obtain ⟨d', hd', rfl⟩ := List.mem_map.mp hc
  rcases h d' hd' with rfl | hap
  · exact Or.inl rfl
  · exact Or.inr (Or.inr hap)

/-- A load changes no byte outside its descriptors. -/
theorem h2d_of_not_mem {k : Int} {x : Nat}
    (h : k = deviceId → ∀ d ∈ descs, x ∉ (⟨d.device, d.size⟩ : ByteRange)) :
    h2d deviceId host mem descs k x = mem k x := by
  refine Copy.runAll_of_not_writes ?_
  intro c hc hw
  obtain ⟨d, hd, rfl⟩ := List.mem_map.mp hc
  exact h hw.1 d hd hw.2

/-- The device side of the descriptors of a block is the block. -/
theorem rawDescs_device (h : rawDescs raw offset copies = some descs) :
    descs.map (fun d => (⟨d.device, d.size⟩ : BlockCopy)) = copies.toList := by
  cases copies with
  | contiguous c | split k v =>
    unfold rawDescs at h
    dsimp only at h
    split at h
    · cases h
    · cases h
      rfl

theorem contents_eq (h : rawDescs raw offset copies = some descs) :
    contents mem deviceId copies = descs.map fun d => mem.read deviceId d.device d.size := by
  rw [contents, ← rawDescs_device h, List.map_map]
  rfl

/-- The sizes of the ranges of a block. -/
def BlockCopies.shape (copies : BlockCopies) : List Nat := copies.toList.map BlockCopy.bytes

/-- The host side of the descriptors depends on the sizes only. -/
theorem rawDescs_of_shape (host : Memory Nat β) (hshape : copies'.shape = copies.shape)
    (h : rawDescs raw offset copies = some descs) :
    ∃ descs', rawDescs raw offset copies' = some descs' ∧
      hostContents host descs' = hostContents host descs := by
  cases hfst : raw.segmentMappedPtr 0 with
  | none => cases copies <;> simp [rawDescs, hfst] at h
  | some first =>
    cases copies with
    | contiguous c =>
      cases copies' with
      | contiguous c' =>
        have hby : c'.bytes = c.bytes := List.singleton_inj.mp hshape
        simp only [rawDescs, hfst, Option.some.injEq] at h ⊢
        subst h
        exact ⟨_, rfl, by simp [hostContents, hby]⟩
      | split k v => simp [BlockCopies.shape, BlockCopies.toList] at hshape
    | split k v =>
      cases copies' with
      | contiguous c => simp [BlockCopies.shape, BlockCopies.toList] at hshape
      | split k' v' =>
        obtain ⟨hk, hv⟩ : k'.bytes = k.bytes ∧ v'.bytes = v.bytes := by
          simpa [BlockCopies.shape, BlockCopies.toList] using hshape
        simp only [rawDescs, hfst, Option.some.injEq] at h ⊢
        subst h
        exact ⟨_, rfl, by simp [hostContents, hk, hv]⟩

end

end PegaFlow.Engine
