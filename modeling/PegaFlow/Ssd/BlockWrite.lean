import PegaFlow.Ssd.Writer

/-!
# How many bytes of a block are written

A block goes to the SSD by one vectored write: `write_block_to_ssd` and `execute_write` of
`pegaflow-core/src/backing/ssd_cache.rs`, and the engine behind them in `backing/uring.rs`.  The
kernel answers a write with an error or with a number of bytes, which may be smaller than what was
asked for.  The engine hands the number on, `write_block_to_ssd` drops it, and any number counts as
success.

`Short` says that a write ended with a number that is not the length of its block.  A write on its
own makes its entry readable with bytes missing exactly if it is short
(`written_iff_not_short`), and in a run of the writer without short writes whatever is committed
was written (`BlockWriter.Written`), as long as the keys of a batch are fresh.

A pinned byte has the address `addr` gives it.
-/

namespace PegaFlow.Ssd

open List Option Run

variable {κ : Type}

/-! ## The IO engine -/

inductive IoError where
  | invalidInput (message : String)
  | brokenPipe (message : String)
  | other (message : String)
  | os (code : Int)
deriving DecidableEq, Repr

/-- The files, and which of the shard threads still receive. -/
structure UringIoEngine where
  fds : List Nat
  txs : List Bool
  addr : HostPtr → Nat

def ssdAlignment : Nat := 512

/-- The format `{value:#x}`. -/
def hex (value : Nat) : String := "0x" ++ String.ofList (Nat.toDigits 16 value)

def ensureAligned (name : String) (value : Nat) : Except IoError Unit :=
  if value % ssdAlignment = 0 then .ok ()
  else .error (.invalidInput s!"O_DIRECT {name} {hex value} is not {ssdAlignment}-byte aligned")

namespace UringIoEngine

variable (io : UringIoEngine) (shardId : Nat) (iovecs : List Segment)

def validateDirectIo (offset : Nat) : Except IoError Unit := do
  ensureAligned "offset" offset
  for iovec in iovecs do
    ensureAligned "buffer address" (io.addr iovec.ptr)
    ensureAligned "iovec length" iovec.size

/-- Whether the shard thread that `pick_tx` chooses still receives. -/
def pickTx : Bool :=
  let idx := if io.txs.length = 1 then 0 else shardId % io.txs.length
  io.txs[idx]?.getD false

/-- Hand a write to its shard thread. -/
def writevAtAsync (offset : Nat) : Except IoError Unit := do
  if iovecs.isEmpty then
    throw (.invalidInput "writev requires at least one iovec")
  io.validateDirectIo iovecs offset
  if io.fds[shardId]?.isNone then
    throw (.invalidInput s!"invalid SSD shard id {shardId}")
  if !io.pickTx shardId then
    throw (.brokenPipe "io_uring writev send failed: sending on a closed channel")

end UringIoEngine

/-- What becomes of a write that a shard thread has received. -/
inductive UringCompletion where
  /-- The submission queue is full. -/
  | notPushed
  /-- The kernel has answered. -/
  | cqe (res : Int)
  /-- `submit_and_wait` failed, with this completion still in the queue. -/
  | submitFailed (message : String)
  /-- The shard thread is gone, and the channel with it. -/
  | dropped
deriving DecidableEq, Repr

/-- What the shard thread sends, if it does. -/
def UringCompletion.sent : UringCompletion → Option (Except IoError Nat)
  | .notPushed => some (.error (.other "submission queue full"))
  | .cqe res => some (if res < 0 then .error (.os (-res)) else .ok res.toNat)
  | .submitFailed message => some (.error (.other s!"io_uring submit failed: {message}"))
  | .dropped => none

/-! ## A block -/

/-- `write_iovecs` of every slot. -/
def blockIovecs (block : SealedBlock) : List Segment := block.slots.flatMap RawBlock.segments

variable (io : UringIoEngine) (w : WriteInfo κ)

def writeBlockToSsd (shardId offset : Nat) (block : SealedBlock)
    (completion : UringCompletion) : Except IoError Unit := do
  io.writevAtAsync shardId (blockIovecs block) offset
  match completion.sent with
  | none => throw (.other "writev recv failed")
  | some (.error e) => throw e
  -- The number of bytes is not looked at.
  | some (.ok _) => return ()

/-- The success flag of `execute_write`. -/
def executeWrite (completion : UringCompletion) : Bool :=
  (writeBlockToSsd io w.entry.shardId w.entry.fileOffset w.block completion).isOk

/-- The engine takes the write. -/
def Accepted : Prop :=
  (io.writevAtAsync w.entry.shardId (blockIovecs w.block) w.entry.fileOffset).isOk

instance : Decidable (Accepted io w) :=
  inferInstanceAs (Decidable (_ = _))

/-- The bytes of the block that are on the file after the write, from its first one on. -/
def bytesWritten : UringCompletion → Nat
  | .cqe res => if Accepted io w then res.toNat else 0
  | _ => 0

/-- The kernel answers the write with a number other than the length of the entry. -/
def Short : UringCompletion → Prop
  | .cqe res => Accepted io w ∧ 0 ≤ res ∧ res ≠ w.entry.len
  | _ => False

instance : (completion : UringCompletion) → Decidable (Short io w completion)
  | .cqe _ => inferInstanceAs (Decidable (_ ∧ _ ∧ _))
  | .notPushed | .submitFailed _ | .dropped => isFalse id

section

variable {io : UringIoEngine} {w : WriteInfo κ} {completion : UringCompletion}

theorem executeWrite_eq_true :
    executeWrite io w completion ↔ Accepted io w ∧ ∃ n : Nat, completion = .cqe n := by
  unfold executeWrite writeBlockToSsd Accepted
  cases io.writevAtAsync w.entry.shardId (blockIovecs w.block) w.entry.fileOffset with
  | error e => exact ⟨nofun, nofun⟩
  | ok u =>
    cases completion with
    | notPushed | submitFailed message | dropped => exact ⟨nofun, nofun⟩
    | cqe res =>
      rcases lt_or_ge res 0 with hres | hres
      · have hsn : (UringCompletion.cqe res).sent = some (.error (.os (-res))) := by
          simp [UringCompletion.sent, hres]
        rw [hsn]
        refine ⟨nofun, ?_⟩
        rintro ⟨-, m, hm⟩
        have hnat := UringCompletion.cqe.inj hm
        omega
      · have hsn : (UringCompletion.cqe res).sent = some (.ok res.toNat) := by
          simp [UringCompletion.sent, not_lt.mpr hres]
        rw [hsn]
        exact ⟨fun _ => ⟨rfl, res.toNat, by rw [Int.toNat_of_nonneg hres]⟩, fun _ => rfl⟩

/-- A write that succeeds has written its block unless it is short. -/
theorem bytesWritten_eq_len (h : executeWrite io w completion) :
    bytesWritten io w completion = w.entry.len ↔ ¬ Short io w completion := by
  obtain ⟨hacc, n, rfl⟩ := executeWrite_eq_true.mp h
  rw [bytesWritten, if_pos hacc, Short, Int.toNat_natCast]
  constructor
  · rintro hlen ⟨-, -, hne⟩
    exact hne (congrArg Int.ofNat hlen)
  · intro hshort
    by_contra hne
    exact hshort ⟨hacc, Int.natCast_nonneg n, fun heq => hne (Int.ofNat.inj heq)⟩

theorem executeWrite_of_short (h : Short io w completion) : executeWrite io w completion := by
  cases completion with
  | cqe res =>
    obtain ⟨hacc, hres, -⟩ := h
    exact executeWrite_eq_true.mpr ⟨hacc, res.toNat, by rw [Int.toNat_of_nonneg hres]⟩
  | notPushed | submitFailed | dropped => exact h.elim

variable [DecidableEq κ] {rb : SsdRingBuffer κ}

/-- A write on its own: its entry becomes readable only with all its bytes on the file, exactly if
the write is not short (or the entry was overtaken). -/
theorem written_iff_not_short (hwg : rb.entries.lookup w.key = some (.writing w.entry)) :
    ((rb.commit w.key (executeWrite io w completion)).1.entries.lookup w.key =
        some (.committed w.entry) → bytesWritten io w completion = w.entry.len) ↔
      (rb.isOffsetValid w.entry → ¬ Short io w completion) := by
  constructor
  · intro h hval hshort
    have hd := executeWrite_of_short hshort
    refine (bytesWritten_eq_len hd).mp (h ?_) hshort
    rw [hd, SsdRingBuffer.commit, hwg]
    simp [hval]
  · intro h hcomm
    rcases SsdRingBuffer.lookup_of_lookup_commit hcomm with ho | ⟨-, hd, e, he, hlk, hval⟩
    · cases hwg.symm.trans ho
    · cases he
      exact (bytesWritten_eq_len hd).mpr (h hval)

end

/-! ## The writer -/

def StoreEvent.isFinish : StoreEvent κ → Bool
  | .finish _ _ => true
  | _ => false

/-- The store, and how many bytes of each finished write are on the file. -/
structure BlockWriter (κ : Type) where
  store : SsdStore κ
  written : List (WriteInfo κ × Nat)

inductive WriterEvent (κ : Type) where
  /-- A write in flight gets its result. -/
  | finishWrite (i : Nat) (completion : UringCompletion)
  /-- Any other step of the store. -/
  | store (ev : StoreEvent κ)

namespace BlockWriter

variable [DecidableEq κ]

def new (caps : List Nat) (hne : caps ≠ []) : BlockWriter κ := ⟨.new caps hne, []⟩

def step (io : UringIoEngine) (n : Nat) (s : BlockWriter κ) :
    WriterEvent κ → Option (BlockWriter κ)
  | .finishWrite i completion =>
    match s.store.inflight[i]? with
    | some ⟨w, none⟩ =>
      (s.store.step n (.finish i (executeWrite io w completion))).map fun store =>
        ⟨store, s.written ++ [(w, bytesWritten io w completion)]⟩
    | _ => none
  | .store ev =>
    if ev.isFinish then none else (s.store.step n ev).map fun store => ⟨store, s.written⟩

variable (io : UringIoEngine) (s : BlockWriter κ)

/-- No write is short, and the keys of a batch are fresh. -/
def WritesFully : WriterEvent κ → Prop
  | .finishWrite i completion =>
    ∀ iw ∈ s.store.inflight[i]?, ¬ Short io iw.write completion
  | .store ev => s.store.FreshKeys ev

instance : (ev : WriterEvent κ) → Decidable (s.WritesFully io ev)
  | .finishWrite _ _ => inferInstanceAs (Decidable (∀ _ ∈ _, _))
  | .store ev => inferInstanceAs (Decidable (s.store.FreshKeys ev))

/-- All bytes of what succeeded and of what is committed are on the file. -/
structure Written (s : BlockWriter κ) : Prop where
  own : s.store.OutstandingOwn
  succeeded : ∀ iw ∈ s.store.inflight, iw.result = some true →
    (iw.write, iw.write.entry.len) ∈ s.written
  committed : ∀ k e, s.store.ring.entries.lookup k = some (.committed e) →
    ∃ w, (w, e.len) ∈ s.written ∧ w.key = k ∧ w.entry = e

variable {io : UringIoEngine} {n : Nat} {s s' : BlockWriter κ} {ev : WriterEvent κ}

/-- What a step of the writer can do. -/
inductive Step (io : UringIoEngine) (n : Nat) (s : BlockWriter κ) :
    WriterEvent κ → BlockWriter κ → Prop where
  | finishWrite {i : Nat} {completion : UringCompletion} {w : WriteInfo κ} {store : SsdStore κ} :
      s.store.inflight[i]? = some ⟨w, none⟩ →
      s.store.step n (.finish i (executeWrite io w completion)) = some store →
      Step io n s (.finishWrite i completion)
        ⟨store, s.written ++ [(w, bytesWritten io w completion)]⟩
  | store {ev : StoreEvent κ} {store : SsdStore κ} :
      ev.isFinish = false → s.store.step n ev = some store →
      Step io n s (.store ev) ⟨store, s.written⟩

theorem step_cases (h : s.step io n ev = some s') : Step io n s ev s' := by
  cases ev with dsimp only [step] at h
  | finishWrite i completion =>
    split at h
    next w hget =>
      obtain ⟨store, hst, rfl⟩ := map_eq_some_iff.mp h
      exact .finishWrite hget hst
    next => cases h
  | store ev =>
    split at h
    next => cases h
    next hfinish =>
      obtain ⟨store, hst, rfl⟩ := map_eq_some_iff.mp h
      exact .store (Bool.eq_false_iff.mpr hfinish) hst

theorem Written.finishWrite {i : Nat} {completion : UringCompletion} {w : WriteInfo κ}
    {store : SsdStore κ} (hs : s.Written) (hget : s.store.inflight[i]? = some ⟨w, none⟩)
    (hfull : ¬ Short io w completion)
    (h : s.store.step n (.finish i (executeWrite io w completion)) = some store) :
    Written ⟨store, s.written ++ [(w, bytesWritten io w completion)]⟩ := by
  have hfr : s.store.FreshKeys (.finish i (executeWrite io w completion)) := trivial
  have hown := hs.own.step hfr h
  simp only [SsdStore.step, hget, some.injEq] at h
  subst h
  refine ⟨hown, ?_, ?_⟩
  · intro iw hiw hrs
    rcases mem_or_eq_of_mem_set hiw with hiw | rfl
    · exact mem_append_left _ (hs.succeeded iw hiw hrs)
    -- The write that finishes is not short, so its count is the length of its entry.
    rw [(bytesWritten_eq_len (some.inj hrs)).mpr hfull]
    exact mem_append_right _ mem_cons_self
  · intro k e hk
    obtain ⟨v, hv, hkey⟩ := hs.committed k e hk
    exact ⟨v, mem_append_left _ hv, hkey⟩

theorem Written.store {ev : StoreEvent κ} {store : SsdStore κ} (hs : s.Written)
    (hfr : s.store.FreshKeys ev) (hne : ev.isFinish = false)
    (h : s.store.step n ev = some store) : Written ⟨store, s.written⟩ := by
  have hown := hs.own.step hfr h
  cases SsdStore.step_cases h with
  | recvFlush | fireFlush | close | submitPrefix | readPhase | validate =>
    exact ⟨hown, hs.succeeded, hs.committed⟩
  | recvWrite =>
    refine ⟨hown, hs.succeeded, ?_⟩
    intro k e hk
    exact hs.committed k e (SsdRingBuffer.committed_of_prepareBatch hk)
  | submit =>
    refine ⟨hown, ?_, hs.committed⟩
    intro iw hiw hrs
    rcases mem_append.mp hiw with hiw | hiw
    · exact hs.succeeded iw hiw hrs
    · rw [mem_singleton.mp hiw] at hrs
      cases hrs
  | finish => cases hne
  | @complete w success rest hin =>
    refine ⟨hown, fun iw hiw => hs.succeeded iw (by simp [hin, hiw]), ?_⟩
    intro k e hk
    rcases SsdRingBuffer.lookup_of_lookup_commit hk with hk | ⟨rfl, rfl, e', he, hwg, -⟩
    · exact hs.committed k e hk
    -- The entry that becomes readable is that of the write at the front.
    cases he
    have hm : w ∈ s.store.outstanding := by simp [SsdStore.outstanding, hin]
    cases hs.own.own w hm _ hwg
    exact ⟨w, hs.succeeded ⟨w, some true⟩ (by simp [hin]) rfl, rfl, rfl⟩

theorem Written.step (hs : s.Written) (hc : s.WritesFully io ev)
    (h : s.step io n ev = some s') : s'.Written := by
  cases step_cases h with
  | finishWrite hget hst => exact hs.finishWrite hget (hc _ hget) hst
  | store hne hst => exact hs.store hc hne hst

/-- A write on its own makes its entry readable only with all bytes on the file, exactly if it is
not short.  In every run of the writer without short writes, with fresh keys in its batches,
all bytes of whatever is committed were written. -/
theorem committed_fully_written (io : UringIoEngine) (n : Nat) (caps : List Nat) (hne : caps ≠ []) :
    (∀ (rb : SsdRingBuffer κ) (w : WriteInfo κ) (completion : UringCompletion),
      rb.entries.lookup w.key = some (.writing w.entry) →
      (((rb.commit w.key (executeWrite io w completion)).1.entries.lookup w.key =
          some (.committed w.entry) → bytesWritten io w completion = w.entry.len) ↔
        (rb.isOffsetValid w.entry = true → ¬ Short io w completion))) ∧
    ∀ (events : List (WriterEvent κ)) (s : BlockWriter κ),
      Run.Meets (step io n) (WritesFully io) (new caps hne) events →
      Run.exec (step io n) (new caps hne) events = some s →
      ∀ k e, s.store.ring.entries.lookup k = some (.committed e) →
        ∃ w, (w, e.len) ∈ s.written ∧ w.key = k ∧ w.entry = e := by
  refine ⟨fun _ _ _ hwriting => written_iff_not_short hwriting, ?_⟩
  intro events s hmeets hrun
  have hinit : (new caps hne : BlockWriter κ).Written := by
    refine ⟨⟨by simp [new, SsdStore.new, SsdStore.outstanding],
      by simp [new, SsdStore.new, SsdStore.outstanding]⟩, by simp [new, SsdStore.new], ?_⟩
    intro k e hk
    simp [new, SsdStore.new, SsdStore.ring, Ledger.new, SsdRingBuffer.newSharded] at hk
  exact (exec_invariant_of_meets (fun _ _ _ hs hcond h => hs.step hcond h) hinit hmeets
    hrun).committed

/-- One file, one thread, and allocations at multiples of 4096. -/
def smallEngine : UringIoEngine := ⟨[3], [true], fun p => p.alloc * 4096 + p.offset⟩

/-- A block of 1024 bytes is handed to the writer, and the kernel answers with `res`. -/
def oneBlock (res : Int) : List (WriterEvent Nat) :=
  [.store (.recvWrite [(0, .plain 1024)]), .store .submit, .finishWrite 0 (.cqe res),
    .store .complete]

theorem committed_fully_written_one_block :
    ∃ s ∈ Run.exec (step smallEngine 1) (new [2048] (by decide)) (oneBlock 1024),
      (s.store.ring.get 0).isSome ∧
        ∀ k e, s.store.ring.entries.lookup k = some (.committed e) →
          ∃ w, (w, e.len) ∈ s.written ∧ w.key = k ∧ w.entry = e := by
  refine exists_mem_imp (Q := fun s => (s.store.ring.get 0).isSome) (by decide) fun s hs hget => ?_
  exact ⟨hget, (committed_fully_written smallEngine 1 [2048] (by decide)).2 _ s (by decide) hs⟩

/-- The kernel writes half of a block.  Its entry becomes readable. -/
theorem half_written_readable :
    ∃ s ∈ Run.exec (step smallEngine 1) (new [2048] (by decide)) (oneBlock 512),
      ∃ e ∈ s.store.ring.get 0, e.len = 1024 ∧
        s.written.map (fun p => (p.1.entry, p.2)) = [(e, 512)] := by
  decide

end BlockWriter

end PegaFlow.Ssd
