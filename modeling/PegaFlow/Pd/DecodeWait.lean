import Mathlib.Data.Finset.Basic
import PegaFlow.Lib.Table

/-!
# The waits of a decode worker

`_DecodeWaitState` of `python/pegaflow/pd_connector/decode_worker.py`.  A wait is registered when the
forward thread comes to the request, and is taken out when the worker reports the request as finished
(`get_finished` of `worker.py`) or when it fails.  Every method runs under one lock, so each is one
function here.
-/

namespace PegaFlow.Pd

/-- A request id of the decode side. -/
abbrev ReqId := String

structure WaitReqMeta where
  localBlockIds : List (List Nat)
  remoteRequestId : String
  doneRequestId : String
  prefillUrl : String
deriving DecidableEq, Repr

/-- `flatten_block_ids`. -/
def flattenBlockIds (blockIds : List (List Nat)) : Finset Nat := blockIds.flatten.toFinset

structure DecodeWaitState where
  waitReqs : Table ReqId WaitReqMeta
  abortedWaits : Finset ReqId
  failedRecving : Finset ReqId
  failedRecvingForMeta : Finset ReqId
  failedBlockIds : Finset Nat
  finishedAbortedRecving : Finset ReqId
  finishedRdmaWaits : Finset ReqId

/-- What `mark_wait_failed` found. -/
inductive WaitFailure where
  | unknown
  | abortedFinished
  | failed
deriving DecidableEq, Repr

namespace DecodeWaitState

def new : DecodeWaitState := ⟨∅, ∅, ∅, ∅, ∅, ∅, ∅⟩

variable (st : DecodeWaitState) (remoteRequestId : String) (engineFinished : Finset ReqId)

def hasWait (reqId : ReqId) : Bool := (st.waitReqs.lookup reqId).isSome

def registerWait (reqId : ReqId) (req : WaitReqMeta) : DecodeWaitState :=
  { st with waitReqs := st.waitReqs.insert reqId req }

def markAborted (reqId : ReqId) : DecodeWaitState :=
  if st.hasWait reqId then { st with abortedWaits := insert reqId st.abortedWaits } else st

def recordRdmaDone (reqId : ReqId) : DecodeWaitState :=
  if st.hasWait reqId then
    { st with finishedRdmaWaits := insert reqId st.finishedRdmaWaits }
  else st

def markFailedUnlocked (reqId : ReqId) (req : WaitReqMeta) : DecodeWaitState :=
  { waitReqs := st.waitReqs.erase reqId
    abortedWaits := st.abortedWaits.erase reqId
    failedRecving := insert reqId st.failedRecving
    failedRecvingForMeta := insert reqId st.failedRecvingForMeta
    failedBlockIds := st.failedBlockIds ∪ flattenBlockIds req.localBlockIds
    finishedAbortedRecving := st.finishedAbortedRecving.erase reqId
    finishedRdmaWaits := st.finishedRdmaWaits.erase reqId }

/-- The wait that a failed prefill request belongs to: the first one that was registered. -/
def waitOfRemote : Option (ReqId × WaitReqMeta) :=
  (st.waitReqs.entries.reverse.find? fun e => e.2.remoteRequestId = remoteRequestId).map
    fun e => (e.1, e.2)

/-- `mark_prefill_failed`, with the request that it has marked. -/
def markPrefillFailed : DecodeWaitState × Option ReqId :=
  match st.waitOfRemote remoteRequestId with
  | none => (st, none)
  | some (reqId, req) => (st.markFailedUnlocked reqId req, some reqId)

def markWaitFailed (reqId : ReqId) : DecodeWaitState × WaitFailure :=
  match st.waitReqs.lookup reqId with
  | none => (st, .unknown)
  | some req =>
    if reqId ∈ st.abortedWaits then
      ({ st with
          waitReqs := st.waitReqs.erase reqId
          abortedWaits := st.abortedWaits.erase reqId
          finishedAbortedRecving := insert reqId st.finishedAbortedRecving }, .abortedFinished)
    else (st.markFailedUnlocked reqId req, .failed)

/-- `finish_recving_one` for all requests of a set. -/
def finishRecving (finished : Finset ReqId) : DecodeWaitState :=
  { st with
    waitReqs := st.waitReqs.filterMap fun reqId req => if reqId ∈ finished then none else some req
    abortedWaits := st.abortedWaits \ finished }

/-- What `get_finished` reports, given what the RDMA engine has finished. -/
def finishedRecving : Finset ReqId :=
  engineFinished ∪ st.finishedRdmaWaits ∪ st.finishedAbortedRecving ∪ st.failedRecving

/-- The waits after `get_finished`. -/
def afterGetFinished : DecodeWaitState :=
  { st with finishedRdmaWaits := ∅, finishedAbortedRecving := ∅, failedRecving := ∅ }.finishRecving
    (st.finishedRecving engineFinished)

/-! ## Waits that stay -/

variable {st : DecodeWaitState} {reqId k : ReqId} {req : WaitReqMeta}

theorem hasWait_iff : st.hasWait reqId ↔ ∃ req, st.waitReqs.lookup reqId = some req :=
  Option.isSome_iff_exists

theorem hasWait_registerWait (h : (st.registerWait reqId req).hasWait k) :
    k = reqId ∨ st.hasWait k := by
  obtain ⟨req', h⟩ := hasWait_iff.mp h
  rcases Table.lookup_of_insert h with ⟨heq, -⟩ | ⟨-, h⟩
  · exact Or.inl heq
  · exact Or.inr (hasWait_iff.mpr ⟨req', h⟩)

theorem hasWait_markAborted (h : (st.markAborted reqId).hasWait k) : st.hasWait k := by
  unfold markAborted at h
  split at h
  · exact h
  · exact h

theorem hasWait_recordRdmaDone (h : (st.recordRdmaDone reqId).hasWait k) : st.hasWait k := by
  unfold recordRdmaDone at h
  split at h
  · exact h
  · exact h

theorem hasWait_markFailedUnlocked (h : (st.markFailedUnlocked reqId req).hasWait k) :
    st.hasWait k := by
  obtain ⟨req', h⟩ := hasWait_iff.mp h
  exact hasWait_iff.mpr ⟨req', (Table.lookup_of_erase h).2⟩

variable {remoteRequestId : String}

theorem hasWait_markPrefillFailed (h : (st.markPrefillFailed remoteRequestId).1.hasWait k) :
    st.hasWait k := by
  unfold markPrefillFailed at h
  split at h
  · exact h
  · exact hasWait_markFailedUnlocked h

theorem hasWait_markWaitFailed (h : (st.markWaitFailed reqId).1.hasWait k) : st.hasWait k := by
  unfold markWaitFailed at h
  split at h
  · exact h
  split at h
  · obtain ⟨req', h⟩ := hasWait_iff.mp h
    exact hasWait_iff.mpr ⟨req', (Table.lookup_of_erase h).2⟩
  · exact hasWait_markFailedUnlocked h

variable {finished : Finset ReqId}

theorem hasWait_finishRecving (h : (st.finishRecving finished).hasWait k) : st.hasWait k := by
  obtain ⟨req', h⟩ := hasWait_iff.mp h
  rw [finishRecving, Table.lookup_filterMap] at h
  obtain ⟨req, hreq, -⟩ := Option.bind_eq_some_iff.mp h
  exact hasWait_iff.mpr ⟨req, hreq⟩

theorem hasWait_afterGetFinished {engineFinished : Finset ReqId}
    (h : (st.afterGetFinished engineFinished).hasWait k) : st.hasWait k := by
  have hdrd : DecodeWaitState.hasWait
      { st with finishedRdmaWaits := ∅, finishedAbortedRecving := ∅, failedRecving := ∅ } k :=
    hasWait_finishRecving h
  exact hdrd

/-! ## Requests that are to be reported -/

/-- `get_finished` will find the request in one of the sets. -/
def Reportable (st : DecodeWaitState) (reqId : ReqId) : Prop :=
  reqId ∈ st.finishedRdmaWaits ∨ reqId ∈ st.finishedAbortedRecving ∨ reqId ∈ st.failedRecving

instance : Decidable (st.Reportable reqId) := inferInstanceAs (Decidable (_ ∨ _))

theorem reportable_markAborted (h : (st.markAborted reqId).Reportable k) : st.Reportable k := by
  unfold markAborted at h
  split at h
  · exact h
  · exact h

theorem reportable_recordRdmaDone (h : (st.recordRdmaDone reqId).Reportable k) :
    k = reqId ∨ st.Reportable k := by
  unfold recordRdmaDone at h
  split at h
  · rcases h with h | h
    · exact (Finset.mem_insert.mp h).imp_right Or.inl
    · exact Or.inr (Or.inr h)
  · exact Or.inr h

theorem reportable_markFailedUnlocked (h : (st.markFailedUnlocked reqId req).Reportable k) :
    k = reqId ∨ st.Reportable k := by
  rcases h with h | h | h
  · exact Or.inr (Or.inl (Finset.mem_of_mem_erase h))
  · exact Or.inr (Or.inr (Or.inl (Finset.mem_of_mem_erase h)))
  · exact (Finset.mem_insert.mp h).imp_right fun h => Or.inr (Or.inr h)

theorem reportable_markWaitFailed (h : (st.markWaitFailed reqId).1.Reportable k) :
    k = reqId ∨ st.Reportable k := by
  unfold markWaitFailed at h
  split at h
  · exact Or.inr h
  split at h
  · rcases h with h | h | h
    · exact Or.inr (Or.inl h)
    · exact (Finset.mem_insert.mp h).imp_right fun h => Or.inr (Or.inl h)
    · exact Or.inr (Or.inr (Or.inr h))
  · exact reportable_markFailedUnlocked h

theorem reportable_markPrefillFailed (h : (st.markPrefillFailed remoteRequestId).1.Reportable k) :
    (∃ req, st.waitOfRemote remoteRequestId = some (k, req)) ∨ st.Reportable k := by
  unfold markPrefillFailed at h
  split at h
  · exact Or.inr h
  next reqId req hw =>
    refine (reportable_markFailedUnlocked h).imp_left fun heq => ?_
    exact ⟨req, heq ▸ hw⟩

theorem hasWait_of_recordRdmaDone (h : st.hasWait k) : (st.recordRdmaDone reqId).hasWait k := by
  unfold recordRdmaDone
  split
  · exact h
  · exact h

theorem hasWait_of_markAborted (h : st.hasWait k) : (st.markAborted reqId).hasWait k := by
  unfold markAborted
  split
  · exact h
  · exact h

/-- Only one wait is taken out. -/
theorem hasWait_of_erase {waitReqs : Table ReqId WaitReqMeta}
    (h : (waitReqs.lookup k).isSome) :
    k = reqId ∨ ((waitReqs.erase reqId).lookup k).isSome := by
  by_cases heq : k = reqId
  · exact Or.inl heq
  refine Or.inr ?_
  rw [AList.lookup_erase_ne heq]
  exact h

theorem hasWait_of_markWaitFailed (h : st.hasWait k) :
    k = reqId ∨ (st.markWaitFailed reqId).1.hasWait k := by
  unfold markWaitFailed
  split
  · exact Or.inr h
  split
  · exact hasWait_of_erase h
  · exact hasWait_of_erase h

theorem hasWait_of_markPrefillFailed (h : st.hasWait k) :
    (∃ req, st.waitOfRemote remoteRequestId = some (k, req)) ∨
      (st.markPrefillFailed remoteRequestId).1.hasWait k := by
  unfold markPrefillFailed
  split
  · exact Or.inr h
  next reqId req hw =>
    refine (hasWait_of_erase h).imp_left fun heq => ?_
    exact ⟨req, heq ▸ hw⟩

theorem hasWait_of_finishRecving (h : st.hasWait k) :
    k ∈ finished ∨ (st.finishRecving finished).hasWait k := by
  by_cases hk : k ∈ finished
  · exact Or.inl hk
  obtain ⟨req, hreq⟩ := hasWait_iff.mp h
  refine Or.inr (hasWait_iff.mpr ⟨req, ?_⟩)
  rw [finishRecving, Table.lookup_filterMap, hreq]
  exact if_neg hk

end DecodeWaitState

end PegaFlow.Pd
