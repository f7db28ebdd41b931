import PegaFlow.Pd.Transfers

/-!
# When the blocks of a wait are free

When the decode worker reports a request, its blocks are given to others.  No prefill rank may have a
push task or an outstanding write for them any more.

A rank that has signalled has neither (`SignalPromise`).  If a wait ends by its done immediates, all
ranks have signalled, as there are as many of them as physical requests opened for it.  In all other
cases the decode worker does not know: one failure or one abort ends the wait while the other ranks
write, and so do a prefill request that fails and a `wait_done` that times out.

The blocks are free in runs in which such an end comes when all ranks that were opened for the wait
have signalled, and no other is opened later (`Conclusive`).  The other conditions are those on a rank
(`Careful`), that not more requests are opened for a wait than it expects signals, that the immediates
counted for it were sent for it, and that a request id comes again only when nothing is left of its
last wait.
-/

namespace PegaFlow.Pd

open List Option AList Table Run PrefillHandler

namespace PdSystem

variable {n : Nat} {s s' : PdSystem n} {expected : Nat → Nat}

/-- What was opened for the registration. -/
def openings (s : PdSystem n) (w : Nat) : Finset (Opening n) :=
  s.opened.filter fun o => o.handshake.registration = w

/-- All that was opened for the registration was signalled. -/
def AllSignalled (s : PdSystem n) (w : Nat) : Prop :=
  ∀ o ∈ s.openings w, PrefillHandler.Signalled (s.prefill o.rank).signals o.key

instance (w : Nat) : Decidable (s.AllSignalled w) := inferInstanceAs (Decidable (∀ _ ∈ _, _))

/-- The immediates with the id of the handshake are for its registration. -/
def Matches (s : PdSystem n) (handshake : Handshake) : Prop :=
  ∀ m ∈ s.imms, m.opening.handshake.immId = handshake.immId →
    m.opening.handshake.registration = handshake.registration

instance (handshake : Handshake) : Decidable (s.Matches handshake) :=
  inferInstanceAs (Decidable (∀ _ ∈ _, _))

/-- One more request may be opened for the registration. -/
def HasRoom (expected : Nat → Nat) (s : PdSystem n) (w : Nat) : Prop :=
  w ∉ s.ended ∧ (s.openings w).card < expected w

instance (w : Nat) : Decidable (s.HasRoom expected w) := inferInstanceAs (Decidable (_ ∧ _))

/-- The conditions on the decode worker that are not about an early end. -/
def OrderlyDecode (s : PdSystem n) : WaiterEvent → Prop
  | .registerWait reqId _ => s.decode.NothingLeft reqId
  | .returns id => ∀ handshake ∈ s.captured.lookup id, s.Matches handshake
  | _ => True

instance : ∀ ev, Decidable (s.OrderlyDecode ev)
  | .registerWait reqId _ => inferInstanceAs (Decidable (s.decode.NothingLeft reqId))
  | .returns _ => inferInstanceAs (Decidable (∀ _ ∈ _, _))
  | .submit | .start _ | .check _ | .succeed _ | .raises _ | .fail _ | .cancelOwn _ | .finish _
  | .prefillFails _ | .cancel _ | .release _ | .getFinished | .report | .drainFailedForMeta
  | .drainFailedBlockIds => isTrue trivial

/-- The condition of the module text. -/
def Conclusive (expected : Nat → Nat) (s : PdSystem n) : PdEvent n → Prop
  | .prefill i ev handshake =>
    (s.prefill i).Careful ev ∧ ∀ key ∈ (s.prefill i).opens ev, ∀ h ∈ handshake,
      ⟨i, key, h⟩ ∈ s.opened ∨ s.HasRoom expected h.registration
  | .decode ev => s.OrderlyDecode ev ∧ ∀ w ∈ s.ends expected ev, s.AllSignalled w
  | _ => True

instance : ∀ ev, Decidable (s.Conclusive expected ev)
  | .prefill _ _ _ => inferInstanceAs (Decidable (_ ∧ ∀ _ ∈ _, ∀ _ ∈ _, _))
  | .decode _ => inferInstanceAs (Decidable (_ ∧ ∀ _ ∈ _, _))
  | .deliver _ | .lookUp _ => isTrue trivial

/-- No rank has a push task or a write for a wait that was reported. -/
def BlocksFree (s : PdSystem n) : Prop :=
  ∀ w ∈ s.reported, ∀ o ∈ s.openings w, PrefillHandler.Quiet (s.prefill o.rank).push o.key

/-! ## Registrations that are over -/

/-- All ranks of the registration have signalled and none will be opened. -/
def Cleared (expected : Nat → Nat) (s : PdSystem n) (w : Nat) : Prop :=
  s.AllSignalled w ∧ (expected w ≤ (s.openings w).card ∨ w ∈ s.ended)

structure PrefillSide (expected : Nat → Nat) (s : PdSystem n) : Prop where
  ranks : ∀ i, (s.prefill i).RankSound
  imms : (s.imms.map Imm.opening).Nodup
  sent : ∀ m ∈ s.imms, m.opening ∈ s.opened ∧
    PrefillHandler.Signalled (s.prefill m.opening.rank).signals m.opening.key
  handshakes : ∀ i key handshake, s.handshakes.lookup (i, key) = some handshake →
    ⟨i, key, handshake⟩ ∈ s.opened
  room : ∀ w, (s.openings w).card ≤ expected w
  ended : ∀ w ∈ s.ended, s.AllSignalled w

/-- As many done immediates as expected come from all that was opened. -/
theorem PrefillSide.cleared {handshake : Handshake} (hs : s.PrefillSide expected)
    (hmat : s.Matches handshake)
    (h : expected handshake.registration ≤ s.arrived .done handshake.immId) :
    s.Cleared expected handshake.registration := by
  obtain ⟨w, immId⟩ := handshake
  let counted := s.imms.filter fun m =>
    m.arrived ∧ m.signal = .done ∧ m.opening.handshake.immId = immId
  have hnd : (counted.map Imm.opening).Nodup :=
    hs.imms.sublist (filter_sublist.map Imm.opening)
  have hss : (counted.map Imm.opening).toFinset ⊆ s.openings w := by
    intro o ho
    obtain ⟨m, hm, rfl⟩ := mem_map.mp (mem_toFinset.mp ho)
    obtain ⟨hmem, hcounted⟩ := mem_filter.mp hm
    refine Finset.mem_filter.mpr ⟨(hs.sent m hmem).1, hmat m hmem ?_⟩
    exact (of_decide_eq_true hcounted).2.2
  have hcard : expected w ≤ (counted.map Imm.opening).toFinset.card := by
    rw [toFinset_card_of_nodup hnd, length_map, ← countP_eq_length_filter]
    exact h
  have hall : (counted.map Imm.opening).toFinset = s.openings w :=
    Finset.eq_of_subset_of_card_le hss ((hs.room w).trans hcard)
  refine ⟨fun o ho => ?_, Or.inl (hall ▸ hcard)⟩
  rw [← hall] at ho
  obtain ⟨m, hm, rfl⟩ := mem_map.mp (mem_toFinset.mp ho)
  exact (hs.sent m (mem_of_mem_filter hm)).2

/-! ## Steps of the ranks -/

section

variable {i : Fin n} {key : RequestLife} {handshake : Handshake} {w : Nat} {rank : PrefillHandler}

theorem openings_openRequest {o : Opening n}
    (ho : o ∈ (s.openRequest i key (some handshake)).openings w) :
    o ∈ s.openings w ∨ o = ⟨i, key, handshake⟩ ∧ handshake.registration = w := by
  obtain ⟨hm, hw⟩ := Finset.mem_filter.mp ho
  rcases Finset.mem_insert.mp hm with rfl | hm
  · exact Or.inr ⟨rfl, hw⟩
  · exact Or.inl (Finset.mem_filter.mpr ⟨hm, hw⟩)

theorem AllSignalled.openRequest (hw : s.AllSignalled w)
    (h : ⟨i, key, handshake⟩ ∈ s.opened ∨ handshake.registration ≠ w) :
    (s.openRequest i key (some handshake)).AllSignalled w := by
  intro o ho
  rcases openings_openRequest ho with ho | ⟨rfl, hreg⟩
  · exact hw o ho
  · exact hw _ (Finset.mem_filter.mpr ⟨h.resolve_right (not_not_intro hreg), hreg⟩)

theorem Cleared.openRequest (hw : s.Cleared expected w)
    (h : ⟨i, key, handshake⟩ ∈ s.opened ∨ s.HasRoom expected handshake.registration) :
    (s.openRequest i key (some handshake)).Cleared expected w := by
  refine ⟨hw.1.openRequest (h.imp_right ?_), hw.2.imp_left fun hcard => ?_⟩
  · rintro hrm rfl
    exact hw.2.elim hrm.2.not_ge hrm.1
  · refine hcard.trans (Finset.card_le_card (Finset.filter_subset_filter _ ?_))
    exact Finset.subset_insert _ _

theorem PrefillSide.openRequest (hs : s.PrefillSide expected)
    (h : ⟨i, key, handshake⟩ ∈ s.opened ∨ s.HasRoom expected handshake.registration) :
    (s.openRequest i key (some handshake)).PrefillSide expected where
  ranks := hs.ranks
  imms := hs.imms
  sent := fun m hm => ⟨Finset.mem_insert_of_mem (hs.sent m hm).1, (hs.sent m hm).2⟩
  handshakes := by
    intro j key' handshake' hlk
    rcases lookup_of_insert hlk with ⟨heq, rfl⟩ | ⟨-, ho⟩
    · cases heq
      exact Finset.mem_insert_self ..
    · exact Finset.mem_insert_of_mem (hs.handshakes j key' handshake' ho)
  room := by
    intro w
    rcases h with hmem | hrm
    · rw [PdSystem.openRequest, Finset.insert_eq_of_mem hmem]
      exact hs.room w
    · rw [openings, PdSystem.openRequest, Finset.filter_insert]
      split
      next hw => exact (Finset.card_insert_le _ _).trans (hw ▸ hrm.2)
      · exact hs.room w
  ended := by
    intro w hw
    refine (hs.ended w hw).openRequest (h.imp_right ?_)
    rintro hrm rfl
    exact hrm.1 hw

/-- The handshake is taken away, as the request is opened for another decode rank. -/
theorem PrefillSide.openElsewhere (hs : s.PrefillSide expected) :
    (s.openRequest i key none).PrefillSide expected where
  ranks := hs.ranks
  imms := hs.imms
  sent := hs.sent
  handshakes := fun j key' handshake' h => hs.handshakes j key' handshake' (Table.lookup_of_erase h).2
  room := hs.room
  ended := hs.ended

theorem prefix_of_signals {signals signals' : List (RequestLife × Signal)}
    (h : signals' = signals ∨ ∃ e, signals' = signals ++ [e]) : signals <+: signals' := by
  rcases h with rfl | ⟨e, rfl⟩
  · exact prefix_rfl
  · exact prefix_append ..

theorem signalled_update {j : Fin n} {key : RequestLife}
    (hsg : (s.prefill i).signals <+: rank.signals)
    (h : PrefillHandler.Signalled (s.prefill j).signals key) :
    PrefillHandler.Signalled (Function.update s.prefill i rank j).signals key := by
  by_cases hj : j = i
  · subst hj
    rw [Function.update_self]
    exact (hsg.map Prod.fst).subset h
  · rw [Function.update_of_ne hj]
    exact h

theorem Cleared.setRank (hw : s.Cleared expected w)
    (hsg : (s.prefill i).signals <+: rank.signals) : (s.setRank i rank).Cleared expected w :=
  ⟨fun o ho => signalled_update hsg (hw.1 o ho), hw.2⟩

/-- A signal is sent as an immediate, unless the request is open for another decode rank. -/
theorem imms_setRank (hsg : rank.signals = (s.prefill i).signals ∨
      ∃ e, rank.signals = (s.prefill i).signals ++ [e]) :
    (s.setRank i rank).imms = s.imms ∨
      ∃ e handshake, rank.signals = (s.prefill i).signals ++ [e] ∧
        s.handshakes.lookup (i, e.1) = some handshake ∧
        (s.setRank i rank).imms = s.imms ++ [⟨⟨i, e.1, handshake⟩, e.2, false⟩] := by
  unfold setRank
  dsimp only
  rcases hsg with heq | ⟨e, heq⟩
  · rw [heq, drop_length, filterMap_nil, append_nil]
    exact Or.inl rfl
  · rw [heq, drop_left]
    cases hlk : s.handshakes.lookup (i, e.1) with
    | none =>
      refine Or.inl ?_
      simp [hlk]
    | some handshake =>
      refine Or.inr ⟨e, handshake, rfl, hlk, ?_⟩
      simp [hlk]

theorem PrefillSide.setRank (hs : s.PrefillSide expected) (hr : rank.RankSound)
    (hsg : rank.signals = (s.prefill i).signals ∨
      ∃ e, rank.signals = (s.prefill i).signals ++ [e]) :
    (s.setRank i rank).PrefillSide expected := by
  have hprefix := prefix_of_signals hsg
  have hsn : ∀ m ∈ s.imms, m.opening ∈ s.opened ∧ PrefillHandler.Signalled
      (Function.update s.prefill i rank m.opening.rank).signals m.opening.key :=
    fun m hm => ⟨(hs.sent m hm).1, signalled_update hprefix (hs.sent m hm).2⟩
  have hranks : ∀ j, (Function.update s.prefill i rank j).RankSound :=
    (Function.forall_update_iff s.prefill fun _ rank => rank.RankSound).mpr
      ⟨hr, fun j _ => hs.ranks j⟩
  have hend : ∀ w ∈ s.ended, (s.setRank i rank).AllSignalled w :=
    fun w hw o ho => signalled_update hprefix (hs.ended w hw o ho)
  rcases imms_setRank hsg with himms | ⟨e, handshake, heq, hlk, himms⟩
  · exact ⟨hranks, himms ▸ hs.imms, himms ▸ hsn, hs.handshakes, hs.room, hend⟩
  have hnew : PrefillHandler.Signalled rank.signals e.1 := by
    rw [heq]
    exact signalled_append.mpr (Or.inr rfl)
  refine ⟨hranks, ?_, ?_, hs.handshakes, hs.room, hend⟩
  · -- an immediate with this opening would be a second signal
    rw [himms, map_append]
    refine nodup_append.mpr ⟨hs.imms, nodup_singleton _, ?_⟩
    rintro o ho _ hnew' rfl
    obtain ⟨m, hm, rfl⟩ := mem_map.mp ho
    have hold := (hs.sent m hm).2
    rw [mem_singleton.mp hnew'] at hold
    have honce := hr.sound.once
    rw [heq, map_append] at honce
    exact disjoint_of_nodup_append honce hold (mem_singleton_self _)
  · rw [himms]
    refine forall_mem_concat.mpr ⟨hsn, ?_⟩
    refine ⟨hs.handshakes i e.1 handshake hlk, ?_⟩
    change PrefillHandler.Signalled (Function.update s.prefill i rank i).signals e.1
    rw [Function.update_self]
    exact hnew

end

/-! ## Steps of the decode worker -/

section

variable {P Q : Nat → Prop} {decode : DecodeWaiter} {ev : WaiterEvent}

/-- What is reported has `P`. -/
structure DecodeSide (P : Nat → Prop) (s : PdSystem n) : Prop where
  settled : s.decode.Settled P
  captured : ∀ id handshake task, s.captured.lookup id = some handshake →
    s.decode.tasks.lookup id = some task → task.stage = .waiting →
    task.registration = handshake.registration
  remote : ∀ reqId handshake, s.remoteRequests.lookup reqId = some handshake →
    s.decode.registered.lookup reqId = some handshake.registration
  length : s.requests.length = s.decode.registrations
  requests : ∀ w reqId, s.requests[w]? = some reqId →
    s.decode.registered.lookup reqId = some w ∨ P w
  reported : ∀ w ∈ s.reported, P w

section

variable (hs : s.DecodeSide P)
include hs

theorem DecodeSide.mono (h : ∀ w, P w → Q w) : s.DecodeSide Q where
  settled := hs.settled.mono h
  captured := hs.captured
  remote := hs.remote
  length := hs.length
  requests := fun w reqId hw => (hs.requests w reqId hw).imp_right (h w)
  reported := fun w hw => h w (hs.reported w hw)

theorem DecodeSide.registerWait {reqId : ReqId} {req : WaitReqMeta}
    (hl : s.decode.NothingLeft reqId) (h : s.decode.step (.registerWait reqId req) = some decode) :
    (s.afterDecode decode (.registerWait reqId req)).DecodeSide P := by
  obtain ⟨⟨hid, hwait⟩, rfl⟩ := guarded_eq_some.mp h
  refine ⟨hs.settled.registerWait hid hl, hs.captured, fun k handshake hk => ?_, ?_,
    fun w k hk => ?_, hs.reported⟩
  · rcases lookup_of_insert hk with ⟨rfl, rfl⟩ | ⟨hne, hk⟩
    · exact lookup_insert ..
    · exact (lookup_insert_ne hne).trans (hs.remote k handshake hk)
  · exact length_append.trans (congrArg (· + 1) hs.length)
  · rcases DecodeRanks.getElem?_concat.mp hk with ho | ⟨rfl, rfl⟩
    · by_cases hne : k = reqId
      · subst hne
        refine Or.inr ((hs.requests w k ho).elim (fun hw => ?_) fun hP => hP)
        refine (hs.settled.waits k w hw).resolve_left ?_
        rw [hwait]
        exact Bool.false_ne_true
      · refine (hs.requests w k ho).imp_left fun hw => ?_
        exact (lookup_insert_ne hne).trans hw
    · refine Or.inl ?_
      rw [hs.length]
      exact lookup_insert ..

/-- A step that neither registers a wait nor reports one. -/
theorem DecodeSide.move {captured : Table TaskId Handshake} {ended : Finset Nat}
    (hse : decode.Settled P) (h : s.decode.Step ev decode)
    (hregister : ∀ reqId req, ev ≠ .registerWait reqId req)
    (hcap : ∀ id handshake, captured.lookup id = some handshake → s.captured.lookup id = some handshake ∧ ev ≠ .start id) :
    DecodeSide P { s with decode, captured, ended } := by
  obtain ⟨hreg, hregistrations⟩ := DecodeWaiter.registered_of_step h hregister
  refine ⟨hse, fun id handshake task hid ht hst => ?_, ?_, ?_, ?_, hs.reported⟩
  · obtain ⟨hid, hsta⟩ := hcap id handshake hid
    have ho := (DecodeWaiter.waiting_of_step h ht hst).resolve_right hsta
    exact hs.captured id handshake task hid ho hst
  · rw [hreg]
    exact hs.remote
  · exact hs.length.trans hregistrations.symm
  · rw [hreg]
    exact hs.requests

/-- What is reported was about to be. -/
theorem DecodeSide.report {ids : Finset ReqId} (hrep : s.decode.reporting = some (.finish, ids))
    (hmoved : DecodeSide P { s with decode }) : (s.afterDecode decode .report).DecodeSide P := by
  unfold afterDecode
  rw [hrep]
  refine ⟨hmoved.settled, hmoved.captured, fun reqId handshake h => ?_, hmoved.length,
    hmoved.requests, fun w hw => ?_⟩
  · rw [lookup_filterMap] at h
    obtain ⟨_, ho, hk⟩ := bind_eq_some_iff.mp h
    split at hk
    · cases hk
    · cases hk
      exact hmoved.remote reqId handshake ho
  · rcases Finset.mem_union.mp hw with hw | hw
    · exact hs.reported w hw
    · obtain ⟨-, reqId, hreqId, hm⟩ := Finset.mem_filter.mp hw
      refine (hs.requests w reqId hreqId).elim (fun hreg => ?_) fun hP => hP
      exact hs.settled.finishing reqId (Or.inr (Or.inr ⟨_, hrep, hm⟩)) w hreg

theorem DecodeSide.step (hc : s.OrderlyDecode ev) (hes : s.decode.EndsWith P ev)
    (h : s.decode.step ev = some decode) : (s.afterDecode decode ev).DecodeSide P := by
  have hst := DecodeWaiter.step_cases h
  have hse : decode.Settled P := by
    refine hs.settled.step ?_ hes hst
    rintro reqId req rfl
    exact hc
  cases ev with
  | registerWait reqId req => exact hs.registerWait hc h
  | start id =>
    refine hs.move hse hst nofun fun k handshake hk => ?_
    obtain ⟨hne, hk⟩ := lookup_of_erase hk
    refine ⟨hk, fun heq => hne ?_⟩
    cases heq
    rfl
  | report =>
    have hmoved : DecodeSide P { s with decode } :=
      hs.move hse hst nofun fun _ _ hk => ⟨hk, nofun⟩
    cases hrep : s.decode.reporting with
    | none => cases (congrArg (Option.map _) hrep).symm.trans h
    | some e =>
      obtain ⟨stage, ids⟩ := e
      cases stage with
      | finish => exact hs.report hrep hmoved
      | rdmaWaits | aborted | failed =>
        unfold afterDecode
        rw [hrep]
        exact hmoved
  | submit | returns id | check id | succeed id | raises id | fail id | cancelOwn id | finish id
  | prefillFails remoteRequestId | cancel i | release reqId | getFinished | drainFailedForMeta
  | drainFailedBlockIds => exact hs.move hse hst nofun fun _ _ hk => ⟨hk, nofun⟩

end

end

/-! ## The whole system -/

structure Inv (expected : Nat → Nat) (s : PdSystem n) : Prop where
  prefill : s.PrefillSide expected
  decode : s.DecodeSide (s.Cleared expected)

/-- The decode worker leaves the ranks and their immediates alone. -/
theorem afterDecode_eq (s : PdSystem n) (decode : DecodeWaiter) (ev : WaiterEvent) :
    ∃ nextImmId remoteRequests captured requests reported,
      s.afterDecode decode ev =
        { s with decode, nextImmId, remoteRequests, captured, requests, reported } := by
  unfold afterDecode
  split
  · exact ⟨_, _, _, _, _, rfl⟩
  · exact ⟨_, _, _, _, _, rfl⟩
  · split
    · exact ⟨_, _, _, _, _, rfl⟩
    · exact ⟨_, _, _, _, _, rfl⟩
  · exact ⟨_, _, _, _, _, rfl⟩

section

variable (hs : s.Inv expected)
include hs

/-- A wait ends by its done immediates, or the condition is met. -/
theorem Inv.endsWith {ev : WaiterEvent} {Q : Nat → Prop} (halw : s.Allows expected ev)
    (hc : s.OrderlyDecode ev) (hcleared : ∀ w, s.Cleared expected w → Q w)
    (hes : ∀ w ∈ s.ends expected ev, Q w) : s.decode.EndsWith Q ev := by
  have hse := hs.decode.settled
  unfold DecodeWaiter.EndsWith
  split
  next id =>
    intro task ht hst
    change s.CanReturn expected id at halw
    unfold CanReturn at halw
    cases hcap : s.captured.lookup id with
    | none =>
      rw [hcap] at halw
      have hfinishing : s.decode.Finishing id.1 := Or.inl (isSome_iff_exists.mp halw)
      exact hcleared _ (hse.finishing id.1 hfinishing _ (hse.tasks id task ht))
    | some handshake =>
      rw [hs.decode.captured id handshake task hcap ht hst]
      by_cases hd : expected handshake.registration ≤ s.arrived .done handshake.immId
      · exact hcleared _ (hs.prefill.cleared (hc handshake hcap) hd)
      · exact hes _ (mem_bind_iff.mpr ⟨handshake, hcap, if_neg hd⟩)
  next id =>
    intro task ht
    exact hes _ (mem_map_of_mem WaitTask.registration ht)
  next remoteRequestId =>
    intro wait hwait w hw
    exact hes w (mem_bind_iff.mpr ⟨wait, hwait, hw⟩)
  · trivial

theorem Inv.decodeStep {decode : DecodeWaiter} {ev : WaiterEvent} (halw : s.Allows expected ev)
    (hc : s.Conclusive expected (.decode ev)) (h : s.decode.step ev = some decode) :
    Inv expected
      { s.afterDecode decode ev with ended := s.ended ∪ (s.ends expected ev).toFinset } := by
  have hst := fun {Q : Nat → Prop} (hQ : s.DecodeSide Q) (hes : s.decode.EndsWith Q ev) =>
    hQ.step hc.1 hes h
  obtain ⟨nextImmId, remoteRequests, captured, requests, reported, heq⟩ :=
    afterDecode_eq s decode ev
  rw [heq] at hst ⊢
  have hes : ∀ w ∈ s.ends expected ev, w ∈ s.ended ∪ (s.ends expected ev).toFinset :=
    fun w hw => Finset.mem_union_right _ (mem_toFinset.mpr hw)
  have hend : ∀ w ∈ s.ended ∪ (s.ends expected ev).toFinset, s.AllSignalled w := by
    intro w hw
    rcases Finset.mem_union.mp hw with hw | hw
    · exact hs.prefill.ended w hw
    · exact hc.2 w (mem_toFinset.mp hw)
  refine ⟨⟨hs.prefill.ranks, hs.prefill.imms, hs.prefill.sent, hs.prefill.handshakes,
    hs.prefill.room, hend⟩, ?_⟩
  have hmono : ∀ w, s.Cleared expected w → Cleared expected
      { s with
        decode, nextImmId, remoteRequests, captured, requests, reported
        ended := s.ended ∪ (s.ends expected ev).toFinset } w :=
    fun w hw => ⟨hw.1, hw.2.imp_right (Finset.mem_union_left _)⟩
  have hside := hst (hs.decode.mono hmono)
    (hs.endsWith halw hc.1 hmono fun w hw => ⟨hc.2 w hw, Or.inr (hes w hw)⟩)
  exact ⟨hside.settled, hside.captured, hside.remote, hside.length, hside.requests, hside.reported⟩

theorem Inv.openRequest {i : Fin n} {key : RequestLife} {handshake : Option Handshake}
    (h : ∀ h ∈ handshake, ⟨i, key, h⟩ ∈ s.opened ∨ s.HasRoom expected h.registration) :
    (s.openRequest i key handshake).Inv expected := by
  cases handshake with
  | none =>
    have hd := hs.decode
    refine ⟨hs.prefill.openElsewhere, ?_⟩
    exact ⟨hd.settled, hd.captured, hd.remote, hd.length, hd.requests, hd.reported⟩
  | some handshake =>
    have hrm := h handshake rfl
    have hd := hs.decode.mono fun w hw => hw.openRequest hrm
    refine ⟨hs.prefill.openRequest hrm, ?_⟩
    exact ⟨hd.settled, hd.captured, hd.remote, hd.length, hd.requests, hd.reported⟩

theorem Inv.setRank {i : Fin n} {rank : PrefillHandler} (hr : rank.RankSound)
    (hsg : rank.signals = (s.prefill i).signals ∨ ∃ e, rank.signals = (s.prefill i).signals ++ [e]) :
    (s.setRank i rank).Inv expected := by
  have hprefix := prefix_of_signals hsg
  have hd := hs.decode.mono fun w hw => hw.setRank hprefix
  refine ⟨hs.prefill.setRank hr hsg, ?_⟩
  exact ⟨hd.settled, hd.captured, hd.remote, hd.length, hd.requests, hd.reported⟩

theorem Inv.deliver {i : Nat} {m : Imm n} (hm : s.imms[i]? = some m) :
    Inv expected { s with imms := s.imms.set i { m with arrived := true } } := by
  have hp := hs.prefill
  have hd := hs.decode
  refine ⟨⟨hp.ranks, ?_, fun m' hm' => ?_, hp.handshakes, hp.room, hp.ended⟩,
    ⟨hd.settled, hd.captured, hd.remote, hd.length, hd.requests, hd.reported⟩⟩
  · have heq : (s.imms.set i { m with arrived := true }).map Imm.opening = s.imms.map Imm.opening :=
      map_set_of_eq hm rfl
    exact heq ▸ hp.imms
  · rcases mem_or_eq_of_mem_set hm' with ho | rfl
    · exact hp.sent m' ho
    · exact hp.sent m (mem_of_getElem? hm)

theorem Inv.lookUp {id : TaskId} {handshake : Handshake}
    (h : s.remoteRequests.lookup id.1 = some handshake) :
    Inv expected { s with captured := s.captured.insert id handshake } := by
  have hp := hs.prefill
  have hd := hs.decode
  refine ⟨⟨hp.ranks, hp.imms, hp.sent, hp.handshakes, hp.room, hp.ended⟩,
    ⟨hd.settled, fun k handshake' task hk ht hst => ?_, hd.remote, hd.length, hd.requests,
      hd.reported⟩⟩
  rcases lookup_of_insert hk with ⟨rfl, rfl⟩ | ⟨-, hk⟩
  · exact some.inj ((hd.settled.tasks k task ht).symm.trans (hd.remote k.1 _ h))
  · exact hd.captured k handshake' task hk ht hst

theorem Inv.step {ev : PdEvent n} (hc : s.Conclusive expected ev)
    (h : s.step expected ev = some s') : s'.Inv expected := by
  cases ev with
  | prefill i ev handshake =>
    obtain ⟨rank, hr, rfl⟩ := map_eq_some_iff.mp h
    have hsd := (hs.prefill.ranks i).step hc.1 hr
    have hsg := signals_step (step_cases hr)
    cases hopens : (s.prefill i).opens ev with
    | none => exact hs.setRank hsd hsg
    | some key =>
      have hopened := hs.openRequest (hc.2 key hopens)
      -- opening changes no rank, whatever the handshake is
      cases handshake with
      | none | some handshake => exact hopened.setRank hsd hsg
  | deliver i =>
    obtain ⟨m, hm, rfl⟩ := map_eq_some_iff.mp h
    exact hs.deliver hm
  | lookUp id =>
    unfold PdSystem.step at h
    dsimp only at h
    split at h
    · obtain ⟨handshake, hlk, rfl⟩ := map_eq_some_iff.mp h
      exact hs.lookUp hlk
    · cases h
  | decode ev =>
    unfold PdSystem.step at h
    dsimp only at h
    split at h
    next halw =>
      obtain ⟨decode, hdecode, rfl⟩ := map_eq_some_iff.mp h
      exact hs.decodeStep halw hc hdecode
    · cases h

end

theorem new_inv : (new n).Inv expected where
  prefill :=
    { ranks := fun _ => new_rankSound
      imms := nodup_nil
      sent := nofun
      handshakes := nofun
      room := fun _ => Nat.zero_le _
      ended := nofun }
  decode :=
    { settled := DecodeWaiter.new_settled
      captured := nofun
      remote := nofun
      length := rfl
      requests := nofun
      reported := nofun }

/-- A rank opens a request with the handshake and goes on. -/
def rankRun (i : Fin 2) (reqId : LogicalReqId) (handshake : Handshake) (events : List PrefillEvent) :
    List (PdEvent 2) :=
  .prefill i (.push reqId [0]) none :: .prefill i .forward (some handshake) ::
    (.forward :: events).map fun ev => .prefill i ev none

variable (reqId : LogicalReqId) (ends : List (PdEvent 2))

/-- A push task of the request writes. -/
def writes : List PrefillEvent :=
  [.submit reqId reqId, .thread (.startTask 0), .thread (.runTask 0 (.pushed true)),
    .thread (.finishTask 0)]

/-- The write arrives, and the request is done. -/
def done : List PrefillEvent :=
  [.thread (.completeWrite 0 true), .finalize reqId] ++ PrefillHandler.finalizerSteps 8

/-- The request is released, up to its signal. -/
def released (reason : ReleaseReason) : List PrefillEvent :=
  .release reqId reason :: List.replicate 5 .forward

/-- A wait is registered and its execution is in `wait_done`. -/
def waits (reqId : ReqId) (remoteRequestId : String) : List (PdEvent 2) :=
  [.decode (.registerWait reqId (DecodeWaiter.waitFor remoteRequestId 0)), .decode .submit,
    .decode (.start (reqId, 1)), .lookUp (reqId, 1)]

/-- The decode worker reports what is finished. -/
def reports : List (PdEvent 2) := .decode .getFinished :: List.replicate 4 (.decode .report)

/-- Two ranks are done with a request, and abort another one. -/
def doneAndAborted : List (PdEvent 2) :=
  waits "a" "pa" ++ rankRun 0 "a" ⟨0, 1⟩ (writes "a") ++ rankRun 1 "a" ⟨0, 1⟩ (writes "a" ++ done "a") ++
    (done "a").map (.prefill 0 · none) ++ [.deliver 1, .deliver 0, .decode (.returns ("a", 1)),
      .decode (.check ("a", 1)), .decode (.succeed ("a", 1))] ++ reports ++ waits "b" "pb" ++
    rankRun 0 "b" ⟨1, 2⟩ (released "b" .consumerAbort) ++
    rankRun 1 "b" ⟨1, 2⟩ (released "b" .consumerAbort) ++
    [.deliver 2, .decode (.returns ("b", 1))] ++ reports

/-- A wait ends while a rank has a write outstanding. -/
def besideWrite : List (PdEvent 2) :=
  waits "a" "pa" ++ rankRun 1 "a" ⟨0, 1⟩ (writes "a") ++ ends ++ reports

/-- The wait is reported after that, and the write is still outstanding. -/
def ReportedBesideWrite : Prop :=
  ∃ s ∈ Run.exec (step fun _ => 2) (new 2) (besideWrite ends),
    s.reported = {0} ∧ ⟨1, ("a", 0), ⟨0, 1⟩⟩ ∈ s.openings 0 ∧ ("a", 0) ∈ (s.prefill 1).push.writes

instance : Decidable (ReportedBesideWrite ends) :=
  inferInstanceAs (Decidable (∃ _ ∈ _, _))

end PdSystem

end PegaFlow.Pd
