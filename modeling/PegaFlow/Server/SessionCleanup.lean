import Mathlib.Data.List.Infix
import PegaFlow.Server.Service

/-!
# The cleanup of a closed session

When the stream of a session ends, `take` tells whether the session is still the one of its
instance.  Only then does its cleanup run, and a session that was superseded by a newer one leaves
the instance alone.  The check and the two steps of the cleanup are separate steps, however, and
both go by the id of the instance.  A newer session may be installed after the check, and what is
registered under it is then removed by the cleanup of the older one: its contexts if they are made
before the tensors are dropped, its instance if it is made before the instance is unregistered.

A cleanup spares what belongs to newer sessions if registrations wait for it: no step of a
registration is taken while the cleanup of an older session of its instance is under way
(`RegistersAfterCleanup`).  At `take` everything registered is as old as the session
(`Dated`), and what is registered later is registered when no cleanup of an older session runs.
-/

namespace PegaFlow.Server

open PegaFlow.Engine
open PegaFlow.Storage (InstanceId)
open List AList Table Run

/-- Something registered after `installed` sessions of the instance is not newer than the session
whose cleanup it is. -/
def CleanupOwner.Covers (owner : CleanupOwner) (installed : Nat) : Prop :=
  match owner with
  | .session epoch => installed ≤ epoch
  | .request => True

instance (installed : Nat) : ∀ owner : CleanupOwner, Decidable (owner.Covers installed)
  | .session epoch => inferInstanceAs (Decidable (installed ≤ epoch))
  | .request => isTrue trivial

/-- What a session's cleanup removed was registered before a newer session of its instance was
installed. -/
def Removal.Spares (r : Removal) : Prop := r.owner.Covers (r.registered.count r.instanceId)

instance (r : Removal) : Decidable r.Spares := inferInstanceAs (Decidable (CleanupOwner.Covers _ _))

namespace ServerState

variable {ssd : Option Engine.Alignment} {s s' : ServerState} {ev : ServerEvent}

/-- No cleanup of a session of the instance is under way that a newer session has superseded. -/
def CleanedUp (s : ServerState) (instanceId : InstanceId) : Prop :=
  ∀ e ∈ s.cleanups.entries, e.2.instanceId = instanceId →
    e.2.owner.Covers (s.installs.count instanceId)

instance (instanceId : InstanceId) : Decidable (s.CleanedUp instanceId) :=
  inferInstanceAs (Decidable (∀ _ ∈ _, _))

/-- A registration is taken on only when the cleanups of older sessions of its instance are over.
A context is materialized when this is so of every instance by whose id its key begins. -/
def RegistersAfterCleanup (s : ServerState) : ServerEvent → Prop
  | .materialize _ req _ =>
    ∀ e ∈ s.cleanups.entries, KeyOf e.2.instanceId req.key → s.CleanedUp e.2.instanceId
  | .enterInstance call | .registerGpu call _ _ =>
    ∀ c ∈ s.calls.lookup call, s.CleanedUp c.req.instanceId
  | _ => True

instance : ∀ ev, Decidable (s.RegistersAfterCleanup ev)
  | .materialize _ _ _ | .enterInstance _ | .registerGpu _ _ _ =>
    inferInstanceAs (Decidable (∀ _ ∈ _, _))
  | .issueToken _ | .install _ | .closeSession _ _ | .unregisterContext _ _ | .dropTensors _
  | .unregister _ | .cancelCleanup _ | .rollback _ | .cancelCall _ | .resolve _ _ | .prepare _ _
  | .refuseTransfer _ | .startCopy _ | .finishCopy _ => isTrue trivial

/-! ## What is registered is dated -/

/-- Nothing was registered later than now, and a session is the newest of its instance. -/
structure Dated (s : ServerState) : Prop where
  session : ∀ instanceId entry, s.sessions.lookup instanceId = some entry →
    entry.epoch = s.installs.count instanceId
  context : ∀ key context, s.contexts.lookup key = some context →
    context.stamp.installs <:+ s.installs
  inst : ∀ i inst, s.heap.lookup i = some inst → ∀ l ∈ registrations inst, l <:+ s.installs

theorem mem_registrations_insert {inst : EngineInstance} {context : InstanceContext}
    {deviceId : Int} {origin : Stamp} {l : List InstanceId}
    (h : l ∈ registrations { inst with context, origins := inst.origins.insert deviceId origin }) :
    l = origin.installs ∨ l ∈ registrations inst := by
  rcases mem_cons.mp h with rfl | h
  · exact Or.inr mem_cons_self
  obtain ⟨⟨d, stamp⟩, hm, rfl⟩ := mem_map.mp h
  rcases lookup_of_insert (mem_lookup_iff.mpr hm) with ⟨-, rfl⟩ | ⟨-, ho⟩
  · exact Or.inl rfl
  · exact Or.inr (mem_cons_of_mem _ (mem_map.mpr ⟨⟨d, stamp⟩, mem_lookup_iff.mp ho, rfl⟩))

theorem Dated.step (hd : s.Dated) (h : Step ssd s ev s') : s'.Dated := by
  cases h with
  | install hopening =>
    next token instanceId =>
    refine ⟨?_, ?_, ?_⟩
    · intro id entry hent
      rcases lookup_of_insert hent with ⟨rfl, rfl⟩ | ⟨hne, hent⟩
      · rfl
      · rw [hd.session id entry hent]
        exact (count_cons_of_ne (Ne.symm hne)).symm
    · intro key context hc
      exact (hd.context key context hc).trans (suffix_cons _ _)
    · intro i inst hin l hl
      exact (hd.inst i inst hin l hl).trans (suffix_cons _ _)
  | closeSession hses hfr =>
    refine { hd with session := ?_ }
    intro id entry hent
    exact hd.session id entry (lookup_of_erase hent).2
  | dropTensors =>
    refine { hd with context := ?_ }
    intro key context hc
    exact hd.context key context (Contexts.lookup_of_dropInstance hc).2
  | materialize hfr hf hstm hm =>
    refine { hd with context := ?_ }
    refine forall_lookup_insert ?_ hd.context
    rw [hstm]
  | enterNew hcall hst hcas hid hgs =>
    refine { hd with inst := ?_ }
    refine forall_lookup_insert ?_ hd.inst
    intro l hl
    rw [mem_singleton.mp hl]
    exact suffix_rfl
  | registerGpu hcall hst hin hok =>
    refine { hd with inst := ?_ }
    refine forall_lookup_insert ?_ hd.inst
    intro l hl
    rcases mem_registrations_insert hl with rfl | hl
    · exact suffix_rfl
    · exact hd.inst _ _ hin l hl
  | rollback =>
    refine { hd with context := ?_ }
    intro key context hc
    rw [Contexts.lookup_dropContext] at hc
    split at hc
    · cases hc
    · exact hd.context key context hc
  | _ => exact { hd with }

/-! ## What a cleanup finds -/

/-- What stands under the id was registered before more than `epoch` sessions of the instance were
installed. -/
structure Within (s : ServerState) (instanceId : InstanceId) (epoch : Nat) : Prop where
  context : ∀ key context, KeyOf instanceId key → s.contexts.lookup key = some context →
    context.stamp.installs.count instanceId ≤ epoch
  inst : ∀ i inst, s.instances.lookup instanceId = some i → s.heap.lookup i = some inst →
    ∀ l ∈ registrations inst, l.count instanceId ≤ epoch

/-- The cleanup of a session of the instance is under way. -/
def CleansUp (s : ServerState) (instanceId : InstanceId) (epoch : Nat) : Prop :=
  ∃ cleanup c, s.cleanups.lookup cleanup = some c ∧ c.instanceId = instanceId ∧
    c.owner = .session epoch

variable {instanceId : InstanceId} {epoch : Nat}

theorem CleanedUp.le (h : s.CleanedUp instanceId) (hrng : s.CleansUp instanceId epoch) :
    s.installs.count instanceId ≤ epoch := by
  obtain ⟨cleanup, c, hc, rfl, how⟩ := hrng
  have hcov := h ⟨cleanup, c⟩ (mem_lookup_iff.mp hc) rfl
  rw [how] at hcov
  exact hcov

theorem RegistersAfterCleanup.le_of_keyOf {call : Nat} {req : RegisterRequest}
    {tensors : List (Except String TensorMetadata)}
    (h : s.RegistersAfterCleanup (.materialize call req tensors))
    (hrng : s.CleansUp instanceId epoch) (hk : KeyOf instanceId req.key) :
    s.installs.count instanceId ≤ epoch := by
  obtain ⟨cleanup, c, hc, rfl, how⟩ := hrng
  exact CleanedUp.le (h ⟨cleanup, c⟩ (mem_lookup_iff.mp hc) hk) ⟨cleanup, c, hc, rfl, how⟩

/-- What a running cleanup goes by stays as old as its session, if registrations wait for it. -/
theorem Within.step (hin : s.Within instanceId epoch) (hw : s.Wired)
    (hrng : s.CleansUp instanceId epoch) (hcd : s.RegistersAfterCleanup ev)
    (h : Step ssd s ev s') : s'.Within instanceId epoch := by
  cases h with
  | dropTensors =>
    refine { hin with context := ?_ }
    intro key context hk hc
    exact hin.context key context hk (Contexts.lookup_of_dropInstance hc).2
  | unregister =>
    refine { hin with inst := ?_ }
    intro i inst hi
    exact hin.inst i inst (lookup_of_erase hi).2
  | materialize hfr hf hstm hm =>
    refine { hin with context := ?_ }
    intro key context hk hc
    rcases lookup_of_insert hc with ⟨rfl, rfl⟩ | ⟨-, hc⟩
    · rw [hstm]
      exact hcd.le_of_keyOf hrng hk
    · exact hin.context key context hk hc
  | enterNew hcall hst hcas hid hgs =>
    refine { hin with inst := ?_ }
    intro i inst hi hinst l hl
    rcases lookup_of_insert hi with ⟨rfl, rfl⟩ | ⟨-, hi⟩
    · cases (lookup_insert _).symm.trans hinst
      rw [mem_singleton.mp hl]
      exact (hcd _ hcall).le hrng
    · have hlt := (hw.registered instanceId i hi).lt hw
      exact hin.inst i inst hi ((lookup_insert_ne (Nat.ne_of_lt hlt)).symm.trans hinst) l hl
  | registerGpu hcall hst hinst hok =>
    refine { hin with inst := ?_ }
    intro i inst' hi hin' l hl
    rcases lookup_of_insert hin' with ⟨rfl, rfl⟩ | ⟨-, hin'⟩
    · rcases mem_registrations_insert hl with rfl | hl
      · -- the device joins an instance of the id its registration names
        obtain ⟨inst₁, hin₁, rfl⟩ := hw.registered instanceId i hi
        obtain ⟨inst₂, hin₂, hid⟩ := hw.entered _ _ _ _ hcall hst
        cases hin₁.symm.trans hin₂
        rw [hid] at hrng ⊢
        exact (hcd _ hcall).le hrng
      · exact hin.inst i _ hi hinst l hl
    · exact hin.inst i inst' hi hin' l hl
  | rollback =>
    refine { hin with context := ?_ }
    intro key context hk hc
    rw [Contexts.lookup_dropContext] at hc
    split at hc
    · cases hc
    · exact hin.context key context hk hc
  | _ => exact { hin with }

/-- At `take` everything that stands under the id is as old as the session. -/
theorem Dated.within {entry : SessionEntry} (hd : s.Dated)
    (hses : s.sessions.lookup instanceId = some entry) : s.Within instanceId entry.epoch := by
  rw [hd.session instanceId entry hses]
  refine ⟨?_, ?_⟩
  · intro key context _ hc
    exact (hd.context key context hc).sublist.count_le _
  · intro i inst _ hin l hl
    exact (hd.inst i inst hin l hl).sublist.count_le _

/-- Every running cleanup of a session finds only what is as old as the session, and so did those
that are over. -/
structure Spared (s : ServerState) : Prop where
  within : ∀ instanceId epoch, s.CleansUp instanceId epoch → s.Within instanceId epoch
  removals : ∀ r ∈ s.removals, r.Spares

theorem covers_of_session {owner : CleanupOwner} {installed : Nat}
    (h : ∀ epoch, owner = .session epoch → installed ≤ epoch) : owner.Covers installed := by
  cases owner with
  | session epoch => exact h epoch rfl
  | request => trivial

theorem spares_removed {c : Cleanup} {registered : List (List InstanceId)} {removals : List Removal}
    (hnew : ∀ l ∈ registered, ∀ epoch, c.owner = .session epoch → l.count c.instanceId ≤ epoch)
    (ho : ∀ r ∈ removals, r.Spares) : ∀ r ∈ removed c registered ++ removals, r.Spares := by
  intro r hr
  rcases mem_append.mp hr with hr | hr
  · obtain ⟨l, hl, rfl⟩ := mem_map.mp hr
    exact covers_of_session (hnew l hl)
  · exact ho r hr

theorem Spared.removals_step (hs : s.Spared) (h : Step ssd s ev s') :
    ∀ r ∈ s'.removals, r.Spares := by
  cases h with
  | dropTensors hcl hst =>
    next cleanup c =>
    refine spares_removed ?_ hs.removals
    intro l hl epoch how
    obtain ⟨context, hm, rfl⟩ := mem_map.mp hl
    obtain ⟨key, hk, hc⟩ := Contexts.mem_instanceContexts.mp hm
    exact (hs.within _ _ ⟨cleanup, c, hcl, rfl, how⟩).context key context hk hc
  | unregister hcl hst =>
    next cleanup c =>
    refine spares_removed ?_ hs.removals
    intro l hl epoch how
    cases hin : s.instance? c.instanceId with
    | none =>
      rw [hin] at hl
      cases hl
    | some e =>
      rw [hin] at hl
      obtain ⟨hi, hheap⟩ := instance?_eq_some.mp hin
      exact (hs.within _ _ ⟨cleanup, c, hcl, rfl, how⟩).inst e.1 e.2 hi hheap l hl
  | _ => exact hs.removals

/-- A cleanup that is under way after a step was so before, or the step took its session. -/
theorem CleansUp.of_step (h : Step ssd s ev s') (hrng : s'.CleansUp instanceId epoch) :
    s.CleansUp instanceId epoch ∨
      ∃ entry, s.sessions.lookup instanceId = some entry ∧ entry.epoch = epoch ∧
        s'.contexts = s.contexts ∧ s'.instances = s.instances ∧ s'.heap = s.heap := by
  obtain ⟨cleanup, c, hc, rfl, how⟩ := hrng
  cases h with
  | closeSession hses hfr =>
    rcases lookup_of_insert hc with ⟨-, rfl⟩ | ⟨-, hc⟩
    · cases how
      exact Or.inr ⟨_, hses, rfl, rfl, rfl, rfl⟩
    · exact Or.inl ⟨cleanup, c, hc, rfl, how⟩
  | unregisterContext instanceId hfr =>
    rcases lookup_of_insert hc with ⟨-, rfl⟩ | ⟨-, hc⟩
    · cases how
    · exact Or.inl ⟨cleanup, c, hc, rfl, how⟩
  | dropTensors hcl hst =>
    rcases lookup_of_insert hc with ⟨rfl, rfl⟩ | ⟨-, hc⟩
    · exact Or.inl ⟨cleanup, _, hcl, rfl, how⟩
    · exact Or.inl ⟨cleanup, c, hc, rfl, how⟩
  | unregister | cancelCleanup =>
    exact Or.inl ⟨cleanup, c, (lookup_of_erase hc).2, rfl, how⟩
  | _ => exact Or.inl ⟨cleanup, c, hc, rfl, how⟩

theorem Spared.step (hs : s.Spared) (hw : s.Wired) (hd : s.Dated)
    (hc : s.RegistersAfterCleanup ev) (h : Step ssd s ev s') : s'.Spared := by
  refine ⟨?_, hs.removals_step h⟩
  intro instanceId epoch hrng
  rcases hrng.of_step h with hrng | ⟨entry, hses, rfl, hcs, hinstances, hheap⟩
  · exact (hs.within instanceId epoch hrng).step hw hrng hc h
  · have hin := hd.within hses
    exact ⟨hcs ▸ hin.context, hinstances ▸ hheap ▸ hin.inst⟩

theorem new_spared : new.Wired ∧ new.Dated ∧ new.Spared := by
  refine ⟨new_wired, ⟨?_, ?_, ?_⟩, ?_, ?_⟩
  · exact nofun
  · exact nofun
  · exact nofun
  · rintro instanceId epoch ⟨cleanup, c, h, -⟩
    cases h
  · exact nofun

/-- A worker registers, its session ends and is cleaned up; the next session does the same. -/
def sessionsInTurn : List ServerEvent :=
  [.issueToken "i", .install 1, .materialize 0 oneWorker oneTensor, .enterInstance 0,
    .registerGpu 0 ⟨0⟩ none, .closeSession 1 0, .issueToken "i", .install 2, .dropTensors 0,
    .unregister 0, .materialize 0 oneWorker oneTensor, .enterInstance 0, .registerGpu 0 ⟨0⟩ none,
    .closeSession 2 0, .dropTensors 0, .unregister 0]

end ServerState

end PegaFlow.Server
