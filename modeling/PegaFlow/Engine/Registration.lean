import PegaFlow.Engine.SealOrder

/-!
# Concurrent registrations

`InstanceContext::register_new_gpu` of `pegaflow-core/src/instance.rs`.  A call checks its
arguments, takes the lock to see whether the instance still accepts its device, gives the lock
back to make the device context, and takes the lock again to add the device.  Between the two
locks other calls run.  The second lock checks again, and seals the topology if the device is
the last one of the worker set.

A call changes the instance where it is answered without an error and nowhere else
(`Step`), and there it does what the whole call would do if no other call ran.
-/

namespace PegaFlow.Engine

open List Option AList Table Run

namespace InstanceContext

variable (inst : InstanceContext) (gpu : GpuContext)

/-- The checks of `register_new_gpu` before the first lock. -/
def checkArguments : Option EngineError :=
  if inst.tpSize ≤ gpu.tpRank then
    some (.invalidArgument s!"tp_rank {gpu.tpRank} out of range (tp_size {inst.tpSize})")
  else if gpu.kvCaches.keys = [] then
    some (.invalidArgument s!"device {gpu.deviceId} registered no KV cache layers")
  else none

/-- `build_gpu_context`; `failure` is what the device backend answers. -/
def buildGpuContext (failure : Option String) : Option EngineError :=
  if gpu.deviceId < 0 then
    some (.invalidArgument s!"device_id {gpu.deviceId} must be >= 0")
  else failure.map .deviceInit

/-- The end of `register_new_gpu`, under the second lock. -/
def addGpu : Except EngineError InstanceContext :=
  match inst.ensureAcceptingRegistrations gpu.deviceId with
  | some e => .error e
  | none =>
    if inst.gpus.length + 1 = inst.worldSize then
      match inst.sealTopology (inst.gpus ++ [gpu]) with
      | .error e => .error e
      | .ok topology =>
        .ok
          { inst with
            gpuContexts := inst.gpuContexts.insert gpu.deviceId gpu
            topology := some topology }
    else .ok { inst with gpuContexts := inst.gpuContexts.insert gpu.deviceId gpu }

variable {inst inst' : InstanceContext} {gpu : GpuContext} {e : EngineError}

/-- One registration that is accepted, with no other call in between. -/
def registerAlone (inst : InstanceContext) (gpu : GpuContext) : Option InstanceContext :=
  (inst.registerNewGpu gpu).toOption

theorem buildGpuContext_none {failure : Option String} (h : buildGpuContext gpu failure = none) :
    buildGpuContext gpu none = none := by
  unfold buildGpuContext at h ⊢
  split at h
  · cases h
  next hdev => rw [if_neg hdev, map_none]

theorem accepting_iff {deviceId : Int} :
    inst.ensureAcceptingRegistrations deviceId = none ↔
      inst.gpuContexts.lookup deviceId = none ∧ inst.topology = none := by
  unfold ensureAcceptingRegistrations
  cases hdev : inst.gpuContexts.lookup deviceId with
  | some gpu => simp
  | none => cases htop : inst.topology <;> simp

/-- What the second lock does to an instance that takes the device. -/
theorem addGpu_ok (h : inst.addGpu gpu = .ok inst') :
    inst.gpuContexts.lookup gpu.deviceId = none ∧ inst.topology = none ∧
      ∃ topology,
        inst' =
          { inst with
            gpuContexts := inst.gpuContexts.insert gpu.deviceId gpu
            topology := topology } ∧
        (topology.isSome ↔ inst.gpus.length + 1 = inst.worldSize) ∧
        ∀ t, topology = some t → inst.sealTopology (inst.gpus ++ [gpu]) = .ok t := by
  unfold addGpu at h
  split at h
  · cases h
  next haccg =>
    obtain ⟨hfr, ho⟩ := accepting_iff.mp haccg
    refine ⟨hfr, ho, ?_⟩
    split at h
    next hl =>
      split at h
      · cases h
      next topology hsl =>
        cases h
        exact ⟨some topology, rfl, by simpa using hl, fun t ht => by cases ht; exact hsl⟩
    next hl =>
      cases h
      exact ⟨none, by rw [ho], by simpa using hl, nofun⟩

theorem addGpu_error (h : inst.addGpu gpu = .error e) :
    inst.ensureAcceptingRegistrations gpu.deviceId = some e ∨
      inst.gpus.length + 1 = inst.worldSize ∧
        inst.sealTopology (inst.gpus ++ [gpu]) = .error e := by
  unfold addGpu at h
  split at h
  next e' haccg =>
    cases h
    exact Or.inl haccg
  · split at h
    next hl =>
      split at h
      next hsl =>
        cases h
        exact Or.inr ⟨hl, hsl⟩
      · cases h
    · cases h

theorem checkArguments_eq_none :
    inst.checkArguments gpu = none ↔ gpu.tpRank < inst.tpSize ∧ gpu.layerNames ≠ [] := by
  unfold checkArguments GpuContext.layerNames
  split
  · simp only [reduceCtorEq, false_iff]
    omega
  · split
    next hls => simp [hls]
    next hr hls => simpa [hls] using hr

/-- The parts of a call that no other call interrupts are `register_new_gpu`. -/
theorem registerNewGpu_eq_addGpu (hargs : inst.checkArguments gpu = none)
    (hbuild : buildGpuContext gpu none = none) : inst.registerNewGpu gpu = inst.addGpu gpu := by
  rw [checkArguments_eq_none, GpuContext.layerNames] at hargs
  have hdev : ¬ gpu.deviceId < 0 := fun hneg => by simp [buildGpuContext, hneg] at hbuild
  rw [registerNewGpu, if_neg (Nat.not_le.mpr hargs.1), if_neg hargs.2, if_neg hdev]
  rfl

/-- What holds of an instance that took the devices `gpus` since it was `inst₀`. -/
structure Took (inst₀ inst : InstanceContext) (gpus : List GpuContext) : Prop where
  config : inst = { inst₀ with gpuContexts := inst.gpuContexts, topology := inst.topology }
  perm : inst.gpus.Perm gpus
  keyed : ∀ deviceId gpu, inst.gpuContexts.lookup deviceId = some gpu → gpu.deviceId = deviceId
  arguments : ∀ gpu ∈ gpus, inst₀.checkArguments gpu = none
  full : inst.topology.isSome ↔ gpus.length = inst₀.worldSize
  sealed : ∀ t, inst.topology = some t → inst₀.sealTopology gpus = .ok t

variable {inst₀ : InstanceContext} {gpus gpus' : List GpuContext}

variable {id nameSpace : String} {tpSize worldSize : Nat} {pageFirst : Bool}

theorem new_took (h : new id nameSpace tpSize worldSize pageFirst = .ok inst) :
    Took inst inst [] := by
  unfold new at h
  split at h
  · cases h
  next hpos =>
    cases h
    exact ⟨rfl, List.Perm.nil, nofun, nofun, by simp; omega, nofun⟩

theorem new_worldSize (h : new id nameSpace tpSize worldSize pageFirst = .ok inst) :
    inst.worldSize = worldSize := by
  unfold new at h
  split at h
  · cases h
  · cases h
    rfl

/-- Sealing devices whose arguments are valid does not depend on their order. -/
theorem sealTopology_ok_perm (hp : gpus.Perm gpus')
    (hargs : ∀ gpu ∈ gpus, inst₀.checkArguments gpu = none) {t : LayerTopology}
    (h : inst₀.sealTopology gpus = .ok t) : inst₀.sealTopology gpus' = .ok t :=
  sealTopology_perm hp (fun gpu hg => (checkArguments_eq_none.mp (hargs gpu hg)).1)
    (fun gpu hg => (checkArguments_eq_none.mp (hargs gpu hg)).2) h

theorem Took.addGpu (hi : Took inst₀ inst gpus) (hargs : inst₀.checkArguments gpu = none)
    (h : inst.addGpu gpu = .ok inst') : Took inst₀ inst' (gpus ++ [gpu]) := by
  obtain ⟨hfr, ho, topology, rfl, hl, hseal⟩ := addGpu_ok h
  have hp : (inst.gpus ++ [gpu]).Perm (gpus ++ [gpu]) := hi.perm.append_right [gpu]
  have hall : ∀ gpu' ∈ gpus ++ [gpu], inst₀.checkArguments gpu' = none := by
    refine forall_mem_concat.mpr ⟨hi.arguments, ?_⟩
    exact hargs
  refine ⟨?_, ?_, ?_, hall, ?_, ?_⟩
  · rw [hi.config]
  · rw [InstanceContext.gpus, entries_insert_of_notMem (lookup_eq_none.mp hfr), map_cons]
    exact (perm_append_singleton gpu inst.gpus).symm.trans hp
  · refine forall_lookup_insert ?_ hi.keyed
    rfl
  · rw [hi.perm.length_eq, hi.config] at hl
    rw [length_append]
    exact hl
  · intro t ht
    have hsl := hseal t ht
    rw [hi.config] at hsl
    exact sealTopology_ok_perm hp (fun gpu' hm => hall gpu' (hp.mem_iff.mp hm)) hsl

end InstanceContext

/-! ## Calls -/

/-- How far a call is: its arguments are checked, the first lock accepted its device, or its
device context is made. -/
inductive RegisterStage where
  | entered
  | accepted
  | built

/-- An instance, the calls on it that run, and the calls that were answered with their errors,
in the order of the answers. -/
structure RegisterState where
  inst : InstanceContext
  calls : Table Nat (GpuContext × RegisterStage)
  answers : List (GpuContext × Option EngineError)

/-- What one call does between two points where other calls can run. -/
inductive RegisterEvent where
  | call (i : Nat) (gpu : GpuContext)
  | check (i : Nat)
  | build (i : Nat) (failure : Option String)
  | commit (i : Nat)

namespace RegisterState

open InstanceContext

def init (inst : InstanceContext) : RegisterState := ⟨inst, ∅, []⟩

variable (s : RegisterState) (i : Nat) (gpu : GpuContext)

/-- A call goes on. -/
def advance (stage : RegisterStage) : RegisterState :=
  { s with calls := s.calls.insert i (gpu, stage) }

/-- A call returns. -/
def answer (e : Option EngineError) : RegisterState :=
  { s with calls := s.calls.erase i, answers := s.answers ++ [(gpu, e)] }

def step (s : RegisterState) : RegisterEvent → Option RegisterState
  | .call i gpu =>
    if (s.calls.lookup i).isSome then none
    else
      match s.inst.checkArguments gpu with
      | some e => some (s.answer i gpu (some e))
      | none => some (s.advance i gpu .entered)
  | .check i =>
    match s.calls.lookup i with
    | some (gpu, .entered) =>
      match s.inst.ensureAcceptingRegistrations gpu.deviceId with
      | some e => some (s.answer i gpu (some e))
      | none => some (s.advance i gpu .accepted)
    | _ => none
  | .build i failure =>
    match s.calls.lookup i with
    | some (gpu, .accepted) =>
      match InstanceContext.buildGpuContext gpu failure with
      | some e => some (s.answer i gpu (some e))
      | none => some (s.advance i gpu .built)
    | _ => none
  | .commit i =>
    match s.calls.lookup i with
    | some (gpu, .built) =>
      match s.inst.addGpu gpu with
      | .error e => some (s.answer i gpu (some e))
      | .ok inst => some { s.answer i gpu none with inst := inst }
    | _ => none

/-- How a call goes on. -/
inductive Advances (s : RegisterState) (i : Nat) (gpu : GpuContext) :
    RegisterStage → RegisterEvent → Prop where
  | entered (h : s.inst.checkArguments gpu = none) : Advances s i gpu .entered (.call i gpu)
  | accepted (hcall : s.calls.lookup i = some (gpu, .entered)) :
      Advances s i gpu .accepted (.check i)
  | built (failure : Option String) (hcall : s.calls.lookup i = some (gpu, .accepted))
      (h : InstanceContext.buildGpuContext gpu failure = none) :
      Advances s i gpu .built (.build i failure)

/-- Why a call returns an error. -/
inductive Refused (inst : InstanceContext) (gpu : GpuContext) (e : EngineError) :
    RegisterEvent → Prop where
  | arguments (i : Nat) (h : inst.checkArguments gpu = some e) : Refused inst gpu e (.call i gpu)
  | closed (i : Nat) (h : inst.ensureAcceptingRegistrations gpu.deviceId = some e) :
      Refused inst gpu e (.check i)
  | device (i : Nat) (failure : Option String)
      (h : InstanceContext.buildGpuContext gpu failure = some e) :
      Refused inst gpu e (.build i failure)
  | rejected (i : Nat) (h : inst.addGpu gpu = .error e) : Refused inst gpu e (.commit i)

/-- What a step does: a call goes on, or returns an error, or returns without one, and only the
last changes the instance. -/
inductive Step (s : RegisterState) : RegisterEvent → RegisterState → Prop where
  | advance (i : Nat) (gpu : GpuContext) (stage : RegisterStage) (ev : RegisterEvent)
      (h : Advances s i gpu stage ev) : Step s ev (s.advance i gpu stage)
  | refuse (i : Nat) (gpu : GpuContext) (e : EngineError) (ev : RegisterEvent)
      (h : Refused s.inst gpu e ev) : Step s ev (s.answer i gpu (some e))
  | commit (i : Nat) (gpu : GpuContext) (inst : InstanceContext)
      (hcall : s.calls.lookup i = some (gpu, .built)) (h : s.inst.addGpu gpu = .ok inst) :
      Step s (.commit i) { s.answer i gpu none with inst := inst }

variable {s s' : RegisterState} {ev : RegisterEvent} {events : List RegisterEvent}
variable {inst₀ : InstanceContext}

theorem step_cases (h : s.step ev = some s') : Step s ev s' := by
  cases ev with dsimp only [step] at h
  | call i gpu =>
    split at h
    · cases h
    split at h
    next e he =>
      cases h
      exact .refuse i gpu e _ (.arguments i he)
    next hok =>
      cases h
      exact .advance i gpu _ _ (.entered hok)
  | check i =>
    split at h
    next gpu hc =>
      split at h
      next e he =>
        cases h
        exact .refuse i gpu e _ (.closed i he)
      · cases h
        exact .advance i gpu _ _ (.accepted hc)
    · cases h
  | build i failure =>
    split at h
    next gpu hc =>
      split at h
      next e he =>
        cases h
        exact .refuse i gpu e _ (.device i failure he)
      next hok =>
        cases h
        exact .advance i gpu _ _ (.built failure hc hok)
    · cases h
  | commit i =>
    split at h
    next gpu hc =>
      split at h
      next e he =>
        cases h
        exact .refuse i gpu e _ (.rejected i he)
      next inst hok =>
        cases h
        exact .commit i gpu inst hc hok
    · cases h

/-! ## One call at a time -/

/-- The devices of the calls that returned without an error, in the order of the answers. -/
def registered (s : RegisterState) : List GpuContext :=
  (s.answers.filter fun a => a.2.isNone).map Prod.fst

/-- The instance took the devices of the calls that returned without an error, and the calls that
run passed the checks that do not look at the devices. -/
structure Inv (inst₀ : InstanceContext) (s : RegisterState) : Prop where
  took : InstanceContext.Took inst₀ s.inst s.registered
  arguments : ∀ i call, s.calls.lookup i = some call → inst₀.checkArguments call.1 = none
  built : ∀ i gpu, s.calls.lookup i = some (gpu, .built) →
    InstanceContext.buildGpuContext gpu none = none

theorem Inv.checkArguments_eq (hi : Inv inst₀ s) (gpu : GpuContext) :
    s.inst.checkArguments gpu = inst₀.checkArguments gpu := by
  rw [hi.took.config]
  rfl

variable {i : Nat} {gpu : GpuContext}

theorem Inv.advance {stage : RegisterStage} (hi : Inv inst₀ s)
    (h : Advances s i gpu stage ev) : Inv inst₀ (s.advance i gpu stage) := by
  have hg : inst₀.checkArguments gpu = none ∧
      (stage = .built → InstanceContext.buildGpuContext gpu none = none) := by
    cases h with
    | entered h => exact ⟨(hi.checkArguments_eq gpu).symm.trans h, nofun⟩
    | accepted hc => exact ⟨hi.arguments i _ hc, nofun⟩
    | built failure hc h =>
      exact ⟨hi.arguments i _ hc, fun _ => buildGpuContext_none h⟩
  refine ⟨hi.took, ?_, ?_⟩
  · exact forall_lookup_insert hg.1 hi.arguments
  · intro j gpu' hj
    rcases lookup_of_insert hj with ⟨-, hnew⟩ | ⟨-, ho⟩
    · cases hnew
      exact hg.2 rfl
    · exact hi.built j gpu' ho

@[simp] theorem registered_answer_error {e : EngineError} :
    (s.answer i gpu (some e)).registered = s.registered := by
  simp [registered, answer]

@[simp] theorem registered_answer_ok {inst : InstanceContext} :
    registered { s.answer i gpu none with inst := inst } = s.registered ++ [gpu] := by
  simp [registered, answer]

theorem Inv.step (hi : Inv inst₀ s) (h : Step s ev s') : Inv inst₀ s' := by
  cases h with
  | advance i gpu stage ev h => exact hi.advance h
  | refuse i gpu e ev h =>
    refine ⟨?_, ?_, ?_⟩
    · rw [registered_answer_error]
      exact hi.took
    · exact fun j call hj => hi.arguments j call (lookup_of_erase hj).2
    · exact fun j gpu' hj => hi.built j gpu' (lookup_of_erase hj).2
  | commit i gpu inst hc h =>
    refine ⟨?_, ?_, ?_⟩
    · rw [registered_answer_ok]
      exact hi.took.addGpu (hi.arguments i _ hc) h
    · exact fun j call hj => hi.arguments j call (lookup_of_erase hj).2
    · exact fun j gpu' hj => hi.built j gpu' (lookup_of_erase hj).2

section Runs

variable {id nameSpace : String} {tpSize worldSize : Nat} {pageFirst : Bool}

variable (hnew : InstanceContext.new id nameSpace tpSize worldSize pageFirst = .ok inst₀)
include hnew

theorem init_inv : Inv inst₀ (init inst₀) :=
  ⟨new_took hnew, nofun, nofun⟩

theorem inv_of_exec (h : Run.exec step (init inst₀) events = some s) : Inv inst₀ s :=
  exec_invariant (fun _ _ _ hi hst => hi.step (step_cases hst)) (init_inv hnew) h

/-- The instance is what the calls that returned without an error make of it one after the
other. -/
theorem linearized (h : Run.exec step (init inst₀) events = some s) :
    Run.exec registerAlone inst₀ s.registered = some s.inst := by
  refine (exec_invariant (I := fun s => Inv inst₀ s ∧
      exec registerAlone inst₀ s.registered = some s.inst)
    ?_ ⟨init_inv hnew, rfl⟩ h).2
  rintro s ev s' ⟨hi, hrun⟩ hst
  have hst := step_cases hst
  refine ⟨hi.step hst, ?_⟩
  cases hst with
  | advance i gpu stage ev h => exact hrun
  | refuse i gpu e ev h =>
    rw [registered_answer_error]
    exact hrun
  | commit i gpu inst hc h =>
    have hargs := (hi.checkArguments_eq gpu).trans (hi.arguments i _ hc)
    have halone : s.inst.registerAlone gpu = some inst := by
      rw [registerAlone, registerNewGpu_eq_addGpu hargs (hi.built i gpu hc), h]
      rfl
    rw [registered_answer_ok, exec_append, hrun, bind_some, exec_cons, halone]
    rfl

end Runs

/-- A sealed instance takes no device. -/
theorem inst_eq_of_sealed (hsl : s.inst.topology.isSome)
    (h : Run.exec step s events = some s') : s'.inst = s.inst := by
  refine exec_invariant (I := fun u => u.inst = s.inst) ?_ rfl h
  intro u ev u' hu hst
  cases step_cases hst with
  | advance i gpu stage ev h | refuse i gpu e ev h => exact hu
  | commit i gpu inst hc h =>
    obtain ⟨-, ho, -⟩ := addGpu_ok h
    rw [hu] at ho
    rw [ho] at hsl
    cases hsl

/-! ## The order of the calls -/

/-- Registrations that together make a worker set, each of them valid on its own. -/
structure WorkerSet (inst₀ : InstanceContext) (gpus : List GpuContext) : Prop where
  length_eq : gpus.length = inst₀.worldSize
  devices_nodup : (gpus.map GpuContext.deviceId).Nodup
  tpRank_lt : ∀ gpu ∈ gpus, gpu.tpRank < inst₀.tpSize
  layers_ne_nil : ∀ gpu ∈ gpus, gpu.layerNames ≠ []
  device_nonneg : ∀ gpu ∈ gpus, 0 ≤ gpu.deviceId

/-- The device backend makes every device context that it is asked for. -/
def DevicesOpen (events : List RegisterEvent) : Prop :=
  ∀ i failure, RegisterEvent.build i failure ∈ events → failure = none

/-- All calls so far returned without an error, or the call that would have completed the worker
set was the last one and was rejected. -/
inductive Outcome (inst₀ : InstanceContext) (answers : List (GpuContext × Option EngineError)) :
    Prop where
  | accepted (hok : ∀ a ∈ answers, a.2 = none)
  | rejected (before : List (GpuContext × Option EngineError)) (gpu : GpuContext) (e : EngineError)
      (hanswers : answers = before ++ [(gpu, some e)]) (hok : ∀ a ∈ before, a.2 = none)
      (hlast : before.length + 1 = inst₀.worldSize)
      (hseal : ∃ order, order.Perm (answers.map Prod.fst) ∧ inst₀.sealTopology order = .error e)

section Order

variable {gpus : List GpuContext} {gpu : GpuContext} {e : EngineError}

theorem registered_eq (hok : ∀ a ∈ s.answers, a.2 = none) :
    s.registered = s.answers.map Prod.fst := by
  rw [registered, filter_eq_self.mpr]
  intro a ha
  rw [hok a ha]
  rfl

variable {answers before : List (GpuContext × Option EngineError)}

section

variable (hset : WorkerSet inst₀ gpus)
include hset

theorem WorkerSet.checkArguments (hg : gpu ∈ gpus) : inst₀.checkArguments gpu = none :=
  checkArguments_eq_none.mpr
    ⟨hset.tpRank_lt gpu hg, hset.layers_ne_nil gpu hg⟩

theorem WorkerSet.buildGpuContext (hg : gpu ∈ gpus) :
    InstanceContext.buildGpuContext gpu none = none := by
  rw [InstanceContext.buildGpuContext, if_neg (Int.not_lt.mpr (hset.device_nonneg gpu hg)),
    map_none]

/-- An instance accepts every device of the worker set that it does not have. -/
theorem WorkerSet.accepting (hi : Inv inst₀ s) (hsub : (s.registered ++ [gpu]).Subperm gpus) :
    s.inst.ensureAcceptingRegistrations gpu.deviceId = none := by
  refine accepting_iff.mpr ⟨?_, ?_⟩
  · rw [eq_none_iff_forall_ne_some]
    intro gpu' hlk
    have hm := hi.took.perm.mem_iff.mp (mem_gpus_of_getGpu hlk)
    -- The device would be twice among the devices of the worker set.
    obtain ⟨order, hp, hsublist⟩ := hsub
    have hnd := hset.devices_nodup.sublist (hsublist.map GpuContext.deviceId)
    rw [(hp.map GpuContext.deviceId).nodup_iff, map_append, nodup_append] at hnd
    exact hnd.2.2 gpu'.deviceId (mem_map_of_mem hm) gpu.deviceId
      mem_cons_self (hi.took.keyed _ _ hlk)
  · rw [← not_isSome_iff_eq_none]
    intro hsl
    -- A sealed instance has all workers, and the device would be one more.
    have hfull := hi.took.full.mp hsl
    have hle := hsub.length_le
    rw [length_append, length_singleton, hset.length_eq] at hle
    omega

/-- A call for a device of the worker set is refused only by sealing, which is where the worker
set would be complete. -/
theorem WorkerSet.refused (hi : Inv inst₀ s) (ho : DevicesOpen [ev])
    (hsub : (s.registered ++ [gpu]).Subperm gpus) (h : Refused s.inst gpu e ev) :
    s.registered.length + 1 = inst₀.worldSize ∧
      inst₀.sealTopology (s.inst.gpus ++ [gpu]) = .error e := by
  have hg : gpu ∈ gpus := hsub.subset (by simp)
  have haccg := hset.accepting hi hsub
  cases h with
  | arguments i h =>
    rw [hi.checkArguments_eq, hset.checkArguments hg] at h
    cases h
  | closed i h => cases h.symm.trans haccg
  | device i failure h =>
    -- A valid device id is refused only by the backend.
    obtain rfl := ho i failure mem_cons_self
    cases h.symm.trans (hset.buildGpuContext hg)
  | rejected i h =>
    rcases addGpu_error h with hclosed | ⟨hl, hsl⟩
    · cases hclosed.symm.trans haccg
    rw [hi.took.perm.length_eq, hi.took.config] at hl
    rw [hi.took.config] at hsl
    exact ⟨hl, hsl⟩

/-- After the rejection of the last call of the worker set no call of it is left. -/
theorem WorkerSet.not_subperm {gpu' : GpuContext} (hans : answers = before ++ [(gpu', some e)])
    (hl : before.length + 1 = inst₀.worldSize) :
    ¬ (answers.map Prod.fst ++ [gpu]).Subperm gpus := by
  intro hsub
  have hle := hsub.length_le
  rw [hans, hset.length_eq] at hle
  simp only [length_append, length_map, length_singleton] at hle
  omega

/-- A step keeps the outcome, as long as the answers are answers to calls of the worker set. -/
theorem Outcome.step (hi : Inv inst₀ s) (hop : DevicesOpen [ev])
    (ho : (s.answers.map Prod.fst).Subperm gpus → Outcome inst₀ s.answers) (h : Step s ev s')
    (hsub : (s'.answers.map Prod.fst).Subperm gpus) : Outcome inst₀ s'.answers := by
  cases h with
  | advance i gpu stage ev h => exact ho hsub
  | refuse i gpu e ev h =>
    simp only [RegisterState.answer, map_append, map_singleton] at hsub ⊢
    cases ho ((sublist_append_left _ _).subperm.trans hsub) with
    | accepted hok =>
      rw [← registered_eq hok] at hsub
      obtain ⟨hl, hsl⟩ := hset.refused hi hop hsub h
      rw [registered_eq hok, length_map] at hl
      refine .rejected s.answers gpu e rfl hok hl ⟨_, ?_, hsl⟩
      rw [map_append, ← registered_eq hok]
      exact hi.took.perm.append_right [gpu]
    | rejected before gpu' e' hans hok hl hsl =>
      exact absurd hsub (hset.not_subperm hans hl)
  | commit i gpu inst hc h =>
    simp only [RegisterState.answer, map_append, map_singleton] at hsub ⊢
    cases ho ((sublist_append_left _ _).subperm.trans hsub) with
    | accepted hok =>
      refine .accepted ?_
      intro a ha
      rcases mem_append.mp ha with hold | hnew
      · exact hok a hold
      · rw [mem_singleton.mp hnew]
    | rejected before gpu' e' hans hok hl hsl =>
      exact absurd hsub (hset.not_subperm hans hl)

end

variable {id nameSpace : String} {tpSize worldSize : Nat} {pageFirst : Bool}

theorem outcome_of_exec (hnew : new id nameSpace tpSize worldSize pageFirst = .ok inst₀)
    (hset : WorkerSet inst₀ gpus) (hop : DevicesOpen events)
    (hsub : (s.answers.map Prod.fst).Subperm gpus)
    (h : Run.exec step (init inst₀) events = some s) : Outcome inst₀ s.answers := by
  have hmt : Run.Meets step (fun _ ev => DevicesOpen [ev]) (init inst₀) events := by
    refine meets_of_forall ?_
    intro ev hev i failure hbuild
    rw [mem_singleton] at hbuild
    exact hop i failure (hbuild ▸ hev)
  refine (exec_invariant_of_meets (I := fun s => Inv inst₀ s ∧
      ((s.answers.map Prod.fst).Subperm gpus → Outcome inst₀ s.answers))
    ?_ ⟨init_inv hnew, fun _ => .accepted nofun⟩ hmt h).2 hsub
  rintro s ev s' ⟨hi, ho⟩ hop hst
  have hst := step_cases hst
  exact ⟨hi.step hst, Outcome.step hset hi hop ho hst⟩

/-- As many calls as there are workers seal the topology exactly if none returned an error. -/
theorem Inv.sealed_iff (hi : Inv inst₀ s) (hlen : s.answers.length = inst₀.worldSize) :
    s.inst.topology.isSome ↔ ∀ a ∈ s.answers, a.2 = none := by
  rw [hi.took.full, registered, length_map, ← hlen, length_filter_eq_length_iff]
  simp only [isNone_iff_eq_none]

/-- The topology is a function of the set of the registrations. -/
theorem Inv.sealed_eq (hi : Inv inst₀ s) (hlen : gpus.length = inst₀.worldSize)
    (hp : (s.answers.map Prod.fst).Perm gpus) {t : LayerTopology}
    (ht : s.inst.topology = some t) : inst₀.sealTopology gpus = .ok t := by
  have hans : s.answers.length = inst₀.worldSize := by
    rw [← hlen, ← hp.length_eq, length_map]
  have hok := (hi.sealed_iff hans).mp (by rw [ht]; rfl)
  have hreg := registered_eq hok
  exact sealTopology_ok_perm (hreg ▸ hp) hi.took.arguments (hi.took.sealed t ht)

theorem Inv.topology_eq (hi : Inv inst₀ s) (hset : WorkerSet inst₀ gpus)
    (hp : (s.answers.map Prod.fst).Perm gpus) (ho : Outcome inst₀ s.answers) :
    s.inst.topology = (inst₀.sealTopology gpus).toOption := by
  have hans : s.answers.length = inst₀.worldSize := by
    rw [← hset.length_eq, ← hp.length_eq, length_map]
  cases ht : s.inst.topology with
  | some t =>
    rw [hi.sealed_eq hset.length_eq hp ht]
    rfl
  | none =>
    cases ho with
    | accepted hok =>
      have hs := (hi.sealed_iff hans).mpr hok
      rw [ht] at hs
      cases hs
    | rejected before gpu e hbef hok hl hsl =>
      obtain ⟨order, hord, herr⟩ := hsl
      cases hgs : inst₀.sealTopology gpus with
      | error e' => rfl
      | ok t =>
        have hok := sealTopology_ok_perm (hord.trans hp).symm (fun _ => hset.checkArguments) hgs
        rw [herr] at hok
        cases hok

theorem Outcome.before_ok {last : GpuContext × Option EngineError} (ho : Outcome inst₀ answers)
    (h : answers = before ++ [last]) : ∀ a ∈ before, a.2 = none := by
  cases ho with
  | accepted hok =>
    intro a ha
    exact hok a (h ▸ mem_append_left _ ha)
  | rejected before' gpu e hans hok hl hsl =>
    obtain ⟨rfl, -⟩ := append_inj' (hans.symm.trans h) rfl
    exact hok

end Order

/-- The topology is sealed exactly when all workers are registered; only a call that returns
without an error changes the instance; a sealed topology stays; and as many calls as there are
workers, in whatever order and interleaving, seal the one topology of their set or none, and they
seal none exactly if one of them was refused.  If each call is valid on its own, that is the
last one. -/
theorem registrations_seal_alike {id nameSpace : String} {tpSize worldSize : Nat} {pageFirst : Bool}
    (hnew : new id nameSpace tpSize worldSize pageFirst = .ok inst₀)
    (h : Run.exec step (init inst₀) events = some s) :
    (s.inst.topology.isSome ↔ s.inst.gpus.length = worldSize) ∧
      (∀ ev s', s.step ev = some s' →
        s'.inst = s.inst ∨
          ∃ i gpu, ev = .commit i ∧ s.calls.lookup i = some (gpu, .built) ∧
            s'.answers = s.answers ++ [(gpu, none)]) ∧
      (∀ t later s', s.inst.topology = some t → Run.exec step s later = some s' →
        s'.inst.topology = some t) ∧
      ∀ gpus, gpus.length = worldSize → (s.answers.map Prod.fst).Perm gpus →
        (∀ t, s.inst.topology = some t → inst₀.sealTopology gpus = .ok t) ∧
          (s.inst.topology.isSome ↔ ∀ a ∈ s.answers, a.2 = none) ∧
          (WorkerSet inst₀ gpus → DevicesOpen events →
            s.inst.topology = (inst₀.sealTopology gpus).toOption ∧
              ∀ before last, s.answers = before ++ [last] → ∀ a ∈ before, a.2 = none) := by
  have hi := inv_of_exec hnew h
  have hworld : inst₀.worldSize = worldSize := new_worldSize hnew
  subst hworld
  refine ⟨?_, ?_, ?_, ?_⟩
  · rw [hi.took.perm.length_eq]
    exact hi.took.full
  · intro ev s' hstep
    cases step_cases hstep with
    | advance i gpu stage ev h | refuse i gpu e ev h => exact Or.inl rfl
    | commit i gpu inst hcall h => exact Or.inr ⟨i, gpu, rfl, hcall, rfl⟩
  · intro t later s' ht hlater
    rw [inst_eq_of_sealed (by rw [ht]; rfl) hlater, ht]
  · intro gpus hlength hperm
    have hanswers : s.answers.length = inst₀.worldSize := by
      rw [← hlength, ← hperm.length_eq, length_map]
    refine ⟨fun t ht => hi.sealed_eq hlength hperm ht, hi.sealed_iff hanswers, ?_⟩
    intro hset hopen
    have ho := outcome_of_exec hnew hset hopen hperm.subperm h
    exact ⟨hi.topology_eq hset hperm ho, fun _ _ hlast => ho.before_ok hlast⟩

/-- A worker with one layer. -/
def oneLayer (deviceId : Int) (tpRank : Nat) : GpuContext :=
  ⟨deviceId, tpRank, 0, ⟨0⟩,
    ((buildKvCaches none [⟨"layer", 4096, 8, 1, 8, 0, 1, none⟩] ∅).toOption).getD ∅⟩

/-- An instance of two workers, page-first. -/
def twoWorkers (tpSize : Nat) : InstanceContext := ⟨"i", "n", tpSize, 2, true, ∅, none⟩

/-- Two calls, one after the other; the first is refused for its tp rank. -/
def invalidThenValid : List RegisterEvent :=
  [.call 0 (oneLayer 0 5), .call 1 (oneLayer 1 0), .check 1, .build 1 none, .commit 1]

/-- Two calls that both pass the first lock before one of them is added. -/
def interleaved : List RegisterEvent :=
  [.call 0 (oneLayer 0 0), .call 1 (oneLayer 1 1), .check 0, .check 1, .build 1 none,
    .build 0 none, .commit 1, .commit 0]

/-- An invalid registration that is not the last leaves the instance open, though as many
registrations as there are workers were made and the last was accepted. -/
theorem invalid_registration_keeps_open :
    ∃ s ∈ Run.exec step (init (twoWorkers 1)) invalidThenValid,
      s.answers.length = s.inst.worldSize ∧ s.answers.map (fun a => a.1.deviceId) = [0, 1] ∧
        s.inst.topology.isSome = false ∧ s.answers.map (fun a => a.2.isSome) = [true, false] := by
  decide +kernel

theorem twoWorkers_workerSet : WorkerSet (twoWorkers 2) [oneLayer 0 0, oneLayer 1 1] :=
  ⟨rfl, by decide, by decide, by decide +kernel, by decide⟩

theorem registrations_seal_alike_interleaved :
    ∃ s, Run.exec step (init (twoWorkers 2)) interleaved = some s ∧
      s.inst.topology.isSome ∧
      s.inst.topology = ((twoWorkers 2).sealTopology [oneLayer 0 0, oneLayer 1 1]).toOption := by
  obtain ⟨s, hs⟩ : ∃ s, exec step (init (twoWorkers 2)) interleaved = some s :=
    isSome_iff_exists.mp (by decide +kernel)
  have hanswers : (exec step (init (twoWorkers 2)) interleaved).map
      (fun s => s.answers.map Prod.fst) = some [oneLayer 1 1, oneLayer 0 0] := rfl
  have hlength : (exec step (init (twoWorkers 2)) interleaved).map
      (fun s => s.inst.gpus.length) = some 2 := rfl
  rw [hs, map_some, some.injEq] at hanswers hlength
  have hnew : new "i" "n" 2 2 true = .ok (twoWorkers 2) := rfl
  obtain ⟨hfull, -, -, horder⟩ := registrations_seal_alike hnew hs
  have hperm : (s.answers.map Prod.fst).Perm [oneLayer 0 0, oneLayer 1 1] := by
    rw [hanswers]
    exact List.Perm.swap _ _ _
  obtain ⟨-, -, hset⟩ := horder _ rfl hperm
  refine ⟨s, hs, hfull.mpr hlength, (hset twoWorkers_workerSet ?_).1⟩
  · intro i failure hbuild
    simp only [interleaved, mem_cons, reduceCtorEq, false_or, not_mem_nil, or_false,
      RegisterEvent.build.injEq] at hbuild
    rcases hbuild with ⟨-, h⟩ | ⟨-, h⟩ <;> exact h

theorem linearized_interleaved :
    ∃ s ∈ Run.exec step (init (twoWorkers 2)) interleaved, s.registered.length = 2 ∧
      Run.exec registerAlone (twoWorkers 2) s.registered = some s.inst :=
  exists_mem_imp (Q := (·.registered.length = 2)) (by decide +kernel) fun _ hs hlength =>
    ⟨hlength, linearized (show new "i" "n" 2 2 true = .ok (twoWorkers 2) from rfl) hs⟩

end RegisterState

end PegaFlow.Engine
