import PegaFlow.Connector.SaveLoop

/-!
# Forward steps and their saves

A forward step of vLLM around the save loop.  `start_load_kv` hands the metadata of the step over.
Then for each registered layer, in any order, the kernel that writes its KV is launched and
`save_kv_layer` is called.  At the end of the step vLLM calls `wait_for_save`, which takes the
metadata and makes the task.

`save_kv_layer` also calls `wait_for_save`, for backends that never do, in the callback of the layer
that was registered first.  The metadata is taken there, so the call at the end of the step finds
none.  From then on the save thread may synchronise the device and send the request, whatever
kernels of the step are still to be launched.

`_save_fallback_used` is set only while the call made by `save_kv_layer` runs, on the thread that
reads it, and is left out.
-/

namespace PegaFlow.Connector

open List Option Run

/-- Where a forward step is. -/
inductive PassStage where
  | between
  /-- These layers are still to come. -/
  | layers (todo : List String)
  /-- The kernel of the layer is launched and its callback comes next. -/
  | callback (layer : String) (todo : List String)
deriving DecidableEq

/-- The layers that are still to come in the step, if vLLM is in one. -/
def PassStage.todo : PassStage → Option (List String)
  | between => none
  | layers todo => some todo
  | callback _ todo => some todo

/-- The save loop with the forward step vLLM is in.  `launched` records the kernels launched so far,
with the number of their step. -/
structure ForwardPass where
  loop : SaveLoop
  forward : Nat
  /-- The save intents of `_current_metadata`. -/
  metadata : Option (List (ReqId × SaveIntent))
  stage : PassStage
  launched : List (Nat × String)

inductive PassEvent where
  | startLoadKv (saveIntents : List (ReqId × SaveIntent))
  | launch (layer : String)
  | saveKvLayer
  | waitForSave
  | loop (ev : LoopEvent)

/-- What happens in the save loop apart from the call of `wait_for_save`. -/
def LoopEvent.isWaitForSave : LoopEvent → Bool
  | waitForSave _ _ => true
  | _ => false

namespace ForwardPass

def init : ForwardPass := ⟨.init, 0, none, .between, []⟩

def waitForSave (m : SaveMode) (s : ForwardPass) : Option ForwardPass :=
  match s.metadata with
  | none | some [] => some { s with metadata := none }
  | some saveIntents =>
    (s.loop.step m (.waitForSave s.forward ⟨saveIntents⟩)).map fun loop =>
      { s with loop, metadata := none }

def step (m : SaveMode) (s : ForwardPass) : PassEvent → Option ForwardPass
  | .startLoadKv saveIntents =>
    if s.loop.free ∧ s.stage = .between then
      some { s with
        forward := s.forward + 1
        metadata := some saveIntents
        stage := .layers m.registeredLayers }
    else none
  | .launch layer =>
    match s.stage with
    | .layers todo =>
      if s.loop.free ∧ layer ∈ todo then
        some { s with
          stage := .callback layer (todo.erase layer)
          launched := (s.forward, layer) :: s.launched }
      else none
    | _ => none
  | .saveKvLayer =>
    match s.stage with
    | .callback layer todo =>
      if s.loop.registered ∧ m.registeredLayers.head? = some layer then
        { s with stage := .layers todo }.waitForSave m
      else some { s with stage := .layers todo }
    | _ => none
  | .waitForSave =>
    if s.loop.free ∧ s.stage = .layers [] then { s with stage := .between }.waitForSave m
    else none
  | .loop ev =>
    if ev.isWaitForSave then none
    else (s.loop.step m ev).map fun loop => { s with loop }

/-! ## What a step can do -/

variable {m : SaveMode} {s s' : ForwardPass} {ev : PassEvent} {events : List PassEvent}

/-- A task that becomes outstanding in `wait_for_save` is of the step vLLM is in. -/
theorem waitForSave_spec (h : s.waitForSave m = some s') :
    s'.forward = s.forward ∧ s'.stage = s.stage ∧ s'.launched = s.launched ∧
      ∀ t ∈ s'.loop.outstanding, t ∈ s.loop.outstanding ∨
        t.forward = s.forward ∧ s.metadata ≠ none ∧ s.metadata ≠ some [] := by
  rw [waitForSave] at h
  split at h
  next => cases h; exact ⟨rfl, rfl, rfl, fun t ht => Or.inl ht⟩
  next => cases h; exact ⟨rfl, rfl, rfl, fun t ht => Or.inl ht⟩
  next saveIntents hne hmeta =>
    obtain ⟨loop, hl, rfl⟩ := map_eq_some_iff.mp h
    refine ⟨rfl, rfl, rfl, fun t ht => ?_⟩
    rcases (SaveLoop.step_cases hl).mem_outstanding ht with ho | hev
    · exact Or.inl ho
    injection hev with hfwd
    refine Or.inr ⟨hfwd.symm, ?_, ?_⟩
    · rw [hmeta]
      exact some_ne_none _
    · rw [hmeta]
      intro heq
      exact hne (some.inj heq)

/-- When the callback of the first registered layer makes the task, no layer is still to come. -/
def LastLayer (m : SaveMode) (s : ForwardPass) : PassEvent → Prop
  | .saveKvLayer => ∀ layer todo, s.stage = .callback layer todo →
      m.registeredLayers.head? = some layer → s.metadata ≠ none → s.metadata ≠ some [] → todo = []
  | _ => True

instance decidableLastLayer (m : SaveMode) (s : ForwardPass) : ∀ ev, Decidable (s.LastLayer m ev)
  | .saveKvLayer =>
    match h : s.stage with
    | .callback layer todo =>
      decidable_of_iff (m.registeredLayers.head? = some layer → s.metadata ≠ none →
        s.metadata ≠ some [] → todo = []) (by simp [LastLayer, h])
    | .between => isTrue (by simp [LastLayer, h])
    | .layers _ => isTrue (by simp [LastLayer, h])
  | .startLoadKv _ | .launch _ | .waitForSave | .loop _ => isTrue trivial

/-- The kernels of every step with an outstanding task are launched.  In a step, every layer is
still to come or its kernel is launched. -/
structure Covered (m : SaveMode) (s : ForwardPass) : Prop where
  tasks : ∀ t ∈ s.loop.outstanding, ∀ layer ∈ m.registeredLayers,
    (t.forward, layer) ∈ s.launched
  layers : ∀ todo, s.stage.todo = some todo → ∀ layer ∈ m.registeredLayers,
    layer ∈ todo ∨ (s.forward, layer) ∈ s.launched

theorem covered_init : init.Covered m where
  tasks := fun t ht => by cases ht
  layers := fun todo h => by cases h

/-- `wait_for_save` keeps the tasks covered if no layer is still to come when it makes one. -/
theorem Covered.waitForSave {todo : List String} {stage : PassStage} (hs : s.Covered m)
    (htd : s.stage.todo = some todo) (hst : stage.todo = none ∨ stage.todo = some todo)
    (hd : s.metadata ≠ none → s.metadata ≠ some [] → todo = [])
    (h : { s with stage := stage }.waitForSave m = some s') : s'.Covered m := by
  obtain ⟨hfwd, hst', hlaunched, hout⟩ := waitForSave_spec h
  refine ⟨?_, ?_⟩
  · intro t ht layer hlay
    rw [hlaunched]
    rcases hout t ht with ho | ⟨hnew, hsm, hne⟩
    · exact hs.tasks t ho layer hlay
    rw [hnew]
    rcases hs.layers todo htd layer hlay with hm | hl
    · rw [hd hsm hne] at hm
      cases hm
    · exact hl
  · intro todo' htd'
    rw [hfwd, hlaunched]
    rw [hst'] at htd'
    rcases hst with hn | hsm
    · cases hn.symm.trans htd'
    · cases hsm.symm.trans htd'
      exact hs.layers todo htd

theorem covered_step (hs : s.Covered m) (hlast : s.LastLayer m ev) (h : s.step m ev = some s') :
    s'.Covered m := by
  cases ev with dsimp only [step] at h
  | startLoadKv saveIntents =>
    obtain ⟨-, rfl⟩ := guarded_eq_some.mp h
    refine ⟨hs.tasks, ?_⟩
    intro todo htd layer hlay
    cases htd
    exact Or.inl hlay
  | launch l =>
    split at h
    next todo hst =>
      obtain ⟨⟨-, hl⟩, rfl⟩ := guarded_eq_some.mp h
      refine ⟨?_, ?_⟩
      · intro t ht layer hlay
        exact mem_cons_of_mem _ (hs.tasks t ht layer hlay)
      · intro todo' htd' layer hlay
        cases htd'
        rcases hs.layers todo (by rw [hst]; rfl) layer hlay with htd | hlaunched
        · by_cases heq : layer = l
          · subst heq
            exact Or.inr mem_cons_self
          · exact Or.inl ((mem_erase_of_ne heq).mpr htd)
        · exact Or.inr (mem_cons_of_mem _ hlaunched)
    next => cases h
  | saveKvLayer =>
    split at h
    next l todo hst =>
      have htd : s.stage.todo = some todo := by rw [hst]; rfl
      split at h
      next hfst =>
        exact hs.waitForSave htd (Or.inr rfl) (hlast l todo hst hfst.2) h
      next =>
        cases h
        exact ⟨hs.tasks, fun todo' htd' => by cases htd'; exact hs.layers todo htd⟩
    next => cases h
  | waitForSave =>
    split at h
    next hend =>
      have htd : s.stage.todo = some [] := by rw [hend.2]; rfl
      exact hs.waitForSave htd (Or.inl rfl) (fun _ _ => rfl) h
    next => cases h
  | loop ev =>
    split at h
    next => cases h
    next hev =>
      obtain ⟨loop, hlp, rfl⟩ := map_eq_some_iff.mp h
      refine ⟨?_, hs.layers⟩
      intro t ht
      rcases (SaveLoop.step_cases hlp).mem_outstanding ht with ho | rfl
      · exact hs.tasks t ho
      · exact absurd rfl hev

/-- In every run in which the first registered layer makes the task of a step only as the last of
its layers, the device is synchronised and the request is sent only after the kernels of all
registered layers of every step in the batch were launched. -/
theorem send_after_launch (hmeets : Run.Meets (step m) (LastLayer m) init events)
    (hrun : Run.exec (step m) init events = some s) {batch : List QueuedTask} {last : Bool}
    (hnext : s.loop.stage = .synchronizing batch last ∨ s.loop.stage = .sending batch last) :
    ∀ t ∈ batch, ∀ layer ∈ m.registeredLayers, (t.forward, layer) ∈ s.launched := by
  have hs := exec_invariant_of_meets (I := Covered m) (fun _ _ _ => covered_step) covered_init
    hmeets hrun
  have hbatch : s.loop.stage.batch = batch := by
    rcases hnext with h | h <;> rw [h] <;> rfl
  intro t ht
  rw [← hbatch] at ht
  exact hs.tasks t (SaveLoop.mem_outstanding.mpr (Or.inr (Or.inl ht)))

/-- Two layers, saved as they are. -/
def twoLayers : SaveMode := ⟨none, false, false, ["l0", "l1"], 1, 0, by decide⟩

/-- The layer registered first runs last. -/
theorem send_after_launch_reversed :
    ∃ s, Run.exec (step twoLayers) init
        [.startLoadKv [("a", ⟨[0], [[0]]⟩)], .launch "l1", .saveKvLayer, .launch "l0", .saveKvLayer,
          .loop .put, .loop .take, .loop .drain, .loop (.build true),
          .loop (.synchronize true)] = some s ∧
      s.loop.stage = .sending [⟨1, ⟨[("a", ⟨[0], [[0]]⟩)]⟩⟩] false ∧ (1, "l1") ∈ s.launched := by
  refine exists_mem_of_eq rfl fun hrun => ?_
  exact ⟨rfl, send_after_launch (by decide) hrun (Or.inr rfl) _ mem_cons_self "l1" (by decide)⟩

/-- The callback of the first layer makes the task.  The device is synchronised and the request is
about to be sent before the kernel of the second layer is launched. -/
theorem send_before_launch :
    ∃ s ∈ Run.exec (step twoLayers) init
        [.startLoadKv [("a", ⟨[0], [[0]]⟩)], .launch "l0", .saveKvLayer, .loop .put, .loop .take,
          .loop .drain, .loop (.build true), .loop (.synchronize true)],
      (∃ t, s.loop.stage = .sending [t] false ∧ t.forward = 1 ∧ "a" ∈ t.task.requestIds) ∧
        (s.step twoLayers (.loop .send)).isSome = true ∧ (1, "l1") ∉ s.launched :=
  ⟨_, rfl, ⟨_, rfl, rfl, by decide⟩, rfl, by decide⟩

end ForwardPass

end PegaFlow.Connector
