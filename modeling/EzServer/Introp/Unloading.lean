import EzServer.Introp.Turns

/-!
# Unloading plugins

The handler of a failed plugin takes it out of the map and leaves the services manager alone. That
is enough unless the plugin has registered something before it fails, in `Initialize` or in
`RegisterServices`.
-/

namespace EzServer.Introp

open Services

variable {σ χ : Type}

/-- No service of an erased plugin is bound: every binding comes from the core or from a plugin
that is still in the map. -/
def LeavesNothing (core : ServicesManager σ) (s : Loop σ χ) : Prop :=
  (∀ t ∈ s.turns, t.info ∉ s.plugins.keys →
      ∀ e ∈ t.registered, s.manager.services.lookup e.1 ≠ some e.2) ∧
    ∀ key service, s.manager.services.lookup key = some service →
      core.services.lookup key = some service ∨
        ∃ t ∈ s.turns, t.info ∈ s.plugins.keys ∧ (key, service) ∈ t.registered

/-- If `Initialize` fails or `RegisterServices` throws, nothing has been registered before. -/
def IPlugin.failsCleanly (plugin : IPlugin σ χ) (manager : ServicesManager σ) : Bool :=
  match manager.resolveDependencies plugin.requires with
  | .error _ => true
  | .ok deps =>
    let registeredNothing := ((plugin.initializeWith deps).registered manager).isEmpty
    match (plugin.initializeWith deps).run manager with
    | (_, .threw) | (_, .returned false) => registeredNothing
    | (initialized, .returned true) =>
      (plugin.registerServices.run initialized).2.isReturned ||
        registeredNothing && (plugin.registerServices.registered initialized).isEmpty

/-- The plugin whose turn it is fails cleanly, if it fails. -/
def Loop.failsCleanly (s : Loop σ χ) : LoopLabel → Bool
  | .carryOn => true
  | .turn =>
    match s.position with
    | .erased _ => true
    | .valid pluginItr => (s.plugins.deref pluginItr).all fun e => e.2.failsCleanly s.manager

lemma failsCleanly_iff (manager : ServicesManager σ) (info : PluginInfo) (plugin : IPlugin σ χ) :
    plugin.failsCleanly manager = true ↔
      ((takeTurn manager info plugin).succeeded = false →
        (takeTurn manager info plugin).registered = []) := by
  rw [IPlugin.failsCleanly, takeTurn, Turn.registered]
  cases manager.resolveDependencies plugin.requires with
  | error what => simp
  | ok deps =>
    dsimp only
    obtain ⟨initialized, outcome⟩ := (plugin.initializeWith deps).run manager
    cases outcome with
    | threw => simp
    | returned result =>
      cases result with
      | false => simp
      | true =>
        cases hreturned : (plugin.registerServices.run initialized).2.isReturned <;>
          simp [hreturned]

section Steps

variable {plugins : Plugins σ χ} {core : ServicesManager σ}
  {done rest : List (PluginInfo × IPlugin σ χ)} {s s' : Loop σ χ}

/-- All services that were registered are bound, so nothing is left of the plugins that failed if
and only if they registered nothing. -/
lemma leavesNothing_iff (h : Explored plugins core done rest s) :
    LeavesNothing core s ↔ ∀ t ∈ s.turns, t.succeeded = false → t.registered = [] := by
  constructor
  · rintro ⟨hgone, -⟩ t ht hfailed
    have herased : t.info ∉ s.plugins.keys := by simp [h.mem_keys_iff ht, hfailed]
    refine List.eq_nil_iff_forall_not_mem.mpr fun e he => hgone t ht herased e he ?_
    exact h.extends_manager.lookup_of_mem (List.mem_flatMap.mpr ⟨t, ht, he⟩)
  · intro hclean
    constructor
    · intro t ht herased e he
      have hfailed : t.succeeded = false := by simpa [h.mem_keys_iff ht] using herased
      rw [hclean t ht hfailed] at he
      cases he
    · intro key service hbound
      apply (h.extends_manager.lookup_eq_some hbound).imp_right
      intro hadded
      obtain ⟨t, ht, he⟩ := List.mem_flatMap.mp hadded
      refine ⟨t, ht, (h.mem_keys_iff ht).mpr ?_, he⟩
      by_contra hfailed
      rw [hclean t ht (by simpa using hfailed)] at he
      cases he

/-- A step leaves something behind exactly if it is the turn of a plugin that does not fail
cleanly. -/
lemma leavesNothing_step_iff (h : Explored plugins core done rest s) (hs : LeavesNothing core s)
    {a : LoopLabel} (hstep : s.step a = some s') :
    LeavesNothing core s' ↔ s.failsCleanly a = true := by
  cases a with
  | carryOn =>
    obtain ⟨h', -, hturns, -⟩ := h.carryOn hstep
    rw [leavesNothing_iff h] at hs
    rw [leavesNothing_iff h', hturns]
    exact iff_of_true hs rfl
  | turn =>
    obtain ⟨e, rest', rfl, hpos, hderef, hturns, h'⟩ := h.turn hstep
    rw [leavesNothing_iff h] at hs
    rw [leavesNothing_iff h', hturns]
    simp only [Loop.failsCleanly, hpos, hderef, Option.all_some]
    rw [failsCleanly_iff s.manager e.1 e.2]
    constructor
    · intro hclean
      exact hclean _ (List.mem_append_right _ (List.mem_singleton.mpr rfl))
    · intro hclean t ht
      rcases List.mem_append.mp ht with ht | ht
      · exact hs t ht
      · rwa [List.mem_singleton.mp ht]

end Steps

lemma leavesNothing_start (plugins : Plugins σ χ) (core : ServicesManager σ) :
    LeavesNothing core (Loop.start plugins core) :=
  (leavesNothing_iff (.start plugins core)).mpr (by simp [Loop.start])

/-- Along a run of the loop, erased plugins leave no service behind in any state if and only if no
plugin fails after it has registered a service. -/
theorem leavesNothing_iff_failsCleanly {plugins : Plugins σ χ} {core : ServicesManager σ}
    {labels : List LoopLabel} {s : Loop σ χ}
    (hrun : Core.run Loop.step (Loop.start plugins core) labels = some s) :
    Core.EveryState Loop.step (LeavesNothing core) (Loop.start plugins core) labels ↔
      Core.EveryStep Loop.step (fun s a => s.failsCleanly a = true) (Loop.start plugins core)
        labels :=
  Core.everyState_iff_everyStep
    (I := fun s => ∃ done rest, Explored plugins core done rest s) (H := fun _ _ => True)
    (fun _ _ _ ⟨_, _, h⟩ _ hstep => h.of_step hstep)
    (fun _ _ _ ⟨_, _, h⟩ hs _ hstep => leavesNothing_step_iff h hs hstep)
    ⟨_, _, .start plugins core⟩ (leavesNothing_start plugins core)
    (.of_forall (fun _ _ => trivial) _ _) hrun

/-- A plugin that registers one service and then the same one again, which throws. -/
def registeringTwice : IPlugin Unit Unit where
  info := ⟨"twice", 1⟩
  requires := []
  initializeWith := fun _ => .ends (.returned true)
  registerServices := .registerService "service" (some ()) fun _ =>
    .registerService "service" (some ()) fun
      | true => .ends (.returned true)
      | false => .ends .threw
  getCommands := .returned []
  lib := none

/-- The loop up to the end of the handler of that plugin. -/
theorem leavesNothing_iff_failsCleanly_twice :
    let plugins := Core.OrderedMap.empty.emplace registeringTwice.info registeringTwice
    Core.EveryState Loop.step (LeavesNothing ⟨[]⟩) (Loop.start plugins ⟨[]⟩) [.turn] ↔
      Core.EveryStep Loop.step (fun s a => s.failsCleanly a = true) (Loop.start plugins ⟨[]⟩)
        [.turn] :=
  leavesNothing_iff_failsCleanly rfl

/-- Its service is still bound when it has been erased. -/
theorem not_leavesNothing_of_throw :
    ¬ ∀ (plugins : Plugins Unit Unit) (core : ServicesManager Unit) (labels : List LoopLabel)
      (s : Loop Unit Unit), Core.run Loop.step (Loop.start plugins core) labels = some s →
        LeavesNothing core s := by
  intro h
  have hleaves := h (Core.OrderedMap.empty.emplace registeringTwice.info registeringTwice) ⟨[]⟩
    [.turn] _ rfl
  have hbinding := hleaves.2 "service" (some ()) rfl
  rcases hbinding with hcore | ⟨t, -, hkept, -⟩
  · cases hcore
  · cases hkept

end EzServer.Introp
