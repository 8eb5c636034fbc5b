import EzServer.Introp.Turns

/-!
# The dependencies of a plugin

What `Initialize` is given: the services that the plugin requires, each from the core or from a
plugin of smaller priority.
-/

namespace EzServer.Introp

open Services

variable {σ χ : Type}

/-- The plugin registers services only inside `RegisterServices`. -/
def IPlugin.RegistersLate (plugin : IPlugin σ χ) : Prop :=
  ∀ deps manager, (plugin.initializeWith deps).registered manager = []

lemma registered_takeTurn {plugin : IPlugin σ χ} (h : plugin.RegistersLate)
    (manager : ServicesManager σ) (info : PluginInfo) :
    (takeTurn manager info plugin).registered =
      (takeTurn manager info plugin).byRegisterServices := by
  rw [takeTurn, Turn.registered]
  split
  · rfl
  · next deps _ =>
    have hnone := h deps manager
    dsimp only
    split <;> rw [hnone, List.nil_append]

/-- `Initialize` is called with the dependencies that were resolved, if they were. -/
lemma argument_takeTurn (manager : ServicesManager σ) (info : PluginInfo)
    (plugin : IPlugin σ χ) :
    (takeTurn manager info plugin).argument =
      match manager.resolveDependencies plugin.requires with
      | .error _ => none
      | .ok deps => some deps := by
  rw [takeTurn]
  cases manager.resolveDependencies plugin.requires with
  | error what => rfl
  | ok deps =>
    dsimp only
    split <;> rfl

/-- The argument of `Initialize` has the names that the plugin requires for keys, and its values
are not null and bound at that moment. -/
lemma argument_eq_some {manager : ServicesManager σ} {info : PluginInfo} {plugin : IPlugin σ χ}
    {argument : List (String × SharedPtr σ)}
    (h : (takeTurn manager info plugin).argument = some argument) :
    (∀ name, name ∈ argument.map Prod.fst ↔ name ∈ plugin.requires) ∧
      (argument.map Prod.fst).Nodup ∧
      ∀ name service, argument.lookup name = some service →
        service ≠ none ∧ manager.services.lookup name = some service := by
  rw [argument_takeTurn] at h
  cases hresolve : manager.resolveDependencies plugin.requires with
  | error what =>
    rw [hresolve] at h
    cases h
  | ok deps =>
    rw [hresolve] at h
    obtain rfl := Option.some.inj h
    obtain ⟨hbound, hnodup, hlookup⟩ := ServicesManager.resolves_of_ok hresolve
    refine ⟨fun name => ?_, hnodup, fun name service hname => ?_⟩
    · rw [← not_iff_not, ← ServicesManager.lookup_eq_none_iff, hlookup]
      simp
    · rw [hlookup] at hname
      split_ifs at hname with hmem
      obtain rfl := Option.some.inj hname
      obtain ⟨v, hv⟩ := Option.ne_none_iff_exists'.mp (hbound name hmem)
      rw [hv]
      exact ⟨by simp, ServicesManager.binding_eq_some_iff.mp hv⟩

/-- Without one of its names it is not called. -/
lemma argument_eq_none {manager : ServicesManager σ} {info : PluginInfo} {plugin : IPlugin σ χ}
    (h : ∃ name ∈ plugin.requires, manager.services.lookup name = none) :
    (takeTurn manager info plugin).argument = none := by
  obtain ⟨name, hname, hfree⟩ := h
  have hunbound : ∃ dep ∈ plugin.requires, manager.binding dep = none :=
    ⟨name, hname, by rw [ServicesManager.binding, hfree]; rfl⟩
  obtain ⟨what, hwhat⟩ := ServicesManager.resolveDependencies_error_iff.mpr hunbound
  rw [argument_takeTurn, hwhat]

lemma Explored.turns_sorted {plugins : Plugins σ χ} {core : ServicesManager σ}
    {done rest : List (PluginInfo × IPlugin σ χ)} {s : Loop σ χ}
    (h : Explored plugins core done rest s) : s.turns.Pairwise fun t t' => t.info < t'.info := by
  have hdone := (List.pairwise_append.mp h.sorted).1
  rw [← map_turnsOf core done, ← h.turns, List.pairwise_map] at hdone
  exact hdone

/-- A plugin that is initialized with a service that is not of the core has got it from an earlier
plugin of smaller priority. -/
lemma Explored.registered_of_requires {plugins : Plugins σ χ} {core : ServicesManager σ}
    {done rest : List (PluginInfo × IPlugin σ χ)} {s : Loop σ χ}
    (h : Explored plugins core done rest s) {earlier later : List (Turn σ χ)} {t : Turn σ χ}
    (hturns : s.turns = earlier ++ t :: later) {name : String}
    (hfree : core.services.lookup name = none) (hname : name ∈ t.plugin.requires)
    {argument : List (String × SharedPtr σ)} (hargument : t.argument = some argument) :
    ∃ t' ∈ earlier, t'.info.priority < t.info.priority ∧
      ∃ service, (name, some service) ∈ t'.registered := by
  have hsorted := h.turns_sorted
  rw [hturns] at hsorted
  obtain ⟨-, -, hearlier⟩ := List.pairwise_append.mp hsorted
  obtain ⟨hextends, ht⟩ := extends_before (h.turns.symm.trans hturns)
  rw [ht] at hargument
  obtain ⟨hkeys, -, hvalues⟩ := argument_eq_some hargument
  obtain ⟨svc, hsvc⟩ : ∃ svc, argument.lookup name = some svc := by
    rw [← Option.ne_none_iff_exists', ne_eq, ServicesManager.lookup_eq_none_iff, not_not]
    exact (hkeys name).mpr hname
  obtain ⟨hnull, hbound⟩ := hvalues name svc hsvc
  obtain ⟨service, rfl⟩ := Option.ne_none_iff_exists'.mp hnull
  rcases hextends.lookup_eq_some hbound with hcore | hadded
  · rw [hfree] at hcore
    cases hcore
  · obtain ⟨t', ht', hregistered⟩ := List.mem_flatMap.mp hadded
    exact ⟨t', ht', hearlier t' ht' t List.mem_cons_self, service, hregistered⟩

/-- In every run of the loop over plugins that register services only inside `RegisterServices`, in
each turn: `Initialize` gets the services that the plugin requires and nothing else, as they are
bound at that moment, each from the core or from `RegisterServices` of a plugin of smaller priority.
If one of them is missing it is not called, and there is no second turn of the plugin. -/
theorem initialized_with_requires {plugins : Plugins σ χ} {core : ServicesManager σ}
    (hlate : ∀ e ∈ plugins.entries, e.2.RegistersLate) {labels : List LoopLabel} {s : Loop σ χ}
    (hrun : Core.run Loop.step (Loop.start plugins core) labels = some s)
    {earlier later : List (Turn σ χ)} {t : Turn σ χ} (hturns : s.turns = earlier ++ t :: later) :
    (t.info, t.plugin) ∈ plugins.entries ∧
      (∀ argument, t.argument = some argument →
        (∀ name, name ∈ argument.map Prod.fst ↔ name ∈ t.plugin.requires) ∧
        (argument.map Prod.fst).Nodup ∧
        ∀ name service, argument.lookup name = some service →
          service ≠ none ∧ t.before.services.lookup name = some service ∧
            (core.services.lookup name = some service ∨
              ∃ t' ∈ earlier, t'.info.priority < t.info.priority ∧
                (name, service) ∈ t'.byRegisterServices)) ∧
      ((∃ name ∈ t.plugin.requires, t.before.services.lookup name = none) →
        t.argument = none ∧ ∀ t' ∈ earlier ++ later, t'.info ≠ t.info) := by
  obtain ⟨done, rest, h⟩ := Explored.of_run hrun
  have hsorted := h.turns_sorted
  rw [hturns] at hsorted
  obtain ⟨-, hlater, hearlier⟩ := List.pairwise_append.mp hsorted
  obtain ⟨hextends, ht⟩ := extends_before (h.turns.symm.trans hturns)
  have hmem : ∀ t' ∈ s.turns, (t'.info, t'.plugin) ∈ plugins.entries ∧
      t' = takeTurn t'.before t'.info t'.plugin := fun t' ht' => by
    rw [h.split]
    exact (mem_turnsOf (h.turns ▸ ht')).imp_left (List.mem_append_left _)
  refine ⟨?_, fun argument hargument => ?_, fun hmissing => ⟨?_, fun t' ht' heq => ?_⟩⟩
  · exact (hmem t (by simp [hturns])).1
  · rw [ht] at hargument
    obtain ⟨hkeys, hnodup, hvalues⟩ := argument_eq_some hargument
    refine ⟨hkeys, hnodup, fun name service hname => ?_⟩
    obtain ⟨hnull, hbound⟩ := hvalues name service hname
    refine ⟨hnull, hbound, (hextends.lookup_eq_some hbound).imp_right fun hadded => ?_⟩
    obtain ⟨t', ht', he⟩ := List.mem_flatMap.mp hadded
    obtain ⟨hentry, heq⟩ := hmem t' (hturns ▸ List.mem_append_left _ ht')
    rw [heq, registered_takeTurn (hlate _ hentry), ← heq] at he
    exact ⟨t', ht', hearlier t' ht' t List.mem_cons_self, he⟩
  · rw [ht]
    exact argument_eq_none hmissing
  · have hirrefl : ¬ t.info < t.info := (Core.OrderedMap.Equivalent.refl t.info).1
    rcases List.mem_append.mp ht' with ht' | ht'
    · exact hirrefl (heq ▸ hearlier t' ht' t List.mem_cons_self)
    · exact hirrefl (heq ▸ (List.pairwise_cons.mp hlater).1 t' ht')

/-- A plugin that registers a service. -/
def providing : IPlugin Unit Unit where
  info := ⟨"providing", 1⟩
  requires := []
  initializeWith := fun _ => .ends (.returned true)
  registerServices := .registerService "service" (some ()) fun _ => .ends (.returned true)
  getCommands := .returned []
  lib := none

/-- A plugin that requires it. -/
def requiring : IPlugin Unit Unit where
  info := ⟨"requiring", 2⟩
  requires := ["service"]
  initializeWith := fun _ => .ends (.returned true)
  registerServices := .ends (.returned true)
  getCommands := .returned []
  lib := none

/-- The second of two plugins is initialized with the service of the first. -/
theorem initialized_with_requires_of_providing :
    let first := takeTurn ⟨[]⟩ providing.info providing
    let second := takeTurn first.after requiring.info requiring
    ∃ argument, second.argument = some argument ∧
      (∀ name, name ∈ argument.map Prod.fst ↔ name ∈ requiring.requires) ∧
      ∃ t' ∈ [first], t'.info.priority < second.info.priority ∧
        ("service", some ()) ∈ t'.byRegisterServices := by
  intro first second
  have hlate : ∀ e ∈ ((Core.OrderedMap.empty.emplace requiring.info requiring).emplace
      providing.info providing).entries, e.2.RegistersLate := by
    show ∀ e ∈ [(providing.info, providing), (requiring.info, requiring)], e.2.RegistersLate
    intro e he
    simp only [List.mem_cons, List.not_mem_nil, or_false] at he
    rcases he with rfl | rfl <;> exact fun _ _ => rfl
  obtain ⟨-, hargument, -⟩ := @initialized_with_requires _ _ _ ⟨[]⟩ hlate [.turn, .turn] _ rfl
    [first] [] second rfl
  obtain ⟨hkeys, -, hvalues⟩ := hargument _ rfl
  refine ⟨_, rfl, hkeys, ?_⟩
  apply (hvalues "service" (some ()) rfl).2.2.resolve_left
  decide

end EzServer.Introp
