import EzServer.Introp.Commands
import EzServer.Introp.Loading
import EzServer.Introp.Turns

/-!
# The bootstrapper

`Bootstrapper::Bootstrap` with `LoadServices` and `LoadPlugins`. What is not fixed by the source is
a parameter: the listing of the plugin directory, the order in which the map of services is
enumerated, the outcome of each `Initialize`, and whether the loop over the plugins carries on from
an erased iterator.
-/

namespace EzServer.Application

open Services Introp

variable {σ χ : Type}

/-- How a function of the bootstrapper ends. -/
inductive Ending where
  | returned (result : Bool)
  /-- An exception leaves it. -/
  | threw
  /-- It has used an iterator, a pointer or an exception that it must not use. -/
  | undefined
  deriving DecidableEq, Repr

/-! ### Plugins -/

/-- What loading the plugins leaves behind. -/
structure Loaded (σ χ : Type) where
  plugins : Plugins σ χ
  /-- The turns of `InitializePlugins`. -/
  turns : List (Turn σ χ)
  manager : ServicesManager σ
  commands : Commands χ
  ending : Ending

/-- `InitializePlugins` and `LoadCommands`. -/
def startPlugins (carriesOn : Bool) (plugins : Plugins σ χ) (manager : ServicesManager σ) :
    Loaded σ χ :=
  let loop := Loop.final carriesOn plugins manager
  match loop.position with
  | .erased _ => ⟨loop.plugins, loop.turns, loop.manager, [], .undefined⟩
  | .valid _ =>
    let (commands, returned) := loadCommands [] loop.plugins.values
    ⟨loop.plugins, loop.turns, loop.manager, commands,
      if returned then .returned true else .threw⟩

/-- `Bootstrapper::LoadPlugins`, from empty maps. -/
def loadPlugins (carriesOn : Bool) (listing : List (PluginFile σ χ))
    (manager : ServicesManager σ) : Loaded σ χ :=
  match Introp.loadPlugins Core.OrderedMap.empty listing with
  | (plugins, some (.threw true)) => ⟨plugins, [], manager, [], .returned false⟩
  | (plugins, some (.threw false)) => ⟨plugins, [], manager, [], .threw⟩
  | (plugins, some .unloaded) => ⟨plugins, [], manager, [], .undefined⟩
  | (plugins, none) =>
    if plugins.entries.isEmpty then ⟨plugins, [], manager, [], .returned true⟩
    else startPlugins carriesOn plugins manager

/-! ### Services -/

section Services

variable [DecidableEq σ]

/-- `IService::Bootstrap`, given the services that are bootstrapped and the outcome of
`Initialize`; `none` for an exception. -/
def bootstrapService (service : σ) (outcome : Outcome) (bootstrapped : List σ) :
    Option (Bool × List σ) :=
  if service ∈ bootstrapped then some (true, bootstrapped)
  else
    match outcome with
    | .threw => none
    | .returned false => some (false, bootstrapped)
    | .returned true => some (true, service :: bootstrapped)

/-- `LoadServices` over the entries of the map in some order, with the services that are
bootstrapped in the end. -/
def loadServices (isRequired : σ → Bool) (outcomes : String → Outcome) (bootstrapped : List σ) :
    List (String × SharedPtr σ) → Ending × List σ
  | [] => (.returned true, bootstrapped)
  | (_, none) :: _ => (.undefined, bootstrapped)
  | (key, some service) :: services =>
    match bootstrapService service (outcomes key) bootstrapped with
    | none => (.threw, bootstrapped)
    | some (true, bootstrapped) => loadServices isRequired outcomes bootstrapped services
    | some (false, bootstrapped) =>
      if isRequired service then (.returned false, bootstrapped)
      else loadServices isRequired outcomes bootstrapped services

/-- What surrounds a call of `Bootstrap`. -/
structure Environment (σ χ : Type) where
  /-- `IsRequired` -/
  isRequired : σ → Bool
  /-- The outcome of the `Initialize` that is called for an entry. -/
  outcomes : String → Outcome
  /-- The entries of the map of services, as they are enumerated. -/
  services : List (String × SharedPtr σ)
  listing : List (PluginFile σ χ)
  carriesOn : Bool

/-- What `Bootstrap` leaves behind; it returns if the ending is `.returned true`. -/
structure Bootstrapped (σ χ : Type) where
  /-- The services that are bootstrapped. -/
  bootstrapped : List σ
  turns : List (Turn σ χ)
  manager : ServicesManager σ
  ending : Ending

/-- `Bootstrap` -/
def bootstrap (env : Environment σ χ) (bootstrapped : List σ) (manager : ServicesManager σ) :
    Bootstrapped σ χ :=
  match loadServices env.isRequired env.outcomes bootstrapped env.services with
  | (.returned true, bootstrapped) =>
    let loaded := loadPlugins env.carriesOn env.listing manager
    match loaded.ending with
    -- "Could not load plugins!"
    | .returned false => ⟨bootstrapped, loaded.turns, loaded.manager, .threw⟩
    | ending => ⟨bootstrapped, loaded.turns, loaded.manager, ending⟩
  -- "Could not load services!"
  | (.returned false, bootstrapped) => ⟨bootstrapped, [], manager, .threw⟩
  | (ending, bootstrapped) => ⟨bootstrapped, [], manager, ending⟩

end Services

/-! ### Cases -/

lemma startPlugins_eq (carriesOn : Bool) (plugins : Plugins σ χ) (manager : ServicesManager σ) :
    (startPlugins carriesOn plugins manager).turns =
        (Loop.final carriesOn plugins manager).turns ∧
      (startPlugins carriesOn plugins manager).manager =
        (Loop.final carriesOn plugins manager).manager := by
  rw [startPlugins]
  dsimp only
  split <;> exact ⟨rfl, rfl⟩

/-- The map of plugins that loading leaves behind. -/
def pluginsOf (listing : List (PluginFile σ χ)) : Plugins σ χ :=
  (Introp.loadPlugins Core.OrderedMap.empty listing).1

lemma loadPlugins_of_error {carriesOn : Bool} {listing : List (PluginFile σ χ)}
    {manager : ServicesManager σ} {e : LoadError}
    (h : listing.findSome? PluginFile.error = some e) :
    ∃ ending, ending ≠ .returned true ∧
      loadPlugins carriesOn listing manager = ⟨pluginsOf listing, [], manager, [], ending⟩ := by
  have hout : Introp.loadPlugins Core.OrderedMap.empty listing = (pluginsOf listing, some e) := by
    rw [← h, ← error_loadPlugins]
    rfl
  rw [loadPlugins, hout]
  cases e with
  | threw isStd => cases isStd <;> exact ⟨_, by simp, rfl⟩
  | unloaded => exact ⟨_, by simp, rfl⟩

lemma loadPlugins_of_contained {carriesOn : Bool} {listing : List (PluginFile σ χ)}
    {manager : ServicesManager σ} (h : listing.findSome? PluginFile.error = none) :
    loadPlugins carriesOn listing manager =
      if (pluginsOf listing).entries.isEmpty then
        ⟨pluginsOf listing, [], manager, [], .returned true⟩
      else startPlugins carriesOn (pluginsOf listing) manager := by
  have hout : Introp.loadPlugins Core.OrderedMap.empty listing = (pluginsOf listing, none) := by
    rw [← h, ← error_loadPlugins]
    rfl
  rw [loadPlugins, hout]

/-- The plugins are started, unless the loop over the files breaks off or there are none. -/
lemma loadPlugins_cases (carriesOn : Bool) (listing : List (PluginFile σ χ))
    (manager : ServicesManager σ) :
    (listing.findSome? PluginFile.error = none ∧
      loadPlugins carriesOn listing manager =
        startPlugins carriesOn (pluginsOf listing) manager) ∨
    ∃ ending, loadPlugins carriesOn listing manager =
      ⟨pluginsOf listing, [], manager, [], ending⟩ := by
  cases herror : listing.findSome? PluginFile.error with
  | some e =>
    obtain ⟨ending, -, hout⟩ := @loadPlugins_of_error _ _ carriesOn _ manager _ herror
    exact Or.inr ⟨ending, hout⟩
  | none =>
    rw [loadPlugins_of_contained herror]
    split_ifs
    · exact Or.inr ⟨_, rfl⟩
    · exact Or.inl ⟨rfl, rfl⟩

/-- The services that loading leaves behind are those before and those that were registered in the
turns of the plugins. -/
lemma extends_loadPlugins (carriesOn : Bool) (listing : List (PluginFile σ χ))
    (manager : ServicesManager σ) :
    manager.Extends ((loadPlugins carriesOn listing manager).turns.flatMap Turn.registered)
      (loadPlugins carriesOn listing manager).manager := by
  rcases loadPlugins_cases carriesOn listing manager with ⟨-, hstart⟩ | ⟨ending, hnone⟩
  · obtain ⟨hturns, hmanager⟩ := startPlugins_eq carriesOn
      (pluginsOf listing) manager
    obtain ⟨⟨labels, hrun⟩, -⟩ := Explored.final carriesOn
      (pluginsOf listing) manager
    obtain ⟨done, rest, hexplored⟩ := Explored.of_run hrun
    rw [hstart, hturns, hmanager]
    exact hexplored.extends_manager
  · rw [hnone]
    exact .refl manager

end EzServer.Application
