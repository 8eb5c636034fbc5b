import EzServer.Introp.Plugin

/-!
# The plugins loader

`LoadPlugins` and `InitializePlugins`. The loop of `InitializePlugins` is the loop over the
iterators of the map; it fails as soon as it uses an iterator whose element has been erased.
-/

namespace EzServer.Introp

open Services

variable {σ χ : Type}

/-- The map of plugins. -/
abbrev Plugins (σ χ : Type) := Core.OrderedMap PluginInfo (IPlugin σ χ)

/-! ### Loading -/

/-- What `is_directory` and `is_regular` say of a path. -/
inductive FileKind where
  | directory
  | regular
  | other
  /-- They throw. -/
  | unreadable
  deriving DecidableEq, Repr

/-- What a factory throws. -/
inductive Thrown where
  /-- A `std::exception` of a class that outlives the library. -/
  | stdException
  /-- A `std::exception` of a class of the library. -/
  | ofLibrary
  /-- No `std::exception`. -/
  | other
  deriving DecidableEq, Repr

/-- A call of the factory of a library. -/
inductive FactoryResult (σ χ : Type) where
  | returned (plugin : Option (IPlugin σ χ))
  | threw (what : Thrown)

/-- An entry of the plugin directory and what comes of loading it. -/
structure PluginFile (σ χ : Type) where
  path : String
  kind : FileKind
  /-- `shared_library lib(plugin_path)` succeeds. -/
  opens : Bool
  /-- `get_alias` finds the factory. -/
  hasFactory : Bool
  factory : FactoryResult σ χ

/-- How the loop of `LoadPlugins` breaks off. -/
inductive LoadError where
  /-- An exception leaves it; `true` for a `std::exception`. -/
  | threw (isStd : Bool)
  /-- The handler has used an exception of a library that is unloaded. -/
  | unloaded
  deriving DecidableEq, Repr

/-- The body of the loop of `LoadPlugins`. -/
def loadPlugin (plugins : Plugins σ χ) (file : PluginFile σ χ) :
    Except LoadError (Plugins σ χ) :=
  match file.kind with
  | .unreadable => .error (.threw true)
  | .directory | .other => .ok plugins
  | .regular =>
    if !file.opens || !file.hasFactory then .ok plugins
    else
      match file.factory with
      | .threw .stdException => .ok plugins
      -- the handler calls `what` when `lib` has been destroyed
      | .threw .ofLibrary => .error .unloaded
      | .threw .other => .error (.threw false)
      | .returned none => .ok plugins
      | .returned (some plugin) =>
        .ok (plugins.emplace plugin.info { plugin with lib := some file.path })

/-- `LoadPlugins`; the map is changed in place, so an exception leaves it as it is then. -/
def loadPlugins (plugins : Plugins σ χ) :
    List (PluginFile σ χ) → Plugins σ χ × Option LoadError
  | [] => (plugins, none)
  | file :: files =>
    match loadPlugin plugins file with
    | .error e => (plugins, some e)
    | .ok plugins => loadPlugins plugins files

/-! ### Initialization -/

inductive LoopError where
  | erasedIterator
  | outOfFuel
  deriving DecidableEq, Repr

/-- The state of the loop of `InitializePlugins`. -/
structure Initialization (σ χ : Type) where
  plugins : Plugins σ χ
  manager : ServicesManager σ
  /-- The plugins whose initialization was logged. -/
  visited : List PluginInfo

/-- The `try` block of the loop; `false` when it is left by an exception. -/
def tryInitialize (manager : ServicesManager σ) (plugin : IPlugin σ χ) :
    ServicesManager σ × Bool :=
  match manager.resolveDependencies plugin.requires with
  | .error _ => (manager, false)
  | .ok deps =>
    match (plugin.initializeWith deps).run manager with
    | (manager, .threw) | (manager, .returned false) => (manager, false)
    | (manager, .returned true) =>
      match plugin.registerServices.run manager with
      -- a result `false` is only logged
      | (manager, .returned _) => (manager, true)
      | (manager, .threw) => (manager, false)

/-- The body of the loop of `InitializePlugins`. -/
def initializePlugin (s : Initialization σ χ) (pluginItr : Core.Iterator PluginInfo) :
    Except LoopError (Initialization σ χ) :=
  match s.plugins.deref pluginItr with
  | none => .error .erasedIterator
  | some (info, plugin) =>
    let (manager, succeeded) := tryInitialize s.manager plugin
    let s := { s with manager := manager, visited := s.visited ++ [info] }
    if succeeded then .ok s
    else
      let plugins := s.plugins.erase info
      -- the warning reads `plugin_itr->first.Name()`
      match plugins.deref pluginItr with
      | none => .error .erasedIterator
      | some _ => .ok { s with plugins := plugins }

/-- The loop of `InitializePlugins`. -/
def initializeFrom : ℕ → Initialization σ χ → Core.Iterator PluginInfo →
    Except LoopError (Initialization σ χ)
  | 0, _, _ => .error .outOfFuel
  | _ + 1, s, .pastEnd => .ok s
  | fuel + 1, s, pluginItr => do
    let s ← initializePlugin s pluginItr
    match s.plugins.next pluginItr with
    | none => .error .erasedIterator
    | some pluginItr => initializeFrom fuel s pluginItr

/-- `InitializePlugins` -/
def initializePlugins (plugins : Plugins σ χ) (manager : ServicesManager σ) :
    Except LoopError (Initialization σ χ) :=
  initializeFrom (plugins.entries.length + 1) ⟨plugins, manager, []⟩ plugins.begin

end EzServer.Introp
