import EzServer.Application.LoadedCommands
import EzServer.Application.RequiredServices
import EzServer.Application.Startup
import EzServer.Services.Directories
import Mathlib.Data.List.Permutation

/-!
# Booting

The program from the constructor of `Bootstrapper` to the end of `Run`, over the services of its own
and a tree of files. What it finds is given: the tree and the answers of the operating system, what
the files of the plugin directory are as libraries, and the order in which a map of two services is
enumerated. Plugins register services, and leave the files and the services that are there alone.
-/

namespace EzServer.Application

open EzServer.Core Services Introp Net

variable {σ χ : Type}

/-! ### Services of the program -/

/-- The services of the program, and those of plugins. -/
inductive Service (σ : Type) where
  | servicesManager
  | consoleLogger
  | filesystem
  | ofPlugin (service : σ)
  deriving DecidableEq, Repr

def kServicesManagerService : String := "eztech.com/ezserver/services/services-manager"

def kLoggerService : String := "eztech.com/ezserver/services/logger"

def kFilesystemService : String := "eztech.com/ezserver/services/filesystem"

/-- `IsRequired` -/
def Service.isRequired (isRequired : σ → Bool) : Service σ → Bool
  | .servicesManager | .filesystem => true
  | .consoleLogger => false
  | .ofPlugin service => isRequired service

/-- What the services manager holds when the bootstrapper has been constructed. -/
def coreServices : List (String × SharedPtr (Service σ)) :=
  [(kFilesystemService, some .filesystem), (kLoggerService, some .consoleLogger)]

lemma lookup_coreServices :
    (coreServices (σ := σ)).lookup kLoggerService = some (some .consoleLogger) ∧
      (coreServices (σ := σ)).lookup kFilesystemService = some (some .filesystem) ∧
      (coreServices (σ := σ)).lookup kServicesManagerService = none := by
  simp [coreServices, kLoggerService, kFilesystemService, kServicesManagerService,
    List.lookup_cons]

section Construct

variable [DecidableEq σ]

/-- The constructor of `Bootstrapper`, with the services that are bootstrapped by it; an error is
the text of its exception. -/
def constructBootstrapper : Except String (List (Service σ) × ServicesManager (Service σ)) :=
  -- `Initialize` of the services manager returns true
  match bootstrapService .servicesManager (.returned true) [] with
  | some (true, bootstrapped) => do
    let manager ← ServicesManager.registerService ⟨[]⟩ kLoggerService (some .consoleLogger)
    let manager ← manager.registerService kFilesystemService (some .filesystem)
    return (bootstrapped, manager)
  | _ => .error "Could not initialize services manager!"

lemma constructBootstrapper_eq :
    constructBootstrapper (σ := σ) = .ok ([.servicesManager], ⟨coreServices⟩) := by
  have hkeys : (kFilesystemService == kLoggerService) = false := by decide
  simp [constructBootstrapper, bootstrapService, ServicesManager.registerService, coreServices,
    List.lookup_cons, hkeys, bind, Except.bind, pure, Except.pure]

end Construct

/-! ### Booting -/

/-- What a file of the plugin directory is as a library. -/
structure Library (σ χ : Type) where
  opens : Bool
  hasFactory : Bool
  factory : FactoryResult (Service σ) χ

/-- What the program finds when it is started. -/
structure Surroundings (σ χ : Type) where
  /-- `HOME` -/
  home : Path
  tree : Tree
  /-- How the operating system answers requests for new directories. -/
  creations : Path → Creation
  /-- The plugin directory cannot be enumerated. -/
  listingFails : Bool
  /-- `is_directory` or `is_regular` throws. -/
  unreadable : Path → Bool
  library : Path → Library σ χ
  isRequired : σ → Bool
  /-- The services as `LoadServices` enumerates them. -/
  services : List (String × SharedPtr (Service σ))
  services_perm : services.Perm coreServices
  /-- The loop of `InitializePlugins` carries on from erased iterators. -/
  carriesOn : Bool
  /-- What the operating system refuses the listener. -/
  calls : ListenCalls

/-- An exception leaves `Initialize`, or it returns. -/
def outcomeOf : Except Exception Bool → Outcome
  | .ok result => .returned result
  | .error _ => .threw

namespace Surroundings

/-- The file at a path. -/
def pluginFileAt (s : Surroundings σ χ) (tree : Tree) (path : Path) :
    PluginFile (Service σ) χ where
  path := path.string
  kind :=
    if s.unreadable path then .unreadable
    else
      match tree.lookup path with
      | some .directory => .directory
      | some (.file _) => .regular
      | none => .other
  opens := (s.library path).opens
  hasFactory := (s.library path).hasFactory
  factory := (s.library path).factory

/-- The files that `LoadPlugins` goes through. An exception of `ListDirectory` leaves it before the
first of them, as one of `is_directory` would for a first file. -/
def listPlugins (s : Surroundings σ χ) (fs : Filesystem) (tree : Tree) :
    List (PluginFile (Service σ) χ) :=
  match s.listingFails, fs.listDirectory tree .plugins with
  | false, some paths => paths.map (s.pluginFileAt tree)
  | _, _ => [⟨"", .unreadable, false, false, .returned none⟩]

/-- `Initialize` of the file system service. -/
def initialized (s : Surroundings σ χ) : Except Exception Bool × Filesystem × Tree :=
  Filesystem.initializeDirectories ⟨[]⟩ s.home s.creations s.tree

/-- What surrounds the call of `Bootstrap`. -/
def environment (s : Surroundings σ χ) : Environment (Service σ) χ where
  isRequired := Service.isRequired s.isRequired
  outcomes := fun key =>
    -- `Initialize` of the logger returns true
    if key = kFilesystemService then outcomeOf s.initialized.1 else .returned true
  services := s.services
  listing := s.listPlugins s.initialized.2.1 s.initialized.2.2
  carriesOn := s.carriesOn

variable [DecidableEq σ]

/-- What `Bootstrap` leaves behind. -/
def booted (s : Surroundings σ χ) : Bootstrapped (Service σ) χ :=
  match constructBootstrapper (σ := σ) with
  | .ok (bootstrapped, manager) => bootstrap s.environment bootstrapped manager
  | .error _ => ⟨[], [], ⟨[]⟩, .threw⟩

/-- The constructor of `Bootstrapper` and `Run`. -/
def run (s : Surroundings σ χ) : Ending :=
  match s.booted.ending with
  -- "Could not startup application!"
  | .returned true => if (runStartup s.calls).1 then .returned true else .threw
  | ending => ending

end Surroundings

/-! ### Verdicts -/

/-- The turns of `LoadPlugins` are those of a loop over its plugins. -/
lemma turns_loadPlugins {carriesOn : Bool} {listing : List (PluginFile σ χ)}
    {manager : ServicesManager σ} {t : Turn σ χ}
    (ht : t ∈ (loadPlugins carriesOn listing manager).turns) :
    ∃ done rest, Explored (pluginsOf listing) manager done rest
        (Loop.final carriesOn (pluginsOf listing) manager) ∧
      (loadPlugins carriesOn listing manager).turns =
        (Loop.final carriesOn (pluginsOf listing) manager).turns := by
  rcases loadPlugins_cases carriesOn listing manager with ⟨-, hstart⟩ | ⟨ending, hnone⟩
  · obtain ⟨⟨labels, hrun⟩, -⟩ := Explored.final carriesOn (pluginsOf listing) manager
    obtain ⟨done, rest, hexplored⟩ := Explored.of_run hrun
    exact ⟨done, rest, hexplored, by rw [hstart, (startPlugins_eq _ _ _).1]⟩
  · rw [hnone] at ht
    cases ht

section Services

variable [DecidableEq σ]

/-- Plugins only have turns after `LoadServices` has succeeded. -/
lemma bootstrap_of_turn {env : Environment σ χ} {bootstrapped : List σ}
    {manager : ServicesManager σ} {t : Turn σ χ}
    (ht : t ∈ (bootstrap env bootstrapped manager).turns) :
    loadServices env.isRequired env.outcomes bootstrapped env.services =
        (.returned true, (bootstrap env bootstrapped manager).bootstrapped) ∧
      (bootstrap env bootstrapped manager).turns =
        (loadPlugins env.carriesOn env.listing manager).turns := by
  rw [bootstrap] at ht ⊢
  generalize loadServices env.isRequired env.outcomes bootstrapped env.services = load at ht ⊢
  obtain ⟨ending, up⟩ := load
  cases ending with
  | returned result =>
    cases result with
    | true =>
      dsimp only
      split <;> exact ⟨rfl, rfl⟩
    | false => cases ht
  | threw => cases ht
  | undefined => cases ht

/-- In both orders `LoadServices` depends on the file system service only. -/
lemma loadServices_core {services : List (String × SharedPtr (Service σ))}
    (hservices : services.Perm coreServices) (isRequired : σ → Bool)
    {outcomes : String → Outcome} (hlogger : outcomes kLoggerService = .returned true) :
    let out := loadServices (Service.isRequired isRequired) outcomes [.servicesManager] services
    (out.1 = .returned true ↔ outcomes kFilesystemService = .returned true) ∧
      (out.1 = .returned true → ∀ service, service ∈ out.2 ↔
        service = .servicesManager ∨ service = .consoleLogger ∨ service = .filesystem) := by
  rcases List.perm_pair.mp hservices with rfl | rfl
  · cases hfilesystem : outcomes kFilesystemService with
    | threw => simp [loadServices, bootstrapService, hfilesystem]
    | returned result =>
      cases result with
      | true =>
        simp [loadServices, bootstrapService, hfilesystem, hlogger]
        tauto
      | false => simp [loadServices, bootstrapService, hfilesystem, Service.isRequired]
  · cases hfilesystem : outcomes kFilesystemService with
    | threw => simp [loadServices, bootstrapService, hfilesystem, hlogger]
    | returned result =>
      cases result with
      | true =>
        simp [loadServices, bootstrapService, hfilesystem, hlogger]
        tauto
      | false => simp [loadServices, bootstrapService, hfilesystem, hlogger, Service.isRequired]

end Services

namespace Surroundings

/-- The files of the plugin directory. -/
def files (s : Surroundings σ χ) : List (PluginFile (Service σ) χ) :=
  (s.tree.children (Filesystem.mainDir s.home ++ ["plugins"])).map
    (s.pluginFileAt s.tree)

/-- The plugins that are loaded from them. -/
def plugins (s : Surroundings σ χ) : Plugins (Service σ) χ :=
  pluginsOf s.files

lemma initialized_iff (s : Surroundings σ χ) :
    outcomeOf s.initialized.1 = .returned true ↔ ∃ fs tree,
      Filesystem.initializeDirectories ⟨[]⟩ s.home s.creations s.tree = (.ok true, fs, tree) := by
  rw [initialized]
  generalize Filesystem.initializeDirectories ⟨[]⟩ s.home s.creations s.tree = out
  obtain ⟨result, fs, tree⟩ := out
  cases result with
  | ok result => simp [outcomeOf]
  | error e => simp [outcomeOf]

/-- A file in the place of the plugin directory cannot be listed either. -/
lemma listing_of_unlistable (s : Surroundings σ χ) {fs : Filesystem} {tree : Tree}
    (h : Filesystem.initializeDirectories ⟨[]⟩ s.home s.creations s.tree = (.ok true, fs, tree))
    (hfails : s.listingFails = true ∨ ∃ content,
      s.tree.lookup (Filesystem.mainDir s.home ++ ["plugins"]) = some (.file content)) :
    s.environment.listing = [⟨"", .unreadable, false, false, .returned none⟩] := by
  obtain ⟨rfl, -⟩ := Filesystem.initializeDirectories_eq_true_iff.mp h
  show s.listPlugins s.initialized.2.1 s.initialized.2.2 = _
  rw [initialized, h, listPlugins]
  rcases hfails with hfails | ⟨content, hfile⟩
  · rw [hfails]
  · have hkept := FileTree.lookup_of_le (Filesystem.le_initializeDirectories h) hfile
    rw [Filesystem.listDirectory, Filesystem.getPath, hkept]
    cases s.listingFails <;> rfl

/-- The file system has made its two directories when the plugin directory could be listed. -/
lemma directories_of_contained {s : Surroundings σ χ} {fs : Filesystem} {tree : Tree}
    (h : Filesystem.initializeDirectories ⟨[]⟩ s.home s.creations s.tree = (.ok true, fs, tree))
    (hcontained : s.environment.listing.findSome? PluginFile.error = none)
    {cd : CommonDirectories} (hcd : cd ≠ .data) : tree.lookup (fs.getPath cd) = some .directory := by
  have hplugins : tree.lookup (Filesystem.mainDir s.home ++ ["plugins"]) = some .directory := by
    apply (Filesystem.lookup_initializeDirectories h (by simp [requiredDirectories])).2.resolve_right
    rintro ⟨content, hfile⟩
    rw [listing_of_unlistable s h (Or.inr ⟨content, hfile⟩)] at hcontained
    cases hcontained
  obtain ⟨rfl, -⟩ := Filesystem.initializeDirectories_eq_true_iff.mp h
  cases cd with
  | appDirectory => exact FileTree.lookup_parent hplugins
  | plugins => exact hplugins
  | data => exact absurd rfl hcd

lemma outcomes_logger (s : Surroundings σ χ) :
    s.environment.outcomes kLoggerService = .returned true := by
  simp [environment, kLoggerService, kFilesystemService]

lemma outcomes_filesystem (s : Surroundings σ χ) :
    s.environment.outcomes kFilesystemService = outcomeOf s.initialized.1 := by
  simp [environment]

variable [DecidableEq σ]

lemma booted_eq (s : Surroundings σ χ) :
    s.booted = bootstrap s.environment [.servicesManager] ⟨coreServices⟩ := by
  rw [booted, constructBootstrapper_eq]

/-- A `HOME` in which only the plugin directory is there, with a file `plugin.so`. -/
def oneFile : Tree where
  entries := ⟨[⟨["home", "ezTech", "ezServer", "plugins", "plugin.so"], .file []⟩,
    ⟨["home", "ezTech", "ezServer", "plugins"], .directory⟩,
    ⟨["home", "ezTech", "ezServer"], .directory⟩, ⟨["home", "ezTech"], .directory⟩,
    ⟨["home"], .directory⟩, ⟨[], .directory⟩], by unfold List.NodupKeys; decide⟩
  parents := by
    show ∀ path ∈ List.keys _, path ≠ [] → _
    decide

/-- The file is a plugin that requires the logger. -/
def onePlugin : Surroundings Unit Unit where
  home := ["home"]
  tree := oneFile
  creations := fun _ => .created
  listingFails := false
  unreadable := fun _ => false
  library := fun _ => ⟨true, true, .returned (some {
    info := ⟨"plugin", 1⟩
    requires := [kLoggerService]
    initializeWith := fun _ => .ends (.returned true)
    registerServices := .ends (.returned true)
    getCommands := .returned []
    lib := none })⟩
  isRequired := fun _ => false
  services := coreServices
  services_perm := List.Perm.refl _
  carriesOn := false
  calls := ⟨false, false, false⟩

/-- Whenever a plugin has its turn, and the plugins before it have done nothing but register services,
the logger and the file system are bound under their ids, they and the services manager are all that
is bootstrapped, and the two directories are there. The services manager is not bound: a plugin that
requires it is not initialized, unless a plugin of smaller priority has registered something under
its id. -/
theorem found_by_plugins (s : Surroundings σ χ) {earlier later : List (Turn (Service σ) χ)}
    {t : Turn (Service σ) χ} (hturns : s.booted.turns = earlier ++ t :: later) :
    t.before.services.lookup kLoggerService = some (some .consoleLogger) ∧
      t.before.services.lookup kFilesystemService = some (some .filesystem) ∧
      (∀ service, service ∈ s.booted.bootstrapped ↔
        service = .servicesManager ∨ service = .consoleLogger ∨ service = .filesystem) ∧
      (∀ cd, cd ≠ .data →
        s.initialized.2.2.lookup (s.initialized.2.1.getPath cd) = some .directory) ∧
      (kServicesManagerService ∈ t.plugin.requires → ∀ argument, t.argument = some argument →
        ∃ t' ∈ earlier, t'.info.priority < t.info.priority ∧
          ∃ service, (kServicesManagerService, some service) ∈ t'.registered) := by
  have ht : t ∈ (bootstrap s.environment [.servicesManager] ⟨coreServices⟩).turns := by
    rw [← booted_eq, hturns]
    simp
  obtain ⟨hload, hloaded⟩ := bootstrap_of_turn ht
  rw [hloaded] at ht
  obtain ⟨done, rest, hexplored, hfinal⟩ := turns_loadPlugins ht
  have hsplit : turnsOf ⟨coreServices⟩ done = earlier ++ t :: later := by
    rw [← hexplored.turns, ← hfinal, ← hloaded, ← booted_eq, hturns]
  obtain ⟨hextends, hturn⟩ := extends_before hsplit
  obtain ⟨hlogger, hfilesystem, hmanager⟩ := lookup_coreServices (σ := σ)
  obtain ⟨hverdict, hup⟩ := loadServices_core s.services_perm s.isRequired s.outcomes_logger
  refine ⟨?_, ?_, ?_, ?_, ?_⟩
  · rw [hextends.lookup_eq, hlogger]
    rfl
  · rw [hextends.lookup_eq, hfilesystem]
    rfl
  · have hsame : (loadServices (Service.isRequired s.isRequired) s.environment.outcomes
        [.servicesManager] s.services) = (.returned true, s.booted.bootstrapped) := by
      rw [booted_eq]
      exact hload
    rw [hsame] at hup
    exact hup rfl
  · have hinitialized : outcomeOf s.initialized.1 = .returned true := by
      rw [← outcomes_filesystem, ← hverdict]
      exact congrArg Prod.fst hload
    obtain ⟨fs, tree, hdirectories⟩ := (initialized_iff s).mp hinitialized
    rw [initialized, hdirectories]
    -- nothing has had a turn if the plugins could not be listed
    exact fun cd => directories_of_contained hdirectories (contained_of_turn ht)
  · intro hrequires argument hargument
    exact hexplored.registered_of_requires (hexplored.turns.trans hsplit) hmanager hrequires
      hargument

theorem found_by_plugins_onePlugin :
    ∃ t, onePlugin.booted.turns = [] ++ t :: [] ∧
      t.before.services.lookup kLoggerService = some (some .consoleLogger) ∧
      t.before.services.lookup kFilesystemService = some (some .filesystem) ∧
      (∀ service, service ∈ onePlugin.booted.bootstrapped ↔
        service = .servicesManager ∨ service = .consoleLogger ∨ service = .filesystem) ∧
      (∀ cd, cd ≠ .data → onePlugin.initialized.2.2.lookup
        (onePlugin.initialized.2.1.getPath cd) = some .directory) ∧
      (kServicesManagerService ∈ t.plugin.requires → ∀ argument, t.argument = some argument →
        ∃ t' ∈ ([] : List (Turn (Service Unit) Unit)), t'.info.priority < t.info.priority ∧
          ∃ service, (kServicesManagerService, some service) ∈ t'.registered) :=
  ⟨_, rfl, found_by_plugins onePlugin rfl⟩

end Surroundings

end EzServer.Application
