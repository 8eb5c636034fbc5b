import EzServer.Introp.PluginsLoader

/-!
# Loading plugins

The map of plugins is ordered by priority, so two plugins of one priority are the same entry, and
`emplace` drops the second one.
-/

namespace EzServer.Introp

open EzServer.Core

variable {σ χ : Type}

namespace PluginFile

/-- The plugin of a regular file that opens, exports the factory and returns one. -/
def plugin (file : PluginFile σ χ) : Option (IPlugin σ χ) :=
  match file.kind, file.opens, file.hasFactory, file.factory with
  | .regular, true, true, .returned (some plugin) => some { plugin with lib := some file.path }
  | _, _, _, _ => none

/-- How the loop of `LoadPlugins` breaks off at the file, if it does. -/
def error (file : PluginFile σ χ) : Option LoadError :=
  match file.kind, file.opens, file.hasFactory, file.factory with
  | .unreadable, _, _, _ => some (.threw true)
  | .regular, true, true, .threw .ofLibrary => some .unloaded
  | .regular, true, true, .threw .other => some (.threw false)
  | _, _, _, _ => none

/-- The loop goes on after the file. -/
def isContained (file : PluginFile σ χ) : Bool := file.error.isNone

end PluginFile

/-- All plugins that load from the listing are the values of as many entries, and no handler has
used an exception of an unloaded library. -/
def LoadsAll (listing : List (PluginFile σ χ)) : Prop :=
  let out := loadPlugins OrderedMap.empty listing
  let loaded := listing.filterMap PluginFile.plugin
  out.2 ≠ some .unloaded ∧ out.1.entries.length = loaded.length ∧
    ∀ plugin ∈ loaded, plugin ∈ out.1.values

/-- No two plugins have the same priority, the loop does not break off before one of them, and no
handler uses an exception of an unloaded library. -/
def Loadable (listing : List (PluginFile σ χ)) : Prop :=
  ((listing.filterMap PluginFile.plugin).Pairwise fun p q => p.info.priority ≠ q.info.priority) ∧
    (listing.takeWhile PluginFile.isContained).filterMap PluginFile.plugin =
      listing.filterMap PluginFile.plugin ∧
    listing.findSome? PluginFile.error ≠ some .unloaded

/-- The entry of a plugin. -/
def IPlugin.entry (plugin : IPlugin σ χ) : PluginInfo × IPlugin σ χ := (plugin.info, plugin)

/-! ### The loop -/

lemma loadPlugin_eq (plugins : Plugins σ χ) (file : PluginFile σ χ) :
    loadPlugin plugins file =
      match file.error with
      | some e => .error e
      | none => .ok (plugins.emplaceAll (file.plugin.toList.map IPlugin.entry)) := by
  obtain ⟨path, kind, opens, hasFactory, factory⟩ := file
  cases kind with
  | regular =>
    cases opens with
    | false => rfl
    | true =>
      cases hasFactory with
      | false => rfl
      | true =>
        cases factory with
        | returned plugin => cases plugin <;> rfl
        | threw what => cases what <;> rfl
  | _ => rfl

/-- The loop inserts the plugins of the files up to the one at which it breaks off. -/
lemma loadPlugins_eq (plugins : Plugins σ χ) (listing : List (PluginFile σ χ)) :
    loadPlugins plugins listing =
      (plugins.emplaceAll
        (((listing.takeWhile PluginFile.isContained).filterMap PluginFile.plugin).map
          IPlugin.entry), listing.findSome? PluginFile.error) := by
  induction listing generalizing plugins with
  | nil => rfl
  | cons file files ih =>
    rw [loadPlugins, loadPlugin_eq, List.findSome?_cons]
    cases herror : file.error with
    | some e => simp [PluginFile.isContained, herror, OrderedMap.emplaceAll]
    | none =>
      simp only [ih, List.takeWhile_cons, PluginFile.isContained, herror, Option.isNone_none]
      cases hplugin : file.plugin with
      | none => simp [hplugin, OrderedMap.emplaceAll]
      | some plugin => simp [hplugin, OrderedMap.emplaceAll]

lemma error_loadPlugins (plugins : Plugins σ χ) (listing : List (PluginFile σ χ)) :
    (loadPlugins plugins listing).2 = listing.findSome? PluginFile.error := by
  rw [loadPlugins_eq]

lemma fresh_empty_iff {loaded : List (IPlugin σ χ)} :
    OrderedMap.Fresh OrderedMap.empty (loaded.map IPlugin.entry) ↔
      loaded.Pairwise fun p q => p.info.priority ≠ q.info.priority := by
  rw [OrderedMap.fresh_empty, List.pairwise_map]
  constructor
  · intro h
    exact h.imp fun hne heq => hne (PluginInfo.equivalent_iff.mpr heq.symm)
  · intro h
    exact h.imp fun hne heq => hne (PluginInfo.equivalent_iff.mp heq).symm

/-- As many entries as plugins means that all were inserted and none was there before. -/
lemma length_emplaceAll_eq_iff {reached loaded : List (IPlugin σ χ)} (h : reached <+: loaded) :
    ((OrderedMap.empty : Plugins σ χ).emplaceAll (reached.map IPlugin.entry)).entries.length =
        loaded.length ↔
      (loaded.Pairwise fun p q => p.info.priority ≠ q.info.priority) ∧ reached = loaded := by
  have hle := OrderedMap.length_emplaceAll_le (OrderedMap.empty : Plugins σ χ)
    (reached.map IPlugin.entry)
  have hempty : (OrderedMap.empty : Plugins σ χ).entries.length = 0 := rfl
  rw [hempty, Nat.zero_add, List.length_map] at hle
  constructor
  · intro hlen
    obtain rfl : reached = loaded := h.eq_of_length (Nat.le_antisymm h.length_le (hlen ▸ hle))
    refine ⟨fresh_empty_iff.mp (OrderedMap.length_emplaceAll_eq_iff.mp ?_), rfl⟩
    rw [hlen, hempty, Nat.zero_add, List.length_map]
  · rintro ⟨hdistinct, rfl⟩
    rw [OrderedMap.length_emplaceAll_eq_iff.mpr (fresh_empty_iff.mpr hdistinct), hempty,
      Nat.zero_add, List.length_map]

lemma mem_values_of_distinct {loaded : List (IPlugin σ χ)}
    (h : loaded.Pairwise fun p q => p.info.priority ≠ q.info.priority) :
    ∀ plugin ∈ loaded,
      plugin ∈ ((OrderedMap.empty : Plugins σ χ).emplaceAll (loaded.map IPlugin.entry)).values := by
  intro plugin hplugin
  have hperm := OrderedMap.emplaceAll_perm (fresh_empty_iff.mpr h)
  refine List.mem_map.mpr ⟨plugin.entry, hperm.mem_iff.mpr (List.mem_append_left _ ?_), rfl⟩
  exact List.mem_map_of_mem hplugin

/-- No plugin that loads is lost if and only if no two of them have the same priority, loading gets
to all of them, and it gets to no exception of an unloaded library. -/
theorem loadsAll_iff_loadable (listing : List (PluginFile σ χ)) :
    LoadsAll listing ↔ Loadable listing := by
  rw [LoadsAll, Loadable]
  have hprefix := (List.takeWhile_prefix PluginFile.isContained (l := listing)).filterMap
    PluginFile.plugin
  simp only [loadPlugins_eq, length_emplaceAll_eq_iff hprefix]
  constructor
  · rintro ⟨hloaded, ⟨hdistinct, hreached⟩, -⟩
    exact ⟨hdistinct, hreached, hloaded⟩
  · rintro ⟨hdistinct, hreached, hloaded⟩
    refine ⟨hloaded, ⟨hdistinct, hreached⟩, ?_⟩
    rw [hreached]
    exact mem_values_of_distinct hdistinct

/-- A plugin file that loads. -/
def pluginFile (name : String) (priority : UInt32) : PluginFile Unit Unit where
  path := name ++ ".so"
  kind := .regular
  opens := true
  hasFactory := true
  factory := .returned (some {
    info := ⟨name, priority⟩
    requires := []
    initializeWith := fun _ => .ends (.returned true)
    registerServices := .ends (.returned true)
    getCommands := .returned []
    lib := none })

/-- The second of two plugins of one priority is lost. -/
theorem not_loadsAll_of_equal_priority :
    ¬ ∀ listing : List (PluginFile Unit Unit), LoadsAll listing := fun h =>
  absurd (h [pluginFile "first" 1, pluginFile "second" 1]).2.1 (by decide)

end EzServer.Introp
