import EzServer.Application.Bootstrapper
import EzServer.Introp.Loading
import Mathlib.Data.List.TakeWhile

/-!
# The order of the plugin directory

The map of plugins is sorted by priority, so where priorities differ nothing that is done with the
map can tell in which order the files were listed.
-/

namespace EzServer.Application

open EzServer.Core Services Introp

variable {σ χ : Type}

/-- The calls of `Initialize`, oldest first. -/
def Loaded.initializeCalls (out : Loaded σ χ) :
    List (PluginInfo × List (String × SharedPtr σ)) :=
  out.turns.filterMap fun t => t.argument.map fun argument => (t.info, argument)

/-- Without an exception all plugins that load are inserted. -/
lemma pluginsOf_of_contained {listing : List (PluginFile σ χ)}
    (h : listing.findSome? PluginFile.error = none) :
    pluginsOf listing =
      OrderedMap.empty.emplaceAll ((listing.filterMap PluginFile.plugin).map IPlugin.entry) := by
  have hcontained : ∀ file ∈ listing, file.isContained = true := fun file hfile => by
    rw [PluginFile.isContained, List.findSome?_eq_none_iff.mp h file hfile]
    rfl
  rw [pluginsOf, loadPlugins_eq, List.takeWhile_eq_self_iff.mpr hcontained]

/-- If no plugin loads, the map stays empty. -/
lemma pluginsOf_of_none {listing : List (PluginFile σ χ)}
    (h : listing.filterMap PluginFile.plugin = []) : pluginsOf listing = OrderedMap.empty := by
  have hreached : (listing.takeWhile PluginFile.isContained).filterMap PluginFile.plugin = [] := by
    rw [← List.prefix_nil, ← h]
    exact (List.takeWhile_prefix _).filterMap _
  rw [pluginsOf, loadPlugins_eq, hreached]
  rfl

lemma loadPlugins_empty {listing : List (PluginFile σ χ)} (carriesOn : Bool)
    (manager : ServicesManager σ) (h : listing.filterMap PluginFile.plugin = []) :
    ∃ ending, loadPlugins carriesOn listing manager =
      ⟨OrderedMap.empty, [], manager, [], ending⟩ := by
  cases herror : listing.findSome? PluginFile.error with
  | some e =>
    obtain ⟨ending, -, hout⟩ := @loadPlugins_of_error _ _ carriesOn _ manager _ herror
    exact ⟨ending, by rw [hout, pluginsOf_of_none h]⟩
  | none =>
    rw [loadPlugins_of_contained herror, pluginsOf_of_none h]
    exact ⟨_, rfl⟩

/-- If a plugin has had its turn, no exception has left `LoadPlugins`. -/
lemma contained_of_turn {listing : List (PluginFile σ χ)} {carriesOn : Bool}
    {manager : ServicesManager σ} {t : Turn σ χ}
    (ht : t ∈ (loadPlugins carriesOn listing manager).turns) :
    listing.findSome? PluginFile.error = none := by
  rcases loadPlugins_cases carriesOn listing manager with ⟨hnone, -⟩ | ⟨ending, heq⟩
  · exact hnone
  · rw [heq] at ht
    cases ht

/-- Two listings of the same files lead to the same plugins, the same calls of `Initialize`, the
same services and the same commands, if the plugins that load have different priorities and all of
them have a turn that succeeds. -/
theorem loadPlugins_perm (carriesOn : Bool) {listing listing' : List (PluginFile σ χ)}
    (manager : ServicesManager σ) (hperm : listing.Perm listing')
    (hdistinct : (listing.filterMap PluginFile.plugin).Pairwise fun p q =>
      p.info.priority ≠ q.info.priority)
    (hsucceeds : ∀ plugin ∈ listing.filterMap PluginFile.plugin,
      ∃ t ∈ (loadPlugins carriesOn listing manager).turns,
        t.plugin = plugin ∧ t.succeeded = true) :
    let out := loadPlugins carriesOn listing manager
    let out' := loadPlugins carriesOn listing' manager
    out'.plugins = out.plugins ∧ out'.initializeCalls = out.initializeCalls ∧
      out'.manager = out.manager ∧ out'.commands = out.commands := by
  intro out out'
  have hplugins := hperm.filterMap PluginFile.plugin
  cases hloaded : listing.filterMap PluginFile.plugin with
  | nil =>
    rw [hloaded, List.nil_perm] at hplugins
    obtain ⟨ending, hout⟩ := loadPlugins_empty carriesOn manager hloaded
    obtain ⟨ending', hout'⟩ := loadPlugins_empty carriesOn manager hplugins
    simp [out, out', hout, hout', Loaded.initializeCalls]
  | cons plugin plugins =>
    obtain ⟨t, ht, -⟩ := hsucceeds plugin (hloaded ▸ List.mem_cons_self)
    have hnone := contained_of_turn ht
    have hnone' : listing'.findSome? PluginFile.error = none := by
      rw [List.findSome?_eq_none_iff] at hnone ⊢
      exact fun file hfile => hnone file (hperm.mem_iff.mpr hfile)
    have hmap : pluginsOf listing' = pluginsOf listing := by
      rw [pluginsOf_of_contained hnone, pluginsOf_of_contained hnone']
      exact (OrderedMap.emplaceAll_eq_of_perm (fresh_empty_iff.mpr hdistinct)
        (hplugins.map IPlugin.entry)).symm
    have hsame : out' = out := by
      rw [show out = _ from loadPlugins_of_contained hnone,
        show out' = _ from loadPlugins_of_contained hnone', hmap]
    rw [hsame]
    exact ⟨rfl, rfl, rfl, rfl⟩

/-- Two plugins and a directory, listed in two ways. -/
theorem loadPlugins_perm_two :
    let directory : PluginFile Unit Unit := ⟨"old", .directory, false, false, .returned none⟩
    let out := loadPlugins false [pluginFile "first" 1, directory, pluginFile "second" 2] ⟨[]⟩
    let out' := loadPlugins false [pluginFile "second" 2, pluginFile "first" 1, directory] ⟨[]⟩
    out'.plugins = out.plugins ∧ out'.initializeCalls = out.initializeCalls ∧
      out'.manager = out.manager ∧ out'.commands = out.commands := by
  intro directory
  refine loadPlugins_perm false ⟨[]⟩ ?_ ?_ ?_
  · exact @List.perm_append_comm _ [pluginFile "first" 1, directory] [pluginFile "second" 2]
  · refine List.pairwise_cons.mpr ⟨fun q hq => ?_, List.pairwise_singleton _ _⟩
    rw [List.mem_singleton.mp hq]
    decide
  · intro plugin hplugin
    rcases List.mem_cons.mp hplugin with rfl | hplugin
    · exact ⟨_, List.mem_cons_self, rfl, rfl⟩
    · rw [List.mem_singleton.mp hplugin]
      exact ⟨_, List.mem_cons_of_mem _ List.mem_cons_self, rfl, rfl⟩

end EzServer.Application
