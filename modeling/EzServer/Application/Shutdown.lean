import EzServer.Introp.PluginsLoader

/-!
# Shutting down

The loop of `~Application` erases the element that its iterator stands on and then goes on from
there. The first step leaves no element to go on from.
-/

namespace EzServer.Application

open EzServer.Core Introp

variable {σ χ : Type}

/-! ### The destructor -/

/-- The state of the loop of `~Application`. -/
structure Shutdown (σ χ : Type) where
  plugins : Plugins σ χ
  /-- The plugins whose unloading was logged. -/
  visited : List PluginInfo

/-- The body of the loop. `Lib` returns a copy, so `unload` leaves the library of the plugin as it
is. -/
def unloadPlugin (s : Shutdown σ χ) (it : Iterator PluginInfo) :
    Except LoopError (Shutdown σ χ) :=
  match s.plugins.deref it with
  | none => .error .erasedIterator
  | some (info, _) => .ok ⟨s.plugins.erase info, s.visited ++ [info]⟩

/-- The range-based loop; erasing leaves the end of the map valid. -/
def unloadFrom : ℕ → Shutdown σ χ → Iterator PluginInfo → Except LoopError (Shutdown σ χ)
  | 0, _, _ => .error .outOfFuel
  | _ + 1, s, .pastEnd => .ok s
  | fuel + 1, s, it => do
    let s ← unloadPlugin s it
    match s.plugins.next it with
    | none => .error .erasedIterator
    | some it => unloadFrom fuel s it

/-- `~Application` -/
def unloadPlugins (plugins : Plugins σ χ) : Except LoopError (Shutdown σ χ) :=
  unloadFrom (plugins.entries.length + 1) ⟨plugins, []⟩ plugins.begin

/-- Every plugin is visited once and removed. -/
def UnloadsAll (plugins : Plugins σ χ) : Prop :=
  ∃ out, unloadPlugins plugins = .ok out ∧ out.visited = plugins.keys ∧ out.plugins.entries = []

/-! ### The first step -/

/-- The loop is left in its first step, with an iterator that has lost its element. -/
lemma unloadPlugins_of_cons {plugins : Plugins σ χ} {e : PluginInfo × IPlugin σ χ}
    {es : List (PluginInfo × IPlugin σ χ)} (h : plugins.entries = e :: es) :
    unloadPlugins plugins = .error .erasedIterator := by
  have hderef : plugins.deref (.atKey e.1) = some e :=
    OrderedMap.deref_of_split (l := []) (r := es) h
  have hvisit : unloadPlugin ⟨plugins, []⟩ (.atKey e.1) =
      .ok (⟨plugins.erase e.1, [e.1]⟩ : Shutdown σ χ) := by
    simp only [unloadPlugin, hderef, List.nil_append]
  have hnext : (plugins.erase e.1).next (.atKey e.1) = none := OrderedMap.next_erase plugins e.1
  have hbegin : plugins.begin = .atKey e.1 := by
    rw [OrderedMap.begin, h]
    rfl
  have hstep : ∀ fuel, unloadFrom (fuel + 1) ⟨plugins, []⟩ (.atKey e.1) =
      .error .erasedIterator := by
    intro fuel
    simp only [unloadFrom, hvisit, bind, Except.bind, hnext]
  rw [unloadPlugins, hbegin]
  exact hstep _

/-- All plugins are unloaded iff there are none. -/
theorem unloadsAll_iff_nil (plugins : Plugins σ χ) : UnloadsAll plugins ↔ plugins.entries = [] := by
  constructor
  · rintro ⟨out, hout, -⟩
    cases hentries : plugins.entries with
    | nil => rfl
    | cons e es =>
      rw [unloadPlugins_of_cons hentries] at hout
      cases hout
  · intro hnil
    refine ⟨⟨plugins, []⟩, ?_, ?_, hnil⟩
    · rw [unloadPlugins, OrderedMap.begin, hnil]
      rfl
    · rw [OrderedMap.keys, hnil]
      rfl

/-- A plugin without services and commands. -/
def plain : IPlugin Unit Unit where
  info := ⟨"plain", 1⟩
  requires := []
  initializeWith := fun _ => .ends (.returned true)
  registerServices := .ends (.returned true)
  getCommands := .returned []
  lib := none

/-- One plugin is enough to go on from an element that has been erased. -/
theorem not_unloadsAll_of_plugin :
    ¬ ∀ plugins : Plugins Unit Unit, UnloadsAll plugins := by
  intro h
  obtain ⟨out, hout, -⟩ := h (OrderedMap.empty.emplace plain.info plain)
  have herror : unloadPlugins (OrderedMap.empty.emplace plain.info plain) =
    .error .erasedIterator := rfl
  cases herror.symm.trans hout

end EzServer.Application
