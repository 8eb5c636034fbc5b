import EzServer.Introp.PluginsLoader

/-!
# Initializing plugins

The handler of a failed plugin erases its element and goes on to use the iterator. So the loop does
what it is meant to do only where it has nothing to remove.
-/

namespace EzServer.Introp

open Services

variable {σ χ : Type}

/-- The entries that are left when each plugin that fails in its turn is removed. -/
def survivors (manager : ServicesManager σ) :
    List (PluginInfo × IPlugin σ χ) → List (PluginInfo × IPlugin σ χ)
  | [] => []
  | e :: es =>
    let (manager, succeeded) := tryInitialize manager e.2
    if succeeded then e :: survivors manager es else survivors manager es

/-- No plugin fails: its dependencies resolve, `Initialize` returns true and `RegisterServices`
does not throw, given the services of the plugins before it. -/
def noneFails (manager : ServicesManager σ) : List (PluginInfo × IPlugin σ χ) → Bool
  | [] => true
  | e :: es =>
    let (manager, succeeded) := tryInitialize manager e.2
    succeeded && noneFails manager es

/-- The services after all plugins have been initialized. -/
def managerAfter (manager : ServicesManager σ) :
    List (PluginInfo × IPlugin σ χ) → ServicesManager σ
  | [] => manager
  | e :: es => managerAfter (tryInitialize manager e.2).1 es

/-- Every plugin is visited once, in order, and exactly those that fail are removed. -/
def InitializesExactly (plugins : Plugins σ χ) (manager : ServicesManager σ) : Prop :=
  ∃ out, initializePlugins plugins manager = .ok out ∧ out.visited = plugins.keys ∧
    out.plugins.entries = survivors manager plugins.entries

lemma survivors_eq_self {manager : ServicesManager σ} {es : List (PluginInfo × IPlugin σ χ)}
    (h : noneFails manager es = true) : survivors manager es = es := by
  induction es generalizing manager with
  | nil => rfl
  | cons e es ih =>
    simp only [noneFails, Bool.and_eq_true] at h
    simp only [survivors, h.1, if_true, ih h.2]

/-! ### The loop -/

lemma initializePlugin_of_split {s : Initialization σ χ} {l r : List (PluginInfo × IPlugin σ χ)}
    {e : PluginInfo × IPlugin σ χ} (h : s.plugins.entries = l ++ e :: r) :
    initializePlugin s (.atKey e.1) =
      if (tryInitialize s.manager e.2).2 then
        .ok { s with
          manager := (tryInitialize s.manager e.2).1
          visited := s.visited ++ [e.1] }
      else .error .erasedIterator := by
  simp only [initializePlugin, Core.OrderedMap.deref_of_split h, Core.OrderedMap.deref_erase]

/-- From the element after `l` on, the loop goes through `r` or breaks at the first failure. -/
lemma initializeFrom_eq {fuel : ℕ} {s : Initialization σ χ}
    {l r : List (PluginInfo × IPlugin σ χ)} (h : s.plugins.entries = l ++ r)
    (hfuel : r.length < fuel) :
    initializeFrom fuel s (Core.OrderedMap.position r) =
      if noneFails s.manager r then
        .ok { s with
          manager := managerAfter s.manager r
          visited := s.visited ++ r.map Prod.fst }
      else .error .erasedIterator := by
  induction r generalizing fuel s l with
  | nil =>
    obtain ⟨fuel, rfl⟩ := Nat.exists_eq_succ_of_ne_zero (Nat.ne_of_gt hfuel)
    simp [initializeFrom, Core.OrderedMap.position, noneFails, managerAfter]
  | cons e r ih =>
    obtain ⟨fuel, rfl⟩ := Nat.exists_eq_succ_of_ne_zero (Nat.ne_of_gt (Nat.zero_lt_of_lt hfuel))
    have hfuel' : r.length < fuel := by simpa using hfuel
    simp only [Core.OrderedMap.position, initializeFrom, initializePlugin_of_split h]
    cases hsucceeded : (tryInitialize s.manager e.2).2 with
    | false => simp [noneFails, hsucceeded, bind, Except.bind]
    | true =>
      have hnext := Core.OrderedMap.next_of_split h
      have hrest : s.plugins.entries = (l ++ [e]) ++ r := by simpa using h
      have := @ih fuel { s with
        manager := (tryInitialize s.manager e.2).1
        visited := s.visited ++ [e.1] } (l ++ [e]) hrest hfuel'
      simp [noneFails, managerAfter, hsucceeded, bind, Except.bind, hnext, this]

/-- The loop does what it is meant to do if and only if no plugin fails. -/
theorem initializesExactly_iff_noneFails (plugins : Plugins σ χ) (manager : ServicesManager σ) :
    InitializesExactly plugins manager ↔ noneFails manager plugins.entries = true := by
  have hloop := @initializeFrom_eq _ _ (plugins.entries.length + 1) ⟨plugins, manager, []⟩ []
    plugins.entries rfl (Nat.lt_succ_self _)
  change initializePlugins plugins manager = _ at hloop
  unfold InitializesExactly
  rw [hloop]
  cases hnone : noneFails manager plugins.entries with
  | true =>
    refine iff_of_true ⟨_, rfl, ?_, (survivors_eq_self hnone).symm⟩ rfl
    simp [Core.OrderedMap.keys]
  | false => simp

/-- A plugin whose `Initialize` returns `false`. -/
def failing : IPlugin Unit Unit where
  info := ⟨"failing", 1⟩
  requires := []
  initializeWith := fun _ => .ends (.returned false)
  registerServices := .ends (.returned true)
  getCommands := .returned []
  lib := none

/-- One plugin that fails is enough to use an erased iterator. -/
theorem not_initializesExactly_of_failure :
    ¬ ∀ (plugins : Plugins Unit Unit) (manager : ServicesManager Unit),
      InitializesExactly plugins manager := by
  intro h
  obtain ⟨out, hout, -⟩ := h (Core.OrderedMap.empty.emplace failing.info failing) ⟨[]⟩
  have herror : initializePlugins (Core.OrderedMap.empty.emplace failing.info failing)
    (⟨[]⟩ : ServicesManager Unit) = .error .erasedIterator := rfl
  cases herror.symm.trans hout

end EzServer.Introp
