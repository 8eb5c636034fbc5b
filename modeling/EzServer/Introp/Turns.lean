import EzServer.Core.Machine
import EzServer.Introp.Initialization

/-!
# The turns of the plugins

`InitializePlugins` one round at a time, with a record of what each plugin is given and does in its
turn. A round that fails leaves the iterator on an erased element; the loop may then carry on to
the element after it, which is the best that can come of it.
-/

namespace EzServer.Introp

open Services

variable {σ χ : Type}

/-- A round of the loop for one plugin. -/
structure Turn (σ χ : Type) where
  info : PluginInfo
  plugin : IPlugin σ χ
  before : ServicesManager σ
  /-- The argument of `Initialize`, if it is called. -/
  argument : Option (List (String × SharedPtr σ))
  /-- What `Initialize` registers, oldest first. -/
  byInitialize : List (String × SharedPtr σ)
  /-- What `RegisterServices` registers, oldest first. -/
  byRegisterServices : List (String × SharedPtr σ)
  after : ServicesManager σ
  succeeded : Bool

/-- All that the plugin registers in the round. -/
def Turn.registered (t : Turn σ χ) : List (String × SharedPtr σ) :=
  t.byInitialize ++ t.byRegisterServices

def Outcome.isReturned : Outcome → Bool
  | .returned _ => true
  | .threw => false

/-- The `try` block of the loop. -/
def takeTurn (manager : ServicesManager σ) (info : PluginInfo) (plugin : IPlugin σ χ) :
    Turn σ χ :=
  match manager.resolveDependencies plugin.requires with
  | .error _ => ⟨info, plugin, manager, none, [], [], manager, false⟩
  | .ok deps =>
    let byInitialize := (plugin.initializeWith deps).registered manager
    match (plugin.initializeWith deps).run manager with
    | (after, .threw) | (after, .returned false) =>
      ⟨info, plugin, manager, some deps, byInitialize, [], after, false⟩
    | (initialized, .returned true) =>
      let (after, outcome) := plugin.registerServices.run initialized
      ⟨info, plugin, manager, some deps, byInitialize,
        plugin.registerServices.registered initialized, after, outcome.isReturned⟩

/-- Where the loop stands. -/
inductive Position where
  | valid (pluginItr : Core.Iterator PluginInfo)
  /-- The element of the iterator has been erased. -/
  | erased (info : PluginInfo)
  deriving DecidableEq, Repr

structure Loop (σ χ : Type) where
  plugins : Plugins σ χ
  manager : ServicesManager σ
  /-- The turns so far, oldest first. -/
  turns : List (Turn σ χ)
  position : Position

inductive LoopLabel where
  | turn
  /-- `++plugin_itr` on the erased element. -/
  | carryOn
  deriving DecidableEq, Repr

namespace Loop

def start (plugins : Plugins σ χ) (manager : ServicesManager σ) : Loop σ χ :=
  ⟨plugins, manager, [], .valid plugins.begin⟩

def step (s : Loop σ χ) : LoopLabel → Option (Loop σ χ)
  | .turn =>
    match s.position with
    | .erased _ => none
    | .valid pluginItr => do
      let (info, plugin) ← s.plugins.deref pluginItr
      let t := takeTurn s.manager info plugin
      let s := { s with manager := t.after, turns := s.turns ++ [t] }
      if t.succeeded then
        let pluginItr ← s.plugins.next pluginItr
        return { s with position := .valid pluginItr }
      else return { s with plugins := s.plugins.erase info, position := .erased info }
  | .carryOn =>
    match s.position with
    | .valid _ => none
    | .erased info =>
      some { s with
        position := .valid (Core.OrderedMap.position (s.plugins.entries.filter (info < ·.1))) }

/-- The next step, if there is one: some loops carry on from an erased element, others do not. -/
def advance (carriesOn : Bool) (s : Loop σ χ) : Option (Loop σ χ) :=
  match s.position with
  | .valid _ => s.step .turn
  | .erased _ => if carriesOn then s.step .carryOn else none

def finish (carriesOn : Bool) : ℕ → Loop σ χ → Loop σ χ
  | 0, s => s
  | fuel + 1, s =>
    match s.advance carriesOn with
    | none => s
    | some s => s.finish carriesOn fuel

/-- The whole loop. -/
def final (carriesOn : Bool) (plugins : Plugins σ χ) (manager : ServicesManager σ) : Loop σ χ :=
  (start plugins manager).finish carriesOn (2 * plugins.entries.length + 1)

/-- What `InitializePlugins` leaves behind. -/
def initialization (s : Loop σ χ) : Initialization σ χ :=
  ⟨s.plugins, s.manager, s.turns.map Turn.info⟩

end Loop

/-! ### One turn -/

lemma after_takeTurn (manager : ServicesManager σ) (info : PluginInfo) (plugin : IPlugin σ χ) :
    (takeTurn manager info plugin).after = (tryInitialize manager plugin).1 ∧
      (takeTurn manager info plugin).succeeded = (tryInitialize manager plugin).2 := by
  rw [takeTurn, tryInitialize]
  cases manager.resolveDependencies plugin.requires with
  | error what => exact ⟨rfl, rfl⟩
  | ok deps =>
    dsimp only
    obtain ⟨initialized, outcome⟩ := (plugin.initializeWith deps).run manager
    cases outcome with
    | threw => exact ⟨rfl, rfl⟩
    | returned result =>
      cases result with
      | false => exact ⟨rfl, rfl⟩
      | true =>
        dsimp only
        obtain ⟨after, outcome⟩ := plugin.registerServices.run initialized
        cases outcome <;> exact ⟨rfl, rfl⟩

lemma takeTurn_eq (manager : ServicesManager σ) (info : PluginInfo) (plugin : IPlugin σ χ) :
    (takeTurn manager info plugin).info = info ∧ (takeTurn manager info plugin).plugin = plugin ∧
      (takeTurn manager info plugin).before = manager := by
  rw [takeTurn]
  split
  · exact ⟨rfl, rfl, rfl⟩
  · dsimp only
    split <;> exact ⟨rfl, rfl, rfl⟩

/-- A turn changes the services by what is registered in it. -/
lemma extends_takeTurn (manager : ServicesManager σ) (info : PluginInfo) (plugin : IPlugin σ χ) :
    manager.Extends (takeTurn manager info plugin).registered
      (takeTurn manager info plugin).after := by
  rw [takeTurn, Turn.registered]
  cases manager.resolveDependencies plugin.requires with
  | error what => exact .refl manager
  | ok deps =>
    dsimp only
    have hinit := (plugin.initializeWith deps).extends_run manager
    generalize (plugin.initializeWith deps).run manager = out at hinit ⊢
    obtain ⟨initialized, outcome⟩ := out
    cases outcome with
    | threw => simpa using hinit
    | returned result =>
      cases result with
      | false => simpa using hinit
      | true => exact hinit.trans (plugin.registerServices.extends_run initialized)

/-! ### Many turns -/

/-- The turns of some plugins one after the other. -/
def turnsOf (manager : ServicesManager σ) : List (PluginInfo × IPlugin σ χ) → List (Turn σ χ)
  | [] => []
  | e :: es =>
    let t := takeTurn manager e.1 e.2
    t :: turnsOf t.after es

lemma managerAfter_append (manager : ServicesManager σ) (l r : List (PluginInfo × IPlugin σ χ)) :
    managerAfter manager (l ++ r) = managerAfter (managerAfter manager l) r := by
  induction l generalizing manager with
  | nil => rfl
  | cons e l ih => exact ih _

lemma survivors_append (manager : ServicesManager σ) (l r : List (PluginInfo × IPlugin σ χ)) :
    survivors manager (l ++ r) =
      survivors manager l ++ survivors (managerAfter manager l) r := by
  induction l generalizing manager with
  | nil => rfl
  | cons e l ih =>
    simp only [List.cons_append, survivors, managerAfter, ih]
    split_ifs <;> rfl

lemma turnsOf_append (manager : ServicesManager σ) (l r : List (PluginInfo × IPlugin σ χ)) :
    turnsOf manager (l ++ r) = turnsOf manager l ++ turnsOf (managerAfter manager l) r := by
  induction l generalizing manager with
  | nil => rfl
  | cons e l ih =>
    simp only [List.cons_append, turnsOf, managerAfter, (after_takeTurn _ _ _).1, ih]

lemma survivors_sublist (manager : ServicesManager σ) (es : List (PluginInfo × IPlugin σ χ)) :
    (survivors manager es).Sublist es := by
  induction es generalizing manager with
  | nil => exact List.Sublist.refl _
  | cons e es ih =>
    simp only [survivors]
    split_ifs
    · exact (ih _).cons_cons e
    · exact (ih _).cons e

/-- The plugins take their turns in order. -/
lemma map_turnsOf (manager : ServicesManager σ) (es : List (PluginInfo × IPlugin σ χ)) :
    (turnsOf manager es).map (fun t => (t.info, t.plugin)) = es := by
  induction es generalizing manager with
  | nil => rfl
  | cons e es ih =>
    obtain ⟨hinfo, hplugin, -⟩ := takeTurn_eq manager e.1 e.2
    simp only [turnsOf, List.map_cons, ih, hinfo, hplugin]

/-- The services after some turns are those before and what was registered in the turns. -/
lemma extends_turnsOf (manager : ServicesManager σ) (es : List (PluginInfo × IPlugin σ χ)) :
    manager.Extends ((turnsOf manager es).flatMap Turn.registered) (managerAfter manager es) := by
  induction es generalizing manager with
  | nil => exact .refl manager
  | cons e es ih =>
    have hturn := extends_takeTurn manager e.1 e.2
    have hrest := ih (tryInitialize manager e.2).1
    rw [← (after_takeTurn manager e.1 e.2).1] at hrest
    simp only [turnsOf, List.flatMap_cons, managerAfter]
    rw [← (after_takeTurn manager e.1 e.2).1]
    exact hturn.trans hrest

/-- Each turn starts from what was registered in the turns before it. -/
lemma extends_before {manager : ServicesManager σ} {es : List (PluginInfo × IPlugin σ χ)}
    {earlier later : List (Turn σ χ)} {t : Turn σ χ}
    (h : turnsOf manager es = earlier ++ t :: later) :
    manager.Extends (earlier.flatMap Turn.registered) t.before ∧
      t = takeTurn t.before t.info t.plugin := by
  induction es generalizing manager earlier with
  | nil => simp [turnsOf] at h
  | cons e es ih =>
    simp only [turnsOf] at h
    cases earlier with
    | nil =>
      obtain ⟨rfl, -⟩ := List.cons.inj h
      obtain ⟨hinfo, hplugin, hbefore⟩ := takeTurn_eq manager e.1 e.2
      rw [hinfo, hplugin, hbefore]
      exact ⟨.refl manager, rfl⟩
    | cons t₀ earlier =>
      obtain ⟨rfl, hrest⟩ := List.cons.inj h
      obtain ⟨hextends, ht⟩ := ih hrest
      exact ⟨(extends_takeTurn manager e.1 e.2).trans hextends, ht⟩

/-- Each turn is that of one of the plugins. -/
lemma mem_turnsOf {manager : ServicesManager σ} {es : List (PluginInfo × IPlugin σ χ)}
    {t : Turn σ χ} (ht : t ∈ turnsOf manager es) :
    (t.info, t.plugin) ∈ es ∧ t = takeTurn t.before t.info t.plugin := by
  constructor
  · rw [← map_turnsOf manager es]
    exact List.mem_map_of_mem ht
  · obtain ⟨earlier, later, hsplit⟩ := List.append_of_mem ht
    exact (extends_before hsplit).2

/-- The plugins that are left are those whose turns have succeeded. -/
lemma mem_survivors_iff {manager : ServicesManager σ}
    {es rest : List (PluginInfo × IPlugin σ χ)}
    (hsorted : (es ++ rest).Pairwise fun a b => a.1 < b.1) {t : Turn σ χ}
    (ht : t ∈ turnsOf manager es) :
    t.info ∈ (survivors manager es ++ rest).map Prod.fst ↔ t.succeeded = true := by
  induction es generalizing manager with
  | nil => simp [turnsOf] at ht
  | cons e es ih =>
    rw [List.cons_append] at hsorted
    obtain ⟨hhead, htail⟩ := List.pairwise_cons.mp hsorted
    have hirrefl : ¬ e.1 < e.1 := (Core.OrderedMap.Equivalent.refl e.1).1
    obtain ⟨hinfo, -, -⟩ := takeTurn_eq manager e.1 e.2
    obtain ⟨hafter, hsucceeded⟩ := after_takeTurn manager e.1 e.2
    simp only [turnsOf, hafter] at ht
    rcases List.mem_cons.mp ht with rfl | ht
    · rw [hinfo, hsucceeded]
      simp only [survivors]
      split_ifs with h
      · exact iff_of_true (by simp) h
      · refine iff_of_false (fun hmem => ?_) h
        obtain ⟨d, hd, heq⟩ := List.mem_map.mp hmem
        have hrest : d ∈ es ++ rest :=
          ((survivors_sublist _ es).append_right rest).subset hd
        exact hirrefl (heq ▸ hhead d hrest)
    · have hne : t.info ≠ e.1 := by
        intro heq
        have hlt := hhead _ (List.mem_append_left rest (mem_turnsOf ht).1)
        exact hirrefl (heq ▸ hlt)
      rw [← ih htail ht]
      simp only [survivors]
      split_ifs
      · simp [hne]
      · rfl

/-! ### Runs -/

/-- The loop has gone through `done` and stands at `rest`, or on the last element of `done` if that
has been erased. -/
structure Explored (plugins : Plugins σ χ) (core : ServicesManager σ)
    (done rest : List (PluginInfo × IPlugin σ χ)) (s : Loop σ χ) : Prop where
  split : plugins.entries = done ++ rest
  entries : s.plugins.entries = survivors core done ++ rest
  turns : s.turns = turnsOf core done
  manager : s.manager = managerAfter core done
  position : s.position = .valid (Core.OrderedMap.position rest) ∨
    ∃ e, e ∈ done.getLast? ∧ s.position = .erased e.1

namespace Explored

variable {plugins : Plugins σ χ} {core : ServicesManager σ}
  {done rest : List (PluginInfo × IPlugin σ χ)} {e : PluginInfo × IPlugin σ χ} {s s' : Loop σ χ}

lemma start (plugins : Plugins σ χ) (core : ServicesManager σ) :
    Explored plugins core [] plugins.entries (Loop.start plugins core) :=
  ⟨rfl, rfl, rfl, rfl, Or.inl rfl⟩

lemma sorted (h : Explored plugins core done rest s) :
    (done ++ rest).Pairwise fun a b => a.1 < b.1 := h.split ▸ plugins.sorted

/-- What is left after the erased element is what comes after the plugins gone through. -/
lemma filter_gt (h : Explored plugins core done rest s)
    (he : e ∈ done.getLast?) : s.plugins.entries.filter (e.1 < ·.1) = rest := by
  have hsorted := h.sorted
  obtain ⟨done, rfl⟩ := List.getLast?_eq_some_iff.mp (Option.mem_def.mp he)
  obtain ⟨hdone, -, hlt⟩ := List.pairwise_append.mp hsorted
  have hle : ∀ d ∈ done ++ [e], ¬ e.1 < d.1 := by
    intro d hd hed
    rcases List.mem_append.mp hd with hd | hd
    · exact asymm hed ((List.pairwise_append.mp hdone).2.2 d hd e (by simp))
    · obtain rfl := List.mem_singleton.mp hd
      exact (Core.OrderedMap.Equivalent.refl d.1).1 hed
  rw [h.entries, List.filter_append, List.filter_eq_nil_iff.mpr, List.filter_eq_self.mpr,
    List.nil_append]
  · intro d hd
    simpa using hlt e (by simp) d hd
  · intro d hd
    simpa using hle d ((survivors_sublist core _).subset hd)

/-- Carrying on changes only where the loop stands. -/
lemma carryOn (h : Explored plugins core done rest s) (hstep : s.step .carryOn = some s') :
    Explored plugins core done rest s' ∧ s'.plugins = s.plugins ∧ s'.turns = s.turns ∧
      s'.manager = s.manager := by
  simp only [Loop.step] at hstep
  rcases h.position with hpos | ⟨e, he, hpos⟩
  · rw [hpos] at hstep
    cases hstep
  · rw [hpos] at hstep
    obtain rfl := Option.some.inj hstep
    refine ⟨⟨h.split, h.entries, h.turns, h.manager, Or.inl ?_⟩, rfl, rfl, rfl⟩
    simp only [h.filter_gt he]

/-- The plugin that comes next takes its turn, and is erased if it fails. -/
lemma done_concat (h : Explored plugins core done (e :: rest) s) {s' : Loop σ χ}
    (hturns : s'.turns = s.turns ++ [takeTurn s.manager e.1 e.2])
    (hmanager : s'.manager = (takeTurn s.manager e.1 e.2).after)
    (hentries : s'.plugins.entries = survivors core (done ++ [e]) ++ rest)
    (hposition : s'.position = .valid (Core.OrderedMap.position rest) ∨
      s'.position = .erased e.1) : Explored plugins core (done ++ [e]) rest s' where
  split := by rw [h.split, List.append_assoc, List.singleton_append]
  entries := hentries
  turns := by
    rw [hturns, h.turns, h.manager, turnsOf_append]
    rfl
  manager := by
    rw [hmanager, h.manager, (after_takeTurn _ _ _).1, managerAfter_append]
    rfl
  position := hposition.imp_right fun hpos => ⟨e, by simp, hpos⟩

lemma survivors_concat (core : ServicesManager σ) (done : List (PluginInfo × IPlugin σ χ))
    (e : PluginInfo × IPlugin σ χ) :
    survivors core (done ++ [e]) = survivors core done ++
      if (takeTurn (managerAfter core done) e.1 e.2).succeeded then [e] else [] := by
  rw [survivors_append, (after_takeTurn _ _ _).2]
  rfl

/-- Erasing the element at which the iterator stands. -/
lemma erase_eq (h : Explored plugins core done (e :: rest) s) :
    (s.plugins.erase e.1).entries = survivors core done ++ rest := by
  have hsorted := h.sorted
  obtain ⟨-, hrest, hlt⟩ := List.pairwise_append.mp hsorted
  have hdone : ∀ d ∈ survivors core done, ¬ Core.Equivalent e.1 d.1 := fun d hd heq =>
    heq.2 (hlt d ((survivors_sublist core done).subset hd) e List.mem_cons_self)
  have hafter : ∀ d ∈ rest, ¬ Core.Equivalent e.1 d.1 := fun d hd heq =>
    heq.1 ((List.pairwise_cons.mp hrest).1 d hd)
  simp only [Core.OrderedMap.erase, h.entries, List.filter_append]
  rw [List.filter_eq_self.mpr (by simpa using hdone),
    List.filter_cons_of_neg (by simpa using Core.OrderedMap.Equivalent.refl e.1),
    List.filter_eq_self.mpr (by simpa using hafter)]

lemma step_turn (h : Explored plugins core done (e :: rest) s)
    (hpos : s.position = .valid (.atKey e.1)) :
    s.plugins.deref (.atKey e.1) = some e ∧
      s.step .turn = some (if (takeTurn s.manager e.1 e.2).succeeded then
        { s with
          manager := (takeTurn s.manager e.1 e.2).after
          turns := s.turns ++ [takeTurn s.manager e.1 e.2]
          position := .valid (Core.OrderedMap.position rest) }
      else
        { s with
          plugins := s.plugins.erase e.1
          manager := (takeTurn s.manager e.1 e.2).after
          turns := s.turns ++ [takeTurn s.manager e.1 e.2]
          position := .erased e.1 }) := by
  have hderef := Core.OrderedMap.deref_of_split h.entries
  have hnext := Core.OrderedMap.next_of_split h.entries
  refine ⟨hderef, ?_⟩
  simp only [Loop.step, hpos, hderef, hnext, Option.bind_eq_bind, Option.bind_some,
    Option.pure_def]
  split_ifs <;> rfl

/-- A turn is the turn of the next plugin. -/
lemma turn (h : Explored plugins core done rest s) (hstep : s.step .turn = some s') :
    ∃ e rest', rest = e :: rest' ∧ s.position = .valid (.atKey e.1) ∧
      s.plugins.deref (.atKey e.1) = some e ∧
      s'.turns = s.turns ++ [takeTurn s.manager e.1 e.2] ∧
      Explored plugins core (done ++ [e]) rest' s' := by
  rcases h.position with hpos | ⟨d, -, hpos⟩
  · cases rest with
    | nil =>
      simp only [Loop.step, hpos] at hstep
      cases hstep
    | cons e rest =>
      obtain ⟨hderef, hturn⟩ := h.step_turn hpos
      have hconcat := survivors_concat core done e
      rw [← h.manager] at hconcat
      obtain rfl := Option.some.inj (hturn.symm.trans hstep)
      refine ⟨e, rest, rfl, hpos, hderef, ?_⟩
      split_ifs with hsucceeded
      · refine ⟨rfl, h.done_concat rfl rfl ?_ (Or.inl rfl)⟩
        rw [h.entries, hconcat, if_pos hsucceeded, List.append_assoc, List.singleton_append]
      · refine ⟨rfl, h.done_concat rfl rfl ?_ (Or.inr rfl)⟩
        rw [h.erase_eq, hconcat, if_neg hsucceeded, List.append_nil]
  · simp only [Loop.step, hpos] at hstep
    cases hstep

lemma mem_keys_iff (h : Explored plugins core done rest s) {t : Turn σ χ}
    (ht : t ∈ s.turns) : t.info ∈ s.plugins.keys ↔ t.succeeded = true := by
  rw [Core.OrderedMap.keys, h.entries]
  exact mem_survivors_iff h.sorted (h.turns ▸ ht)

lemma extends_manager (h : Explored plugins core done rest s) :
    core.Extends (s.turns.flatMap Turn.registered) s.manager := by
  rw [h.turns, h.manager]
  exact extends_turnsOf core done

/-- The loop goes through the plugins in order, whatever happens. -/
lemma of_step (h : Explored plugins core done rest s) {a : LoopLabel}
    (hstep : s.step a = some s') : ∃ done' rest', Explored plugins core done' rest' s' := by
  cases a with
  | turn =>
    obtain ⟨e, rest', -, -, -, -, h'⟩ := h.turn hstep
    exact ⟨_, _, h'⟩
  | carryOn => exact ⟨_, _, (h.carryOn hstep).1⟩

/-- Every state of a run is one of going through the plugins. -/
theorem of_run {labels : List LoopLabel}
    (hrun : Core.run Loop.step (Loop.start plugins core) labels = some s) :
    ∃ done rest, Explored plugins core done rest s :=
  Core.run_invariant (I := fun s => ∃ done rest, Explored plugins core done rest s)
    (fun _ _ _ ⟨_, _, h⟩ hstep => h.of_step hstep) ⟨_, _, start plugins core⟩ hrun

/-! ### The whole loop -/

/-- The rounds that are left, counting the ways out of the handler. -/
def roundsLeft (rest : List (PluginInfo × IPlugin σ χ)) (s : Loop σ χ) : ℕ :=
  match s.position with
  | .valid _ => 2 * rest.length
  | .erased _ => 2 * rest.length + 1

lemma advance (h : Explored plugins core done rest s) {carriesOn : Bool}
    (hstep : s.advance carriesOn = some s') :
    ∃ a done' rest', s.step a = some s' ∧ Explored plugins core done' rest' s' ∧
      roundsLeft rest' s' < roundsLeft rest s := by
  rw [Loop.advance] at hstep
  split at hstep
  · next itr hpos =>
    obtain ⟨e, rest', rfl, -, -, -, h'⟩ := h.turn hstep
    refine ⟨.turn, _, _, hstep, h', ?_⟩
    simp only [roundsLeft, hpos, List.length_cons]
    split <;> omega
  · next info hpos =>
    split_ifs at hstep
    obtain ⟨h', -⟩ := h.carryOn hstep
    refine ⟨.carryOn, _, _, hstep, h', ?_⟩
    simp only [Loop.step, hpos] at hstep
    obtain rfl := Option.some.inj hstep
    simp only [roundsLeft, hpos]
    omega

/-- The loop is a run, and it only stops where it cannot go on. -/
lemma finish (h : Explored plugins core done rest s) (carriesOn : Bool) {fuel : ℕ}
    (hfuel : roundsLeft rest s < fuel) :
    (∃ labels, Core.run Loop.step s labels = some (s.finish carriesOn fuel)) ∧
      (s.finish carriesOn fuel).advance carriesOn = none := by
  induction fuel generalizing done rest s with
  | zero => exact absurd hfuel (Nat.not_lt_zero _)
  | succ fuel ih =>
    rw [Loop.finish]
    cases hstep : s.advance carriesOn with
    | none => exact ⟨⟨[], rfl⟩, hstep⟩
    | some s' =>
      obtain ⟨a, done', rest', ha, h', hlt⟩ := h.advance hstep
      obtain ⟨⟨labels, hrun⟩, hstop⟩ := ih h' (by omega)
      exact ⟨⟨a :: labels, by simp [ha, hrun]⟩, hstop⟩

lemma position_of_advance_eq_none (h : Explored plugins core done rest s) {carriesOn : Bool}
    (hstop : s.advance carriesOn = none) :
    s.position = .valid .pastEnd ∨ carriesOn = false ∧ ∃ info, s.position = .erased info := by
  rcases h.position with hpos | ⟨e, -, hpos⟩
  · cases rest with
    | nil => exact Or.inl hpos
    | cons e rest =>
      simp only [Loop.advance, hpos, Core.OrderedMap.position, (h.step_turn hpos).2] at hstop
      cases hstop
  · refine Or.inr ⟨?_, e.1, hpos⟩
    cases carriesOn with
    | false => rfl
    | true =>
      simp only [Loop.advance, hpos, Loop.step] at hstop
      cases hstop

/-- The loop ends, or it breaks off on an erased element. -/
theorem final (carriesOn : Bool) (plugins : Plugins σ χ) (core : ServicesManager σ) :
    (∃ labels, Core.run Loop.step (Loop.start plugins core) labels =
        some (Loop.final carriesOn plugins core)) ∧
      ((Loop.final carriesOn plugins core).position = .valid .pastEnd ∨
        carriesOn = false ∧
          ∃ info, (Loop.final carriesOn plugins core).position = .erased info) := by
  obtain ⟨hrun, hstop⟩ := (start plugins core).finish carriesOn (Nat.lt_succ_self _)
  obtain ⟨labels, hlabels⟩ := hrun
  obtain ⟨done, rest, h⟩ := of_run hlabels
  exact ⟨⟨labels, hlabels⟩, h.position_of_advance_eq_none hstop⟩

/-- A loop that gets to the end has gone through all plugins. -/
lemma of_pastEnd {carriesOn : Bool}
    (h : (Loop.final carriesOn plugins core).position = .valid .pastEnd) :
    Explored plugins core plugins.entries [] (Loop.final carriesOn plugins core) := by
  obtain ⟨⟨labels, hrun⟩, -⟩ := final carriesOn plugins core
  obtain ⟨done, rest, hexplored⟩ := of_run hrun
  have hrest : rest = [] := by
    rcases hexplored.position with hpos | ⟨e, -, hpos⟩
    · cases rest with
      | nil => rfl
      | cons e rest => cases h.symm.trans hpos
    · cases h.symm.trans hpos
  subst hrest
  rwa [show plugins.entries = done by rw [hexplored.split, List.append_nil]]

lemma initializeFrom_eq (h : Explored plugins core done rest s)
    (hpos : s.position = .valid (Core.OrderedMap.position rest)) {fuel fuel' : ℕ}
    (hfuel : rest.length < fuel) (hfuel' : rest.length < fuel') :
    initializeFrom fuel s.initialization (Core.OrderedMap.position rest) =
      if (s.finish false fuel').position = .valid .pastEnd then
        .ok (s.finish false fuel').initialization
      else .error .erasedIterator := by
  induction rest generalizing fuel fuel' done s with
  | nil =>
    obtain ⟨fuel, rfl⟩ := Nat.exists_eq_succ_of_ne_zero (Nat.ne_of_gt hfuel)
    obtain ⟨fuel', rfl⟩ := Nat.exists_eq_succ_of_ne_zero (Nat.ne_of_gt hfuel')
    have hstop : s.advance false = none := by
      simp only [Loop.advance, hpos, Core.OrderedMap.position, Loop.step]
      rfl
    simp only [Core.OrderedMap.position] at hpos ⊢
    simp only [initializeFrom, Loop.finish, hstop, hpos, if_true]
  | cons e rest ih =>
    obtain ⟨fuel, rfl⟩ := Nat.exists_eq_succ_of_ne_zero (Nat.ne_of_gt (Nat.zero_lt_of_lt hfuel))
    obtain ⟨fuel', rfl⟩ := Nat.exists_eq_succ_of_ne_zero (Nat.ne_of_gt (Nat.zero_lt_of_lt hfuel'))
    have hround := @initializePlugin_of_split _ _ s.initialization _ _ _ h.entries
    obtain ⟨hafter, hsucceeded⟩ := after_takeTurn s.manager e.1 e.2
    have hinfo := (takeTurn_eq s.manager e.1 e.2).1
    have hstep := (h.step_turn hpos).2
    have hadvance : s.advance false = s.step .turn := by rw [Loop.advance, hpos]
    have hnext := Core.OrderedMap.next_of_split h.entries
    obtain ⟨d, rest', hcons, -, -, -, h'⟩ := h.turn hstep
    obtain ⟨rfl, rfl⟩ := List.cons.inj hcons
    have hposition : Core.OrderedMap.position (e :: rest) = .atKey e.1 := rfl
    simp only [hposition, initializeFrom, hround, Loop.finish, hadvance, hstep]
    by_cases hturn : (takeTurn s.manager e.1 e.2).succeeded = true
    · rw [if_pos hturn] at h' ⊢
      have hturn' : (tryInitialize s.initialization.manager e.2).2 = true := hsucceeded ▸ hturn
      have hrest := ih h' rfl (Nat.lt_of_succ_lt_succ hfuel) (Nat.lt_of_succ_lt_succ hfuel')
      rw [if_pos hturn', ← hrest]
      simp only [bind, Except.bind, Loop.initialization, hnext, hafter, hinfo, List.map_append,
        List.map_cons, List.map_nil]
    · rw [if_neg hturn]
      have hturn' : ¬ (tryInitialize s.initialization.manager e.2).2 = true := hsucceeded ▸ hturn
      rw [if_neg hturn', if_neg]
      · rfl
      · cases fuel' <;> simp [Loop.finish, Loop.advance]

end Explored

end EzServer.Introp
