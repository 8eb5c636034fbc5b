import EzServer.Application.CommandTable
import EzServer.Application.DirectoryOrder
import EzServer.Introp.Dependencies

/-!
# From plugin files to calls

The way of a command through `LoadPlugins`, `InitializePlugins`, `LoadCommands` and
`OnMessageReceived`: which files can be behind the procedure that a request calls.
-/

namespace EzServer.Application

open EzServer.Core Services Introp

variable {σ χ : Type}

/-! ### The plugins that are left -/

/-- The entry of a plugin that has had a turn. -/
def entryOf (t : Turn σ χ) : PluginInfo × IPlugin σ χ := (t.info, t.plugin)

lemma survivors_eq_map_filter (manager : ServicesManager σ)
    (es : List (PluginInfo × IPlugin σ χ)) :
    survivors manager es = ((turnsOf manager es).filter Turn.succeeded).map entryOf := by
  induction es generalizing manager with
  | nil => rfl
  | cons e es ih =>
    obtain ⟨hinfo, hplugin, -⟩ := takeTurn_eq manager e.1 e.2
    obtain ⟨hafter, hsucceeded⟩ := after_takeTurn manager e.1 e.2
    rw [survivors, turnsOf]
    dsimp only
    rw [ih, ← hafter, ← hsucceeded]
    split_ifs with h
    · rw [List.filter_cons_of_pos h, List.map_cons, entryOf, hinfo, hplugin]
    · rw [List.filter_cons_of_neg h]

/-- Only plugins of the listing are loaded. -/
lemma mem_loadPlugins {listing : List (PluginFile σ χ)} {e : PluginInfo × IPlugin σ χ}
    (he : e ∈ (pluginsOf listing).entries) :
    e.1 = e.2.info ∧ ∃ file ∈ listing, file.plugin = some e.2 := by
  rw [pluginsOf, loadPlugins_eq] at he
  rcases OrderedMap.mem_emplaceAll he with he | he
  · obtain ⟨plugin, hplugin, rfl⟩ := List.mem_map.mp he
    obtain ⟨file, hfile, hsome⟩ := List.mem_filterMap.mp hplugin
    exact ⟨rfl, file, (List.takeWhile_prefix _).subset hfile, hsome⟩
  · cases he

/-- `LoadCommands` only returns if no plugin throws past it. -/
lemma loadCommands_returned {plugins : List (IPlugin σ χ)} {table : Commands χ}
    (h : (loadCommands table plugins).2 = true) :
    ∀ plugin ∈ plugins, plugin.getCommands ≠ .threw false := by
  induction plugins generalizing table with
  | nil => simp
  | cons plugin plugins ih =>
    rw [loadCommands] at h
    intro p hp
    cases hcommands : plugin.getCommands with
    | returned exported =>
      rw [hcommands] at h
      rcases List.mem_cons.mp hp with rfl | hp
      · simp [hcommands]
      · exact ih h p hp
    | threw isStd =>
      cases isStd with
      | true =>
        rw [hcommands] at h
        rcases List.mem_cons.mp hp with rfl | hp
        · simp [hcommands]
        · exact ih h p hp
      | false =>
        rw [hcommands] at h
        cases h

/-- What `LoadPlugins` leaves behind when it returns true: the turns of all plugins in ascending
order, the plugins that have succeeded, and their commands. -/
structure Settled (listing : List (PluginFile σ χ)) (out : Loaded σ χ) : Prop where
  loaded : ∀ t ∈ out.turns, t.info = t.plugin.info ∧ ∃ file ∈ listing, file.plugin = some t.plugin
  sorted : out.turns.Pairwise fun t t' => t.info < t'.info
  entries : out.plugins.entries = (out.turns.filter Turn.succeeded).map entryOf
  commands : ∀ key c, out.commands.lookup key = some c ↔
    commandsPattern.fullMatch key = true ∧ IsFirst out.plugins.values key c

/-- When the loop of `InitializePlugins` and that of `LoadCommands` are left at their ends. -/
lemma startPlugins_returned_iff {carriesOn : Bool} {plugins : Plugins σ χ}
    {manager : ServicesManager σ} :
    (startPlugins carriesOn plugins manager).ending = .returned true ↔
      (Loop.final carriesOn plugins manager).position = .valid .pastEnd ∧
        (loadCommands [] (Loop.final carriesOn plugins manager).plugins.values).2 = true := by
  rw [startPlugins]
  dsimp only
  obtain ⟨-, hend | ⟨-, info, herased⟩⟩ := Explored.final carriesOn plugins manager
  · rw [hend]
    simp
  · rw [herased]
    simp

lemma settled_startPlugins {carriesOn : Bool} {listing : List (PluginFile σ χ)}
    {manager : ServicesManager σ}
    (h : (startPlugins carriesOn (pluginsOf listing) manager).ending = .returned true) :
    Settled listing (startPlugins carriesOn (pluginsOf listing) manager) := by
  generalize hplugins : pluginsOf listing = plugins at h ⊢
  obtain ⟨hend, hreturned⟩ := startPlugins_returned_iff.mp h
  have hexplored := Explored.of_pastEnd hend
  rw [startPlugins, hend]
  constructor
  · intro t ht
    have hmem : entryOf t ∈ plugins.entries := by
      rw [← map_turnsOf manager plugins.entries, ← hexplored.turns]
      exact List.mem_map_of_mem ht
    exact mem_loadPlugins (hplugins ▸ hmem)
  · exact hexplored.turns_sorted
  · show (Loop.final carriesOn plugins manager).plugins.entries = _
    rw [hexplored.entries, List.append_nil, survivors_eq_map_filter, ← hexplored.turns]
  · intro key c
    rw [(lookup_loadCommands [] (loadCommands_returned hreturned)).2 key, List.lookup_nil,
      Option.none_or]
    exact findSome?_eq_some_iff_isFirst

lemma settled_loadPlugins {carriesOn : Bool} {listing : List (PluginFile σ χ)}
    {manager : ServicesManager σ}
    (h : (loadPlugins carriesOn listing manager).ending = .returned true) :
    Settled listing (loadPlugins carriesOn listing manager) := by
  cases herror : listing.findSome? PluginFile.error with
  | some e =>
    obtain ⟨ending, hne, hout⟩ := @loadPlugins_of_error _ _ carriesOn _ manager _ herror
    rw [hout] at h
    exact absurd h hne
  | none =>
    rw [loadPlugins_of_contained herror] at h ⊢
    split_ifs at h ⊢ with hempty
    · constructor
      · intro t ht
        cases ht
      · exact List.Pairwise.nil
      · exact List.isEmpty_iff.mp hempty
      · intro key c
        constructor
        · intro hlookup
          cases hlookup
        · rintro ⟨-, before, plugin, after, l, r, hvalues, -⟩
          rw [OrderedMap.values, List.isEmpty_iff.mp hempty, List.map_nil] at hvalues
          simp at hvalues
    · exact settled_startPlugins h

/-! ### Calls -/

/-- Nothing that the plugin exports has the key. -/
def Silent (plugin : IPlugin σ χ) (key : List UInt8) : Prop :=
  ∀ exported, plugin.getCommands = .returned exported → ∀ d ∈ exported, d.key ≠ key

/-- The turn has succeeded, its plugin exports the command as the first one of the key, and no
plugin of smaller priority whose turn has succeeded exports one. -/
structure Serves (out : Loaded σ χ) (key : List UInt8) (t : Turn σ χ) (c : ExportedCommand χ) :
    Prop where
  turn : t ∈ out.turns
  succeeded : t.succeeded = true
  exports : ∃ l r, t.plugin.getCommands = .returned (l ++ c :: r) ∧ c.key = key ∧
    ∀ d ∈ l, d.key ≠ key
  first : ∀ t' ∈ out.turns, t'.succeeded = true →
    t'.plugin.info.priority < t.plugin.info.priority → Silent t'.plugin key

/-- The first command of a key in the map is that of a turn. -/
lemma Settled.isFirst_iff {listing : List (PluginFile σ χ)} {out : Loaded σ χ}
    (h : Settled listing out) {key : List UInt8} {c : ExportedCommand χ} :
    IsFirst out.plugins.values key c ↔ ∃ t, Serves out key t c := by
  have hvalues : out.plugins.values = (out.turns.filter Turn.succeeded).map Turn.plugin := by
    rw [OrderedMap.values, h.entries, List.map_map]
    rfl
  have hsorted : (out.turns.filter Turn.succeeded).Pairwise fun t t' => t.info < t'.info :=
    h.sorted.filter _
  have hkept : ∀ t, t ∈ out.turns.filter Turn.succeeded ↔
      t ∈ out.turns ∧ t.succeeded = true := fun t => List.mem_filter
  rw [hvalues]
  constructor
  · rintro ⟨before, plugin, after, l, r, hsplit, hcommands, hkey, hl, hbefore⟩
    obtain ⟨earlier, rest, hturns, rfl, hrest⟩ := List.map_eq_append_iff.mp hsplit
    obtain ⟨t, later, rfl, rfl, rfl⟩ := List.map_eq_cons_iff.mp hrest
    obtain ⟨ht, hsucceeded⟩ := (hkept t).mp (hturns ▸ by simp)
    refine ⟨t, ht, hsucceeded, ⟨l, r, hcommands, hkey, hl⟩, ?_⟩
    intro t' ht' hsucceeded' hlt
    rw [hturns] at hsorted
    obtain ⟨-, hlater, -⟩ := List.pairwise_append.mp hsorted
    have hmem : t' ∈ earlier ++ t :: later := hturns ▸ (hkept t').mpr ⟨ht', hsucceeded'⟩
    rw [← (h.loaded t' ht').1, ← (h.loaded t ht).1] at hlt
    rcases List.mem_append.mp hmem with hmem | hmem
    · exact hbefore _ (List.mem_map_of_mem hmem)
    · -- the others come after `t`
      rcases List.mem_cons.mp hmem with rfl | hmem
      · exact absurd hlt (OrderedMap.Equivalent.refl t'.info).1
      · exact absurd hlt (asymm ((List.pairwise_cons.mp hlater).1 t' hmem))
  · rintro ⟨t, ht, hsucceeded, ⟨l, r, hcommands, hkey, hl⟩, hfirst⟩
    obtain ⟨earlier, later, hturns⟩ := List.append_of_mem ((hkept t).mpr ⟨ht, hsucceeded⟩)
    rw [hturns] at hsorted ⊢
    obtain ⟨-, -, hearlier⟩ := List.pairwise_append.mp hsorted
    refine ⟨earlier.map Turn.plugin, t.plugin, later.map Turn.plugin, l, r, by simp, hcommands,
      hkey, hl, ?_⟩
    intro p hp
    obtain ⟨t', ht', rfl⟩ := List.mem_map.mp hp
    obtain ⟨hmem, hsucceeded'⟩ := (hkept t').mp (hturns ▸ List.mem_append_left _ ht')
    apply hfirst t' hmem hsucceeded'
    rw [← (h.loaded t' hmem).1, ← (h.loaded t ht).1]
    exact hearlier t' ht' t List.mem_cons_self

/-- A request finds the command of the turn that serves its key. -/
lemma Settled.lookup_iff {listing : List (PluginFile σ χ)} {out : Loaded σ χ}
    (h : Settled listing out) {message : List UInt8} (hrequest : IsRequest message)
    (c : ExportedCommand χ) :
    out.commands.lookup (keyPart message) = some c ↔ ∃ t, Serves out (keyPart message) t c := by
  rw [h.commands, h.isFirst_iff]
  exact and_iff_right (fullMatch_commandsPattern.mpr hrequest.1)

/-- What a message calls is what its key is bound to. -/
lemma call_mem_actions {behaviour : χ → List UInt8 → CommandRun} {commands : Commands χ}
    {message args : List UInt8} {command : χ} {run : CommandRun} :
    Action.call command args run ∈ (onMessageReceived behaviour commands message).actions ↔
      IsRequest message ∧ args = argumentPart message ∧ run = behaviour command args ∧
        ∃ c, commands.lookup (keyPart message) = some c ∧ c.command = command := by
  by_cases hrequest : IsRequest message
  · rw [actions_of_isRequest hrequest]
    cases hcommand : commands.lookup (keyPart message) with
    | none => simp
    | some c =>
      constructor
      · intro hcall
        obtain ⟨rfl, rfl, rfl⟩ : command = c.command ∧ args = argumentPart message ∧
            run = behaviour c.command (argumentPart message) := by simpa using hcall
        exact ⟨hrequest, rfl, rfl, c, rfl, rfl⟩
      · rintro ⟨-, rfl, rfl, c', hc', rfl⟩
        obtain rfl := Option.some.inj hc'
        exact List.mem_cons_of_mem _ List.mem_cons_self
  · rw [actions_of_not_isRequest hrequest]
    simp [hrequest]

/-- When `LoadPlugins` has returned true, a message calls a procedure if and only if it is a request
and the procedure is that of the first command of its key: of all plugins from files of the listing
whose turn has succeeded, the one of smallest priority that exports the key has it as its first. A
request of a key that no such plugin exports is answered with `kCommandNotFound`. -/
theorem call_iff_serves {carriesOn : Bool} {listing : List (PluginFile σ χ)}
    {manager : ServicesManager σ}
    (hreturned : (loadPlugins carriesOn listing manager).ending = .returned true)
    (behaviour : χ → List UInt8 → CommandRun) (message : List UInt8) :
    let out := loadPlugins carriesOn listing manager
    let done := (onMessageReceived behaviour out.commands message).actions
    (∀ t ∈ out.turns, ∃ file ∈ listing, file.plugin = some t.plugin) ∧
      (∀ command args run, .call command args run ∈ done ↔
        IsRequest message ∧ args = argumentPart message ∧ run = behaviour command args ∧
          ∃ t c, Serves out (keyPart message) t c ∧ c.command = command) ∧
      (IsRequest message → (∀ t c, ¬ Serves out (keyPart message) t c) →
        done = [.find (keyPart message),
          .respond .kCommandNotFound (keyPart message ++ text ": No such command!") 0]) := by
  intro out done
  have h : Settled listing out := settled_loadPlugins hreturned
  refine ⟨fun t ht => (h.loaded t ht).2, fun command args run => ?_, fun hrequest hnone => ?_⟩
  · rw [call_mem_actions]
    constructor
    · rintro ⟨hrequest, rfl, rfl, c, hc, rfl⟩
      obtain ⟨t, ht⟩ := (h.lookup_iff hrequest c).mp hc
      exact ⟨hrequest, rfl, rfl, t, c, ht, rfl⟩
    · rintro ⟨hrequest, rfl, rfl, t, c, ht, rfl⟩
      exact ⟨hrequest, rfl, rfl, c, (h.lookup_iff hrequest c).mpr ⟨t, ht⟩, rfl⟩
  · have hcommand : out.commands.lookup (keyPart message) = none := by
      rw [Option.eq_none_iff_forall_ne_some]
      intro c hc
      obtain ⟨t, ht⟩ := (h.lookup_iff hrequest c).mp hc
      exact hnone t c ht
    show (onMessageReceived behaviour out.commands message).actions = _
    rw [actions_of_isRequest hrequest, hcommand]

/-- A plugin file whose plugin exports the command `/a:b`. -/
def exportingFile (priority : UInt32) (command : Bool) : PluginFile Unit Bool where
  path := "plugin.so"
  kind := .regular
  opens := true
  hasFactory := true
  factory := .returned
    (some (exporting "plugin" priority (.returned [⟨text "/a", text "b", command⟩])))

/-- The second of two files has the plugin of smaller priority. -/
theorem call_iff_serves_two :
    let listing := [exportingFile 2 false, exportingFile 1 true]
    let out := loadPlugins false listing ⟨[]⟩
    let done := (onMessageReceived (fun _ _ => ⟨[], .returned .kSuccess⟩) out.commands
      (text "/a:b c")).actions
    out.ending = .returned true ∧
      (∀ t ∈ out.turns, ∃ file ∈ listing, file.plugin = some t.plugin) ∧
      (∀ command args run, .call command args run ∈ done ↔
        IsRequest (text "/a:b c") ∧ args = argumentPart (text "/a:b c") ∧
          run = ⟨[], .returned .kSuccess⟩ ∧
          ∃ t c, Serves out (keyPart (text "/a:b c")) t c ∧ c.command = command) ∧
      (IsRequest (text "/a:b c") → (∀ t c, ¬ Serves out (keyPart (text "/a:b c")) t c) →
        done = [.find (keyPart (text "/a:b c")),
          .respond .kCommandNotFound
            (keyPart (text "/a:b c") ++ text ": No such command!") 0]) :=
  ⟨rfl, @call_iff_serves _ _ false _ _ rfl _ _⟩

end EzServer.Application
