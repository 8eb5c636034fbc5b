import EzServer.Application.CommandNames

/-!
# The table of commands

`LoadCommands` fills the table of the application, where the first command under a key stays. A key
is glued together of a path and a name, and can be taken apart again, as the pattern lets the `:`
between them be the only one.
-/

namespace EzServer.Application

open EzServer.Core EzServer.Core.Regex Introp

variable {σ χ : Type}

/-! ### Keys -/

lemma colon_ne_of_isSegmentByte {c : UInt8} (h : isSegmentByte c = true) : c ≠ byte ':' := by
  rintro rfl
  revert h
  decide

lemma colon_ne_of_isWord {c : UInt8} (h : isWord c = true) : c ≠ byte ':' :=
  colon_ne_of_isSegmentByte (by simp [isSegmentByte, h])

lemma IsSegment.colon_notMem {s : List UInt8} (hs : IsSegment s) : byte ':' ∉ s := by
  obtain ⟨name, -, hname, rfl⟩ := hs
  intro hmem
  rcases List.mem_cons.mp hmem with heq | hmem
  · exact absurd heq (by decide)
  · exact colon_ne_of_isSegmentByte (hname _ hmem) rfl

/-- A key is cut at its `:` in one way only. -/
lemma IsKey.exists_cut {k : List UInt8} (hk : IsKey k) : ∃ path name : List UInt8,
    ∀ p n : List UInt8, k = p ++ byte ':' :: n → p = path ∧ n = name := by
  obtain ⟨segments, name, -, hsegments, -, hname, rfl⟩ := hk
  refine ⟨segments.flatten, name, fun p n heq => ?_⟩
  have hpath : byte ':' ∉ segments.flatten := by
    intro hmem
    obtain ⟨s, hs, hcolon⟩ := List.mem_flatten.mp hmem
    exact (hsegments s hs).colon_notMem hcolon
  have hrest : byte ':' ∉ name := fun hmem => colon_ne_of_isWord (hname _ hmem) rfl
  obtain ⟨hp, -, hn⟩ := (List.append_cons_inj_of_notMem hpath hrest).mp heq
  exact ⟨hp.symm, hn.symm⟩

/-- Two commands that the loader takes under the same key have the same path and the same name. -/
theorem path_name_of_key {χ' : Type} {c : ExportedCommand χ} {d : ExportedCommand χ'}
    (heq : c.key = d.key) (haccepted : commandsPattern.fullMatch c.key = true) :
    c.path = d.path ∧ c.name = d.name := by
  obtain ⟨path, name, hcut⟩ := (fullMatch_commandsPattern.mp haccepted).exists_cut
  obtain ⟨hpath, hname⟩ := hcut c.path c.name rfl
  obtain ⟨hpath', hname'⟩ := hcut d.path d.name heq
  exact ⟨hpath.trans hpath'.symm, hname.trans hname'.symm⟩

/-- Two plugins that export a command `/a:b` each. -/
theorem path_name_of_key_ab :
    let c : ExportedCommand Bool := ⟨text "/a", text "b", true⟩
    let d : ExportedCommand Bool := ⟨text "/a", text "b", false⟩
    c.path = d.path ∧ c.name = d.name :=
  path_name_of_key rfl (fullMatch_commandsPattern.mpr isKey_ab)

/-! ### The first command wins -/

/-- The commands that a plugin exports; none if it throws. -/
def exportedCommands (plugin : IPlugin σ χ) : List (ExportedCommand χ) :=
  match plugin.getCommands with
  | .returned exported => exported
  | .threw _ => []

lemma exportedCommands_of_returned {plugin : IPlugin σ χ} {exported : List (ExportedCommand χ)}
    (h : plugin.getCommands = .returned exported) : exportedCommands plugin = exported := by
  rw [exportedCommands, h]

lemma exportedCommands_of_threw {plugin : IPlugin σ χ} {isStd : Bool}
    (h : plugin.getCommands = .threw isStd) : exportedCommands plugin = [] := by
  rw [exportedCommands, h]

/-- The loader takes the command under the key. -/
def isLoadedAs (key : List UInt8) (c : ExportedCommand χ) : Bool :=
  commandsPattern.fullMatch c.key && c.key == key

lemma isLoadedAs_iff {key : List UInt8} {c : ExportedCommand χ} :
    isLoadedAs key c = true ↔ c.key = key ∧ commandsPattern.fullMatch key = true := by
  rw [isLoadedAs, Bool.and_eq_true, beq_iff_eq]
  constructor
  · rintro ⟨haccepted, rfl⟩
    exact ⟨rfl, haccepted⟩
  · rintro ⟨rfl, haccepted⟩
    exact ⟨haccepted, rfl⟩

lemma lookup_emplace (table : Commands χ) (c : ExportedCommand χ) (key : List UInt8) :
    (table.emplace c.key c).lookup key =
      (table.lookup key).or (if c.key == key then some c else none) := by
  rw [Commands.emplace]
  by_cases hkey : c.key = key
  · subst hkey
    cases hlookup : table.lookup c.key <;> simp [hlookup]
  · have hkey' : (key == c.key) = false := by simpa using Ne.symm hkey
    have hnone : (if c.key == key then some c else none) = none := if_neg (by simpa using hkey)
    rw [hnone, Option.or_none]
    split_ifs
    · rfl
    · rw [List.lookup_cons, hkey']

/-- The commands of a plugin go where the table has no entry yet, the first one of each key. -/
lemma lookup_loadExported (table : Commands χ) (exported : List (ExportedCommand χ))
    (key : List UInt8) :
    (loadExported table exported).lookup key =
      (table.lookup key).or (exported.find? (isLoadedAs key)) := by
  induction exported generalizing table with
  | nil => simp [loadExported]
  | cons c exported ih =>
    rw [loadExported, List.find?_cons]
    cases haccepted : commandsPattern.fullMatch c.key with
    | false => simpa [isLoadedAs, haccepted] using ih table
    | true =>
      simp only [Bool.not_true, Bool.false_eq_true, if_false, ih, lookup_emplace, Option.or_assoc]
      congr 1
      cases hkey : c.key == key <;> simp [isLoadedAs, haccepted, hkey]

/-- So do the commands of all plugins, and no exception leaves the loop. -/
lemma lookup_loadCommands (table : Commands χ) {plugins : List (IPlugin σ χ)}
    (hstd : ∀ plugin ∈ plugins, plugin.getCommands ≠ .threw false) :
    (loadCommands table plugins).2 = true ∧ ∀ key,
      (loadCommands table plugins).1.lookup key =
        (table.lookup key).or
          (plugins.findSome? fun plugin => (exportedCommands plugin).find? (isLoadedAs key)) := by
  induction plugins generalizing table with
  | nil => simp [loadCommands]
  | cons plugin plugins ih =>
    have hrest := fun p hp => hstd p (List.mem_cons_of_mem _ hp)
    rw [loadCommands]
    cases hcommands : plugin.getCommands with
    | returned exported =>
      obtain ⟨hreturned, hlookup⟩ := ih (loadExported table exported) hrest
      refine ⟨hreturned, fun key => ?_⟩
      rw [hlookup, lookup_loadExported, Option.or_assoc, List.findSome?_cons,
        exportedCommands_of_returned hcommands]
      cases exported.find? (isLoadedAs key) <;> rfl
    | threw isStd =>
      cases isStd with
      | true =>
        obtain ⟨hreturned, hlookup⟩ := ih table hrest
        refine ⟨hreturned, fun key => ?_⟩
        rw [hlookup, List.findSome?_cons, exportedCommands_of_threw hcommands]
        rfl
      | false => exact absurd hcommands (hstd plugin List.mem_cons_self)

/-- The command is the first of all plugins' that the loader takes under the key. -/
def IsFirst (plugins : List (IPlugin σ χ)) (key : List UInt8) (c : ExportedCommand χ) : Prop :=
  ∃ before plugin after l r, plugins = before ++ plugin :: after ∧
    plugin.getCommands = .returned (l ++ c :: r) ∧ c.key = key ∧ (∀ d ∈ l, d.key ≠ key) ∧
    ∀ p ∈ before, ∀ exported, p.getCommands = .returned exported → ∀ d ∈ exported, d.key ≠ key

lemma find?_isLoadedAs_eq_none_iff {key : List UInt8}
    (haccepted : commandsPattern.fullMatch key = true) {exported : List (ExportedCommand χ)} :
    exported.find? (isLoadedAs key) = none ↔ ∀ d ∈ exported, d.key ≠ key := by
  rw [List.find?_eq_none]
  constructor
  · intro h d hd hkey
    exact h d hd (isLoadedAs_iff.mpr ⟨hkey, haccepted⟩)
  · intro h d hd hloaded
    exact h d hd (isLoadedAs_iff.mp hloaded).1

/-- The search through the plugins finds the first command of an accepted key. -/
lemma findSome?_eq_some_iff_isFirst {plugins : List (IPlugin σ χ)} {key : List UInt8}
    {c : ExportedCommand χ} :
    (plugins.findSome? fun plugin => (exportedCommands plugin).find? (isLoadedAs key)) = some c ↔
      commandsPattern.fullMatch key = true ∧ IsFirst plugins key c := by
  rw [List.findSome?_eq_some_iff]
  constructor
  · rintro ⟨before, plugin, after, rfl, hfind, hbefore⟩
    obtain ⟨hloaded, l, r, hexported, hl⟩ := List.find?_eq_some_iff_append.mp hfind
    obtain ⟨hkey, haccepted⟩ := isLoadedAs_iff.mp hloaded
    refine ⟨haccepted, before, plugin, after, l, r, rfl, ?_, hkey, ?_, ?_⟩
    · cases hcommands : plugin.getCommands with
      | returned exported =>
        rw [← hexported, exportedCommands_of_returned hcommands]
      | threw isStd => simp [exportedCommands_of_threw hcommands] at hexported
    · apply (find?_isLoadedAs_eq_none_iff haccepted).mp
      rw [List.find?_eq_none]
      intro d hd
      simpa using hl d hd
    · intro p hp exported hcommands
      apply (find?_isLoadedAs_eq_none_iff haccepted).mp
      have hnone := hbefore p hp
      rwa [exportedCommands_of_returned hcommands] at hnone
  · rintro ⟨haccepted, before, plugin, after, l, r, rfl, hcommands, hkey, hl, hbefore⟩
    refine ⟨before, plugin, after, rfl, ?_, ?_⟩
    · rw [exportedCommands_of_returned hcommands, List.find?_append,
        (find?_isLoadedAs_eq_none_iff haccepted).mpr hl, Option.none_or]
      exact List.find?_cons_of_pos (isLoadedAs_iff.mpr ⟨hkey, haccepted⟩)
    · intro p hp
      cases hcommands' : p.getCommands with
      | returned exported =>
        rw [exportedCommands_of_returned hcommands']
        exact (find?_isLoadedAs_eq_none_iff haccepted).mpr (hbefore p hp exported hcommands')
      | threw isStd =>
        rw [exportedCommands_of_threw hcommands']
        rfl

/-- An accepted key that some plugin exports has a first command. -/
lemma exists_isFirst_iff {plugins : List (IPlugin σ χ)} {key : List UInt8} :
    (∃ c, commandsPattern.fullMatch key = true ∧ IsFirst plugins key c) ↔
      ∃ plugin ∈ plugins, ∃ exported, plugin.getCommands = .returned exported ∧
        ∃ c ∈ exported, c.key = key ∧ commandsPattern.fullMatch key = true := by
  constructor
  · rintro ⟨c, haccepted, before, plugin, after, l, r, rfl, hcommands, hkey, -, -⟩
    exact ⟨plugin, by simp, _, hcommands, c, by simp, hkey, haccepted⟩
  · rintro ⟨plugin, hplugin, exported, hcommands, c, hc, hkey, haccepted⟩
    have hsome : (plugins.findSome? fun plugin =>
        (exportedCommands plugin).find? (isLoadedAs key)).isSome = true := by
      rw [List.findSome?_isSome_iff]
      refine ⟨plugin, hplugin, ?_⟩
      rw [exportedCommands_of_returned hcommands, List.find?_isSome]
      exact ⟨c, hc, isLoadedAs_iff.mpr ⟨hkey, haccepted⟩⟩
    obtain ⟨d, hd⟩ := Option.isSome_iff_exists.mp hsome
    exact ⟨d, findSome?_eq_some_iff_isFirst.mp hd⟩

/-- `LoadCommands` returns, whatever the plugins export and whichever of them throw. Then a key is
bound exactly if it was bound before or some plugin exports a command that is accepted under it;
what was bound stays; and what was not is bound to the first such command, in ascending order of the
priorities and, for each plugin, in the order of its list. -/
theorem loadCommands_first_wins (plugins : Plugins σ χ) (table : Commands χ)
    (hstd : ∀ plugin ∈ plugins.values, plugin.getCommands ≠ .threw false) :
    let out := loadCommands table plugins.values
    out.2 = true ∧
      (∀ key, out.1.lookup key ≠ none ↔ table.lookup key ≠ none ∨
        ∃ plugin ∈ plugins.values, ∃ exported, plugin.getCommands = .returned exported ∧
          ∃ c ∈ exported, c.key = key ∧ commandsPattern.fullMatch key = true) ∧
      (∀ key c, table.lookup key = some c → out.1.lookup key = some c) ∧
      (∀ key c, table.lookup key = none → (out.1.lookup key = some c ↔
        commandsPattern.fullMatch key = true ∧ IsFirst plugins.values key c)) ∧
      plugins.entries.Pairwise fun a b => a.1.priority < b.1.priority := by
  intro out
  obtain ⟨hreturned, hlookup⟩ := lookup_loadCommands table hstd
  refine ⟨hreturned, ?_, ?_, ?_, plugins.sorted⟩
  · intro key
    rw [← exists_isFirst_iff, hlookup]
    cases hbefore : table.lookup key with
    | some c => simp
    | none =>
      rw [Option.none_or, Option.ne_none_iff_exists']
      simp only [findSome?_eq_some_iff_isFirst, ne_eq, not_true_eq_false, false_or]
  · intro key c hbefore
    rw [hlookup, hbefore]
    rfl
  · intro key c hbefore
    rw [hlookup, hbefore, Option.none_or]
    exact findSome?_eq_some_iff_isFirst

/-- A plugin with the given commands. -/
def exporting (name : String) (priority : UInt32) (commands : CommandsResult Bool) :
    IPlugin Unit Bool where
  info := ⟨name, priority⟩
  requires := []
  initializeWith := fun _ => .ends (.returned true)
  registerServices := .ends (.returned true)
  getCommands := commands
  lib := none

/-- The second plugin of two exports `/a:b` twice, the first one throws. -/
theorem loadCommands_first_wins_two :
    let throwing := exporting "throwing" 1 (.threw true)
    let twice := exporting "twice" 2
      (.returned [⟨text "/a", text "b", true⟩, ⟨text "/a", text "b", false⟩])
    let plugins := (OrderedMap.empty.emplace twice.info twice).emplace throwing.info throwing
    let out := loadCommands [] plugins.values
    out.2 = true ∧
      (∀ key, out.1.lookup key ≠ none ↔ ([] : Commands Bool).lookup key ≠ none ∨
        ∃ plugin ∈ plugins.values, ∃ exported, plugin.getCommands = .returned exported ∧
          ∃ c ∈ exported, c.key = key ∧ commandsPattern.fullMatch key = true) ∧
      (∀ key c, ([] : Commands Bool).lookup key = some c → out.1.lookup key = some c) ∧
      (∀ key c, ([] : Commands Bool).lookup key = none → (out.1.lookup key = some c ↔
        commandsPattern.fullMatch key = true ∧ IsFirst plugins.values key c)) ∧
      plugins.entries.Pairwise fun a b => a.1.priority < b.1.priority := by
  intro throwing twice plugins
  apply loadCommands_first_wins
  intro plugin hplugin
  have hvalues : plugins.values = [throwing, twice] := rfl
  rw [hvalues] at hplugin
  rcases List.mem_cons.mp hplugin with rfl | hplugin
  · simp [throwing, exporting]
  · rw [List.mem_singleton.mp hplugin]
    simp [twice, exporting]

end EzServer.Application
