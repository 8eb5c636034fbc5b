import EzServer.Application.RequestGrammar

/-!
# Names of commands

The loader and the dispatcher have a pattern each for the key of a command. They are not written
alike, but they accept the same keys.
-/

namespace EzServer.Application

open EzServer.Core EzServer.Core.Regex Introp Net

variable {χ : Type}

/-- The pattern of the loader without its anchors. -/
def loadedKey : Regex UInt8 :=
  .seq (.plus (.group 1 (.seq (.one (· == byte '/')) (.plus (.one isPathByte)))))
    (.seq (.one (· == byte ':')) (.plus (.one isWord)))

/-- The two patterns differ only in what they capture. -/
lemma language_loadedKey : loadedKey.language = requestKey.language := rfl

lemma outcomes_commandsPattern (k : List UInt8) :
    commandsPattern.outcomes k = (Regex.seq .lineStart (.seq loadedKey .lineEnd)).outcomes k := by
  funext x
  simp only [commandsPattern, loadedKey, outcomes, List.flatMap_assoc]

/-- The loader accepts exactly the keys. -/
lemma fullMatch_commandsPattern {k : List UInt8} :
    commandsPattern.fullMatch k = true ↔ IsKey k := by
  rw [fullMatch, outcomes_commandsPattern, ← mem_language_requestKey, ← language_loadedKey]
  exact fullMatch_anchored rfl k

/-- A message is parsed to a key and an argument. -/
def ParsesTo (message k a : List UInt8) : Prop :=
  (requestPattern.search message).map (fun matched => (str matched 1, str matched 2)) = some (k, a)

lemma parsesTo_of_isRequest {message : List UInt8} (h : IsRequest message) :
    ParsesTo message (keyPart message) (argumentPart message) := by
  obtain ⟨matched, hsearch, hkey, hargument⟩ := (search_requestPattern message).1 h
  rw [ParsesTo, hsearch, Option.map_some, hkey, hargument]

/-- A key, whitespace and a rest that does not begin with whitespace. -/
lemma parsesTo_append {k s t : List UInt8} (hk : IsKey k) (hs : s ≠ [])
    (hspace : ∀ c ∈ s, isSpace c = true) (ht : t.takeWhile isSpace = [])
    (hline : byte '\n' ∉ chomp t ∧ byte '\r' ∉ chomp t) :
    ParsesTo (k ++ (s ++ t)) k (chomp t) := by
  obtain ⟨hkey, hspacePart, hargument⟩ := parts_of_append hk.isSpace_eq hs hspace ht
  have hrequest : IsRequest (k ++ (s ++ t)) := by
    rw [IsRequest, hkey, hspacePart, hargument]
    exact ⟨hk, hs, hline⟩
  have hparses := parsesTo_of_isRequest hrequest
  rwa [hkey, hargument] at hparses

/-- A key, whitespace and an argument in one line. -/
lemma parsesTo_argument {k w a : List UInt8} (hk : IsKey k) (hw : w ≠ [])
    (hspace : ∀ c ∈ w, isSpace c = true) (hline : byte '\n' ∉ a ∧ byte '\r' ∉ a)
    (hstart : ∀ c ∈ a.head?, isSpace c = false) : ParsesTo (k ++ w ++ a) k a := by
  have hchomp : chomp a = a := chomp_eq_self (forall_isDot_iff.mpr hline)
  have ha : a.takeWhile isSpace = [] := by
    cases a with
    | nil => rfl
    | cons c a => simp [hstart c rfl]
  have hparses := parsesTo_append hk hw hspace ha (by rwa [hchomp])
  rwa [hchomp, ← List.append_assoc] at hparses

/-- A newline at the end belongs to the whitespace if there is no argument, and else is dropped. -/
lemma parsesTo_argument_newline {k w a : List UInt8} (hk : IsKey k) (hw : w ≠ [])
    (hspace : ∀ c ∈ w, isSpace c = true) (hline : byte '\n' ∉ a ∧ byte '\r' ∉ a)
    (hstart : ∀ c ∈ a.head?, isSpace c = false) :
    ParsesTo (k ++ w ++ a ++ [byte '\n']) k a := by
  cases a with
  | nil =>
    have hall : ∀ c ∈ w ++ [byte '\n'], isSpace c = true := by
      intro c hc
      rcases List.mem_append.mp hc with hc | hc
      · exact hspace c hc
      · rw [List.mem_singleton.mp hc]
        decide
    have hparses := parsesTo_append (t := []) hk (by simp) hall rfl (by simp [chomp])
    simpa [chomp] using hparses
  | cons c a =>
    have hparses := parsesTo_append (t := c :: a ++ [byte '\n']) hk hw hspace
      (by simp [hstart c rfl]) (by rwa [chomp_append_newline])
    rw [chomp_append_newline] at hparses
    simpa using hparses

/-- Only requests are looked up, under their keys. -/
lemma find_mem_actions_iff {behaviour : χ → List UInt8 → CommandRun} {commands : Commands χ}
    {message k : List UInt8} :
    .find k ∈ (onMessageReceived behaviour commands message).actions ↔
      IsRequest message ∧ k = keyPart message := by
  by_cases h : IsRequest message
  · rw [actions_of_isRequest h]
    cases commands.lookup (keyPart message) <;> simp [h]
  · rw [actions_of_not_isRequest h]
    simp [h]

/-- The loader accepts a key if and only if some message looks it up; and whatever argument in one
line follows such a key and whitespace, with a final newline or without, key and argument are what
the dispatcher reads. -/
theorem names_agree (behaviour : χ → List UInt8 → CommandRun) (commands : Commands χ)
    (k : List UInt8) :
    (commandsPattern.fullMatch k = true ↔
      ∃ message, .find k ∈ (onMessageReceived behaviour commands message).actions) ∧
    (commandsPattern.fullMatch k = true →
      ∀ w a, w ≠ [] → (∀ c ∈ w, isSpace c = true) → byte '\n' ∉ a → byte '\r' ∉ a →
        (∀ c ∈ a.head?, isSpace c = false) →
        ParsesTo (k ++ w ++ a) k a ∧ ParsesTo (k ++ w ++ a ++ [byte '\n']) k a) := by
  rw [fullMatch_commandsPattern]
  refine ⟨⟨fun hk => ?_, ?_⟩, fun hk w a hw hspace hnewline hreturn hstart => ?_⟩
  · obtain ⟨hrequest, hkey⟩ := hk.isRequest_space
    exact ⟨k ++ [byte ' '], find_mem_actions_iff.mpr ⟨hrequest, hkey.symm⟩⟩
  · rintro ⟨message, hfind⟩
    obtain ⟨hrequest, rfl⟩ := find_mem_actions_iff.mp hfind
    exact hrequest.1
  · exact ⟨parsesTo_argument hk hw hspace ⟨hnewline, hreturn⟩ hstart,
      parsesTo_argument_newline hk hw hspace ⟨hnewline, hreturn⟩ hstart⟩

end EzServer.Application
