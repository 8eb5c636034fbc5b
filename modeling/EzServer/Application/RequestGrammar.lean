import EzServer.Application.Dispatcher

/-!
# The grammar of requests

A request is the key of a command, a run of whitespace and an argument in one line. The key ends
where the whitespace begins, so a single pass over the message takes it apart.
-/

namespace EzServer.Application

open EzServer.Core EzServer.Core.Regex Introp Net

variable {χ : Type}

/-- `/` and a name. -/
def IsSegment (s : List UInt8) : Prop :=
  ∃ name, name ≠ [] ∧ (∀ c ∈ name, isSegmentByte c = true) ∧ s = byte '/' :: name

/-- The keys of commands: some segments, `:` and a name. -/
def IsKey (k : List UInt8) : Prop :=
  ∃ segments name, segments ≠ [] ∧ (∀ s ∈ segments, IsSegment s) ∧ name ≠ [] ∧
    (∀ c ∈ name, isWord c = true) ∧ k = segments.flatten ++ byte ':' :: name

/-- A string without its final `\n`. -/
def chomp (s : List UInt8) : List UInt8 := if s.getLast? = some (byte '\n') then s.dropLast else s

/-! ### Patterns -/

/-- The first group of the request pattern. -/
def requestKey : Regex UInt8 :=
  .seq (.plus (.seq (.one (· == byte '/')) (.plus (.one isSegmentByte))))
    (.seq (.one (· == byte ':')) (.plus (.one isWord)))

/-- What follows the whitespace. -/
def requestTail : Regex UInt8 :=
  .seq (.group 2 (.star (.one isDot))) (.seq (.opt (.one (· == byte '\n'))) .lineEnd)

lemma requestPattern_eq : requestPattern =
    .seq .lineStart (.seq (.group 1 requestKey) (.seq (.plus (.one isSpace)) requestTail)) := rfl

lemma mem_language_segment {s : List UInt8} :
    s ∈ (Regex.seq (.one (· == byte '/')) (.plus (.one isSegmentByte))).language ↔
      IsSegment s := by
  rw [mem_language_one_seq]
  constructor
  · rintro ⟨a, name, ha, hname, rfl⟩
    obtain ⟨hne, hall⟩ := mem_language_plus_one.mp hname
    exact ⟨name, hne, hall, by rw [eq_of_beq ha]⟩
  · rintro ⟨name, hne, hall, rfl⟩
    exact ⟨byte '/', name, by simp, mem_language_plus_one.mpr ⟨hne, hall⟩, rfl⟩

lemma mem_language_name {s : List UInt8} :
    s ∈ (Regex.seq (.one (· == byte ':')) (.plus (.one isWord))).language ↔
      ∃ name, name ≠ [] ∧ (∀ c ∈ name, isWord c = true) ∧ s = byte ':' :: name := by
  rw [mem_language_one_seq]
  constructor
  · rintro ⟨a, name, ha, hname, rfl⟩
    obtain ⟨hne, hall⟩ := mem_language_plus_one.mp hname
    exact ⟨name, hne, hall, by rw [eq_of_beq ha]⟩
  · rintro ⟨name, hne, hall, rfl⟩
    exact ⟨byte ':', name, by simp, mem_language_plus_one.mpr ⟨hne, hall⟩, rfl⟩

/-- The first group matches exactly the keys. -/
lemma mem_language_requestKey {k : List UInt8} : k ∈ requestKey.language ↔ IsKey k := by
  rw [requestKey, mem_language_seq]
  constructor
  · rintro ⟨u, hu, v, hv, rfl⟩
    obtain ⟨segments, hne, hsegments, rfl⟩ := mem_language_plus.mp hu
    obtain ⟨name, hname, hall, rfl⟩ := mem_language_name.mp hv
    exact ⟨segments, name, hne, fun s hs => mem_language_segment.mp (hsegments s hs), hname, hall,
      rfl⟩
  · rintro ⟨segments, name, hne, hsegments, hname, hall, rfl⟩
    exact ⟨segments.flatten, mem_language_plus.mpr ⟨segments, hne, fun s hs =>
      mem_language_segment.mpr (hsegments s hs), rfl⟩, _, mem_language_name.mpr
      ⟨name, hname, hall, rfl⟩, rfl⟩

/-! ### Bytes -/

lemma le_toNat_of_isSegmentByte {c : UInt8} (h : isSegmentByte c = true) : 45 ≤ c.toNat := by
  simp only [isSegmentByte, isWord, Bool.or_eq_true, Bool.and_eq_true, decide_eq_true_eq,
    beq_iff_eq, UInt8.le_iff_toNat_le, ← UInt8.toNat_inj] at h
  have ha : (byte 'a').toNat = 97 := rfl
  have hA : (byte 'A').toNat = 65 := rfl
  have hzero : (byte '0').toNat = 48 := rfl
  have hunderscore : (byte '_').toNat = 95 := rfl
  have hdash : (byte '-').toNat = 45 := rfl
  have hdot : (byte '.').toNat = 46 := rfl
  omega

lemma toNat_le_of_isSpace {c : UInt8} (h : isSpace c = true) : c.toNat ≤ 32 := by
  simp only [isSpace, Bool.or_eq_true, Bool.and_eq_true, decide_eq_true_eq, beq_iff_eq,
    UInt8.le_iff_toNat_le, ← UInt8.toNat_inj] at h
  have hspace : (byte ' ').toNat = 32 := rfl
  have hlast : (13 : UInt8).toNat = 13 := rfl
  omega

lemma isSpace_of_isSegmentByte {c : UInt8} (h : isSegmentByte c = true) : isSpace c = false := by
  by_contra hspace
  have hle := toNat_le_of_isSpace (Bool.not_eq_false _ ▸ hspace)
  have hge := le_toNat_of_isSegmentByte h
  omega

lemma isSpace_of_isWord {c : UInt8} (h : isWord c = true) : isSpace c = false :=
  isSpace_of_isSegmentByte (by simp [isSegmentByte, h])

lemma isSpace_of_mem_space {c : UInt8} (h : c ∈ [byte ' ']) : isSpace c = true := by
  rw [List.mem_singleton.mp h]
  decide

/-- Keys have no whitespace. -/
lemma IsKey.isSpace_eq {k : List UInt8} (hk : IsKey k) : ∀ c ∈ k, isSpace c = false := by
  obtain ⟨segments, name, -, hsegments, -, hall, rfl⟩ := hk
  intro c hc
  rcases List.mem_append.mp hc with hc | hc
  · obtain ⟨s, hs, hcs⟩ := List.mem_flatten.mp hc
    obtain ⟨name, -, hname, rfl⟩ := hsegments s hs
    rcases List.mem_cons.mp hcs with rfl | hcs
    · decide
    · exact isSpace_of_isSegmentByte (hname c hcs)
  · rcases List.mem_cons.mp hc with rfl | hc
    · decide
    · exact isSpace_of_isWord (hall c hc)

lemma isDot_eq_false_iff {c : UInt8} : isDot c = false ↔ c = byte '\n' ∨ c = byte '\r' := by
  simp only [isDot, Bool.and_eq_false_iff, bne_eq_false_iff_eq]

/-! ### The argument -/

lemma chomp_append_newline (s : List UInt8) : chomp (s ++ [byte '\n']) = s := by
  simp [chomp]

lemma chomp_eq_self {s : List UInt8} (h : ∀ c ∈ s, isDot c = true) : chomp s = s := by
  rw [chomp, if_neg]
  intro hlast
  have := h _ (List.mem_of_getLast? hlast)
  simp [isDot] at this

/-- A string is its chomped self, with a newline or not. -/
lemma chomp_spec (s : List UInt8) : s = chomp s ∨ s = chomp s ++ [byte '\n'] := by
  rw [chomp]
  split_ifs with h
  · obtain ⟨t, rfl⟩ := List.getLast?_eq_some_iff.mp h
    apply Or.inr
    simp
  · exact Or.inl rfl

/-- More in front of a string that is not empty stays in front. -/
lemma chomp_append {s t : List UInt8} (h : t ≠ []) : chomp (s ++ t) = s ++ chomp t := by
  unfold chomp
  rw [List.getLast?_append_of_ne_nil _ h]
  split_ifs
  · rw [List.dropLast_append_of_ne_nil h]
  · rfl

/-! ### Matching -/

lemma outcomes_newline (input : List UInt8) (y : Cursor UInt8) :
    (Regex.seq (.opt (.one (· == byte '\n'))) .lineEnd).outcomes input y =
      if y.rest = [] ∨ y.rest = [byte '\n'] then [{ y with rest := [] }] else [] := by
  obtain ⟨rest, captures⟩ := y
  match rest with
  | [] => rfl
  | [c] => by_cases hc : c = byte '\n' <;> simp [outcomes, groups, hc]
  | c :: d :: rest => by_cases hc : c = byte '\n' <;> simp [outcomes, groups, hc]

/-- The argument is what comes before the final newline, and has no other. -/
lemma outcomes_requestTail (input : List UInt8) (x : Cursor UInt8) :
    (requestTail.outcomes input x).head? =
      if (chomp x.rest).all isDot = true then
        some ⟨[], Function.update x.captures 2 (some (chomp x.rest))⟩
      else none := by
  have hnewline := outcomes_newline input
  -- the rest decides where the argument has to end
  have hends : ∀ w t : List UInt8, (∀ c ∈ w, isDot c = true) → x.rest = w ++ t →
      (t = [] ∨ t = [byte '\n']) → w = chomp x.rest := by
    rintro w t hw hx (rfl | rfl)
    · rw [hx, List.append_nil, chomp_eq_self hw]
    · rw [hx, chomp_append_newline]
  rw [requestTail]
  split_ifs with hdots
  · have hall : ∀ c ∈ chomp x.rest, isDot c = true := List.all_eq_true.mp hdots
    obtain ⟨t, ht, hx⟩ : ∃ t, (t = [] ∨ t = [byte '\n']) ∧ x.rest = chomp x.rest ++ t := by
      rcases chomp_spec x.rest with hx | hx
      · exact ⟨[], Or.inl rfl, by rwa [List.append_nil]⟩
      · exact ⟨_, Or.inr rfl, hx⟩
    rw [head?_seq_group rfl rfl (mem_language_star_one.mpr hall) hx, hnewline, if_pos ht]
    · rfl
    · intro w u hw hxw hne
      apply hends w u (mem_language_star_one.mp hw) hxw
      by_contra hnot
      exact hne ((hnewline _).trans (if_neg hnot))
  · rw [List.head?_eq_none_iff]
    apply outcomes_seq_group_eq_nil rfl rfl
    intro w u hw hxw
    rw [hnewline, if_neg]
    intro hrest
    obtain rfl := hends w u (mem_language_star_one.mp hw) hxw hrest
    exact hdots (List.all_eq_true.mpr (mem_language_star_one.mp hw))

/-- What is left after some characters of a class still has the rest after all of them at its
end. -/
lemma dropWhile_of_append {p : UInt8 → Bool} {u s t : List UInt8} (hu : ∀ c ∈ u, p c = true)
    (hs : s = u ++ t) : t = t.takeWhile p ++ s.dropWhile p := by
  rw [hs, List.dropWhile_append_of_pos hu, List.takeWhile_append_dropWhile]

/-- The string begins with whitespace, and an argument in one line follows. -/
def endsRequest (s : List UInt8) : Bool :=
  !(s.takeWhile isSpace).isEmpty && (chomp (s.dropWhile isSpace)).all isDot

lemma endsRequest_iff {s : List UInt8} : endsRequest s = true ↔
    s.takeWhile isSpace ≠ [] ∧ ∀ c ∈ chomp (s.dropWhile isSpace), isDot c = true := by
  rw [endsRequest, Bool.and_eq_true, List.all_eq_true, Bool.not_eq_true',
    List.isEmpty_eq_false_iff]

/-- Giving back whitespace does not help: the line break that is in the way stays there. -/
lemma outcomes_afterKey (input : List UInt8) (x : Cursor UInt8) :
    ((Regex.seq (.plus (.one isSpace)) requestTail).outcomes input x).head? =
      if endsRequest x.rest = true then
        some ⟨[], Function.update x.captures 2 (some (chomp (x.rest.dropWhile isSpace)))⟩
      else none := by
  have htail := outcomes_requestTail input
  have hspaces : ∀ y ∈ (Regex.plus (.one isSpace)).outcomes input x,
      ∃ u, u ≠ [] ∧ (∀ c ∈ u, isSpace c = true) ∧ x.rest = u ++ y.rest := by
    intro y hy
    obtain ⟨u, hu, hx⟩ := (matches_outcomes input (r := .plus (.one isSpace)) rfl).sound x y hy
    obtain ⟨hne, hall⟩ := mem_language_plus_one.mp hu
    exact ⟨u, hne, hall, hx⟩
  rw [outcomes]
  split_ifs with h
  · obtain ⟨hne, hall⟩ := endsRequest_iff.mp h
    obtain ⟨ys, hys⟩ := List.head?_eq_some_iff.mp (head?_outcomes_plus_one input isSpace hne)
    have hfirst := htail { x with rest := x.rest.dropWhile isSpace }
    rw [if_pos (List.all_eq_true.mpr hall)] at hfirst
    rw [hys, List.flatMap_cons, List.head?_append, hfirst]
    rfl
  · rw [List.head?_eq_none_iff, List.flatMap_eq_nil_iff]
    intro y hy
    obtain ⟨u, hu, hspace, hx⟩ := hspaces y hy
    have hne : x.rest.takeWhile isSpace ≠ [] := by
      rw [hx, List.takeWhile_append_of_pos hspace]
      simp [hu]
    have hbreak : ¬ ∀ c ∈ chomp (x.rest.dropWhile isSpace), isDot c = true :=
      fun hall => h (endsRequest_iff.mpr ⟨hne, hall⟩)
    rw [← List.head?_eq_none_iff, htail, if_neg]
    rw [List.all_eq_true]
    intro hall
    by_cases hr : x.rest.dropWhile isSpace = []
    · apply hbreak
      simp [hr, chomp]
    · rw [dropWhile_of_append hspace hx, chomp_append hr] at hall
      apply hbreak
      intro c hc
      exact hall c (List.mem_append_right _ hc)

/-! ### Messages -/

/-- The longest prefix of a message without whitespace. -/
def keyPart (message : List UInt8) : List UInt8 := message.takeWhile (!isSpace ·)

/-- The whitespace after it. -/
def spacePart (message : List UInt8) : List UInt8 :=
  (message.dropWhile (!isSpace ·)).takeWhile isSpace

/-- The rest, without a final newline. -/
def argumentPart (message : List UInt8) : List UInt8 :=
  chomp ((message.dropWhile (!isSpace ·)).dropWhile isSpace)

/-- A message is a key, whitespace and an argument in one line. -/
def IsRequest (message : List UInt8) : Prop :=
  IsKey (keyPart message) ∧ spacePart message ≠ [] ∧
    byte '\n' ∉ argumentPart message ∧ byte '\r' ∉ argumentPart message

lemma forall_isDot_iff {s : List UInt8} :
    (∀ c ∈ s, isDot c = true) ↔ byte '\n' ∉ s ∧ byte '\r' ∉ s := by
  constructor
  · intro h
    exact ⟨fun hmem => absurd (h _ hmem) (by decide), fun hmem => absurd (h _ hmem) (by decide)⟩
  · rintro ⟨hnewline, hreturn⟩ c hc
    by_contra hdot
    rcases isDot_eq_false_iff.mp (by simpa using hdot) with rfl | rfl
    · exact hnewline hc
    · exact hreturn hc

/-- A key that is followed by whitespace is all there is before the whitespace. -/
lemma parts_of_append {k s t : List UInt8} (hk : ∀ c ∈ k, isSpace c = false) (hs : s ≠ [])
    (hspace : ∀ c ∈ s, isSpace c = true) (ht : t.takeWhile isSpace = []) :
    keyPart (k ++ (s ++ t)) = k ∧ spacePart (k ++ (s ++ t)) = s ∧
      argumentPart (k ++ (s ++ t)) = chomp t := by
  obtain ⟨c, s, rfl⟩ := List.exists_cons_of_ne_nil hs
  have hc : isSpace c = true := hspace c List.mem_cons_self
  have hk' : ∀ c ∈ k, (!isSpace c) = true := fun c hc => by simp [hk c hc]
  have hkey : ((c :: s) ++ t).takeWhile (!isSpace ·) = [] := by simp [hc]
  have hrest : ((c :: s) ++ t).dropWhile (!isSpace ·) = (c :: s) ++ t := by simp [hc]
  have hdrop : t.dropWhile isSpace = t := by
    have hsplit := List.takeWhile_append_dropWhile (p := isSpace) (l := t)
    rwa [ht, List.nil_append] at hsplit
  refine ⟨?_, ?_, ?_⟩
  · rw [keyPart, List.takeWhile_append_of_pos hk', hkey, List.append_nil]
  · rw [spacePart, List.dropWhile_append_of_pos hk', hrest, List.takeWhile_append_of_pos hspace,
      ht, List.append_nil]
  · rw [argumentPart, List.dropWhile_append_of_pos hk', hrest,
      List.dropWhile_append_of_pos hspace, hdrop]

/-- A key and a space are a request. -/
lemma IsKey.isRequest_space {k : List UInt8} (hk : IsKey k) :
    IsRequest (k ++ [byte ' ']) ∧ keyPart (k ++ [byte ' ']) = k := by
  obtain ⟨hkey, hspace, hargument⟩ := parts_of_append (s := [byte ' ']) (t := [])
    hk.isSpace_eq (by simp) (fun _ => isSpace_of_mem_space) rfl
  rw [List.append_nil] at hkey hspace hargument
  refine ⟨?_, hkey⟩
  rw [IsRequest, hkey, hspace, hargument]
  exact ⟨hk, by simp, by simp [chomp]⟩

/-- The shortest kind of key. -/
lemma isKey_ab : IsKey (text "/a:b") := by
  refine ⟨[text "/a"], text "b", by simp, fun s hs => ?_, by simp [text], fun c hc => ?_, rfl⟩
  · refine ⟨text "a", by simp [text], fun c hc => ?_, List.mem_singleton.mp hs⟩
    rw [List.mem_singleton.mp hc]
    decide
  · rw [List.mem_singleton.mp hc]
    decide

/-- The pattern finds exactly the requests, and takes them apart into key and argument. -/
theorem search_requestPattern (message : List UInt8) :
    (IsRequest message → ∃ matched, requestPattern.search message = some matched ∧
      str matched 1 = keyPart message ∧ str matched 2 = argumentPart message) ∧
    (¬ IsRequest message → requestPattern.search message = none) := by
  have hafter := outcomes_afterKey message
  -- whitespace ends the key
  have hends : ∀ k t : List UInt8, IsKey k → message = k ++ t → t.takeWhile isSpace ≠ [] →
      k = keyPart message ∧ t = message.dropWhile (!isSpace ·) := by
    intro k t hk hmessage ht
    have hk' : ∀ c ∈ k, (!isSpace c) = true := fun c hc => by simp [hk.isSpace_eq c hc]
    obtain ⟨c, rest, rfl⟩ : ∃ c rest, t = c :: rest := List.exists_cons_of_ne_nil fun h => by
      simp [h] at ht
    have hc : isSpace c = true := by
      by_contra hc
      exact ht (List.takeWhile_cons_of_neg hc)
    rw [keyPart, hmessage, List.takeWhile_append_of_pos hk', List.dropWhile_append_of_pos hk']
    simp [hc]
  rw [requestPattern_eq, search_lineStart]
  constructor
  · rintro ⟨hkey, hspace, hargument⟩
    have hmessage : message = keyPart message ++ message.dropWhile (!isSpace ·) :=
      List.takeWhile_append_dropWhile.symm
    rw [head?_seq_group (x := .start message) rfl rfl (mem_language_requestKey.mpr hkey) hmessage,
      hafter, if_pos (endsRequest_iff.mpr ⟨hspace, forall_isDot_iff.mpr hargument⟩)]
    · refine ⟨_, rfl, ?_, ?_⟩
      · simp [str, Function.update]
      · simp [str, argumentPart]
    · intro k t hk hmessage hne
      refine (hends k t (mem_language_requestKey.mp hk) hmessage fun hnil => ?_).1
      have hnone := hafter ⟨t, Function.update (fun _ => none) 1 (some k)⟩
      rw [if_neg (by simp [endsRequest, hnil]), List.head?_eq_none_iff] at hnone
      exact hne hnone
  · intro hnot
    rw [List.head?_eq_none_iff]
    apply outcomes_seq_group_eq_nil rfl rfl
    intro k t hk hmessage
    rw [← List.head?_eq_none_iff, hafter, if_neg]
    intro hends'
    obtain ⟨hspace, hdots⟩ := endsRequest_iff.mp hends'
    have hkey := mem_language_requestKey.mp hk
    obtain ⟨rfl, rfl⟩ := hends k t hkey hmessage hspace
    exact hnot ⟨hkey, hspace, forall_isDot_iff.mp hdots⟩

lemma actions_of_isRequest {message : List UInt8} (h : IsRequest message)
    (behaviour : χ → List UInt8 → CommandRun) (commands : Commands χ) :
    (onMessageReceived behaviour commands message).actions =
      .find (keyPart message) ::
        match commands.lookup (keyPart message) with
        | none => [.respond .kCommandNotFound (keyPart message ++ text ": No such command!") 0]
        | some command => [.call command.command (argumentPart message)
            (behaviour command.command (argumentPart message))] := by
  obtain ⟨matched, hsearch, hkey, hargument⟩ := (search_requestPattern message).1 h
  simp only [onMessageReceived, hsearch, hkey, hargument]
  cases commands.lookup (keyPart message) with
  | none => rfl
  | some command =>
    dsimp only
    split <;> rfl

lemma actions_of_not_isRequest {message : List UInt8} (h : ¬ IsRequest message)
    (behaviour : χ → List UInt8 → CommandRun) (commands : Commands χ) :
    (onMessageReceived behaviour commands message).actions =
      [.respond .kInvalidRequest (text "Invalid Command `" ++ message ++ text "`!") 0] := by
  simp only [onMessageReceived, (search_requestPattern message).2 h]

/-- For every message and every table: a request finds exactly its key, and calls the command under
it once with the argument and sends nothing else, or answers once that there is no such command;
any other message is answered once as invalid. -/
theorem onMessageReceived_grammar (behaviour : χ → List UInt8 → CommandRun)
    (commands : Commands χ) (message : List UInt8) :
    let actions := (onMessageReceived behaviour commands message).actions
    (IsRequest message →
      (∀ command, commands.lookup (keyPart message) = some command →
        actions = [.find (keyPart message), .call command.command (argumentPart message)
          (behaviour command.command (argumentPart message))]) ∧
      (commands.lookup (keyPart message) = none →
        actions = [.find (keyPart message),
          .respond .kCommandNotFound (keyPart message ++ text ": No such command!") 0])) ∧
    (¬ IsRequest message →
      actions = [.respond .kInvalidRequest
        (text "Invalid Command `" ++ message ++ text "`!") 0]) := by
  refine ⟨fun h => ⟨fun command hcommand => ?_, fun hnone => ?_⟩, fun h => ?_⟩
  · rw [actions_of_isRequest h, hcommand]
  · rw [actions_of_isRequest h, hnone]
  · exact actions_of_not_isRequest h behaviour commands

end EzServer.Application
