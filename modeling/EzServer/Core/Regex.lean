import Mathlib.Computability.Language
import Mathlib.Data.List.TakeDrop
import Mathlib.Data.List.Infix

/-!
# Backtracking regular expressions

Regular expressions with the semantics of ECMAScript: the outcomes of an expression at a position
are listed in the order in which backtracking gets to them, so that a match is the first outcome
of the whole expression.

The classes `\w`, `\s` and `.` are those of bytes in the C locale.

`exists_outcome_iff` says which outcomes there are, in terms of the language of the expression;
`head?_outcomes_plus_one` says which one comes first for a repeated character class.
-/

namespace EzServer.Core

universe u
variable {α : Type u}

/-- Regular expressions over an alphabet; all quantifiers are greedy. -/
inductive Regex (α : Type u) where
  /-- One character of a class. -/
  | one (p : α → Bool)
  | seq (r s : Regex α)
  /-- `r*` -/
  | star (r : Regex α)
  /-- `r+` -/
  | plus (r : Regex α)
  /-- `r?` -/
  | opt (r : Regex α)
  /-- The capturing group with a number. -/
  | group (n : ℕ) (r : Regex α)
  /-- `^` -/
  | lineStart
  /-- `$` -/
  | lineEnd

/-- A position in the input, by what is left of it, with what the groups have captured. -/
@[ext] structure Cursor (α : Type u) where
  rest : List α
  captures : ℕ → Option (List α)

namespace Cursor

def start (input : List α) : Cursor α := ⟨input, fun _ => none⟩

/-- Forget what some groups have captured. -/
def reset (x : Cursor α) (ns : List ℕ) : Cursor α :=
  { x with captures := fun n => if n ∈ ns then none else x.captures n }

/-- Capture what lies between `x` and `y`. -/
def capture (x : Cursor α) (n : ℕ) (y : Cursor α) : Cursor α :=
  { y with
    captures := Function.update y.captures n
      (some (x.rest.take (x.rest.length - y.rest.length))) }

@[simp] lemma rest_capture (x : Cursor α) (n : ℕ) (y : Cursor α) :
    (x.capture n y).rest = y.rest := rfl

@[simp] lemma reset_nil (x : Cursor α) : x.reset [] = x := by simp [reset]

end Cursor

namespace Regex

/-- The numbers of the groups of an expression. -/
def groups : Regex α → List ℕ
  | one _ | lineStart | lineEnd => []
  | seq r s => r.groups ++ s.groups
  | star r | plus r | opt r => r.groups
  | group n r => n :: r.groups

/-- Repeat a matcher, as often as possible first; a round that matches nothing fails. -/
def iterate (m : Cursor α → List (Cursor α)) : ℕ → Cursor α → List (Cursor α)
  | 0, x => [x]
  | fuel + 1, x =>
    ((m x).flatMap fun y =>
      if y.rest.length = x.rest.length then [] else iterate m fuel y) ++ [x]

/-- The positions that an expression can get to, in the order of backtracking. -/
def outcomes (input : List α) : Regex α → Cursor α → List (Cursor α)
  | one p, x =>
    match x.rest with
    | [] => []
    | a :: rest => if p a then [{ x with rest := rest }] else []
  | seq r s, x => (r.outcomes input x).flatMap (s.outcomes input)
  -- each round starts with its groups reset
  | star r, x => iterate (fun y => r.outcomes input (y.reset r.groups)) x.rest.length x
  | plus r, x =>
    (r.outcomes input (x.reset r.groups)).flatMap fun y =>
      iterate (fun y => r.outcomes input (y.reset r.groups)) y.rest.length y
  | opt r, x =>
    ((r.outcomes input (x.reset r.groups)).filter fun y => y.rest.length ≠ x.rest.length) ++ [x]
  | group n r, x => (r.outcomes input x).map (x.capture n)
  | lineStart, x => if x.rest.length = input.length then [x] else []
  | lineEnd, x => if x.rest.length = 0 then [x] else []

/-- The first match at any position. -/
def search (r : Regex α) (input : List α) : Option (Cursor α) :=
  (input.tails.flatMap fun rest => r.outcomes input (.start rest)).head?

/-- A match of the whole input. -/
def fullMatch (r : Regex α) (input : List α) : Bool :=
  (r.outcomes input (.start input)).any fun y => y.rest.isEmpty

/-! ### Repetition -/

/-- A matcher only goes forward. -/
def Forward (m : Cursor α → List (Cursor α)) : Prop :=
  ∀ x, ∀ y ∈ m x, y.rest.length ≤ x.rest.length

lemma Forward.iterate {m : Cursor α → List (Cursor α)} (hm : Forward m) (fuel : ℕ) :
    Forward (iterate m fuel) := by
  induction fuel with
  | zero =>
    intro x y hy
    rw [List.mem_singleton.mp hy]
  | succ fuel ih =>
    intro x z hz
    rcases List.mem_append.mp hz with hz | hz
    · obtain ⟨y, hy, hz⟩ := List.mem_flatMap.mp hz
      split_ifs at hz
      · cases hz
      · exact (ih y z hz).trans (hm x y hy)
    · rw [List.mem_singleton.mp hz]

lemma forward_outcomes (input : List α) (r : Regex α) : Forward (r.outcomes input) := by
  induction r with
  | one p =>
    intro x y hy
    simp only [outcomes] at hy
    split at hy
    · cases hy
    · next a rest hrest =>
      split_ifs at hy
      · rw [List.mem_singleton.mp hy, hrest]
        exact Nat.le_succ _
      · cases hy
  | seq r s ihr ihs =>
    intro x z hz
    obtain ⟨y, hy, hz⟩ := List.mem_flatMap.mp hz
    exact (ihs y z hz).trans (ihr x y hy)
  | star r ih =>
    intro x y hy
    exact Forward.iterate (fun x y hy => ih (x.reset r.groups) y hy) _ x y hy
  | plus r ih =>
    intro x z hz
    obtain ⟨y, hy, hz⟩ := List.mem_flatMap.mp hz
    have hrest := Forward.iterate (fun x y hy => ih (x.reset r.groups) y hy) _ y z hz
    exact hrest.trans (ih (x.reset r.groups) y hy)
  | opt r ih =>
    intro x y hy
    rcases List.mem_append.mp hy with hy | hy
    · exact ih (x.reset r.groups) y (List.mem_of_mem_filter hy)
    · rw [List.mem_singleton.mp hy]
  | group n r ih =>
    intro x y hy
    obtain ⟨z, hz, rfl⟩ := List.mem_map.mp hy
    exact ih x z hz
  | lineStart =>
    intro x y hy
    simp only [outcomes] at hy
    split_ifs at hy
    · rw [List.mem_singleton.mp hy]
    · cases hy
  | lineEnd =>
    intro x y hy
    simp only [outcomes] at hy
    split_ifs at hy
    · rw [List.mem_singleton.mp hy]
    · cases hy

/-- More fuel than there is input makes no difference. -/
lemma iterate_eq {m : Cursor α → List (Cursor α)} (hm : Forward m) {fuel : ℕ} {x : Cursor α}
    (hfuel : x.rest.length ≤ fuel) : iterate m fuel x = iterate m x.rest.length x := by
  induction fuel using Nat.strong_induction_on generalizing x with
  | _ fuel ih =>
    cases fuel with
    | zero => rw [Nat.le_zero.mp hfuel]
    | succ fuel =>
      cases hx : x.rest.length with
      | zero =>
        have hnil : ∀ y ∈ m x, (if y.rest.length = x.rest.length then []
            else iterate m fuel y) = [] := fun y hy => by
          have := hm x y hy
          rw [if_pos (by omega)]
        simp only [iterate, List.flatMap_eq_nil_iff.mpr hnil, List.nil_append]
      | succ n =>
        rw [iterate, iterate]
        congr 1
        apply List.flatMap_congr
        intro y hy
        have := hm x y hy
        split_ifs with hlen
        · rfl
        · rw [ih fuel (Nat.lt_succ_self _) (by omega), ih n (by omega) (by omega)]

/-- The recursion of a repetition, as the standard has it. -/
theorem outcomes_star (input : List α) (r : Regex α) (x : Cursor α) :
    (star r).outcomes input x =
      ((r.outcomes input (x.reset r.groups)).flatMap fun y =>
        if y.rest.length = x.rest.length then [] else (star r).outcomes input y) ++ [x] := by
  have hm : Forward fun y => r.outcomes input (y.reset r.groups) :=
    fun x y hy => forward_outcomes input r (x.reset r.groups) y hy
  have hround : (star r).outcomes input x =
      iterate (fun y => r.outcomes input (y.reset r.groups)) (x.rest.length + 1) x :=
    (iterate_eq hm (Nat.le_succ _)).symm
  rw [hround, iterate]
  congr 1
  apply List.flatMap_congr
  intro y hy
  split_ifs with hlen
  · rfl
  · exact iterate_eq hm (hm x y hy)

/-- `r+` is `r` and then `r*`. -/
lemma outcomes_plus (input : List α) (r : Regex α) (x : Cursor α) :
    (plus r).outcomes input x =
      (r.outcomes input (x.reset r.groups)).flatMap ((star r).outcomes input) := rfl

/-! ### Languages -/

/-- The words that an expression matches, if it has no anchors. -/
def language : Regex α → Language α
  | one p => {w | ∃ a, p a = true ∧ w = [a]}
  | seq r s => r.language * s.language
  | star r => KStar.kstar r.language
  | plus r => r.language * KStar.kstar r.language
  | opt r => r.language + 1
  | group _ r => r.language
  | lineStart | lineEnd => 1

/-- No `^` and no `$`. -/
def isPlain : Regex α → Bool
  | one _ => true
  | seq r s => r.isPlain && s.isPlain
  | star r | plus r | opt r | group _ r => r.isPlain
  | lineStart | lineEnd => false

/-- A matcher consumes exactly the words of a language. -/
structure Matches (m : Cursor α → List (Cursor α)) (L : Language α) : Prop where
  sound : ∀ x, ∀ y ∈ m x, ∃ w ∈ L, x.rest = w ++ y.rest
  complete : ∀ x, ∀ w ∈ L, ∀ t, x.rest = w ++ t → ∃ y ∈ m x, y.rest = t

lemma Matches.seq {m n : Cursor α → List (Cursor α)} {L M : Language α} (hm : Matches m L)
    (hn : Matches n M) : Matches (fun x => (m x).flatMap n) (L * M) where
  sound := by
    intro x z hz
    obtain ⟨y, hy, hz⟩ := List.mem_flatMap.mp hz
    obtain ⟨v, hv, hxy⟩ := hm.sound x y hy
    obtain ⟨w, hw, hyz⟩ := hn.sound y z hz
    refine ⟨v ++ w, Language.append_mem_mul hv hw, ?_⟩
    rw [hxy, hyz, List.append_assoc]
  complete := by
    intro x u hu t hx
    obtain ⟨v, hv, w, hw, rfl⟩ := Language.mem_mul.mp hu
    obtain ⟨y, hy, hyt⟩ := hm.complete x v hv (w ++ t) (by rw [hx, List.append_assoc])
    obtain ⟨z, hz, hzt⟩ := hn.complete y w hw t hyt
    exact ⟨z, List.mem_flatMap.mpr ⟨y, hy, hz⟩, hzt⟩

lemma Matches.reset {m : Cursor α → List (Cursor α)} {L : Language α} (hm : Matches m L)
    (ns : List ℕ) : Matches (fun x => m (x.reset ns)) L :=
  ⟨fun x y hy => hm.sound (x.reset ns) y hy, fun x w hw t hx => hm.complete (x.reset ns) w hw t hx⟩

/-- A round is only kept if it consumes something, and that is no restriction. -/
lemma Matches.iterate {m : Cursor α → List (Cursor α)} {L : Language α} (hm : Matches m L) :
    Matches (fun x => iterate m x.rest.length x) (KStar.kstar L) := by
  have hsound : ∀ fuel x, ∀ y ∈ Regex.iterate m fuel x,
      ∃ w ∈ KStar.kstar L, x.rest = w ++ y.rest := by
    intro fuel
    induction fuel with
    | zero =>
      intro x y hy
      obtain rfl := List.mem_singleton.mp hy
      exact ⟨[], Language.nil_mem_kstar L, rfl⟩
    | succ fuel ih =>
      intro x z hz
      rcases List.mem_append.mp hz with hz | hz
      · obtain ⟨y, hy, hz⟩ := List.mem_flatMap.mp hz
        split_ifs at hz
        · cases hz
        · obtain ⟨v, hv, hxy⟩ := hm.sound x y hy
          obtain ⟨w, hw, hyz⟩ := ih y z hz
          refine ⟨v ++ w, ?_, by rw [hxy, hyz, List.append_assoc]⟩
          rw [← Language.one_add_self_mul_kstar_eq_kstar]
          exact Or.inr (Language.append_mem_mul hv hw)
      · obtain rfl := List.mem_singleton.mp hz
        exact ⟨[], Language.nil_mem_kstar L, rfl⟩
  have hcomplete : ∀ (ws : List (List α)) fuel x t, (∀ w ∈ ws, w ∈ L ∧ w ≠ []) →
      x.rest = ws.flatten ++ t → x.rest.length ≤ fuel →
      ∃ y ∈ Regex.iterate m fuel x, y.rest = t := by
    intro ws
    induction ws with
    | nil =>
      intro fuel x t _ hx _
      refine ⟨x, ?_, by simpa using hx⟩
      cases fuel <;> simp [Regex.iterate]
    | cons w ws ih =>
      intro fuel x t hws hx hfuel
      obtain ⟨⟨hw, hne⟩, hrest⟩ := List.forall_mem_cons.mp hws
      rw [List.flatten_cons, List.append_assoc] at hx
      obtain ⟨y, hy, hyt⟩ := hm.complete x w hw (ws.flatten ++ t) hx
      have hlt : y.rest.length < x.rest.length := by
        have hpos := List.length_pos_of_ne_nil hne
        have hlen : x.rest.length = w.length + y.rest.length := by
          rw [hx, hyt, List.length_append]
        omega
      obtain ⟨fuel, rfl⟩ := Nat.exists_eq_succ_of_ne_zero (by omega : fuel ≠ 0)
      obtain ⟨z, hz, hzt⟩ := ih fuel y t hrest hyt (by omega)
      refine ⟨z, List.mem_append_left _ (List.mem_flatMap.mpr ⟨y, hy, ?_⟩), hzt⟩
      rwa [if_neg (by omega)]
  refine ⟨fun x y hy => hsound _ x y hy, fun x w hw t hx => ?_⟩
  obtain ⟨ws, rfl, hws⟩ := Language.mem_kstar_iff_exists_nonempty.mp hw
  exact hcomplete ws _ x t hws hx (Nat.le_refl _)

/-- An expression without anchors matches the words of its language. -/
lemma matches_outcomes (input : List α) {r : Regex α} (hr : r.isPlain = true) :
    Matches (r.outcomes input) r.language := by
  induction r with
  | one p =>
    constructor
    · intro x y hy
      simp only [outcomes] at hy
      split at hy
      · cases hy
      · next a rest hrest =>
        split_ifs at hy with hp
        · obtain rfl := List.mem_singleton.mp hy
          exact ⟨[a], ⟨a, hp, rfl⟩, hrest⟩
        · cases hy
    · intro x w hw t hx
      obtain ⟨a, ha, rfl⟩ := hw
      have hrest : x.rest = a :: t := hx
      simp [outcomes, hrest, ha]
  | seq r s ihr ihs =>
    simp only [isPlain, Bool.and_eq_true] at hr
    exact (ihr hr.1).seq (ihs hr.2)
  | star r ih => exact ((ih hr).reset r.groups).iterate
  | plus r ih => exact ((ih hr).reset r.groups).seq ((ih hr).reset r.groups).iterate
  | opt r ih =>
    have hreset := (ih hr).reset r.groups
    constructor
    · intro x y hy
      rcases List.mem_append.mp hy with hy | hy
      · obtain ⟨w, hw, hxy⟩ := hreset.sound x y (List.mem_of_mem_filter hy)
        exact ⟨w, Or.inl hw, hxy⟩
      · obtain rfl := List.mem_singleton.mp hy
        exact ⟨[], Or.inr rfl, rfl⟩
    · intro x w hw t hx
      by_cases hne : w = []
      · subst hne
        exact ⟨x, List.mem_append_right _ (List.mem_singleton.mpr rfl), hx⟩
      · have hw : w ∈ r.language := hw.resolve_right hne
        obtain ⟨y, hy, hyt⟩ := hreset.complete x w hw t hx
        refine ⟨y, List.mem_append_left _ (List.mem_filter.mpr ⟨hy, ?_⟩), hyt⟩
        have hpos := List.length_pos_of_ne_nil hne
        rw [decide_eq_true_iff, hx, hyt, List.length_append]
        omega
  | group n r ih =>
    constructor
    · intro x y hy
      obtain ⟨z, hz, rfl⟩ := List.mem_map.mp hy
      exact (ih hr).sound x z hz
    · intro x w hw t hx
      obtain ⟨y, hy, hyt⟩ := (ih hr).complete x w hw t hx
      exact ⟨x.capture n y, List.mem_map_of_mem hy, hyt⟩
  | lineStart => cases hr
  | lineEnd => cases hr

/-- Where an expression without anchors can get to. -/
theorem exists_outcome_iff {input : List α} {r : Regex α} (hr : r.isPlain = true) {x : Cursor α}
    {t : List α} :
    (∃ y ∈ r.outcomes input x, y.rest = t) ↔ ∃ w ∈ r.language, x.rest = w ++ t := by
  constructor
  · rintro ⟨y, hy, rfl⟩
    exact (matches_outcomes input hr).sound x y hy
  · rintro ⟨w, hw, hx⟩
    exact (matches_outcomes input hr).complete x w hw t hx

lemma mem_language_seq {r s : Regex α} {w : List α} :
    w ∈ (seq r s).language ↔ ∃ u ∈ r.language, ∃ v ∈ s.language, u ++ v = w := Language.mem_mul

lemma mem_language_one_seq {p : α → Bool} {r : Regex α} {w : List α} :
    w ∈ (seq (one p) r).language ↔ ∃ a v, p a = true ∧ v ∈ r.language ∧ w = a :: v := by
  rw [mem_language_seq]
  constructor
  · rintro ⟨_, ⟨a, ha, rfl⟩, v, hv, rfl⟩
    exact ⟨a, v, ha, hv, rfl⟩
  · rintro ⟨a, v, ha, hv, rfl⟩
    exact ⟨[a], ⟨a, ha, rfl⟩, v, hv, rfl⟩

lemma mem_language_plus {r : Regex α} {w : List α} :
    w ∈ (plus r).language ↔ ∃ ws, ws ≠ [] ∧ (∀ v ∈ ws, v ∈ r.language) ∧ w = ws.flatten := by
  constructor
  · rintro ⟨u, hu, v, ⟨ws, rfl, hws⟩, rfl⟩
    exact ⟨u :: ws, by simp, List.forall_mem_cons.mpr ⟨hu, hws⟩, rfl⟩
  · rintro ⟨ws, hne, hws, rfl⟩
    obtain ⟨u, ws, rfl⟩ := List.exists_cons_of_ne_nil hne
    obtain ⟨hu, hrest⟩ := List.forall_mem_cons.mp hws
    exact ⟨u, hu, ws.flatten, ⟨ws, rfl, hrest⟩, rfl⟩

lemma mem_language_star_one {p : α → Bool} {w : List α} :
    w ∈ (star (one p)).language ↔ ∀ a ∈ w, p a = true := by
  constructor
  · rintro ⟨ws, rfl, hws⟩ a ha
    obtain ⟨v, hv, hav⟩ := List.mem_flatten.mp ha
    obtain ⟨b, hb, rfl⟩ := hws v hv
    rwa [List.mem_singleton.mp hav]
  · intro hw
    refine ⟨w.map fun a => [a], (List.flatMap_singleton' w).symm, fun v hv => ?_⟩
    obtain ⟨a, ha, rfl⟩ := List.mem_map.mp hv
    exact ⟨a, hw a ha, rfl⟩

lemma mem_language_plus_one {p : α → Bool} {w : List α} :
    w ∈ (plus (one p)).language ↔ w ≠ [] ∧ ∀ a ∈ w, p a = true := by
  constructor
  · rintro ⟨_, ⟨a, ha, rfl⟩, v, hv, rfl⟩
    exact ⟨by simp, List.forall_mem_cons.mpr ⟨ha, mem_language_star_one.mp hv⟩⟩
  · rintro ⟨hne, hw⟩
    obtain ⟨a, v, rfl⟩ := List.exists_cons_of_ne_nil hne
    obtain ⟨ha, hv⟩ := List.forall_mem_cons.mp hw
    exact ⟨[a], ⟨a, ha, rfl⟩, v, mem_language_star_one.mpr hv, rfl⟩

/-! ### Captures -/

/-- An expression without groups leaves the captures alone. -/
lemma captures_eq {input : List α} {r : Regex α} (hr : r.groups = []) {x y : Cursor α}
    (hy : y ∈ r.outcomes input x) : y.captures = x.captures := by
  have hiterate : ∀ {m : Cursor α → List (Cursor α)},
      (∀ x, ∀ y ∈ m x, y.captures = x.captures) →
      ∀ fuel x, ∀ y ∈ iterate m fuel x, y.captures = x.captures := by
    intro m hm fuel
    induction fuel with
    | zero =>
      intro x y hy
      rw [List.mem_singleton.mp hy]
    | succ fuel ih =>
      intro x z hz
      rcases List.mem_append.mp hz with hz | hz
      · obtain ⟨y, hy, hz⟩ := List.mem_flatMap.mp hz
        split_ifs at hz
        · cases hz
        · exact (ih y z hz).trans (hm x y hy)
      · rw [List.mem_singleton.mp hz]
  induction r generalizing x y with
  | one p =>
    simp only [outcomes] at hy
    split at hy
    · cases hy
    · split_ifs at hy
      · rw [List.mem_singleton.mp hy]
      · cases hy
  | seq r s ihr ihs =>
    obtain ⟨hr, hs⟩ := List.append_eq_nil_iff.mp hr
    obtain ⟨z, hz, hy⟩ := List.mem_flatMap.mp hy
    exact (ihs hs hy).trans (ihr hr hz)
  | star r ih =>
    have hr : r.groups = [] := hr
    simp only [outcomes, hr, Cursor.reset_nil] at hy
    exact hiterate (fun x y hy => ih hr hy) _ x y hy
  | plus r ih =>
    have hr : r.groups = [] := hr
    simp only [outcomes, hr, Cursor.reset_nil] at hy
    obtain ⟨z, hz, hy⟩ := List.mem_flatMap.mp hy
    exact (hiterate (fun x y hy => ih hr hy) _ z y hy).trans (ih hr hz)
  | opt r ih =>
    have hr : r.groups = [] := hr
    simp only [outcomes, hr, Cursor.reset_nil] at hy
    rcases List.mem_append.mp hy with hy | hy
    · exact ih hr (List.mem_of_mem_filter hy)
    · rw [List.mem_singleton.mp hy]
  | group n r => cases hr
  | lineStart =>
    simp only [outcomes] at hy
    split_ifs at hy
    · rw [List.mem_singleton.mp hy]
    · cases hy
  | lineEnd =>
    simp only [outcomes] at hy
    split_ifs at hy
    · rw [List.mem_singleton.mp hy]
    · cases hy

/-- A group captures a word of its language. -/
lemma mem_outcomes_group {input : List α} {n : ℕ} {r : Regex α} (hplain : r.isPlain = true)
    (hgroups : r.groups = []) {x y : Cursor α} (hy : y ∈ (group n r).outcomes input x) :
    ∃ w ∈ r.language, x.rest = w ++ y.rest ∧
      y = ⟨y.rest, Function.update x.captures n (some w)⟩ := by
  obtain ⟨z, hz, rfl⟩ := List.mem_map.mp hy
  obtain ⟨w, hw, hx⟩ := (matches_outcomes input hplain).sound x z hz
  refine ⟨w, hw, hx, ?_⟩
  simp [Cursor.capture, captures_eq hgroups hz, hx]

/-! ### The first outcome -/

lemma head?_flatMap_of_unique {β γ : Type u} {l : List β} {f : β → List γ} {b : β} (hb : b ∈ l)
    (h : ∀ c ∈ l, f c ≠ [] → c = b) : (l.flatMap f).head? = (f b).head? := by
  induction l with
  | nil => cases hb
  | cons c l ih =>
    rw [List.flatMap_cons]
    by_cases hc : f c = []
    · rw [hc, List.nil_append]
      rcases List.mem_cons.mp hb with rfl | hb
      · rw [List.flatMap_eq_nil_iff.mpr, hc]
        intro d hd
        by_contra hne
        exact hne (h d (List.mem_cons_of_mem _ hd) hne ▸ hc)
      · apply ih hb
        intro d hd
        exact h d (List.mem_cons_of_mem _ hd)
    · rw [List.head?_append_of_ne_nil _ hc, h c List.mem_cons_self hc]

/-- What follows a group, if it can go on after one word of the group only. -/
lemma head?_seq_group {input : List α} {n : ℕ} {r s : Regex α} (hplain : r.isPlain = true)
    (hgroups : r.groups = []) {x : Cursor α} {w t : List α} (hw : w ∈ r.language)
    (hx : x.rest = w ++ t)
    (hunique : ∀ v u, v ∈ r.language → x.rest = v ++ u →
      s.outcomes input ⟨u, Function.update x.captures n (some v)⟩ ≠ [] → v = w) :
    ((seq (group n r) s).outcomes input x).head? =
      (s.outcomes input ⟨t, Function.update x.captures n (some w)⟩).head? := by
  have hmem : ⟨t, Function.update x.captures n (some w)⟩ ∈ (group n r).outcomes input x := by
    obtain ⟨y, hy, rfl⟩ := (matches_outcomes input hplain).complete x w hw t hx
    have hy' : x.capture n y ∈ (group n r).outcomes input x := List.mem_map_of_mem hy
    obtain ⟨v, -, hv, heq⟩ := mem_outcomes_group hplain hgroups hy'
    obtain rfl : v = w := List.append_cancel_right (hv.symm.trans hx)
    rwa [heq] at hy'
  rw [outcomes]
  apply head?_flatMap_of_unique hmem
  intro z hz hne
  obtain ⟨v, hv, hxz, heq⟩ := mem_outcomes_group hplain hgroups hz
  obtain rfl : v = w := hunique v z.rest hv hxz (by rwa [heq] at hne)
  rw [heq, List.append_cancel_left (hxz.symm.trans hx)]

lemma outcomes_seq_group_eq_nil {input : List α} {n : ℕ} {r s : Regex α}
    (hplain : r.isPlain = true) (hgroups : r.groups = []) {x : Cursor α}
    (h : ∀ v u, v ∈ r.language → x.rest = v ++ u →
      s.outcomes input ⟨u, Function.update x.captures n (some v)⟩ = []) :
    (seq (group n r) s).outcomes input x = [] := by
  rw [outcomes, List.flatMap_eq_nil_iff]
  intro y hy
  obtain ⟨v, hv, hx, heq⟩ := mem_outcomes_group hplain hgroups hy
  rw [heq]
  exact h v y.rest hv hx

/-- A search for an expression that starts with `^` only tries the first position. -/
lemma search_lineStart (r : Regex α) (input : List α) :
    search (seq lineStart r) input = (r.outcomes input (.start input)).head? := by
  have hstart : ∀ rest, (seq lineStart r).outcomes input (.start rest) =
      if rest.length = input.length then r.outcomes input (.start rest) else [] := by
    intro rest
    have hanchor : lineStart.outcomes input (.start rest) =
        if rest.length = input.length then [.start rest] else [] := rfl
    rw [outcomes, hanchor]
    split_ifs
    · exact List.flatMap_singleton _ _
    · rfl
  simp only [search, hstart]
  rw [head?_flatMap_of_unique (b := input) ((List.mem_tails _ _).mpr List.suffix_rfl), if_pos rfl]
  intro rest hrest hne
  apply ((List.mem_tails _ _).mp hrest).eq_of_length
  by_contra hlen
  exact hne (if_neg hlen)

/-- Between anchors an expression matches the words of its language. -/
theorem fullMatch_anchored {r : Regex α} (hr : r.isPlain = true) (input : List α) :
    fullMatch (seq lineStart (seq r lineEnd)) input = true ↔ input ∈ r.language := by
  have hanchor : lineStart.outcomes input (.start input) = [.start input] := if_pos rfl
  calc fullMatch (seq lineStart (seq r lineEnd)) input = true
      ↔ ∃ y ∈ r.outcomes input (.start input), y.rest = [] := by
        rw [fullMatch, outcomes, hanchor, List.flatMap_singleton, List.any_eq_true]
        constructor
        · rintro ⟨z, hz, -⟩
          obtain ⟨y, hy, hz⟩ := List.mem_flatMap.mp hz
          refine ⟨y, hy, ?_⟩
          by_contra hne
          simp [outcomes, hne] at hz
        · rintro ⟨y, hy, hend⟩
          exact ⟨y, List.mem_flatMap.mpr ⟨y, hy, by simp [outcomes, hend]⟩, by simp [hend]⟩
    _ ↔ ∃ w ∈ r.language, input = w ++ [] := exists_outcome_iff hr
    _ ↔ input ∈ r.language := by simp

lemma head?_outcomes_star_one (input : List α) (p : α → Bool) (x : Cursor α) :
    ((star (one p)).outcomes input x).head? = some { x with rest := x.rest.dropWhile p } := by
  obtain ⟨rest, captures⟩ := x
  induction rest with
  | nil => rfl
  | cons a rest ih =>
    rw [outcomes_star]
    by_cases ha : p a = true
    · have hone : (one p).outcomes input ((⟨a :: rest, captures⟩ : Cursor α).reset []) =
          [⟨rest, captures⟩] := by simp [outcomes, ha]
      have hlen : ¬ rest.length = (a :: rest).length := by simp
      rw [show (one p).groups = [] from rfl, hone, List.flatMap_singleton, if_neg hlen,
        List.head?_append, ih, List.dropWhile_cons_of_pos ha]
      rfl
    · have hone : (one p).outcomes input ((⟨a :: rest, captures⟩ : Cursor α).reset []) = [] := by
        simp [outcomes, ha]
      rw [show (one p).groups = [] from rfl, hone, List.dropWhile_cons_of_neg ha]
      rfl

/-- A repeated class first takes all characters that it can. -/
theorem head?_outcomes_plus_one (input : List α) (p : α → Bool) {x : Cursor α}
    (hx : x.rest.takeWhile p ≠ []) :
    ((plus (one p)).outcomes input x).head? = some { x with rest := x.rest.dropWhile p } := by
  obtain ⟨rest, captures⟩ := x
  cases rest with
  | nil => exact absurd rfl hx
  | cons a rest =>
    have ha : p a = true := by
      by_contra ha
      exact hx (List.takeWhile_cons_of_neg ha)
    have hone : (one p).outcomes input ((⟨a :: rest, captures⟩ : Cursor α).reset []) =
        [⟨rest, captures⟩] := by simp [outcomes, ha]
    rw [outcomes_plus, show (one p).groups = [] from rfl, hone, List.flatMap_singleton,
      head?_outcomes_star_one, List.dropWhile_cons_of_pos ha]

/-! ### Bytes -/

/-- The byte of an ASCII character. -/
def byte (c : Char) : UInt8 := c.toNat.toUInt8

/-- `\w` -/
def isWord (c : UInt8) : Bool :=
  (byte 'a' ≤ c && c ≤ byte 'z') || (byte 'A' ≤ c && c ≤ byte 'Z') ||
    (byte '0' ≤ c && c ≤ byte '9') || c == byte '_'

/-- `\s`: a space, or one of `\t`, `\n`, `\v`, `\f` and `\r`. -/
def isSpace (c : UInt8) : Bool := c == byte ' ' || (9 ≤ c && c ≤ 13)

/-- `.` -/
def isDot (c : UInt8) : Bool := c != byte '\n' && c != byte '\r'

end Regex

end EzServer.Core
