import EzServer.Core.Machine

/-!
# Parts of a system

A part of a system has a step function of its own. It is seen in a state of the whole through
`view`, which is `none` until the part is there, and `label` tells which step of the part a label of
the whole is, if it is one. Along a projection every run of the whole is, seen from the part, a run
of the part; so what the part keeps by itself it keeps in every run of the whole.
-/

namespace EzServer.Core

universe u v w x
variable {σ : Type u} {α : Type v} {τ : Type w} {β : Type x}
  {step : σ → α → Option σ} {partStep : τ → β → Option τ} {view : σ → Option τ}
  {label : α → Option β} {Inv : σ → Prop} {Initial : τ → Prop}

/-- In the states that meet `Inv`, a step of the whole is a step of the part, leaves it alone, or
brings it into being. -/
structure Projection (step : σ → α → Option σ) (partStep : τ → β → Option τ)
    (view : σ → Option τ) (label : α → Option β) (Inv : σ → Prop) (Initial : τ → Prop) : Prop where
  keeps : ∀ s a t, Inv s → step s a = some t → Inv t
  follows : ∀ s a t p, Inv s → step s a = some t → view s = some p →
    ∃ q, run partStep p (label a).toList = some q ∧ view t = some q
  enters : ∀ s a t, Inv s → step s a = some t → view s = none →
    label a = none ∧ ∀ p, view t = some p → Initial p

lemma run_append (s : σ) (as bs : List α) :
    run step s (as ++ bs) = (run step s as).bind fun t => run step t bs := by
  induction as generalizing s with
  | nil => rfl
  | cons a as ih =>
    rw [List.cons_append, run_cons, run_cons, Option.bind_assoc]
    exact congrArg _ (funext fun t => ih t)

lemma run_append_eq_some {s t : σ} {as bs : List α} :
    run step s (as ++ bs) = some t ↔ ∃ u, run step s as = some u ∧ run step u bs = some t := by
  rw [run_append, Option.bind_eq_some_iff]

lemma filterMap_cons_eq (a : α) (as : List α) :
    (a :: as).filterMap label = (label a).toList ++ as.filterMap label := by
  rw [List.filterMap_cons]
  cases label a <;> rfl

/-! ### Components -/

lemma getElem?_concat_eq_some {cs : List α} {a b : α} {i : ℕ} :
    (cs ++ [a])[i]? = some b ↔ cs[i]? = some b ∨ i = cs.length ∧ a = b := by
  rcases Nat.lt_trichotomy i cs.length with h | rfl | h
  · rw [List.getElem?_append_left h]
    exact ⟨Or.inl, fun hb => hb.resolve_right fun he => Nat.ne_of_lt h he.1⟩
  · simp
  · have hlen : (cs ++ [a]).length ≤ i := by
      rw [List.length_append]
      exact h
    rw [List.getElem?_eq_none hlen, List.getElem?_eq_none (Nat.le_of_lt h)]
    simp [Nat.ne_of_gt h]

lemma getElem?_set_eq_some {cs : List α} {a b c : α} {i j : ℕ} (hc : cs[i]? = some c) :
    (cs.set i a)[j]? = some b ↔ j = i ∧ a = b ∨ j ≠ i ∧ cs[j]? = some b := by
  by_cases h : j = i
  · obtain rfl := h
    simp [List.getElem?_set_self (List.getElem?_eq_some_iff.mp hc).1]
  · simp [List.getElem?_set_ne (Ne.symm h), h]

/-! ### Runs of the parts -/

namespace Projection

/-- A part that is there moves along its own labels. -/
theorem run_of_view (h : Projection step partStep view label Inv Initial) {s t : σ} {p : τ}
    {as : List α} (hs : Inv s) (hp : view s = some p) (hrun : run step s as = some t) :
    ∃ q, run partStep p (as.filterMap label) = some q ∧ view t = some q := by
  induction as generalizing s p with
  | nil =>
    obtain rfl := Option.some.inj hrun
    exact ⟨p, rfl, hp⟩
  | cons a as ih =>
    obtain ⟨u, hu, hrest⟩ := run_cons_eq_some.mp hrun
    obtain ⟨m, hm, hview⟩ := h.follows s a u p hs hu hp
    obtain ⟨q, hq, hlast⟩ := ih (h.keeps s a u hs hu) hview hrest
    refine ⟨q, ?_, hlast⟩
    rw [filterMap_cons_eq]
    exact run_append_eq_some.mpr ⟨m, hm, hq⟩

/-- A part that comes into being moves along its own labels from an initial state. -/
theorem run_of_enter (h : Projection step partStep view label Inv Initial) {s t : σ} {q : τ}
    {as : List α} (hs : Inv s) (hnot : view s = none) (hrun : run step s as = some t)
    (hq : view t = some q) :
    ∃ p, Initial p ∧ run partStep p (as.filterMap label) = some q := by
  induction as generalizing s with
  | nil =>
    obtain rfl := Option.some.inj hrun
    rw [hnot] at hq
    cases hq
  | cons a as ih =>
    obtain ⟨u, hu, hrest⟩ := run_cons_eq_some.mp hrun
    obtain ⟨hlabel, hinit⟩ := h.enters s a u hs hu hnot
    rw [filterMap_cons_eq, hlabel, Option.toList_none, List.nil_append]
    cases hview : view u with
    | none => exact ih (h.keeps s a u hs hu) hview hrest
    | some p =>
      obtain ⟨q', hrun', hq'⟩ := h.run_of_view (h.keeps s a u hs hu) hview hrest
      obtain rfl := Option.some.inj (hq'.symm.trans hq)
      exact ⟨p, hinit p hview, hrun'⟩

/-- What the part has from its start and every step of it that meets `H` preserves, it has in every
run of the whole whose steps all look like that to the part. -/
theorem invariant (h : Projection step partStep view label Inv Initial) {I : τ → Prop}
    {G : σ → α → Prop} {H : τ → β → Prop} (hinit : ∀ p, Initial p → I p)
    (hstep : ∀ p b q, I p → H p b → partStep p b = some q → I q)
    (hGH : ∀ s a p b, G s a → view s = some p → label a = some b → H p b)
    {s t : σ} {as : List α} (hs : Inv s) (hview : ∀ p, view s = some p → I p)
    (hG : EveryStep step G s as) (hrun : run step s as = some t) :
    ∀ q, view t = some q → I q := by
  induction as generalizing s with
  | nil =>
    obtain rfl := Option.some.inj hrun
    exact hview
  | cons a as ih =>
    obtain ⟨u, hu, hrest⟩ := run_cons_eq_some.mp hrun
    apply ih (h.keeps s a u hs hu) _ (hG.2 u hu) hrest
    intro q hq
    cases hp : view s with
    | none => exact hinit q ((h.enters s a u hs hu hp).2 q hq)
    | some p =>
      obtain ⟨q', hrun', hq'⟩ := h.follows s a u p hs hu hp
      obtain rfl := Option.some.inj (hq'.symm.trans hq)
      cases hlabel : label a with
      | none =>
        rw [hlabel] at hrun'
        obtain rfl := Option.some.inj hrun'
        exact hview p hp
      | some b =>
        rw [hlabel] at hrun'
        obtain ⟨m, hm, hlast⟩ := run_cons_eq_some.mp hrun'
        obtain rfl := Option.some.inj hlast
        exact hstep p b m (hview p hp) (hGH s a p b hG.1 hp hlabel) hm

end Projection

end EzServer.Core
