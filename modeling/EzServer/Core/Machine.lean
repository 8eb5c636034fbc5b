import Mathlib.Algebra.GroupWithZero.Nat
import Mathlib.Data.List.Basic
import Mathlib.Data.List.Count

/-!
# Runs of partial step functions

A system is given by `step : σ → α → Option σ`: the state after the label `a`, or `none` where
`a` is not enabled. A run is a list of labels that are enabled one after the other.

Safety properties of runs come from the invariant rules below. `EveryStep G` restricts a run to
the steps that meet a condition on the label and the state before it; `everyStep_or_latched`
says what becomes of a run that leaves the condition.
-/

namespace EzServer.Core

universe u v
variable {σ : Type u} {α : Type v} {step : σ → α → Option σ}

/-- Follow the labels one by one; `none` as soon as one is not enabled. -/
def run (step : σ → α → Option σ) : σ → List α → Option σ
  | s, []      => some s
  | s, a :: as => (step s a).bind fun t => run step t as

/-- Every step of the run from `s` meets `G`. -/
def EveryStep (step : σ → α → Option σ) (G : σ → α → Prop) : σ → List α → Prop
  | _, []      => True
  | s, a :: as => G s a ∧ ∀ t ∈ step s a, EveryStep step G t as

/-- Every state of the run from `s`, both ends included, meets `P`. -/
def EveryState (step : σ → α → Option σ) (P : σ → Prop) : σ → List α → Prop
  | s, []      => P s
  | s, a :: as => P s ∧ ∀ t ∈ step s a, EveryState step P t as

instance EveryStep.decidable {G : σ → α → Prop} [∀ s a, Decidable (G s a)] :
    ∀ s as, Decidable (EveryStep step G s as)
  | _, []      => isTrue trivial
  | s, a :: as =>
    match h : step s a with
    | none   => decidable_of_iff (G s a) (by simp [EveryStep, h])
    | some t =>
      have : Decidable (EveryStep step G t as) := EveryStep.decidable t as
      decidable_of_iff (G s a ∧ EveryStep step G t as) (by simp [EveryStep, h])

/-! ### Runs -/

@[simp] lemma run_nil (s : σ) : run step s [] = some s := rfl

lemma run_cons (s : σ) (a : α) (as : List α) :
    run step s (a :: as) = (step s a).bind fun t => run step t as := rfl

@[simp] lemma run_cons_eq_some {s t : σ} {a : α} {as : List α} :
    run step s (a :: as) = some t ↔ ∃ u, step s a = some u ∧ run step u as = some t := by
  simp [run_cons, Option.bind_eq_some_iff]

/-! ### Invariants -/

/-- What every step preserves holds at the end of every run. -/
theorem run_invariant {I : σ → Prop} (hstep : ∀ s a t, I s → step s a = some t → I t)
    {s t : σ} {as : List α} (hs : I s) (hrun : run step s as = some t) : I t := by
  induction as generalizing s with
  | nil =>
    obtain rfl := Option.some.inj hrun
    exact hs
  | cons a as ih =>
    obtain ⟨u, hu, hrest⟩ := run_cons_eq_some.mp hrun
    exact ih (hstep s a u hs hu) hrest

/-- What every step that meets `G` preserves holds at the end of the runs inside `G`. -/
theorem run_invariant_of_everyStep {I : σ → Prop} {G : σ → α → Prop}
    (hstep : ∀ s a t, I s → G s a → step s a = some t → I t)
    {s t : σ} {as : List α} (hs : I s) (hG : EveryStep step G s as)
    (hrun : run step s as = some t) : I t := by
  induction as generalizing s with
  | nil =>
    obtain rfl := Option.some.inj hrun
    exact hs
  | cons a as ih =>
    obtain ⟨u, hu, hrest⟩ := run_cons_eq_some.mp hrun
    exact ih (hstep s a u hs hG.1 hu) (hG.2 u hu) hrest

/-- A run stays inside `G` and keeps `I`, or it leaves `G` and ends in the latch `B`. -/
theorem everyStep_or_latched {I B : σ → Prop} {H G : σ → α → Prop}
    (hgood : ∀ s a t, I s → H s a → G s a → step s a = some t → I t)
    (hleave : ∀ s a t, I s → H s a → ¬ G s a → step s a = some t → B t)
    (hlatch : ∀ s a t, B s → H s a → step s a = some t → B t)
    {s t : σ} {as : List α} (hs : I s) (hH : EveryStep step H s as)
    (hrun : run step s as = some t) :
    (EveryStep step G s as ∧ I t) ∨ (¬ EveryStep step G s as ∧ B t) := by
  induction as generalizing s with
  | nil =>
    obtain rfl := Option.some.inj hrun
    exact Or.inl ⟨trivial, hs⟩
  | cons a as ih =>
    obtain ⟨u, hu, hrest⟩ := run_cons_eq_some.mp hrun
    have hHu : EveryStep step H u as := hH.2 u hu
    by_cases hG : G s a
    · rcases ih (hgood s a u hs hH.1 hG hu) hHu hrest with ⟨hall, hI⟩ | ⟨hnot, hB⟩
      · refine Or.inl ⟨⟨hG, fun v hv => ?_⟩, hI⟩
        obtain rfl : u = v := Option.some.inj (hu.symm.trans hv)
        exact hall
      · exact Or.inr ⟨fun hall => hnot (hall.2 u hu), hB⟩
    · refine Or.inr ⟨fun hall => hG hall.1, ?_⟩
      exact run_invariant_of_everyStep hlatch (hleave s a u hs hH.1 hG hu) hHu hrest

/-- When a step keeps `P` exactly if it meets `G`, the runs through `P` are the runs inside `G`. -/
theorem everyState_iff_everyStep {I P : σ → Prop} {H G : σ → α → Prop}
    (hinv : ∀ s a t, I s → H s a → step s a = some t → I t)
    (hiff : ∀ s a t, I s → P s → H s a → step s a = some t → (P t ↔ G s a))
    {s t : σ} {as : List α} (hs : I s) (hP : P s) (hH : EveryStep step H s as)
    (hrun : run step s as = some t) :
    EveryState step P s as ↔ EveryStep step G s as := by
  induction as generalizing s with
  | nil => simpa [EveryState, EveryStep] using hP
  | cons a as ih =>
    obtain ⟨u, hu, hrest⟩ := run_cons_eq_some.mp hrun
    have key : P u ↔ G s a := hiff s a u hs hP hH.1 hu
    have hIu : I u := hinv s a u hs hH.1 hu
    have hHu : EveryStep step H u as := hH.2 u hu
    have hstate : EveryState step P s (a :: as) ↔ P s ∧ EveryState step P u as := by
      simp [EveryState, hu]
    have hstp : EveryStep step G s (a :: as) ↔ G s a ∧ EveryStep step G u as := by
      simp [EveryStep, hu]
    rw [hstate, hstp]
    constructor
    · rintro ⟨_, hall⟩
      have hPu : P u := by cases as with
        | nil => exact hall
        | cons b bs => exact hall.1
      exact ⟨key.mp hPu, (ih hIu hPu hHu hrest).mp hall⟩
    · rintro ⟨hG, hall⟩
      have hPu : P u := key.mpr hG
      exact ⟨hP, (ih hIu hPu hHu hrest).mpr hall⟩

/-- A rank that falls at each step in `p` and never rises bounds the number of steps in `p`. -/
theorem run_countP_le {I : σ → Prop} {H : σ → α → Prop} {p : α → Bool} {rank : σ → ℕ}
    (hinv : ∀ s a t, I s → H s a → step s a = some t → I t)
    (hrank : ∀ s a t, I s → H s a → step s a = some t →
      (if p a then 1 else 0) + rank t ≤ rank s)
    {s t : σ} {as : List α} (hs : I s) (hH : EveryStep step H s as)
    (hrun : run step s as = some t) : as.countP p + rank t ≤ rank s := by
  induction as generalizing s with
  | nil =>
    obtain rfl := Option.some.inj hrun
    simp
  | cons a as ih =>
    obtain ⟨u, hu, hrest⟩ := run_cons_eq_some.mp hrun
    have h1 := hrank s a u hs hH.1 hu
    have h2 := ih (hinv s a u hs hH.1 hu) (hH.2 u hu) hrest
    rw [List.countP_cons]
    omega

/-- What every step that meets `G` preserves holds in every state of the runs inside `G`. -/
theorem everyState_of_everyStep {I : σ → Prop} {G : σ → α → Prop}
    (hstep : ∀ s a t, I s → G s a → step s a = some t → I t)
    {s : σ} {as : List α} (hs : I s) (hG : EveryStep step G s as) : EveryState step I s as := by
  induction as generalizing s with
  | nil => exact hs
  | cons a as ih => exact ⟨hs, fun t ht => ih (hstep s a t hs hG.1 ht) (hG.2 t ht)⟩

lemma EveryState.imp {P Q : σ → Prop} (hPQ : ∀ s, P s → Q s) {s : σ} {as : List α}
    (h : EveryState step P s as) : EveryState step Q s as := by
  induction as generalizing s with
  | nil => exact hPQ s h
  | cons a as ih => exact ⟨hPQ s h.1, fun t ht => ih (h.2 t ht)⟩

/-- The last state of a run is one of its states. -/
lemma EveryState.last {P : σ → Prop} {s t : σ} {as : List α} (h : EveryState step P s as)
    (hrun : run step s as = some t) : P t := by
  induction as generalizing s with
  | nil =>
    obtain rfl := Option.some.inj hrun
    exact h
  | cons a as ih =>
    obtain ⟨u, hu, hrest⟩ := run_cons_eq_some.mp hrun
    exact ih (h.2 u hu) hrest

lemma EveryStep.of_forall {G : σ → α → Prop} (hG : ∀ s a, G s a) (s : σ) (as : List α) :
    EveryStep step G s as := by
  induction as generalizing s with
  | nil => trivial
  | cons a as ih => exact ⟨hG s a, fun t _ => ih t⟩

lemma EveryStep.and {G H : σ → α → Prop} {s : σ} {as : List α} (hG : EveryStep step G s as)
    (hH : EveryStep step H s as) : EveryStep step (fun s a => G s a ∧ H s a) s as := by
  induction as generalizing s with
  | nil => trivial
  | cons a as ih => exact ⟨⟨hG.1, hH.1⟩, fun t ht => ih (hG.2 t ht) (hH.2 t ht)⟩

/-! ### Counting -/

/-- How many steps of the run from `s` meet `p`. -/
def countSteps (step : σ → α → Option σ) (p : σ → α → Bool) : σ → List α → ℕ
  | _, []      => 0
  | s, a :: as =>
    (if p s a then 1 else 0) + (step s a).elim 0 fun t => countSteps step p t as

/-- What each step in `p` uses up by one, and no other step changes. -/
theorem run_uses {I : σ → Prop} {p : σ → α → Bool} {stock : σ → ℕ}
    (hinv : ∀ s a t, I s → step s a = some t → I t)
    (huse : ∀ s a t, I s → step s a = some t → (if p s a then 1 else 0) + stock t = stock s)
    {s t : σ} {as : List α} (hs : I s) (hrun : run step s as = some t) :
    countSteps step p s as + stock t = stock s := by
  induction as generalizing s with
  | nil =>
    obtain rfl := Option.some.inj hrun
    exact Nat.zero_add _
  | cons a as ih =>
    obtain ⟨u, hu, hrest⟩ := run_cons_eq_some.mp hrun
    have hfirst := huse s a u hs hu
    have hlater := ih (hinv s a u hs hu) hrest
    simp only [countSteps, hu, Option.elim_some]
    omega

/-! ### Components -/

/-- A list of components around the one at `i`, and the list after that one has moved. -/
lemma exists_split_set {cs : List α} {i : ℕ} {c : α} (h : cs[i]? = some c) :
    ∃ l r, cs = l ++ c :: r ∧ ∀ d, cs.set i d = l ++ d :: r := by
  obtain ⟨hi, hget⟩ := List.getElem?_eq_some_iff.mp h
  refine ⟨cs.take i, cs.drop (i + 1), ?_, fun d => ?_⟩
  · rw [← hget, List.getElem_cons_drop, List.take_append_drop]
  · exact List.set_eq_take_append_cons_drop.trans (if_pos hi)

/-- What a list of components weighs after one of them has moved. -/
lemma sum_map_set (weight : α → ℕ) {cs : List α} {i : ℕ} {c : α} (h : cs[i]? = some c) (d : α) :
    ((cs.set i d).map weight).sum + weight c = (cs.map weight).sum + weight d := by
  obtain ⟨l, r, rfl, hset⟩ := exists_split_set h
  rw [hset d]
  simp only [List.map_append, List.map_cons, List.sum_append, List.sum_cons]
  omega

/-- What it weighs after one of them has left. -/
lemma sum_map_eraseIdx (weight : α → ℕ) {cs : List α} {i : ℕ} {c : α} (h : cs[i]? = some c) :
    ((cs.eraseIdx i).map weight).sum + weight c = (cs.map weight).sum := by
  induction cs generalizing i with
  | nil => cases h
  | cons b cs ih =>
    cases i with
    | zero =>
      obtain rfl := Option.some.inj h
      exact Nat.add_comm _ _
    | succ i =>
      have hrest := ih h
      simp only [List.eraseIdx_cons_succ, List.map_cons, List.sum_cons]
      omega

end EzServer.Core
