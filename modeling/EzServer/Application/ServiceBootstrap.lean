import EzServer.Application.Bootstrapper
import EzServer.Services.History

/-!
# Bootstrapping services

`LoadServices` stops at the first required service that fails, so how far it gets depends on the
order in which the map is enumerated. What it returns does not, and the flag of a service keeps its
`Initialize` from being called again once it has succeeded.
-/

namespace EzServer.Application

open Services Introp

variable {σ : Type} [DecidableEq σ]

/-! ### One call of LoadServices -/

section Verdict

variable {isRequired succeeds : σ → Bool} {outcomes : String → Outcome}

/-- `IService::Bootstrap` of a service whose `Initialize` returns. -/
lemma bootstrapService_returned (succeeds : σ → Bool) (v : σ) (up : List σ) :
    ∃ now, bootstrapService v (.returned (succeeds v)) up =
        some (decide (v ∈ up ∨ succeeds v = true), now) ∧
      ∀ w, w ∈ now ↔ w ∈ up ∨ w = v ∧ succeeds v = true := by
  by_cases hmem : v ∈ up
  · refine ⟨up, by simp [bootstrapService, hmem], fun w => ?_⟩
    constructor
    · exact Or.inl
    · rintro (hw | ⟨rfl, -⟩)
      · exact hw
      · exact hmem
  · cases hsucceeds : succeeds v with
    | false => exact ⟨up, by simp [bootstrapService, hmem], by simp⟩
    | true =>
      refine ⟨v :: up, by simp [bootstrapService, hmem], fun w => ?_⟩
      rw [List.mem_cons]
      tauto

/-- `LoadServices` stops at a required service that fails and goes on after every other one. -/
lemma loadServices_cons_returned (isRequired : σ → Bool) {key : String} {v : σ} (up : List σ)
    (services : List (String × SharedPtr σ)) (hfixed : outcomes key = .returned (succeeds v)) :
    ∃ now, (∀ w, w ∈ now ↔ w ∈ up ∨ w = v ∧ succeeds v = true) ∧
      loadServices isRequired outcomes up ((key, some v) :: services) =
        if isRequired v = true → v ∉ up → succeeds v = true then
          loadServices isRequired outcomes now services
        else (.returned false, now) := by
  obtain ⟨now, hbootstrap, hnow⟩ := bootstrapService_returned succeeds v up
  refine ⟨now, hnow, ?_⟩
  rw [loadServices, hfixed, hbootstrap]
  by_cases hup : v ∈ up ∨ succeeds v = true
  · rw [decide_eq_true hup, if_pos fun _ hdown => hup.resolve_left hdown]
  · rw [decide_eq_false hup]
    obtain ⟨hdown, hfails⟩ := not_or.mp hup
    cases hneeded : isRequired v with
    | false => simp
    | true => simp [hdown, hfails]

/-- The verdict of `LoadServices` over services whose `Initialize` returns the same whenever it is
called. -/
lemma loadServices_eq_true_iff {up : List σ} {services : List (String × SharedPtr σ)}
    (hnonnull : ∀ e ∈ services, e.2 ≠ none)
    (hfixed : ∀ key v, (key, some v) ∈ services → outcomes key = .returned (succeeds v)) :
    (loadServices isRequired outcomes up services).1 = .returned true ↔
      ∀ key v, (key, some v) ∈ services → isRequired v = true → v ∉ up → succeeds v = true := by
  induction services generalizing up with
  | nil => simp [loadServices]
  | cons e services ih =>
    obtain ⟨key, svc⟩ := e
    obtain ⟨v, rfl⟩ : ∃ v, svc = some v :=
      Option.ne_none_iff_exists'.mp (hnonnull _ List.mem_cons_self)
    obtain ⟨now, hnow, hstep⟩ := loadServices_cons_returned isRequired up services
      (hfixed key v List.mem_cons_self)
    have hverdict := @ih now (fun e he => hnonnull e (List.mem_cons_of_mem _ he))
      fun k w hw => hfixed k w (List.mem_cons_of_mem _ hw)
    rw [hstep]
    split_ifs with hgoes
    · rw [hverdict]
      constructor
      · intro hrest k w hw hneeded hdown
        rcases List.mem_cons.mp hw with heq | hw
        · obtain ⟨-, rfl⟩ : k = key ∧ w = v := by simpa using heq
          exact hgoes hneeded hdown
        · by_cases hnew : w = v ∧ succeeds v = true
          · rw [hnew.1]
            exact hnew.2
          · apply hrest k w hw hneeded
            rw [hnow]
            exact fun hup => hup.elim hdown hnew
      · intro hall k w hw hneeded hdown
        apply hall k w (List.mem_cons_of_mem _ hw) hneeded
        exact fun hup => hdown ((hnow w).mpr (.inl hup))
    · constructor
      · intro hres
        cases hres
      · intro hall
        exact absurd (hall key v List.mem_cons_self) hgoes

/-- When `LoadServices` succeeds, it has been through all services. -/
lemma mem_loadServices {up : List σ} {services : List (String × SharedPtr σ)}
    (hnonnull : ∀ e ∈ services, e.2 ≠ none)
    (hfixed : ∀ key v, (key, some v) ∈ services → outcomes key = .returned (succeeds v))
    (hres : (loadServices isRequired outcomes up services).1 = .returned true) (w : σ) :
    w ∈ (loadServices isRequired outcomes up services).2 ↔
      w ∈ up ∨ (∃ key, (key, some w) ∈ services) ∧ succeeds w = true := by
  induction services generalizing up with
  | nil => simp [loadServices]
  | cons e services ih =>
    obtain ⟨key, svc⟩ := e
    obtain ⟨v, rfl⟩ : ∃ v, svc = some v :=
      Option.ne_none_iff_exists'.mp (hnonnull _ List.mem_cons_self)
    obtain ⟨now, hnow, hstep⟩ := loadServices_cons_returned isRequired up services
      (hfixed key v List.mem_cons_self)
    rw [hstep] at hres ⊢
    split_ifs at hres ⊢ with hgoes
    · rw [ih (fun e he => hnonnull e (List.mem_cons_of_mem _ he))
        (fun k w hw => hfixed k w (List.mem_cons_of_mem _ hw)) hres, hnow]
      constructor
      · rintro ((hup | ⟨rfl, hsucceeds⟩) | ⟨⟨k, hw⟩, hsucceeds⟩)
        · exact Or.inl hup
        · exact Or.inr ⟨⟨key, List.mem_cons_self⟩, hsucceeds⟩
        · exact Or.inr ⟨⟨k, List.mem_cons_of_mem _ hw⟩, hsucceeds⟩
      · rintro (hup | ⟨⟨k, hw⟩, hsucceeds⟩)
        · exact Or.inl (Or.inl hup)
        · rcases List.mem_cons.mp hw with heq | hw
          · obtain ⟨-, rfl⟩ : k = key ∧ w = v := by simpa using heq
            exact Or.inl (Or.inr ⟨rfl, hsucceeds⟩)
          · exact Or.inr ⟨⟨k, hw⟩, hsucceeds⟩
    · cases hres

end Verdict

/-! ### Calls of Initialize -/

/-- The services that are bootstrapped, and the calls of their `Initialize`, latest first. -/
structure Latches (σ : Type) where
  bootstrapped : List σ
  calls : List (σ × Outcome)

namespace Latches

/-- `IService::Bootstrap` -/
def bootstrap (l : Latches σ) (service : σ) (outcome : Outcome) : Option Bool × Latches σ :=
  if service ∈ l.bootstrapped then (some true, l)
  else
    let calls := (service, outcome) :: l.calls
    match outcome with
    | .threw => (none, ⟨l.bootstrapped, calls⟩)
    | .returned false => (some false, ⟨l.bootstrapped, calls⟩)
    | .returned true => (some true, ⟨service :: l.bootstrapped, calls⟩)

/-- `LoadServices` -/
def loadServices (isRequired : σ → Bool) (outcomes : String → Outcome) (l : Latches σ) :
    List (String × SharedPtr σ) → Ending × Latches σ
  | [] => (.returned true, l)
  | (_, none) :: _ => (.undefined, l)
  | (key, some service) :: services =>
    match l.bootstrap service (outcomes key) with
    | (none, l) => (.threw, l)
    | (some true, l) => l.loadServices isRequired outcomes services
    | (some false, l) =>
      if isRequired service then (.returned false, l)
      else l.loadServices isRequired outcomes services

lemma bootstrap_eq (l : Latches σ) (service : σ) (outcome : Outcome) :
    bootstrapService service outcome l.bootstrapped =
      (l.bootstrap service outcome).1.map fun result =>
        (result, (l.bootstrap service outcome).2.bootstrapped) := by
  unfold bootstrapService bootstrap
  split_ifs
  · rfl
  · cases outcome with
    | threw => rfl
    | returned result => cases result <;> rfl

/-- An exception of `Initialize` sets no flag. -/
lemma bootstrapped_bootstrap_of_none {l : Latches σ} {service : σ} {outcome : Outcome}
    (h : (l.bootstrap service outcome).1 = none) :
    (l.bootstrap service outcome).2.bootstrapped = l.bootstrapped := by
  rw [bootstrap] at h ⊢
  split_ifs at h ⊢
  cases outcome with
  | threw => rfl
  | returned result => cases result <;> cases h

/-- Keeping a record of the calls changes nothing else. -/
lemma loadServices_eq (isRequired : σ → Bool) (outcomes : String → Outcome) (l : Latches σ)
    (services : List (String × SharedPtr σ)) :
    Application.loadServices isRequired outcomes l.bootstrapped services =
      ((l.loadServices isRequired outcomes services).1,
        (l.loadServices isRequired outcomes services).2.bootstrapped) := by
  induction services generalizing l with
  | nil => rfl
  | cons e services ih =>
    obtain ⟨key, svc⟩ := e
    cases svc with
    | none => rfl
    | some service =>
      have hnone := @bootstrapped_bootstrap_of_none _ _ l service (outcomes key)
      rw [Application.loadServices, bootstrap_eq, loadServices]
      rcases hbootstrap : l.bootstrap service (outcomes key) with ⟨result, now⟩
      rw [hbootstrap] at hnone
      cases result with
      | none => rw [← hnone rfl]; rfl
      | some result =>
        cases result with
        | true => exact ih now
        | false =>
          dsimp only [Option.map_some]
          split_ifs
          · rfl
          · exact ih now

/-- Every call of `Initialize` that returned true has set the flag of its service, and no later
call was made for that service. -/
def Once (l : Latches σ) : Prop :=
  (∀ service, (service, .returned true) ∈ l.calls → service ∈ l.bootstrapped) ∧
    l.calls.Pairwise fun later earlier => earlier.2 = .returned true → later.1 ≠ earlier.1

lemma Once.bootstrap {l : Latches σ} (hl : l.Once) (service : σ) (outcome : Outcome) :
    (l.bootstrap service outcome).2.Once := by
  obtain ⟨hset, honce⟩ := hl
  by_cases hmem : service ∈ l.bootstrapped
  · rw [Latches.bootstrap, if_pos hmem]
    exact ⟨hset, honce⟩
  · -- the flag is down, so no earlier call for the service has returned true
    have hcalls : ((service, outcome) :: l.calls).Pairwise fun later earlier =>
        earlier.2 = .returned true → later.1 ≠ earlier.1 := by
      rw [List.pairwise_cons]
      refine ⟨?_, honce⟩
      rintro ⟨v, o⟩ hv (rfl : o = .returned true) (rfl : service = v)
      exact hmem (hset service hv)
    have hother : ∀ v, outcome ≠ .returned true →
        (v, .returned true) ∈ (service, outcome) :: l.calls → v ∈ l.bootstrapped := by
      intro v hfails hv
      rcases List.mem_cons.mp hv with heq | hv
      · exact absurd (Prod.mk.inj heq).2.symm hfails
      · exact hset v hv
    rw [Latches.bootstrap, if_neg hmem]
    cases outcome with
    | threw => exact ⟨fun v => hother v (by simp), hcalls⟩
    | returned result =>
      cases result with
      | false => exact ⟨fun v => hother v (by simp), hcalls⟩
      | true =>
        refine ⟨fun v hv => ?_, hcalls⟩
        rcases List.mem_cons.mp hv with heq | hv
        · rw [(Prod.mk.inj heq).1]
          exact List.mem_cons_self
        · exact List.mem_cons_of_mem _ (hset v hv)

lemma Once.loadServices {l : Latches σ} (hl : l.Once) (isRequired : σ → Bool)
    (outcomes : String → Outcome) (services : List (String × SharedPtr σ)) :
    (l.loadServices isRequired outcomes services).2.Once := by
  induction services generalizing l with
  | nil => exact hl
  | cons e services ih =>
    obtain ⟨key, svc⟩ := e
    cases svc with
    | none => exact hl
    | some service =>
      have hnow := hl.bootstrap service (outcomes key)
      rw [Latches.loadServices]
      rcases hbootstrap : l.bootstrap service (outcomes key) with ⟨result, now⟩
      rw [hbootstrap] at hnow
      cases result with
      | none => exact hnow
      | some result =>
        cases result with
        | true => exact ih hnow
        | false =>
          dsimp only
          split_ifs
          · exact hnow
          · exact ih hnow

/-- A call that may bootstrap services, with what every `Initialize` does in it. -/
inductive Call (σ : Type) where
  | bootstrap (service : σ) (outcome : Outcome)
  | loadServices (outcomes : String → Outcome) (services : List (String × SharedPtr σ))

/-- The latches after some calls. -/
def after (isRequired : σ → Bool) (l : Latches σ) (calls : List (Call σ)) : Latches σ :=
  calls.foldl (fun l call =>
    match call with
    | .bootstrap service outcome => (l.bootstrap service outcome).2
    | .loadServices outcomes services => (l.loadServices isRequired outcomes services).2) l

lemma Once.after {l : Latches σ} (hl : l.Once) (isRequired : σ → Bool) (calls : List (Call σ)) :
    (l.after isRequired calls).Once := by
  induction calls generalizing l with
  | nil => exact hl
  | cons call calls ih =>
    apply ih
    cases call with
    | bootstrap service outcome => exact hl.bootstrap service outcome
    | loadServices outcomes services => exact hl.loadServices isRequired outcomes services

end Latches

/-! ### The verdict -/

/-- Let every `Initialize` return the same whenever it is called. In whichever order `LoadServices`
enumerates the map, it returns true iff no required service that is not up fails, and then it has
bootstrapped all services that succeed. However often it or `Bootstrap` is called, no `Initialize`
is called again after it has returned true. -/
theorem loadServices_verdict (isRequired succeeds : σ → Bool) {outcomes : String → Outcome}
    (up : List σ) {manager : ServicesManager σ} {order : List (String × SharedPtr σ)}
    (hnonnull : manager.NonNull) (horder : order.Perm manager.services)
    (hfixed : ∀ key v, (key, some v) ∈ manager.services → outcomes key = .returned (succeeds v)) :
    let out := (Latches.mk up []).loadServices isRequired outcomes order
    (out.1 = .returned true ↔ ∀ key v, (key, some v) ∈ manager.services → isRequired v = true →
        v ∉ up → succeeds v = true) ∧
      (out.1 = .returned true → ∀ v, v ∈ out.2.bootstrapped ↔
        v ∈ up ∨ (∃ key, (key, some v) ∈ manager.services) ∧ succeeds v = true) ∧
      ∀ calls : List (Latches.Call σ), ((Latches.mk up []).after isRequired calls).calls.Pairwise
        fun later earlier => earlier.2 = .returned true → later.1 ≠ earlier.1 := by
  intro out
  have hout : loadServices isRequired outcomes up order = (out.1, out.2.bootstrapped) :=
    Latches.loadServices_eq isRequired outcomes ⟨up, []⟩ order
  have hall : ∀ e ∈ order, e.2 ≠ none := fun e he => hnonnull e (horder.mem_iff.mp he)
  have hsame : ∀ key v, (key, some v) ∈ order → outcomes key = .returned (succeeds v) :=
    fun key v hv => hfixed key v (horder.mem_iff.mp hv)
  refine ⟨?_, ?_, ?_⟩
  · have hverdict := @loadServices_eq_true_iff _ _ isRequired succeeds _ up _ hall hsame
    rw [hout] at hverdict
    rw [hverdict]
    simp only [horder.mem_iff]
  · intro hres v
    have hmem := @mem_loadServices _ _ isRequired succeeds _ up _ hall hsame
    rw [hout] at hmem
    rw [hmem hres]
    simp only [horder.mem_iff]
  · intro calls
    have hstart : (Latches.mk up []).Once := ⟨by simp, List.Pairwise.nil⟩
    exact (hstart.after isRequired calls).2

/-- Two services under three keys; the one that is required succeeds. -/
theorem loadServices_verdict_three :
    let manager : ServicesManager Bool :=
      ⟨[("log", some true), ("files", some false), ("journal", some true)]⟩
    let out := (Latches.mk [] []).loadServices id (fun key => .returned (key != "files"))
      [("files", some false), ("journal", some true), ("log", some true)]
    (out.1 = .returned true ↔ ∀ key v, (key, some v) ∈ manager.services → id v = true →
        v ∉ ([] : List Bool) → id v = true) ∧
      (out.1 = .returned true → ∀ v, v ∈ out.2.bootstrapped ↔
        v ∈ ([] : List Bool) ∨ (∃ key, (key, some v) ∈ manager.services) ∧ id v = true) ∧
      ∀ calls : List (Latches.Call Bool), ((Latches.mk [] []).after id calls).calls.Pairwise
        fun later earlier => earlier.2 = .returned true → later.1 ≠ earlier.1 := by
  apply loadServices_verdict id id []
  · simp [ServicesManager.NonNull]
  · decide
  · intro key v hv
    simp only [List.mem_cons, Prod.mk.injEq, Option.some.injEq, List.not_mem_nil, or_false] at hv
    rcases hv with ⟨rfl, rfl⟩ | ⟨rfl, rfl⟩ | ⟨rfl, rfl⟩ <;> rfl

end EzServer.Application
