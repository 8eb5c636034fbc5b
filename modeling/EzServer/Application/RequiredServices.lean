import EzServer.Application.Bootstrapper

/-!
# Required services

`LoadServices` bootstraps every service that is registered when it runs. The plugins register theirs
afterwards, and nobody bootstraps these.
-/

namespace EzServer.Application

open Services Introp

variable {σ χ : Type} [DecidableEq σ]

/-- Every required service that is bound is bootstrapped. -/
def RequiredUp (isRequired : σ → Bool) (out : Bootstrapped σ χ) : Prop :=
  ∀ key service, out.manager.services.lookup key = some (some service) →
    isRequired service = true → service ∈ out.bootstrapped

lemma bootstrapService_eq_some {service : σ} {outcome : Outcome} {bootstrapped up : List σ}
    {result : Bool} (h : bootstrapService service outcome bootstrapped = some (result, up)) :
    bootstrapped ⊆ up ∧ (∀ v ∈ up, v ∈ bootstrapped ∨ v = service) ∧
      (result = true → service ∈ up) := by
  unfold bootstrapService at h
  split_ifs at h with hmem
  · obtain ⟨rfl, rfl⟩ := Prod.mk.inj (Option.some.inj h)
    exact ⟨List.Subset.refl _, fun v hv => Or.inl hv, fun _ => hmem⟩
  · cases outcome with
    | threw => cases h
    | returned initialized =>
      cases initialized with
      | false =>
        obtain ⟨rfl, rfl⟩ := Prod.mk.inj (Option.some.inj h)
        exact ⟨List.Subset.refl _, fun v hv => Or.inl hv, fun hres => by cases hres⟩
      | true =>
        obtain ⟨rfl, rfl⟩ := Prod.mk.inj (Option.some.inj h)
        refine ⟨List.subset_cons_self _ _, fun v hv => ?_, fun _ => List.mem_cons_self⟩
        exact (List.mem_cons.mp hv).symm

/-- `LoadServices` goes on after a service that is up or not required. -/
lemma loadServices_cons_eq_true {isRequired : σ → Bool} {outcomes : String → Outcome}
    {bootstrapped up : List σ} {key : String} {svc : SharedPtr σ}
    {services : List (String × SharedPtr σ)}
    (h : loadServices isRequired outcomes bootstrapped ((key, svc) :: services) =
      (.returned true, up)) :
    ∃ service result now, svc = some service ∧
      bootstrapService service (outcomes key) bootstrapped = some (result, now) ∧
      (isRequired service = true → result = true) ∧
      loadServices isRequired outcomes now services = (.returned true, up) := by
  cases svc with
  | none =>
    simp only [loadServices] at h
    cases h
  | some service =>
    simp only [loadServices] at h
    split at h
    · cases h
    · next now hbootstrap => exact ⟨service, true, now, rfl, hbootstrap, fun _ => rfl, h⟩
    · next now hbootstrap =>
      split_ifs at h with hrequired
      · cases h
      · exact ⟨service, false, now, rfl, hbootstrap, fun hneeded => absurd hneeded hrequired, h⟩

/-- When `LoadServices` succeeds, the services that are up are those from before and some of the
entries, among them all that are required. -/
lemma loadServices_eq_true {isRequired : σ → Bool} {outcomes : String → Outcome}
    {bootstrapped up : List σ} {services : List (String × SharedPtr σ)}
    (h : loadServices isRequired outcomes bootstrapped services = (.returned true, up)) :
    bootstrapped ⊆ up ∧ (∀ v ∈ up, v ∈ bootstrapped ∨ ∃ key, (key, some v) ∈ services) ∧
      ∀ key v, (key, some v) ∈ services → isRequired v = true → v ∈ up := by
  induction services generalizing bootstrapped with
  | nil =>
    obtain ⟨-, rfl⟩ := Prod.mk.inj h
    exact ⟨List.Subset.refl _, fun v hv => Or.inl hv, by simp⟩
  | cons e services ih =>
    obtain ⟨key, svc⟩ := e
    obtain ⟨service, result, now, rfl, hbootstrap, hneeded, h⟩ := loadServices_cons_eq_true h
    obtain ⟨hkeep, honly, hup⟩ := bootstrapService_eq_some hbootstrap
    obtain ⟨hrest, hfrom, hrequired⟩ := ih h
    refine ⟨List.Subset.trans hkeep hrest, fun v hv => ?_, fun k v hmem hv => ?_⟩
    · rcases hfrom v hv with hv | ⟨k, hk⟩
      · rcases honly v hv with hv | rfl
        · exact Or.inl hv
        · exact Or.inr ⟨key, List.mem_cons_self⟩
      · exact Or.inr ⟨k, List.mem_cons_of_mem _ hk⟩
    · rcases List.mem_cons.mp hmem with heq | hmem
      · obtain ⟨-, rfl⟩ : k = key ∧ v = service := by simpa using heq
        exact hrest (hup (hneeded hv))
      · exact hrequired k v hmem hv

/-- `Bootstrap` returns after `LoadServices` and the loading of the plugins have succeeded. -/
lemma bootstrap_of_returned {env : Environment σ χ} {bootstrapped : List σ}
    {manager : ServicesManager σ}
    (h : (bootstrap env bootstrapped manager).ending = .returned true) :
    loadServices env.isRequired env.outcomes bootstrapped env.services =
        (.returned true, (bootstrap env bootstrapped manager).bootstrapped) ∧
      (bootstrap env bootstrapped manager).manager =
        (loadPlugins env.carriesOn env.listing manager).manager := by
  rw [bootstrap] at h ⊢
  generalize loadServices env.isRequired env.outcomes bootstrapped env.services = load at h ⊢
  obtain ⟨ending, up⟩ := load
  cases ending with
  | returned result =>
    cases result with
    | true =>
      dsimp only
      split <;> exact ⟨rfl, rfl⟩
    | false => cases h
  | threw => cases h
  | undefined => cases h

/-- When `Bootstrap` returns, every required service that is bound is up if and only if every
required service that the plugins have registered was up or registered before. -/
theorem requiredUp_iff {env : Environment σ χ} {bootstrapped : List σ}
    {manager : ServicesManager σ} (hservices : env.services.Perm manager.services)
    (hreturned : (bootstrap env bootstrapped manager).ending = .returned true) :
    RequiredUp env.isRequired (bootstrap env bootstrapped manager) ↔
      ∀ t ∈ (loadPlugins env.carriesOn env.listing manager).turns, ∀ key service,
        (key, some service) ∈ t.registered → env.isRequired service = true →
          service ∈ bootstrapped ∨ ∃ k, (k, some service) ∈ manager.services := by
  obtain ⟨hload, hmanager⟩ := bootstrap_of_returned hreturned
  obtain ⟨hkeep, hfrom, hrequired⟩ := loadServices_eq_true hload
  have hextends := extends_loadPlugins env.carriesOn env.listing manager
  rw [RequiredUp, hmanager]
  constructor
  · intro hup t ht key service hregistered hneeded
    have hadded := List.mem_flatMap.mpr ⟨t, ht, hregistered⟩
    apply (hfrom service (hup key service (hextends.lookup_of_mem hadded) hneeded)).imp_right
    rintro ⟨k, hk⟩
    exact ⟨k, hservices.mem_iff.mp hk⟩
  · intro hplugins key service hbound hneeded
    have hcore : ∀ k, (k, some service) ∈ manager.services →
        service ∈ (bootstrap env bootstrapped manager).bootstrapped := fun k hk =>
      hrequired k service (hservices.mem_iff.mpr hk) hneeded
    rcases hextends.lookup_eq_some hbound with hbefore | hadded
    · exact hcore key (ServicesManager.mem_of_lookup hbefore)
    · obtain ⟨t, ht, hregistered⟩ := List.mem_flatMap.mp hadded
      rcases hplugins t ht key service hregistered hneeded with hup | ⟨k, hk⟩
      · exact hkeep hup
      · exact hcore k hk

/-- A required service that nobody has bootstrapped, and a plugin that registers it. -/
def registeringRequired : Environment Unit Unit where
  isRequired := fun _ => true
  outcomes := fun _ => .returned true
  services := []
  listing := [{
    path := "plugin.so"
    kind := .regular
    opens := true
    hasFactory := true
    factory := .returned (some {
      info := ⟨"plugin", 1⟩
      requires := []
      initializeWith := fun _ => .ends (.returned true)
      registerServices := .registerService "service" (some ()) fun _ => .ends (.returned true)
      getCommands := .returned []
      lib := none }) }]
  carriesOn := false

theorem requiredUp_iff_registeringRequired :
    RequiredUp (fun _ => true) (bootstrap registeringRequired [()] ⟨[]⟩) ↔
      ∀ t ∈ (loadPlugins false registeringRequired.listing ⟨[]⟩).turns, ∀ key service,
        (key, some service) ∈ t.registered → (fun _ => true) service = true →
          service ∈ [()] ∨ ∃ k, (k, some service) ∈ ([] : List (String × SharedPtr Unit)) :=
  requiredUp_iff (List.Perm.refl _) rfl

/-- The service of a plugin is left down. -/
theorem not_requiredUp_of_plugin :
    ¬ ∀ (env : Environment Unit Unit) (bootstrapped : List Unit) (manager : ServicesManager Unit),
      env.services.Perm manager.services →
      (bootstrap env bootstrapped manager).ending = .returned true →
        RequiredUp env.isRequired (bootstrap env bootstrapped manager) := by
  intro h
  have hup := h registeringRequired [] ⟨[]⟩ (List.Perm.refl _) rfl "service" () rfl rfl
  cases hup

end EzServer.Application
