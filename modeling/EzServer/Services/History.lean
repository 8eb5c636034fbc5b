import EzServer.Services.Bindings

/-!
# The history of a services manager

Any sequence of calls on a manager that starts empty. Its answers are determined by the first
registration of each key that was not null, and nothing else that happened leaves a trace.
-/

namespace EzServer.Services

variable {σ : Type}

/-- A call of the services manager. -/
inductive ServiceCall (σ : Type) where
  | registerService (key : String) (service : SharedPtr σ)
  | getService (key : String)
  | index (key : String)
  | tryGetService (key : String)
  | resolveDependencies (deps : List String)
  | services

/-- What comes back from a call. -/
inductive Answer (σ : Type) where
  | registered
  | service (service : SharedPtr σ)
  | services (services : List (String × SharedPtr σ))
  | threw (what : String)

def ServiceCall.isQuery : ServiceCall σ → Bool
  | .registerService _ _ => false
  | _ => true

/-- The service that a call offers for a key. -/
def ServiceCall.offers (key : String) : ServiceCall σ → Option σ
  | .registerService k (some service) => if k = key then some service else none
  | _ => none

namespace ServicesManager

def call (s : ServicesManager σ) : ServiceCall σ → ServicesManager σ × Answer σ
  | .registerService key service =>
    match s.registerService key service with
    | .ok s' => (s', .registered)
    | .error what => (s, .threw what)
  | .getService key =>
    match s.getService key with
    | .ok service => (s, .service service)
    | .error what => (s, .threw what)
  | .index key =>
    match s.index key with
    | .ok service => (s, .service service)
    | .error what => (s, .threw what)
  | .tryGetService key => (s, .service (s.tryGetService key))
  | .resolveDependencies deps =>
    match s.resolveDependencies deps with
    | .ok dependencies => (s, .services dependencies)
    | .error what => (s, .threw what)
  | .services => (s, .services s.services)

/-- The manager after some calls. -/
def after (s : ServicesManager σ) (calls : List (ServiceCall σ)) : ServicesManager σ :=
  calls.foldl (fun s c => (s.call c).1) s

/-- A manager without services. -/
def empty : ServicesManager σ := ⟨[]⟩

/-! ### One call -/

lemma offers_eq_some_iff {c : ServiceCall σ} {key : String} {service : σ} :
    c.offers key = some service ↔ c = .registerService key (some service) := by
  constructor
  · intro h
    cases c with
    | registerService k v =>
      cases v with
      | none => cases h
      | some v =>
        simp only [ServiceCall.offers] at h
        split_ifs at h with hk
        obtain rfl := Option.some.inj h
        rw [hk]
    | _ => cases h
  · rintro rfl
    simp [ServiceCall.offers]

/-- A query leaves the manager as it is. -/
lemma call_of_isQuery {s : ServicesManager σ} {c : ServiceCall σ} (hc : c.isQuery = true) :
    (s.call c).1 = s := by
  cases c with
  | registerService key service => cases hc
  | getService key =>
    simp only [call]
    split <;> rfl
  | index key =>
    simp only [call]
    split <;> rfl
  | tryGetService key => rfl
  | resolveDependencies deps =>
    simp only [call]
    split <;> rfl
  | services => rfl

/-- So does a call that throws. -/
lemma call_of_threw {s : ServicesManager σ} {c : ServiceCall σ} {what : String}
    (hc : (s.call c).2 = .threw what) : (s.call c).1 = s := by
  cases c with
  | registerService key service =>
    simp only [call] at hc ⊢
    split at hc
    · cases hc
    · rfl
  | _ => exact call_of_isQuery rfl

/-- A registration succeeds for a free key and a service that is not null. -/
lemma call_registered_iff {s : ServicesManager σ} {key : String} {service : SharedPtr σ} :
    (s.call (.registerService key service)).2 = .registered ↔
      service ≠ none ∧ s.services.lookup key = none := by
  rw [call]
  cases h : s.registerService key service with
  | ok s' =>
    obtain ⟨hservice, hfree, -⟩ := registerService_eq_ok_iff.mp h
    simp [hservice, hfree]
  | error what =>
    apply iff_of_false (by simp)
    rintro ⟨hservice, hfree⟩
    exact absurd (h.symm.trans (registerService_eq_ok_iff.mpr ⟨hservice, hfree, rfl⟩)) (by simp)

/-- A call keeps the services that are there and adds what it offers for a free key. -/
lemma binding_call {s : ServicesManager σ} (hs : s.NonNull) (c : ServiceCall σ) :
    (s.call c).1.NonNull ∧
      ∀ key, (s.call c).1.binding key = (s.binding key).or (c.offers key) := by
  cases c with
  | registerService k service =>
    cases h : s.registerService k service with
    | ok s' =>
      obtain ⟨hservice, hfree, rfl⟩ := registerService_eq_ok_iff.mp h
      obtain ⟨v, rfl⟩ := Option.ne_none_iff_exists'.mp hservice
      simp only [call, h]
      refine ⟨hs.cons hservice, fun key => ?_⟩
      rw [binding_cons]
      by_cases hk : k = key
      · subst hk
        simp [ServiceCall.offers, binding, hfree]
      · simp [ServiceCall.offers, hk]
    | error what =>
      simp only [call, h]
      refine ⟨hs, fun key => ?_⟩
      cases hoffers : ServiceCall.offers key (.registerService k service) with
      | none => simp
      | some v =>
        -- what is offered was not stored, so the key is taken
        obtain ⟨rfl, rfl⟩ := ServiceCall.registerService.inj (offers_eq_some_iff.mp hoffers)
        cases hbound : s.binding k with
        | some u => rfl
        | none =>
          have hfree : s.services.lookup k = none := by rw [hs.lookup_eq, hbound]; rfl
          have hok : s.registerService k (some v) = .ok ⟨(k, some v) :: s.services⟩ :=
            registerService_eq_ok_iff.mpr ⟨by simp, hfree, rfl⟩
          exact absurd (h.symm.trans hok) (by simp)
  | _ =>
    rw [call_of_isQuery rfl]
    exact ⟨hs, fun key => by simp [ServiceCall.offers]⟩

/-! ### Histories -/

lemma after_cons (s : ServicesManager σ) (c : ServiceCall σ) (calls : List (ServiceCall σ)) :
    s.after (c :: calls) = (s.call c).1.after calls := rfl

/-- The bindings after some calls are those before and the first offers of the free keys. -/
lemma binding_after {s : ServicesManager σ} (hs : s.NonNull) (calls : List (ServiceCall σ)) :
    (s.after calls).NonNull ∧ ∀ key,
      (s.after calls).binding key = (s.binding key).or (calls.findSome? (·.offers key)) := by
  induction calls generalizing s with
  | nil => exact ⟨hs, fun key => by simp [after]⟩
  | cons c calls ih =>
    obtain ⟨hc, hbinding⟩ := binding_call hs c
    obtain ⟨hrest, hafter⟩ := ih hc
    rw [after_cons]
    refine ⟨hrest, fun key => ?_⟩
    rw [hafter, hbinding, List.findSome?_cons]
    cases s.binding key <;> cases c.offers key <;> rfl

lemma nonNull_empty : (empty : ServicesManager σ).NonNull := by simp [NonNull, empty]

lemma findSome?_offers_eq_none_iff {calls : List (ServiceCall σ)} {key : String} :
    calls.findSome? (·.offers key) = none ↔
      ∀ service, .registerService key (some service) ∉ calls := by
  rw [List.findSome?_eq_none_iff]
  constructor
  · intro h service hmem
    have := h _ hmem
    rw [offers_eq_some_iff.mpr rfl] at this
    cases this
  · intro h c hc
    cases hoffers : c.offers key with
    | none => rfl
    | some service => exact absurd (offers_eq_some_iff.mp hoffers ▸ hc) (h service)

/-- A key is bound to the first service that was registered for it. -/
lemma binding_eq_some_of_first {before rest : List (ServiceCall σ)} {key : String} {service : σ}
    (h : ∀ other, .registerService key (some other) ∉ before) :
    (empty.after (before ++ .registerService key (some service) :: rest)).binding key =
      some service := by
  rw [(binding_after nonNull_empty _).2, List.findSome?_append,
    findSome?_offers_eq_none_iff.mpr h, List.findSome?_cons, offers_eq_some_iff.mpr rfl]
  rfl

/-- `ResolveDependencies` returns exactly the services it is asked for, or throws. -/
lemma resolveDependencies_spec {s : ServicesManager σ} (hs : s.NonNull) (deps : List String) :
    ((∃ what, s.resolveDependencies deps = .error what) ↔
        ∃ dep ∈ deps, s.services.lookup dep = none) ∧
      ∀ resolved, s.resolveDependencies deps = .ok resolved →
        (resolved.map Prod.fst).Nodup ∧
          ∀ name, resolved.lookup name = if name ∈ deps then s.services.lookup name else none := by
  constructor
  · rw [resolveDependencies_error_iff]
    simp [hs.lookup_eq]
  · intro resolved h
    obtain ⟨hbound, hnodup, hlookup⟩ := resolves_of_ok h
    refine ⟨hnodup, fun name => ?_⟩
    rw [hlookup, hs.lookup_eq]
    by_cases hname : name ∈ deps
    · obtain ⟨v, hv⟩ := Option.ne_none_iff_exists'.mp (hbound name hname)
      simp [hname, hv]
    · simp [hname]

/-- Whatever is called on a manager that starts empty, it stores no null; queries and calls that
throw change nothing; a registration that succeeds stands for good; a service is reported missing,
by all functions alike, until it has been registered, and then it is the first one that was; and
`ResolveDependencies` returns the services of all names, or throws where one is missing. -/
theorem registry_grows (calls : List (ServiceCall σ)) :
    let s := empty.after calls
    (∀ e ∈ s.services, e.2 ≠ none) ∧
      (∀ c : ServiceCall σ, c.isQuery = true ∨ (∃ what, (s.call c).2 = .threw what) →
        (s.call c).1 = s) ∧
      (∀ key service rest, (s.call (.registerService key service)).2 = .registered →
        (empty.after (calls ++ .registerService key service :: rest)).services.lookup key =
          some service) ∧
      (∀ key,
        (s.tryGetService key = none ↔ ∃ what, s.getService key = .error what) ∧
        ((∃ what, s.getService key = .error what) ↔
          ∀ service, .registerService key (some service) ∉ calls)) ∧
      (∀ before key service rest, calls = before ++ .registerService key (some service) :: rest →
        (∀ other, .registerService key (some other) ∉ before) →
        s.getService key = .ok (some service) ∧ s.index key = .ok (some service) ∧
          s.tryGetService key = some service) ∧
      ∀ deps,
        ((∃ what, s.resolveDependencies deps = .error what) ↔
          ∃ dep ∈ deps, s.services.lookup dep = none) ∧
        ∀ resolved, s.resolveDependencies deps = .ok resolved →
          (resolved.map Prod.fst).Nodup ∧
            ∀ name, resolved.lookup name =
              if name ∈ deps then s.services.lookup name else none := by
  intro s
  have hs : s.NonNull := (binding_after nonNull_empty calls).1
  have hfirst : ∀ key, s.binding key = calls.findSome? (·.offers key) :=
    (binding_after nonNull_empty calls).2
  refine ⟨hs, ?_, ?_, fun key => ⟨?_, ?_⟩, ?_, resolveDependencies_spec hs⟩
  · rintro c (hquery | ⟨what, hthrew⟩)
    · exact call_of_isQuery hquery
    · exact call_of_threw hthrew
  · intro key service rest h
    obtain ⟨hservice, hfree⟩ := call_registered_iff.mp h
    obtain ⟨v, rfl⟩ := Option.ne_none_iff_exists'.mp hservice
    have hkey : calls.findSome? (·.offers key) = none := by
      rw [← hfirst, binding, hfree]
      rfl
    rw [(binding_after nonNull_empty _).1.lookup_eq,
      binding_eq_some_of_first (findSome?_offers_eq_none_iff.mp hkey)]
    rfl
  · rw [tryGetService_eq, getService_eq hs]
    cases s.binding key <;> simp
  · rw [getService_eq hs, hfirst, ← findSome?_offers_eq_none_iff]
    cases calls.findSome? (·.offers key) <;> simp
  · rintro before key service rest rfl hbefore
    have hkey : s.binding key = some service := binding_eq_some_of_first hbefore
    rw [index, getService_eq hs, tryGetService_eq, hkey]
    exact ⟨rfl, rfl, rfl⟩

end ServicesManager

end EzServer.Services
