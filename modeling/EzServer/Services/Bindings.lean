import EzServer.Services.ServicesManager

/-!
# Bindings

What the functions of the services manager do in terms of the service that is bound to a key.
-/

namespace EzServer.Services

variable {σ : Type}

namespace ServicesManager

/-- The service that is bound to a key. -/
def binding (s : ServicesManager σ) (key : String) : SharedPtr σ := (s.services.lookup key).join

/-- No stored service is null. -/
def NonNull (s : ServicesManager σ) : Prop := ∀ e ∈ s.services, e.2 ≠ none

lemma binding_eq_some_iff {s : ServicesManager σ} {key : String} {service : σ} :
    s.binding key = some service ↔ s.services.lookup key = some (some service) := by
  rw [binding, Option.join_eq_some_iff]

lemma mem_of_lookup {es : List (String × SharedPtr σ)} {key : String} {service : SharedPtr σ}
    (h : es.lookup key = some service) : (key, service) ∈ es := by
  obtain ⟨l, r, rfl, -⟩ := List.lookup_eq_some_iff.mp h
  simp

lemma lookup_eq_none_iff {es : List (String × SharedPtr σ)} {key : String} :
    es.lookup key = none ↔ key ∉ es.map Prod.fst := by
  rw [List.lookup_eq_none_iff]
  constructor
  · rintro h hmem
    obtain ⟨e, he, rfl⟩ := List.mem_map.mp hmem
    simpa using h e he
  · intro h e he
    have hne : key ≠ e.1 := fun heq => h (heq ▸ List.mem_map_of_mem he)
    simpa using hne

/-- A manager without nulls stores a service exactly where it has a binding. -/
lemma NonNull.lookup_eq {s : ServicesManager σ} (hs : s.NonNull) (key : String) :
    s.services.lookup key = (s.binding key).map some := by
  cases hlookup : s.services.lookup key with
  | none => simp [binding, hlookup]
  | some service =>
    obtain ⟨v, rfl⟩ := Option.ne_none_iff_exists'.mp (hs _ (mem_of_lookup hlookup))
    simp [binding, hlookup]

lemma getService_eq {s : ServicesManager σ} (hs : s.NonNull) (key : String) :
    s.getService key =
      match s.binding key with
      | none => .error "Service is not registered!!"
      | some service => .ok (some service) := by
  rw [getService, hs.lookup_eq]
  cases s.binding key <;> rfl

lemma tryGetService_eq (s : ServicesManager σ) (key : String) :
    s.tryGetService key = s.binding key := by
  rw [tryGetService, getService, binding]
  cases s.services.lookup key <;> rfl

/-! ### Registration -/

/-- `RegisterService` adds an entry for a free key, or throws. -/
lemma registerService_eq_ok_iff {s s' : ServicesManager σ} {key : String}
    {service : SharedPtr σ} :
    s.registerService key service = .ok s' ↔
      service ≠ none ∧ s.services.lookup key = none ∧ s' = ⟨(key, service) :: s.services⟩ := by
  rw [registerService]
  split_ifs with hnull hbound
  · simp [Option.isNone_iff_eq_none.mp hnull]
  · simp [Option.isSome_iff_ne_none.mp hbound]
  · simp only [Except.ok.injEq, eq_comm]
    constructor
    · rintro rfl
      refine ⟨?_, Option.not_isSome_iff_eq_none.mp hbound, rfl⟩
      simpa using hnull
    · rintro ⟨-, -, h⟩
      exact h

lemma NonNull.cons {s : ServicesManager σ} (hs : s.NonNull) {key : String}
    {service : SharedPtr σ} (hservice : service ≠ none) :
    NonNull ⟨(key, service) :: s.services⟩ := by
  intro e he
  rcases List.mem_cons.mp he with rfl | he
  · exact hservice
  · exact hs e he

lemma binding_cons (s : ServicesManager σ) (key k : String) (service : SharedPtr σ) :
    binding ⟨(key, service) :: s.services⟩ k = if key = k then service else s.binding k := by
  simp only [binding, List.lookup_cons]
  by_cases hk : k = key
  · subst hk
    simp
  · have hne : ¬ key = k := fun h => hk h.symm
    have hbeq : (k == key) = false := by simpa using hk
    simp [hbeq, hne]

/-! ### Growing -/

/-- The keys in `added` were free in `s`, and `s'` has the bindings of `s` and of `added`. -/
structure Extends (s : ServicesManager σ) (added : List (String × SharedPtr σ))
    (s' : ServicesManager σ) : Prop where
  lookup_eq : ∀ key, s'.services.lookup key = (s.services.lookup key).or (added.lookup key)
  fresh : ∀ e ∈ added, s.services.lookup e.1 = none
  lookup_added : ∀ e ∈ added, added.lookup e.1 = some e.2

lemma Extends.refl (s : ServicesManager σ) : Extends s [] s := ⟨by simp, by simp, by simp⟩

lemma Extends.of_registerService {s s' : ServicesManager σ} {key : String}
    {service : SharedPtr σ} (h : s.registerService key service = .ok s') :
    Extends s [(key, service)] s' := by
  obtain ⟨-, hfree, rfl⟩ := registerService_eq_ok_iff.mp h
  refine ⟨fun k => ?_, by simpa using hfree, by simp⟩
  by_cases hk : k = key
  · subst hk
    simp [hfree]
  · have hbeq : (k == key) = false := by simpa using hk
    simp [List.lookup_cons, hbeq]

lemma Extends.trans {s s' s'' : ServicesManager σ} {added added' : List (String × SharedPtr σ)}
    (h : Extends s added s') (h' : Extends s' added' s'') : Extends s (added ++ added') s'' := by
  have hfresh : ∀ e ∈ added', s.services.lookup e.1 = none ∧ added.lookup e.1 = none :=
    fun e he => by simpa [h.lookup_eq] using h'.fresh e he
  refine ⟨fun key => ?_, fun e he => ?_, fun e he => ?_⟩
  · rw [h'.lookup_eq, h.lookup_eq, List.lookup_append, Option.or_assoc]
  · rcases List.mem_append.mp he with he | he
    · exact h.fresh e he
    · exact (hfresh e he).1
  · rw [List.lookup_append]
    rcases List.mem_append.mp he with he | he
    · rw [h.lookup_added e he, Option.some_or]
    · rw [(hfresh e he).2, Option.none_or, h'.lookup_added e he]

/-- What was added is bound. -/
lemma Extends.lookup_of_mem {s s' : ServicesManager σ} {added : List (String × SharedPtr σ)}
    (h : Extends s added s') {e : String × SharedPtr σ} (he : e ∈ added) :
    s'.services.lookup e.1 = some e.2 := by
  rw [h.lookup_eq, h.fresh e he, h.lookup_added e he, Option.none_or]

/-- What is bound was bound before or has been added. -/
lemma Extends.lookup_eq_some {s s' : ServicesManager σ} {added : List (String × SharedPtr σ)}
    (h : Extends s added s') {key : String} {service : SharedPtr σ}
    (hkey : s'.services.lookup key = some service) :
    s.services.lookup key = some service ∨ (key, service) ∈ added := by
  rw [h.lookup_eq, Option.or_eq_some_iff] at hkey
  apply hkey.imp_right
  intro hadded
  exact mem_of_lookup hadded.2

/-! ### Resolving -/

/-- `dependencies` is the map of the names in `deps` to their services. -/
def Resolves (s : ServicesManager σ) (deps : List String)
    (dependencies : List (String × SharedPtr σ)) : Prop :=
  (dependencies.map Prod.fst).Nodup ∧
    ∀ name, dependencies.lookup name = if name ∈ deps then some (s.binding name) else none

/-- One round of the loop resolves one more name. -/
lemma Resolves.emplace {s : ServicesManager σ} {done : List String} {dep : String}
    {dependencies : List (String × SharedPtr σ)} (h : s.Resolves done dependencies) :
    s.Resolves (done ++ [dep])
      (if (dependencies.lookup dep).isSome then dependencies
        else (dep, s.binding dep) :: dependencies) := by
  obtain ⟨hnodup, hlookup⟩ := h
  cases hdep : dependencies.lookup dep with
  | some svc =>
    have hmem : dep ∈ done := by
      by_contra hnot
      simp [hlookup, hnot] at hdep
    rw [if_pos Option.isSome_some]
    refine ⟨hnodup, fun name => ?_⟩
    rw [hlookup]
    by_cases hname : name = dep
    · subst hname
      simp [hmem]
    · simp [hname]
  | none =>
    rw [if_neg (by simp)]
    refine ⟨List.nodup_cons.mpr ⟨lookup_eq_none_iff.mp hdep, hnodup⟩, fun name => ?_⟩
    rw [List.lookup_cons]
    by_cases hname : name = dep
    · subst hname
      simp
    · have hbeq : (name == dep) = false := by simpa using hname
      simp [hbeq, hlookup, hname]

/-- The loop returns if all names that are left are bound. -/
lemma resolveAll_of_bound {s : ServicesManager σ} {done deps : List String}
    {dependencies : List (String × SharedPtr σ)} (h : s.Resolves done dependencies)
    (hbound : ∀ dep ∈ deps, s.binding dep ≠ none) :
    ∃ resolved, s.resolveAll deps dependencies = .ok resolved ∧
      s.Resolves (done ++ deps) resolved := by
  induction deps generalizing done dependencies with
  | nil => exact ⟨dependencies, rfl, by rwa [List.append_nil]⟩
  | cons dep deps ih =>
    obtain ⟨hdep, hrest⟩ := List.forall_mem_cons.mp hbound
    have hone : s.Resolves (done ++ [dep]) _ := h.emplace
    obtain ⟨resolved, hresolved, hall⟩ := ih hone hrest
    refine ⟨resolved, ?_, by simpa using hall⟩
    rw [resolveAll, tryGetService_eq, if_neg (by simpa using hdep)]
    exact hresolved

/-- It throws if one of them is not. -/
lemma resolveAll_of_unbound {s : ServicesManager σ} {deps : List String}
    {dependencies : List (String × SharedPtr σ)} (h : ∃ dep ∈ deps, s.binding dep = none) :
    ∃ what, s.resolveAll deps dependencies = .error what := by
  induction deps generalizing dependencies with
  | nil => simp at h
  | cons dep deps ih =>
    rw [resolveAll, tryGetService_eq]
    by_cases hdep : s.binding dep = none
    · exact ⟨_, if_pos (by simp [hdep])⟩
    · rw [if_neg (by simpa using hdep)]
      obtain ⟨d, hd, hnone⟩ := h
      rcases List.mem_cons.mp hd with rfl | hd
      · exact absurd hnone hdep
      · exact ih ⟨d, hd, hnone⟩

lemma resolves_nil (s : ServicesManager σ) : s.Resolves [] [] := by simp [Resolves]

/-- `ResolveDependencies` throws if a name is unbound. -/
lemma resolveDependencies_error_iff {s : ServicesManager σ} {deps : List String} :
    (∃ what, s.resolveDependencies deps = .error what) ↔ ∃ dep ∈ deps, s.binding dep = none := by
  constructor
  · rintro ⟨what, hwhat⟩
    by_contra hnone
    have hbound : ∀ dep ∈ deps, s.binding dep ≠ none := fun dep hdep h => hnone ⟨dep, hdep, h⟩
    obtain ⟨resolved, hresolved, -⟩ := resolveAll_of_bound s.resolves_nil hbound
    exact absurd (hresolved.symm.trans hwhat) (by simp)
  · exact resolveAll_of_unbound

/-- It returns exactly the services of the names it is given. -/
lemma resolves_of_ok {s : ServicesManager σ} {deps : List String}
    {dependencies : List (String × SharedPtr σ)}
    (h : s.resolveDependencies deps = .ok dependencies) :
    (∀ dep ∈ deps, s.binding dep ≠ none) ∧ s.Resolves deps dependencies := by
  have hbound : ∀ dep ∈ deps, s.binding dep ≠ none := by
    intro dep hdep hnone
    obtain ⟨what, hwhat⟩ := resolveDependencies_error_iff.mpr ⟨dep, hdep, hnone⟩
    exact absurd (hwhat.symm.trans h) (by simp)
  obtain ⟨resolved, hresolved, hall⟩ := resolveAll_of_bound s.resolves_nil hbound
  obtain rfl := Except.ok.inj (hresolved.symm.trans h)
  exact ⟨hbound, hall⟩

end ServicesManager

end EzServer.Services
