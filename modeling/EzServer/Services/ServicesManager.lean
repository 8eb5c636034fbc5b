import Mathlib.Data.List.Basic

/-!
# The services manager

`ServicesManager` over an arbitrary type of services. A `shared_ptr` is an `Option`, null for
`none`; exceptions are `Except.error` with their text.
-/

namespace EzServer.Services

/-- A `shared_ptr` to a `σ`. -/
abbrev SharedPtr (σ : Type) := Option σ

/-- `services_`, in no particular order. -/
structure ServicesManager (σ : Type) where
  services : List (String × SharedPtr σ)

namespace ServicesManager

variable {σ : Type}

/-- `RegisterService` -/
def registerService (s : ServicesManager σ) (key : String) (service : SharedPtr σ) :
    Except String (ServicesManager σ) :=
  if service.isNone then .error "Service cannot be null!"
  else if (s.services.lookup key).isSome then .error "Service is already registered!!"
  else .ok ⟨(key, service) :: s.services⟩

/-- `GetService` -/
def getService (s : ServicesManager σ) (key : String) : Except String (SharedPtr σ) :=
  match s.services.lookup key with
  | none => .error "Service is not registered!!"
  | some service => .ok service

/-- `TryGetService` -/
def tryGetService (s : ServicesManager σ) (key : String) : SharedPtr σ :=
  match s.getService key with
  | .error _ => none
  | .ok service => service

/-- `operator[]` -/
def index (s : ServicesManager σ) (index : String) : Except String (SharedPtr σ) :=
  s.getService index

/-- The loop of `ResolveDependencies`, with the `dependencies` resolved so far. -/
def resolveAll (s : ServicesManager σ) :
    List String → List (String × SharedPtr σ) → Except String (List (String × SharedPtr σ))
  | [], dependencies => .ok dependencies
  | dep :: deps, dependencies =>
    let svc := s.tryGetService dep
    if svc.isNone then .error ("Cannot resolve service: " ++ dep)
    else
      -- `emplace` keeps the entry of a name that is asked for twice
      s.resolveAll deps
        (if (dependencies.lookup dep).isSome then dependencies else (dep, svc) :: dependencies)

/-- `ResolveDependencies` -/
def resolveDependencies (s : ServicesManager σ) (deps : List String) :
    Except String (List (String × SharedPtr σ)) :=
  s.resolveAll deps []

end ServicesManager

end EzServer.Services
