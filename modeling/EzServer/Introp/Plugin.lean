import EzServer.Core.OrderedMap
import EzServer.Services.Bindings

/-!
# Plugins

What a plugin tells the loader and what it does when it is called. Each of its functions is called
at most once by the loader, so a function of its arguments stands for every answer, and a tree of
calls for whatever it does to the services manager on the way. What else it does is left out.
-/

namespace EzServer.Introp

open Services

structure PluginInfo where
  name : String
  priority : UInt32
  deriving DecidableEq, Repr

namespace PluginInfo

/-- `operator<` -/
instance instLT : LT PluginInfo := ⟨fun a b => a.priority < b.priority⟩

instance instDecidableLT : DecidableLT PluginInfo := fun a b =>
  inferInstanceAs (Decidable (a.priority < b.priority))

lemma lt_iff {a b : PluginInfo} : a < b ↔ a.priority.toNat < b.priority.toNat := Iff.rfl

instance instAsymm : @Std.Asymm PluginInfo (· < ·) := ⟨fun _ _ h h' => by
  simp only [lt_iff] at h h'
  omega⟩

instance instIsOrderConnected : IsOrderConnected PluginInfo (· < ·) := ⟨fun _ _ _ h => by
  simp only [lt_iff] at h ⊢
  omega⟩

/-- Two keys are the same entry if the priorities are equal, whatever else differs. -/
lemma equivalent_iff {a b : PluginInfo} : Core.Equivalent a b ↔ a.priority = b.priority := by
  simp only [Core.Equivalent, lt_iff, ← UInt32.toNat_inj]
  omega

end PluginInfo

/-- How a call of a plugin ends. -/
inductive Outcome where
  | returned (result : Bool)
  | threw
  deriving DecidableEq, Repr

/-- A body of `Initialize` or `RegisterServices`: calls of the services manager, each continued by
its result. -/
inductive Registration (σ : Type) where
  | ends (outcome : Outcome)
  /-- `RegisterService`; the continuation gets `false` when it throws. -/
  | registerService (key : String) (service : SharedPtr σ) (next : Bool → Registration σ)
  /-- Any query. -/
  | query (next : ServicesManager σ → Registration σ)

namespace Registration

variable {σ : Type}

def run : Registration σ → ServicesManager σ → ServicesManager σ × Outcome
  | ends outcome, s => (s, outcome)
  | registerService key service next, s =>
    match s.registerService key service with
    | .ok s' => (next true).run s'
    | .error _ => (next false).run s
  | query next, s => (next s).run s

/-- The services that it registers, oldest first. -/
def registered : Registration σ → ServicesManager σ → List (String × SharedPtr σ)
  | ends _, _ => []
  | registerService key service next, s =>
    match s.registerService key service with
    | .ok s' => (key, service) :: (next true).registered s'
    | .error _ => (next false).registered s
  | query next, s => (next s).registered s

/-- What it registers was not bound before, and is bound when it ends. -/
lemma extends_run (r : Registration σ) (s : ServicesManager σ) :
    ServicesManager.Extends s (r.registered s) (r.run s).1 := by
  induction r generalizing s with
  | ends outcome => exact .refl s
  | registerService key service next ih =>
    simp only [run, registered]
    cases h : s.registerService key service with
    | ok s' => exact (ServicesManager.Extends.of_registerService h).trans (ih true s')
    | error what => exact ih false s
  | query next ih => exact ih s s

end Registration

/-- A command exported by a plugin, over an arbitrary type of procedures. Its strings are bytes, as
requests are. -/
structure ExportedCommand (χ : Type) where
  path : List UInt8
  name : List UInt8
  command : χ

/-- A call of `GetCommands`. -/
inductive CommandsResult (χ : Type) where
  | returned (commands : List (ExportedCommand χ))
  /-- It throws a `std::exception`, or something else. -/
  | threw (isStd : Bool)

structure IPlugin (σ χ : Type) where
  info : PluginInfo
  requires : List String
  /-- `Initialize`, which may be given the services manager among the services. -/
  initializeWith : List (String × SharedPtr σ) → Registration σ
  registerServices : Registration σ
  getCommands : CommandsResult χ
  /-- `lib_`, the path of the shared library once it is set. -/
  lib : Option String

end EzServer.Introp
