import EzServer.Core.Machine
import EzServer.Net.AsyncTcpListener

/-!
# What a listener says

`is_started_` is set when the acceptor listens, and nothing takes it back. `Initialize` puts a new
acceptor in the place of the old one, whether the listener is started or not.
-/

namespace EzServer.Net

open EzServer.Core

/-- A call of a member function, with what the operating system makes of it. -/
inductive ListenerCall where
  | initializeAcceptor
  | start (calls : ListenCalls)
  deriving DecidableEq, Repr

namespace AsyncTcpListener

/-- `AcceptNext`; `false` for its exception, which `Start` catches. -/
def acceptNext (l : AsyncTcpListener) : Bool := l.isStarted

/-- `Start` -/
def start (calls : ListenCalls) (l : AsyncTcpListener) : Bool × AsyncTcpListener :=
  if l.isStarted then (true, l)
  else
    match l.listen calls with
    | (false, l) => (false, l)
    | (true, l) => (l.acceptNext, l)

/-- The acceptor is open, bound to the port and listening. -/
def isListening (l : AsyncTcpListener) : Bool :=
  l.acceptor.any fun a => a.isOpen && a.isBound && a.isListening

/-- The block of `Start` succeeds only with an acceptor that listens. -/
lemma isListening_listen {calls : ListenCalls} {l : AsyncTcpListener}
    (h : (l.listen calls).1 = true) : (l.listen calls).2.isListening = true := by
  rw [listen] at h ⊢
  cases hacceptor : l.acceptor with
  | none =>
    rw [hacceptor] at h
    cases h
  | some a =>
    simp only [hacceptor] at h ⊢
    split_ifs at h ⊢
    rfl

/-- A call of `Start` on a listener that is not started. -/
lemma start_of_not_isStarted {l : AsyncTcpListener} (hl : l.isStarted = false)
    (calls : ListenCalls) : l.start calls = l.listen calls := by
  have hflag := isStarted_listen calls l
  rw [start, if_neg (by simp [hl])]
  rcases hlisten : l.listen calls with ⟨result, now⟩
  rw [hlisten, hl, Bool.or_false] at hflag
  cases result with
  | false => rfl
  | true => exact congrArg (·, now) hflag

/-- `Start` returns true iff the listener says that it is started then. -/
lemma start_eq (calls : ListenCalls) (l : AsyncTcpListener) :
    (l.start calls).1 = (l.start calls).2.isStarted := by
  cases hstarted : l.isStarted with
  | true =>
    rw [start, if_pos hstarted]
    exact hstarted.symm
  | false => rw [start_of_not_isStarted hstarted, isStarted_listen, hstarted, Bool.or_false]

/-- What `Start` starts listens, and a listener that was started is left alone. -/
lemma isListening_start {calls : ListenCalls} {l : AsyncTcpListener}
    (hl : l.isStarted = true → l.isListening = true)
    (h : (l.start calls).2.isStarted = true) : (l.start calls).2.isListening = true := by
  cases hstarted : l.isStarted with
  | true =>
    rw [start, if_pos hstarted]
    exact hl hstarted
  | false =>
    rw [start_of_not_isStarted hstarted] at h ⊢
    rw [isStarted_listen, hstarted, Bool.or_false] at h
    exact isListening_listen h

end AsyncTcpListener

/-! ### Runs -/

/-- A listener, and what the last call returned if it was one of `Start`. -/
structure Called where
  listener : AsyncTcpListener
  returned : Option Bool
  deriving DecidableEq, Repr

namespace Called

/-- A listener on which nothing has been called. -/
def init : Called := ⟨.init, none⟩

/-- Call a member function. -/
def step (s : Called) : ListenerCall → Option Called
  | .initializeAcceptor => some ⟨s.listener.initializeAcceptor.2, none⟩
  | .start calls => some ⟨(s.listener.start calls).2, some (s.listener.start calls).1⟩

/-- The acceptor listens if the listener says so, in its flag or as the result of `Start`. -/
def SaysTrue (s : Called) : Prop :=
  (s.listener.isStarted = true → s.listener.isListening = true) ∧
    (s.returned = some true → s.listener.isListening = true)

/-- The call replaces no acceptor of a started listener. -/
def KeepsAcceptor (s : Called) (call : ListenerCall) : Prop :=
  call = .initializeAcceptor → s.listener.isStarted = false

lemma saysTrue_start {s : Called} (hs : s.SaysTrue) (calls : ListenCalls) :
    SaysTrue ⟨(s.listener.start calls).2, some (s.listener.start calls).1⟩ := by
  have hflag := @AsyncTcpListener.isListening_start calls s.listener hs.1
  constructor
  · exact hflag
  · intro hreturned
    apply hflag
    rw [← AsyncTcpListener.start_eq]
    exact Option.some.inj hreturned

/-- One call keeps the listener truthful iff it keeps the acceptor of a started one. -/
lemma saysTrue_step_iff {s t : Called} {call : ListenerCall} (hs : s.SaysTrue)
    (h : s.step call = some t) : t.SaysTrue ↔ s.KeepsAcceptor call := by
  cases call with
  | initializeAcceptor =>
    cases h
    constructor
    · intro hsays _
      by_contra hstarted
      have hlistening := hsays.1 (Bool.eq_true_of_not_eq_false hstarted)
      cases hlistening
    · intro hkeeps
      constructor
      · intro hstarted
        exact absurd ((hkeeps rfl).symm.trans hstarted) (by simp)
      · intro hreturned
        cases hreturned
  | start calls =>
    cases h
    constructor
    · intro _ hcall
      cases hcall
    · intro _
      exact saysTrue_start hs calls

lemma exists_run (s : Called) (calls : List ListenerCall) : ∃ t, run step s calls = some t := by
  induction calls generalizing s with
  | nil => exact ⟨s, rfl⟩
  | cons call calls ih =>
    obtain ⟨u, hu⟩ : ∃ u, s.step call = some u := by
      cases call with
      | initializeAcceptor => exact ⟨_, rfl⟩
      | start calls => exact ⟨_, rfl⟩
    obtain ⟨t, ht⟩ := ih u
    exact ⟨t, run_cons_eq_some.mpr ⟨u, hu, ht⟩⟩

/-- A listener on which `Initialize` is called first tells the truth in every state of a run if and
only if `Initialize` is never called while it is started. -/
theorem saysTrue_iff_keepsAcceptor (calls : List ListenerCall) :
    EveryState step SaysTrue init (.initializeAcceptor :: calls) ↔
      EveryStep step KeepsAcceptor init (.initializeAcceptor :: calls) := by
  obtain ⟨t, hrun⟩ := exists_run init (.initializeAcceptor :: calls)
  have hinit : init.SaysTrue := by
    constructor
    · intro hstarted
      cases hstarted
    · intro hreturned
      cases hreturned
  exact everyState_iff_everyStep (I := fun _ => True) (H := fun _ _ => True)
    (fun _ _ _ _ _ _ => trivial) (fun _ _ _ _ hs _ h => saysTrue_step_iff hs h)
    trivial hinit (.of_forall (fun _ _ => trivial) _ _) hrun

/-- A second `Initialize` after a successful `Start`: the listener says that it is started, and its
acceptor is not even open. -/
theorem not_saysTrue_reinitialized :
    ¬ EveryState step SaysTrue init
      [.initializeAcceptor, .start ⟨false, false, false⟩, .initializeAcceptor] := by
  intro h
  have hlast := h.last (t := ⟨⟨some ⟨false, false, false⟩, true⟩, none⟩) rfl
  cases hlast.1 rfl

end Called

end EzServer.Net
