import EzServer.Application.RequestGrammar

/-!
# Answers

What the peer hears of its request. The dispatcher answers what it cannot dispatch, and leaves the
rest to the command; so nobody answers when a command throws before it has done so.
-/

namespace EzServer.Application

open EzServer.Core EzServer.Core.Regex Introp Net

variable {χ : Type}

/-- All responses that are sent while a message is handled. -/
def Dispatched.responses (out : Dispatched χ) : List (ResponseCode × List UInt8 × UInt8) :=
  out.actions.flatMap fun
    | .find _ => []
    | .respond code message flags => [(code, message, flags)]
    | .call _ _ run => run.responses

/-- The command that was selected has returned, or there is a response. -/
def Answered (out : Dispatched χ) : Prop :=
  (∃ command args run status, .call command args run ∈ out.actions ∧
      run.ending = .returned status) ∨ out.responses ≠ []

/-- The call of a command returns or has sent a response. -/
def CommandRun.IsAnswered (run : CommandRun) : Prop :=
  (∃ status, run.ending = .returned status) ∨ run.responses ≠ []

/-- A message is answered if and only if it does not come to the call of a command that throws
without having sent anything. -/
theorem answered_iff (behaviour : χ → List UInt8 → CommandRun) (commands : Commands χ)
    (message : List UInt8) :
    Answered (onMessageReceived behaviour commands message) ↔
      (IsRequest message → ∀ command, commands.lookup (keyPart message) = some command →
        (behaviour command.command (argumentPart message)).IsAnswered) := by
  by_cases h : IsRequest message
  · rw [Answered, Dispatched.responses, actions_of_isRequest h]
    cases hcommand : commands.lookup (keyPart message) with
    | none => exact iff_of_true (Or.inr (by simp)) (by simp)
    | some command =>
      simp only [CommandRun.IsAnswered, h, forall_const, Option.some.injEq, forall_eq']
      constructor
      · rintro (⟨c, args, run, status, hmem, hreturned⟩ | hsent)
        · obtain ⟨rfl, rfl, rfl⟩ : c = command.command ∧ args = argumentPart message ∧
              run = behaviour command.command (argumentPart message) := by simpa using hmem
          exact Or.inl ⟨status, hreturned⟩
        · apply Or.inr
          simpa using hsent
      · rintro (⟨status, hreturned⟩ | hsent)
        · exact Or.inl ⟨command.command, argumentPart message, _, status, by simp, hreturned⟩
        · apply Or.inr
          simpa using hsent
  · rw [Answered, Dispatched.responses, actions_of_not_isRequest h]
    exact iff_of_true (Or.inr (by simp)) fun hrequest => absurd hrequest h

/-- A command that throws a `std::exception` at once. -/
def throwing : Unit → List UInt8 → CommandRun := fun _ _ => ⟨[], .threw true⟩

/-- The request of such a command is swallowed. -/
theorem not_answered_of_throw :
    ¬ ∀ (behaviour : Unit → List UInt8 → CommandRun) (commands : Commands Unit)
      (message : List UInt8), (∀ command args, (behaviour command args).ending ≠ .threw false) →
        Answered (onMessageReceived behaviour commands message) := by
  intro h
  have hanswered := h throwing [(text "/a:b", ⟨text "/a", text "b", ()⟩)]
    (text "/a:b" ++ [byte ' ']) (by simp [throwing])
  obtain ⟨hrequest, hkey⟩ := isKey_ab.isRequest_space
  rw [Answered, Dispatched.responses, actions_of_isRequest hrequest, hkey,
    List.lookup_cons_self] at hanswered
  simp [throwing] at hanswered

end EzServer.Application
