import EzServer.Net.ResponseFraming
import EzServer.Application.Answers
import EzServer.Application.Lifetime

/-!
# Conversations

What a peer is answered. The abstract server maps the requests of a peer to their answers, one after
the other, up to a request whose command throws past the dispatcher. A session refines it as long as
nobody but `StartRead` and the running call of `OnMessageReceived` responds to its client: a
conversation is a session together with the responses that this call still has to send.
-/

namespace EzServer.Application

open EzServer.Core.Framing Introp Net Net.AsyncTcpClient

/-- A call of `OnMessageReceived`. -/
structure Handling where
  /-- The responses that it will still send. -/
  responses : List Response
  /-- No exception will leave it. -/
  returns : Bool
  deriving DecidableEq, Repr

structure Conversation where
  session : Session
  /-- The call of `OnMessageReceived` that is running. -/
  handling : Option Handling
  /-- The calls of `Respond` so far. -/
  called : List Response
  /-- Some send has transferred less than its buffer. -/
  truncated : Bool
  deriving DecidableEq, Repr

/-- The answer of `StartRead` to an empty message. -/
def emptyAnswer : Response := ⟨.kEmptyMessage, emptyMessageText, 0⟩

section Answers

variable {χ : Type} (behaviour : ℕ → χ → List UInt8 → CommandRun) (commands : Commands χ)

/-- The call of `OnMessageReceived` for the `n`-th request; commands may behave differently each
time they are called. -/
def handlingOf (n : ℕ) (message : List UInt8) : Handling :=
  let out := onMessageReceived (behaviour n) commands message
  ⟨out.responses.map fun r => ⟨r.1, r.2.1, r.2.2⟩, out.returned⟩

/-- What the `n`-th request is owed. -/
def answer (n : ℕ) (f : RequestFrame) : Handling :=
  if f.body = [] then ⟨[emptyAnswer], true⟩ else handlingOf behaviour commands n f.body

/-- The answers to requests, from the `n`-th one on. -/
def answers : ℕ → List RequestFrame → List Response
  | _, []      => []
  | n, f :: fs =>
    (answer behaviour commands n f).responses ++
      if (answer behaviour commands n f).returns then answers (n + 1) fs else []

/-- No exception has left `OnMessageReceived`. -/
def goesOn : ℕ → List RequestFrame → Bool
  | _, []      => true
  | n, f :: fs => (answer behaviour commands n f).returns && goesOn (n + 1) fs

lemma answers_append (n : ℕ) (fs gs : List RequestFrame) :
    answers behaviour commands n (fs ++ gs) = answers behaviour commands n fs ++
      if goesOn behaviour commands n fs then answers behaviour commands (n + fs.length) gs
      else [] := by
  induction fs generalizing n with
  | nil => simp [answers, goesOn]
  | cons f fs ih =>
    rw [List.cons_append, answers, answers, goesOn, ih, List.length_cons]
    cases (answer behaviour commands n f).returns with
    | false => simp
    | true => simp [Nat.add_assoc, Nat.add_comm 1]

lemma goesOn_append (n : ℕ) (fs gs : List RequestFrame) :
    goesOn behaviour commands n (fs ++ gs) =
      (goesOn behaviour commands n fs && goesOn behaviour commands (n + fs.length) gs) := by
  induction fs generalizing n with
  | nil => simp [goesOn]
  | cons f fs ih =>
    rw [List.cons_append, goesOn, goesOn, ih, List.length_cons, Bool.and_assoc, Nat.add_assoc,
      Nat.add_comm 1]

/-- More requests only add answers. -/
lemma answers_isPrefix {n : ℕ} {fs gs : List RequestFrame} (h : fs <+: gs) :
    answers behaviour commands n fs <+: answers behaviour commands n gs := by
  obtain ⟨rest, rfl⟩ := h
  rw [answers_append]
  exact List.prefix_append _ _

end Answers

namespace Conversation

variable {χ : Type} (behaviour : ℕ → χ → List UInt8 → CommandRun) (commands : Commands χ)

/-- A client that has just been started. -/
def accepted (id : UInt64) (stream : List UInt8) : Conversation where
  session := .accepted id stream
  handling := none
  called := []
  truncated := false

/-- The number of requests that have been taken up. -/
def turn (s : Conversation) : ℕ := (deliveries s.session.client.events).length

/-- The session has taken a step; a message that it raises is handled. -/
def observe (s : Conversation) (session : Session) : Conversation :=
  match session.client.events.drop s.session.client.events.length with
  | [.messageRecieved message] =>
    { s with session := session, handling := some (handlingOf behaviour commands s.turn message) }
  | [.respondedEmpty] => { s with session := session, called := s.called ++ [emptyAnswer] }
  | _ => { s with session := session }

/-- A step of the session, if it is one of a conversation. -/
def step (s : Conversation) (l : SessionLabel) : Option Conversation := do
  let session ← s.session.step l
  match l with
  | .client (.respond code message flags) =>
    match s.handling with
    | some ⟨r :: responses, returns⟩ =>
      if r = ⟨code, message, flags⟩ then
        some { s with
          session := session
          handling := some ⟨responses, returns⟩
          called := s.called ++ [r] }
      else none
    | _ => none
  | .client (.read _ .resume) =>
    match s.handling with
    | none => some { s with session := session }
    | some ⟨[], true⟩ => some { s with session := session, handling := none }
    | some _ => none
  | .commandThrows =>
    match s.handling with
    | some ⟨[], false⟩ => some { s with session := session, handling := none }
    | _ => none
  | .client (.send sent _) =>
    some { s with
      session := session
      truncated := s.truncated ||
        s.session.client.sends.head?.any fun op => sent < op.data.length }
  | _ => some (s.observe behaviour commands session)

/-- Nothing is transferred after a truncated send, and nothing but what a send was given. -/
def unbroken (s : Conversation) : SessionLabel → Bool
  | .client (.send sent _) => sent == 0 || !s.truncated && s.session.client.nextIntact sent
  | _ => true

/-- The responses that the running call still has to send. -/
def owed (s : Conversation) : List Response :=
  match s.handling with
  | none => []
  | some h => h.responses

/-! ### Rules -/

/-- The steps that are not just observed. -/
def isWatched : SessionLabel → Bool
  | .client (.respond _ _ _) | .client (.read _ .resume) | .client (.send _ _) | .commandThrows =>
    true
  | _ => false

/-- The steps of a conversation. -/
inductive ConversationRule (s : Conversation) : SessionLabel → Conversation → Prop where
  | responded {r : Response} {responses : List Response} {returns : Bool} {session : Session}
      (hhandling : s.handling = some ⟨r :: responses, returns⟩)
      (hsession : s.session.step (.client (.respond r.code r.message r.flags)) = some session) :
      ConversationRule s (.client (.respond r.code r.message r.flags)) { s with
        session := session
        handling := some ⟨responses, returns⟩
        called := s.called ++ [r] }
  | resumedEmpty {i : ℕ} {session : Session} (hhandling : s.handling = none)
      (hsession : s.session.step (.client (.read i .resume)) = some session) :
      ConversationRule s (.client (.read i .resume)) { s with session := session }
  | resumed {i : ℕ} {session : Session} (hhandling : s.handling = some ⟨[], true⟩)
      (hsession : s.session.step (.client (.read i .resume)) = some session) :
      ConversationRule s (.client (.read i .resume)) { s with session := session, handling := none }
  | threw {session : Session} (hhandling : s.handling = some ⟨[], false⟩)
      (hsession : s.session.step .commandThrows = some session) :
      ConversationRule s .commandThrows { s with session := session, handling := none }
  | sent {sent : ℕ} {err : Option ErrorCode} {session : Session}
      (hsession : s.session.step (.client (.send sent err)) = some session) :
      ConversationRule s (.client (.send sent err)) { s with
        session := session
        truncated := s.truncated ||
          s.session.client.sends.head?.any fun op => sent < op.data.length }
  | observed {l : SessionLabel} {session : Session} (hl : isWatched l = false)
      (hsession : s.session.step l = some session) :
      ConversationRule s l (s.observe behaviour commands session)

lemma ConversationRule.of_step {s s' : Conversation} {l : SessionLabel}
    (h : s.step behaviour commands l = some s') :
    ConversationRule behaviour commands s l s' := by
  simp only [step, Option.bind_eq_bind, Option.bind_eq_some_iff] at h
  obtain ⟨session, hsession, h⟩ := h
  cases l with
  | closed throws =>
    obtain rfl := Option.some.inj h
    exact .observed rfl hsession
  | commandThrows =>
    simp only at h
    split at h
    · next hhandling =>
      obtain rfl := Option.some.inj h
      exact .threw hhandling hsession
    · cases h
  | client l =>
    cases l with
    | respond code message flags =>
      simp only at h
      split at h
      · next r responses returns hhandling =>
        split_ifs at h with hr
        obtain rfl := Option.some.inj h
        obtain rfl := hr
        exact .responded hhandling hsession
      · cases h
    | send sent err =>
      obtain rfl := Option.some.inj h
      exact .sent hsession
    | read i l =>
      cases l with
      | resume =>
        simp only at h
        split at h
        · next hhandling =>
          obtain rfl := Option.some.inj h
          exact .resumedEmpty hhandling hsession
        · next hhandling =>
          obtain rfl := Option.some.inj h
          exact .resumed hhandling hsession
        · cases h
      | _ =>
        obtain rfl := Option.some.inj h
        exact .observed rfl hsession
    | _ =>
      obtain rfl := Option.some.inj h
      exact .observed rfl hsession

/-! ### What a step of a client raises -/

/-- The read handler is in the call of `OnMessageReceived`. -/
def isHandling (c : AsyncTcpClient) : Bool := c.reads == [.raisingMessageRecieved]

/-- What an observed step raises and sends. -/
inductive Effect (c c' : AsyncTcpClient) : Prop where
  | quiet (hevents : c'.events = c.events ∨
        ∃ err, c'.events = c.events ++ [.connectionClosed err])
      (hhandling : isHandling c' = isHandling c)
      (hreads : c'.reads ≠ [] → c.reads ≠ [] ∨ c.events = [])
      (hsends : c'.sends.map SendOp.data = c.sends.map SendOp.data) (hwire : c'.wire = c.wire)
  | answered (hevents : c'.events = c.events ++ [.respondedEmpty])
      (hreads : c.reads ≠ []) (hbefore : isHandling c = false) (hafter : isHandling c' = false)
      (hsends : c'.sends = c.sends ++
        [⟨emptyAnswer.header, 8, emptyAnswer.header⟩,
          ⟨emptyAnswer.message, emptyAnswer.message.length, emptyAnswer.message⟩])
      (hwire : c'.wire = c.wire)
  | raised (message : List UInt8) (hevents : c'.events = c.events ++ [.messageRecieved message])
      (hreads : c.reads ≠ []) (hbefore : isHandling c = false) (hafter : isHandling c' = true)
      (hsends : c'.sends = c.sends) (hwire : c'.wire = c.wire)

lemma Effect.refl (c : AsyncTcpClient) : Effect c c :=
  .quiet (Or.inl rfl) rfl Or.inl rfl rfl

/-- A read step other than the return of the handlers. -/
lemma Effect.of_read {c c' : AsyncTcpClient} {i : ℕ} {l : ReadLabel} (hone : OneChain c)
    (hl : l ≠ .resume) (h : c.step (.read i l) = some c') : Effect c c' := by
  obtain ⟨op, c₁, ops, hreads, hrule, rfl⟩ := ReadRule.of_step hone.length_le h
  have hne : c.reads ≠ [] := by simp [hreads]
  cases hrule with
  | headerClosed e _ _ =>
    exact .quiet (Or.inr ⟨e, rfl⟩) (by simp [isHandling, hreads]) (fun _ => Or.inl hne) rfl rfl
  | bodyClosed e _ _ =>
    exact .quiet (Or.inr ⟨e, rfl⟩) (by simp [isHandling, hreads]) (fun _ => Or.inl hne) rfl rfl
  | headerEmpty _ _ =>
    refine .answered rfl hne (by simp [isHandling, hreads]) rfl ?_ rfl
    simp [respond, asyncSend, emptyAnswer, Response.header]
  | bodyMessage _ => exact .raised _ rfl hne (by simp [isHandling, hreads]) rfl rfl rfl
  | messageHandled => exact absurd rfl hl
  | emptyAnswered => exact absurd rfl hl
  | _ =>
    exact .quiet (Or.inl rfl) (by simp [isHandling, hreads]) (fun _ => Or.inl hne) rfl rfl

lemma sends_of_outer {c c' : AsyncTcpClient} {a : Label} (hread : ∀ i l, a ≠ .read i l)
    (ha : isWatched (.client a) = false) (h : c.step a = some c') :
    c'.sends.map SendOp.data = c.sends.map SendOp.data ∧ c'.wire = c.wire := by
  cases a with
  | start =>
    obtain rfl := Option.some.inj h
    rw [start]
    split_ifs <;> exact ⟨rfl, rfl⟩
  | stop =>
    obtain rfl := Option.some.inj h
    simp [stop_eq]
  | arrive n =>
    simp only [AsyncTcpClient.step] at h
    split_ifs at h
    obtain rfl := Option.some.inj h
    exact ⟨rfl, rfl⟩
  | read i l => exact absurd rfl (hread i l)
  | overwrite i contents =>
    obtain ⟨op, hop, rfl⟩ := overwrite_eq_some h
    exact ⟨data_set hop contents, rfl⟩
  | handleWrite i =>
    simp only [AsyncTcpClient.step, Option.bind_eq_bind, Option.bind_eq_some_iff] at h
    obtain ⟨w, -, h⟩ := h
    split_ifs at h
    obtain rfl := Option.some.inj h
    rw [handleWrite]
    split_ifs
    · simp [stop_eq]
    · exact ⟨rfl, rfl⟩
  | _ => cases ha

/-- A step outside of the read chains that does not respond or send. -/
lemma Effect.of_outer {c c' : AsyncTcpClient} {a : Label} (hone : OneChain c)
    (hread : ∀ i l, a ≠ .read i l) (ha : isWatched (.client a) = false)
    (h : c.step a = some c') : Effect c c' := by
  have hsends := sends_of_outer hread ha h
  cases OuterRule.of_step hread h with
  | quiet hkeep hreads _ _ _ =>
    exact .quiet (Or.inl hkeep.events) (by simp [isHandling, hreads])
      (fun hne => Or.inl (hreads ▸ hne)) hsends.1 hsends.2
  | started hkeep hreads hrun hopen _ _ _ =>
    have hfresh := hone.fresh hopen hrun
    refine .quiet (Or.inl hkeep.events) ?_ (fun _ => Or.inr hfresh.events) hsends.1 hsends.2
    simp [isHandling, hreads, hfresh.reads]
  | restarted hkeep hreads _ _ _ _ _ =>
    exact .quiet (Or.inl hkeep.events) (by simp [isHandling, hreads])
      (fun hne => Or.inl (hreads ▸ hne)) hsends.1 hsends.2
  | stopped hkeep hreads _ _ _ _ =>
    exact .quiet (Or.inl hkeep.events) (by simp [isHandling, hreads])
      (fun hne => Or.inl (hreads ▸ hne)) hsends.1 hsends.2

lemma Effect.of_client {c c' : AsyncTcpClient} {a : Label} (hone : OneChain c)
    (ha : isWatched (.client a) = false) (h : c.step a = some c') : Effect c c' := by
  by_cases hread : ∃ i l, a = .read i l
  · obtain ⟨i, l, rfl⟩ := hread
    refine of_read hone ?_ h
    rintro rfl
    cases ha
  · exact of_outer hone (fun i l hil => hread ⟨i, l, hil⟩) ha h

/-- What an observed step of a session raises and sends. -/
lemma Effect.of_session {s s' : Session} {l : SessionLabel} (hs : s.Linked)
    (hl : isWatched l = false) (h : s.step l = some s') : Effect s.client s'.client := by
  cases Session.SessionRule.of_step h with
  | returned hclient _ => exact of_client hs.chain hl hclient
  | client _ hclient => exact of_client hs.chain hl hclient
  | @closed throws statement _ _ hs' =>
    cases statement with
    | stop =>
      obtain rfl := Option.some.inj hs'
      exact of_client (a := .stop) hs.chain rfl rfl
    | returned => cases hs'
    | _ =>
      obtain rfl := Option.some.inj hs'
      exact refl _
  | commandThrew _ => cases hl

end Conversation

end EzServer.Application
