import EzServer.Application.Conversation

/-!
# The server answers its peers

A conversation refines the abstract server: the calls of `Respond` are the first answers to the
requests of the peer, in order. From there to the peer it is only whole sends that are needed: what
a peer reads off the wire are the answers to what it has sent.
-/

namespace EzServer.Application

open EzServer.Core.Framing Introp Net Net.AsyncTcpClient

namespace Conversation

variable {χ : Type} (behaviour : ℕ → χ → List UInt8 → CommandRun) (commands : Commands χ)

/-! ### Requests -/

/-- The requests of the stream that have been taken up. -/
def taken (stream : List UInt8) (c : AsyncTcpClient) : List RequestFrame :=
  (requestFraming.frames stream).take (deliveries c.events).length

lemma deliveries_eq {stream : List UInt8} {c : AsyncTcpClient} (hc : Framed stream c) :
    deliveries c.events = (taken stream c).map requestEvent := by
  obtain ⟨fs, hfs⟩ := hc.answered
  have hlength : (deliveries c.events).length = fs.length := by
    rw [hfs.deliveries, List.length_map]
  rw [taken, hlength, hfs.take_frames hc, hfs.deliveries]

lemma length_taken {stream : List UInt8} {c : AsyncTcpClient} (hc : Framed stream c) :
    (taken stream c).length = (deliveries c.events).length := by
  have hlength := congrArg List.length (deliveries_eq hc)
  rw [List.length_map] at hlength
  exact hlength.symm

lemma taken_congr {stream : List UInt8} {c c' : AsyncTcpClient}
    (h : deliveries c'.events = deliveries c.events) : taken stream c' = taken stream c := by
  rw [taken, h]
  rfl

/-- An event that answers a request answers the next one of the stream. -/
lemma taken_concat {stream : List UInt8} {c c' : AsyncTcpClient} {e : Event}
    (hc' : Framed stream c') (h : deliveries c'.events = deliveries c.events ++ [e]) :
    ∃ f, taken stream c' = taken stream c ++ [f] ∧ requestEvent f = e := by
  have heq := deliveries_eq hc'
  have hlength := length_taken hc'
  rw [h, List.length_append, List.length_singleton] at hlength
  have hlt : (deliveries c.events).length < (requestFraming.frames stream).length := by
    rw [taken, List.length_take] at hlength
    omega
  have htaken : taken stream c' = taken stream c ++
      [(requestFraming.frames stream)[(deliveries c.events).length]] := by
    rw [taken, h, List.length_append, List.length_singleton,
      List.take_succ_eq_append_getElem hlt]
    rfl
  refine ⟨_, htaken, ?_⟩
  rw [h, htaken, List.map_append] at heq
  exact (List.cons.inj (List.append_inj' heq rfl).2).1.symm

/-! ### Answers are owed -/

/-- What has been called and what the running call still owes are the answers to the requests that
have been taken up. -/
structure Conversing (stream : List UInt8) (s : Conversation) : Prop where
  reading : s.session.Reading stream
  owes : s.called ++ s.owed = answers behaviour commands 0 (taken stream s.session.client)
  handling : ∀ h, s.handling = some h → isHandling s.session.client = true ∧
    goesOn behaviour commands 0 (taken stream s.session.client) = h.returns
  idle : s.handling = none → isHandling s.session.client = false ∧
    (s.session.client.reads ≠ [] →
      goesOn behaviour commands 0 (taken stream s.session.client) = true)

lemma conversing_accepted (id : UInt64) (stream : List UInt8) :
    Conversing behaviour commands stream (accepted id stream) where
  reading := Session.reading_accepted id stream
  owes := rfl
  handling := by simp [accepted]
  idle := fun _ => ⟨rfl, fun _ => rfl⟩

section Steps

variable {behaviour commands} {stream : List UInt8} {s s' : Conversation}

lemma owed_none (h : s.handling = none) : s.owed = [] := by rw [owed, h]

lemma owed_some {h : Handling} (hs : s.handling = some h) : s.owed = h.responses := by rw [owed, hs]

/-- A step that takes up no request. -/
lemma Conversing.congr (hs : Conversing behaviour commands stream s)
    (hreading : s'.session.Reading stream)
    (hdeliveries : deliveries s'.session.client.events = deliveries s.session.client.events)
    (howes : s'.called ++ s'.owed = s.called ++ s.owed)
    (hhandling : ∀ h', s'.handling = some h' → isHandling s'.session.client = true ∧
      ∃ h, s.handling = some h ∧ h.returns = h'.returns)
    (hidle : s'.handling = none → isHandling s'.session.client = false ∧
      (s'.session.client.reads ≠ [] →
        goesOn behaviour commands 0 (taken stream s.session.client) = true)) :
    Conversing behaviour commands stream s' := by
  have htaken : taken stream s'.session.client = taken stream s.session.client :=
    taken_congr hdeliveries
  refine ⟨hreading, ?_, fun h' hh' => ?_, fun hnone => ?_⟩
  · rw [howes, htaken, hs.owes]
  · obtain ⟨his, h, hh, hreturns⟩ := hhandling h' hh'
    refine ⟨his, ?_⟩
    rw [htaken, ← hreturns]
    exact (hs.handling h hh).2
  · rw [htaken]
    exact hidle hnone

lemma step_client {session : Session} {a : Label} (h : s.session.step (.client a) = some session) :
    s.session.client.step a = some session.client := by
  cases Session.SessionRule.of_step h with
  | returned hclient _ => exact hclient
  | client _ hclient => exact hclient

lemma client_of_respond {session : Session} {r : Response}
    (h : s.session.step (.client (.respond r.code r.message r.flags)) = some session) :
    session.client = s.session.client.respond r.code r.message r.flags :=
  (Option.some.inj (step_client h)).symm

lemma client_of_send {session : Session} {sent : ℕ} {err : Option ErrorCode}
    (h : s.session.step (.client (.send sent err)) = some session) :
    ∃ op sends, s.session.client.sends = op :: sends ∧ session.client = { s.session.client with
      sends := sends
      wire := s.session.client.wire ++ op.contents.take sent
      writes := s.session.client.writes ++ [⟨err, sent, op.expected⟩] } := by
  have hclient := step_client h
  simp only [AsyncTcpClient.step] at hclient
  split at hclient
  · cases hclient
  · next op sends hsends =>
    split_ifs at hclient
    exact ⟨op, sends, hsends, (Option.some.inj hclient).symm⟩

/-- The handler goes on to `StartRead`. -/
lemma client_of_resume {session : Session} {i : ℕ} (hs : s.session.Linked)
    (h : s.session.step (.client (.read i .resume)) = some session) :
    s.session.client.reads ≠ [] ∧
      session.client = { s.session.client with reads := s.session.client.startRead } := by
  obtain ⟨op, c₁, ops, hreads, hrule, hclient⟩ :=
    ReadRule.of_step hs.chain.length_le (step_client h)
  rw [hclient, hreads]
  cases hrule <;> exact ⟨List.cons_ne_nil _ _, rfl⟩

lemma isHandling_startRead (c : AsyncTcpClient) :
    isHandling { c with reads := c.startRead } = false := by
  rw [isHandling, startRead]
  split_ifs <;> rfl

lemma client_of_throws {session : Session} (h : s.session.step .commandThrows = some session) :
    session.client = { s.session.client with reads := [] } := by
  cases Session.SessionRule.of_step h with
  | commandThrew _ => rfl

/-! The three ways in which a step is observed. -/

lemma observe_quiet {session : Session}
    (h : session.client.events = s.session.client.events ∨
      ∃ err, session.client.events = s.session.client.events ++ [.connectionClosed err]) :
    s.observe behaviour commands session = { s with session := session } := by
  rcases h with h | ⟨err, h⟩
  · rw [observe, h, List.drop_length]
  · rw [observe, h, List.drop_left]

lemma observe_answered {session : Session}
    (h : session.client.events = s.session.client.events ++ [.respondedEmpty]) :
    s.observe behaviour commands session =
      { s with session := session, called := s.called ++ [emptyAnswer] } := by
  rw [observe, h, List.drop_left]

lemma observe_raised {session : Session} {message : List UInt8}
    (h : session.client.events = s.session.client.events ++ [.messageRecieved message]) :
    s.observe behaviour commands session = { s with
      session := session
      handling := some (handlingOf behaviour commands s.turn message) } := by
  rw [observe, h, List.drop_left]

/-- While no call of `OnMessageReceived` runs, the next request that is taken up is answered. -/
lemma Conversing.next (hs : Conversing behaviour commands stream s) {session : Session} {e : Event}
    (hreading : session.Reading stream)
    (hdeliveries : deliveries session.client.events = deliveries s.session.client.events ++ [e])
    (hbefore : isHandling s.session.client = false) (hreads : s.session.client.reads ≠ []) :
    s.handling = none ∧ ∃ f, requestEvent f = e ∧
      answers behaviour commands 0 (taken stream session.client) =
        s.called ++ (answer behaviour commands s.turn f).responses ∧
      goesOn behaviour commands 0 (taken stream session.client) =
        (answer behaviour commands s.turn f).returns := by
  have hnone : s.handling = none := by
    by_contra hne
    obtain ⟨h, hh⟩ := Option.ne_none_iff_exists'.mp hne
    rw [(hs.handling h hh).1] at hbefore
    cases hbefore
  have hgo := (hs.idle hnone).2 hreads
  have howes := hs.owes
  rw [owed_none hnone, List.append_nil] at howes
  obtain ⟨f, hf, hevent⟩ := taken_concat hreading.framed hdeliveries
  have hturn : 0 + (taken stream s.session.client).length = s.turn := by
    rw [Nat.zero_add, length_taken hs.reading.framed, turn]
  refine ⟨hnone, f, hevent, ?_, ?_⟩
  · rw [hf, answers_append, hgo, hturn, howes]
    simp [answers]
  · rw [hf, goesOn_append, hgo, hturn]
    simp [goesOn]

/-- A step that is observed. -/
lemma Conversing.observe (hs : Conversing behaviour commands stream s) {session : Session}
    (hreading : session.Reading stream) (heffect : Effect s.session.client session.client) :
    Conversing behaviour commands stream (s.observe behaviour commands session) := by
  cases heffect with
  | quiet hevents hhandling hreads _ _ =>
    rw [observe_quiet hevents]
    have hdeliveries : deliveries session.client.events = deliveries s.session.client.events := by
      rcases hevents with hevents | ⟨err, hevents⟩ <;> simp [hevents]
    refine hs.congr hreading hdeliveries rfl (fun h hh => ?_) (fun hnone => ?_)
    · exact ⟨hhandling.trans (hs.handling h hh).1, h, hh, rfl⟩
    · refine ⟨hhandling.trans (hs.idle hnone).1, fun hne => ?_⟩
      rcases hreads hne with hne | hempty
      · exact (hs.idle hnone).2 hne
      · rw [taken, hempty]
        rfl
  | answered hevents hreads hbefore hafter _ _ =>
    obtain ⟨hnone, f, hevent, hanswers, hgo⟩ :=
      hs.next (e := .respondedEmpty) hreading (by simp [hevents]) hbefore hreads
    have hbody : f.body = [] := by
      by_contra hne
      simp [requestEvent, hne] at hevent
    rw [answer, if_pos hbody] at hanswers hgo
    rw [observe_answered hevents]
    refine ⟨hreading, ?_, fun h hh => ?_, fun _ => ⟨hafter, fun _ => hgo⟩⟩
    · rw [hanswers]
      simp [owed, hnone]
    · rw [hnone] at hh
      cases hh
  | raised message hevents hreads hbefore hafter _ _ =>
    obtain ⟨hnone, f, hevent, hanswers, hgo⟩ :=
      hs.next (e := .messageRecieved message) hreading (by simp [hevents]) hbefore hreads
    obtain ⟨hbody, hne⟩ : f.body = message ∧ f.body ≠ [] := by
      rw [requestEvent] at hevent
      split_ifs at hevent with hnil
      exact ⟨Event.messageRecieved.inj hevent, hnil⟩
    rw [answer, if_neg hne, hbody] at hanswers hgo
    rw [observe_raised hevents]
    refine ⟨hreading, hanswers.symm, fun h hh => ?_, fun h => by cases h⟩
    obtain rfl := Option.some.inj hh
    exact ⟨hafter, hgo⟩

/-- Every step of a conversation answers what is owed. -/
lemma Conversing.step {l : SessionLabel} (hs : Conversing behaviour commands stream s)
    (h : s.step behaviour commands l = some s') : Conversing behaviour commands stream s' := by
  cases ConversationRule.of_step behaviour commands h with
  | @responded r responses returns session hhandling hsession =>
    have hclient := client_of_respond hsession
    refine hs.congr (hs.reading.step hsession) (by rw [hclient]; rfl) ?_ ?_ (fun h => by cases h)
    · rw [owed_some hhandling]
      simp [owed]
    · intro h' hh'
      obtain rfl := Option.some.inj hh'
      refine ⟨?_, _, hhandling, rfl⟩
      show isHandling session.client = true
      rw [hclient]
      exact (hs.handling _ hhandling).1
  | @resumedEmpty i session hhandling hsession =>
    obtain ⟨hne, hclient⟩ := client_of_resume hs.reading.linked hsession
    refine hs.congr (hs.reading.step hsession) (by rw [hclient]) rfl ?_ (fun _ => ⟨?_, ?_⟩)
    · intro h' hh'
      rw [hhandling] at hh'
      cases hh'
    · show isHandling session.client = false
      rw [hclient]
      exact isHandling_startRead _
    · intro _
      exact (hs.idle hhandling).2 hne
  | @resumed i session hhandling hsession =>
    obtain ⟨-, hclient⟩ := client_of_resume hs.reading.linked hsession
    refine hs.congr (hs.reading.step hsession) (by rw [hclient]) ?_ (fun _ h => by cases h)
      (fun _ => ⟨?_, ?_⟩)
    · rw [owed_some hhandling]
      rfl
    · show isHandling session.client = false
      rw [hclient]
      exact isHandling_startRead _
    · intro _
      exact (hs.handling _ hhandling).2
  | @threw session hhandling hsession =>
    have hclient := client_of_throws hsession
    refine hs.congr (hs.reading.step hsession) (by rw [hclient]) ?_ (fun _ h => by cases h)
      (fun _ => ⟨?_, ?_⟩)
    · rw [owed_some hhandling]
      rfl
    · show isHandling session.client = false
      rw [hclient]
      rfl
    · intro hne
      exact absurd (by rw [hclient]) hne
  | @sent sent err session hsession =>
    obtain ⟨op, sends, -, hclient⟩ := client_of_send hsession
    refine hs.congr (hs.reading.step hsession) (by rw [hclient]) rfl ?_ ?_
    · intro h hh
      refine ⟨?_, h, hh, rfl⟩
      show isHandling session.client = true
      rw [hclient]
      exact (hs.handling h hh).1
    · intro hnone
      show isHandling session.client = false ∧ (session.client.reads ≠ [] → _)
      rw [hclient]
      exact hs.idle hnone
  | @observed l session hl hsession =>
    exact hs.observe (hs.reading.step hsession) (.of_session hs.reading.linked hl hsession)

/-! ### Answers are sent -/

/-- The wire holds the frames of the calls of `Respond`, as far as nothing was truncated. -/
structure Sending (s : Conversation) : Prop where
  whole : s.truncated = false →
    s.session.client.wire ++ s.session.client.sends.flatMap SendOp.data =
      s.called.flatMap Response.frame
  isPrefix : s.session.client.wire <+: s.called.flatMap Response.frame

lemma sending_accepted (id : UInt64) (stream : List UInt8) : Sending (accepted id stream) where
  whole := fun _ => rfl
  isPrefix := ⟨[], rfl⟩

/-- A call of `Respond` adds its two sends. -/
lemma Sending.respond (hs : Sending s) {r : Response} {session : Session}
    {handling : Option Handling} (hsends : session.client.sends = s.session.client.sends ++
      [⟨r.header, 8, r.header⟩, ⟨r.message, r.message.length, r.message⟩])
    (hwire : session.client.wire = s.session.client.wire) :
    Sending { s with session := session, handling := handling, called := s.called ++ [r] } where
  whole := fun htruncated => by
    rw [hsends, hwire, List.flatMap_append, List.flatMap_append, ← List.append_assoc,
      hs.whole htruncated]
    simp [Response.frame]
  isPrefix := by
    show session.client.wire <+: (s.called ++ [r]).flatMap Response.frame
    rw [hwire, List.flatMap_append]
    exact hs.isPrefix.trans (List.prefix_append _ _)

lemma Sending.congr (hs : Sending s) {session : Session} {handling : Option Handling}
    (hsends : session.client.sends.map SendOp.data = s.session.client.sends.map SendOp.data)
    (hwire : session.client.wire = s.session.client.wire) :
    Sending { s with session := session, handling := handling } where
  whole := by
    rw [List.flatMap_def, hsends, hwire, ← List.flatMap_def]
    exact hs.whole
  isPrefix := by
    rw [hwire]
    exact hs.isPrefix

/-- A send transfers a prefix of what it was given. -/
lemma Sending.send (hs : Sending s) {session : Session} {op : SendOp} {sends : List SendOp}
    {writes : List WriteCompletion} {sent : ℕ} {err : Option ErrorCode}
    (hopen : s.unbroken (.client (.send sent err)) = true)
    (hsends : s.session.client.sends = op :: sends)
    (hclient : session.client = { s.session.client with
      sends := sends
      wire := s.session.client.wire ++ op.contents.take sent
      writes := writes }) :
    Sending { s with
      session := session
      truncated := s.truncated || decide (sent < op.data.length) } := by
  rw [unbroken, nextIntact, hsends, List.head?_cons, Option.all_some] at hopen
  have hwhole : s.truncated = false → s.session.client.wire ++
      (op.data ++ sends.flatMap SendOp.data) = s.called.flatMap Response.frame := fun h => by
    rw [← hs.whole h, hsends, List.flatMap_cons]
  by_cases hzero : sent = 0
  · subst hzero
    constructor
    · intro htruncated
      simp only [Bool.or_eq_false_iff, decide_eq_false_iff_not, not_lt, Nat.le_zero,
        List.length_eq_zero_iff] at htruncated
      rw [hclient]
      simpa [htruncated.2] using hwhole htruncated.1
    · rw [hclient]
      simpa using hs.isPrefix
  · have hintact : s.truncated = false ∧ op.contents.take sent = op.data.take sent := by
      simpa [hzero, SendOp.isIntact] using hopen
    rw [hintact.2] at hclient
    have hframes := hwhole hintact.1
    constructor
    · intro htruncated
      simp only [Bool.or_eq_false_iff, decide_eq_false_iff_not, not_lt] at htruncated
      rw [hclient]
      show s.session.client.wire ++ op.data.take sent ++ sends.flatMap SendOp.data = _
      rwa [List.take_of_length_le htruncated.2, List.append_assoc]
    · rw [hclient]
      show s.session.client.wire ++ op.data.take sent <+: s.called.flatMap Response.frame
      rw [← hframes]
      apply (List.prefix_append_right_inj _).mpr
      exact (List.take_prefix _ _).trans (List.prefix_append _ _)

lemma Sending.step {l : SessionLabel} (hlinked : s.session.Linked) (hs : Sending s)
    (hl : s.unbroken l = true) (h : s.step behaviour commands l = some s') : Sending s' := by
  cases ConversationRule.of_step behaviour commands h with
  | @responded r responses returns session hhandling hsession =>
    have hclient := client_of_respond hsession
    refine hs.respond ?_ (by rw [hclient]; rfl)
    rw [hclient]
    simp [AsyncTcpClient.respond, asyncSend, Response.header]
  | resumedEmpty _ hsession =>
    obtain ⟨-, hclient⟩ := client_of_resume hlinked hsession
    exact hs.congr (by rw [hclient]) (by rw [hclient])
  | resumed _ hsession =>
    obtain ⟨-, hclient⟩ := client_of_resume hlinked hsession
    exact hs.congr (by rw [hclient]) (by rw [hclient])
  | threw _ hsession =>
    have hclient := client_of_throws hsession
    exact hs.congr (by rw [hclient]) (by rw [hclient])
  | @sent sent err session hsession =>
    obtain ⟨op, sends, hsends, hclient⟩ := client_of_send hsession
    rw [hsends, List.head?_cons, Option.any_some]
    exact hs.send hl hsends hclient
  | @observed l session hnot hsession =>
    cases Effect.of_session hlinked hnot hsession with
    | quiet hevents _ _ hsends hwire =>
      rw [observe_quiet hevents]
      exact hs.congr hsends hwire
    | answered hevents _ _ _ hsends hwire =>
      rw [observe_answered hevents]
      exact hs.respond hsends hwire
    | raised message hevents _ _ _ hsends hwire =>
      rw [observe_raised hevents]
      exact hs.congr (by rw [hsends]) hwire

end Steps

/-! ### Runs -/

section Runs

variable {behaviour commands} {stream : List UInt8} {s s' : Conversation}

lemma Conversing.run {ls : List SessionLabel} (hs : Conversing behaviour commands stream s)
    (h : Core.run (Conversation.step behaviour commands) s ls = some s') :
    Conversing behaviour commands stream s' :=
  Core.run_invariant (I := Conversing behaviour commands stream) (fun _ _ _ hs h => hs.step h) hs h

lemma Sending.run {ls : List SessionLabel} (hconversing : Conversing behaviour commands stream s)
    (hs : Sending s)
    (hls : Core.EveryStep (Conversation.step behaviour commands) (fun s l => s.unbroken l = true)
      s ls)
    (h : Core.run (Conversation.step behaviour commands) s ls = some s') : Sending s' := by
  have hboth : Conversing behaviour commands stream s' ∧ Sending s' :=
    Core.run_invariant_of_everyStep
      (I := fun s => Conversing behaviour commands stream s ∧ Sending s)
      (fun _ _ _ hs hl h => ⟨hs.1.step h, hs.2.step hs.1.reading.linked hl h⟩)
      ⟨hconversing, hs⟩ hls h
  exact hboth.2

lemma Conversing.called_isPrefix (hs : Conversing behaviour commands stream s) :
    s.called <+: answers behaviour commands 0 (requestFraming.frames stream) := by
  have howes : s.called <+: answers behaviour commands 0 (taken stream s.session.client) :=
    hs.owes ▸ List.prefix_append _ _
  exact howes.trans (answers_isPrefix behaviour commands (List.take_prefix _ _))

lemma session_observe (session : Session) :
    (s.observe behaviour commands session).session = session := by
  rw [observe]
  split <;> rfl

lemma session_step {l : SessionLabel} (h : s.step behaviour commands l = some s') :
    s.session.step l = some s'.session := by
  cases ConversationRule.of_step behaviour commands h with
  | responded _ hsession => exact hsession
  | resumedEmpty _ hsession => exact hsession
  | resumed _ hsession => exact hsession
  | threw _ hsession => exact hsession
  | sent hsession => exact hsession
  | observed _ hsession => exact hsession.trans (congrArg some (session_observe _).symm)

/-- A conversation is a session. -/
lemma session_run {ls : List SessionLabel}
    (h : Core.run (Conversation.step behaviour commands) s ls = some s') :
    Core.run Session.step s.session ls = some s'.session := by
  induction ls generalizing s with
  | nil =>
    obtain rfl := Option.some.inj h
    rfl
  | cons l ls ih =>
    obtain ⟨t, ht, hrest⟩ := Core.run_cons_eq_some.mp h
    exact Core.run_cons_eq_some.mpr ⟨t.session, session_step ht, ih hrest⟩

/-- At any point of a conversation, the calls of `Respond` are the first answers to the requests of
the peer, and all that is owed to the requests that were taken up once no call of
`OnMessageReceived` is running. -/
theorem called_prefix_answers {id : UInt64} {ls : List SessionLabel}
    (hrun : Core.run (Conversation.step behaviour commands) (accepted id stream) ls = some s) :
    s.called <+: answers behaviour commands 0 (requestFraming.frames stream) ∧
      (s.handling = none → s.called = answers behaviour commands 0
        ((requestFraming.frames stream).take s.turn)) := by
  have hs := (conversing_accepted behaviour commands id stream).run hrun
  refine ⟨hs.called_isPrefix, fun hnone => ?_⟩
  have howes := hs.owes
  rwa [owed_none hnone, List.append_nil] at howes

/-- The first two requests of a peer, of which the first is empty. -/
theorem called_prefix_answers_two :
    ∃ s, Core.run (Conversation.step (χ := Unit) (fun _ _ _ => ⟨[], .returned .kSuccess⟩) [])
        (accepted 1 [0, 0, 0, 0, 0, 0, 0, 0, 0, 0, 0, 0, 1, 0, 0, 0, 65])
        [.client (.arrive 17), .client (.read 0 (.receiveSome 8)),
          .client (.read 0 .headerHandler), .client (.read 0 .resume),
          .client (.read 0 (.receiveSome 8)), .client (.read 0 .headerHandler),
          .client (.read 0 (.readSome 1)), .client (.read 0 .bodyHandler)] = some s ∧
      s.called <+: answers (χ := Unit) (fun _ _ _ => ⟨[], .returned .kSuccess⟩) [] 0
        (requestFraming.frames [0, 0, 0, 0, 0, 0, 0, 0, 0, 0, 0, 0, 1, 0, 0, 0, 65]) ∧
      (s.handling = none → s.called =
        answers (χ := Unit) (fun _ _ _ => ⟨[], .returned .kSuccess⟩) [] 0
          ((requestFraming.frames [0, 0, 0, 0, 0, 0, 0, 0, 0, 0, 0, 0, 1, 0, 0, 0, 65]).take
            s.turn)) := by
  refine Exists.imp (fun s hrun => ⟨hrun, called_prefix_answers hrun⟩) ?_
  exact ⟨_, rfl⟩

end Runs

end Conversation

namespace Server

open Conversation

variable {χ : Type} {behaviour : ℕ → χ → List UInt8 → CommandRun} {commands : Commands χ}

/-- In every run of the server, whatever its other clients do: as long as all responses to the
`k`-th client are those of `StartRead` and `OnMessageReceived`, they fit the length field, and
nothing is transferred after a truncated send or from a buffer that is used again, the `k`-th peer
reads the first answers to the requests that it sends, in order. -/
theorem peer_reads_answers {threadsCount : ℕ} {as : List ServerLabel} {t : Server} {k : ℕ}
    {session : Session} {socket : List UInt8} {s : Conversation}
    (hrun : Core.run step (init threadsCount) as = some t)
    (hsession : t.sessionAt k = some session) (hsocket : (arrivals as)[k]? = some (.ok socket))
    (hconversation : Core.run (Conversation.step behaviour commands)
      (accepted (UInt64.ofNat (k + 1)) socket) (as.filterMap (sessionLabel k)) = some s)
    (hunbroken : Core.EveryStep (Conversation.step behaviour commands)
      (fun s l => s.unbroken l = true) (accepted (UInt64.ofNat (k + 1)) socket)
      (as.filterMap (sessionLabel k)))
    (hfits : ∀ r ∈ answers behaviour commands 0 (requestFraming.frames socket), r.Fits) :
    Response.read session.client.wire <+:
      answers behaviour commands 0 (requestFraming.frames socket) := by
  obtain ⟨socket', hsocket', hproject⟩ := exists_session_run hrun hsession
  obtain rfl : socket' = socket := Except.ok.inj (Option.some.inj (hsocket'.symm.trans hsocket))
  have hsame : s.session = session :=
    Option.some.inj ((session_run hconversation).symm.trans hproject)
  have hstart := conversing_accepted behaviour commands (UInt64.ofNat (k + 1)) socket'
  have hcalled := (hstart.run hconversation).called_isPrefix
  have hsending := Sending.run hstart (sending_accepted _ _) hunbroken hconversation
  have hwire : Response.read s.session.client.wire <+: s.called :=
    Response.read_prefix_of_prefix (fun r hr => hfits r (hcalled.subset hr)) hsending.isPrefix
  rw [← hsame]
  exact hwire.trans hcalled

/-- An empty message, and one that is no request. -/
def twoMessages : List UInt8 := [0, 0, 0, 0, 0, 0, 0, 0, 0, 0, 0, 0, 1, 0, 0, 0, 65]

/-- A server with one thread that answers both. -/
def answersTwoMessages : List ServerLabel :=
  List.replicate 6 (.startup ⟨false, false, false⟩) ++ [.complete 0 (.ok twoMessages),
    .handle 0 false, .handle 0 false, .handle 0 false, .accepted 0, .accepted 0, .accepted 0,
    .session 0 (.client (.arrive 17)), .session 0 (.client (.read 0 (.receiveSome 8))),
    .session 0 (.client (.read 0 .headerHandler)), .session 0 (.client (.read 0 .resume)),
    .session 0 (.client (.read 0 (.receiveSome 8))),
    .session 0 (.client (.read 0 .headerHandler)),
    .session 0 (.client (.read 0 (.readSome 1))), .session 0 (.client (.read 0 .bodyHandler)),
    .session 0 (.client (.respond .kInvalidRequest
      (text "Invalid Command " ++ [96, 65, 96, 33]) 0)),
    .session 0 (.client (.send 8 none)), .session 0 (.client (.send 23 none)),
    .session 0 (.client (.send 8 none)), .session 0 (.client (.send 4 none))]

theorem peer_reads_answers_two :
    ∃ t, Core.run step (init 1) answersTwoMessages = some t ∧
      ∃ session, t.sessionAt 0 = some session ∧
        Response.read session.client.wire <+:
          answers (χ := Unit) (fun _ _ _ => ⟨[], .returned .kSuccess⟩) [] 0
            (requestFraming.frames twoMessages) := by
  obtain ⟨t, hrun, session, hsession⟩ : ∃ t, Core.run step (init 1) answersTwoMessages = some t ∧
      ∃ session, t.sessionAt 0 = some session := ⟨_, rfl, _, rfl⟩
  obtain ⟨s, hconversation⟩ : ∃ s,
      Core.run (Conversation.step (χ := Unit) (fun _ _ _ => ⟨[], .returned .kSuccess⟩) [])
        (accepted (UInt64.ofNat (0 + 1)) twoMessages)
        (answersTwoMessages.filterMap (sessionLabel 0)) = some s := ⟨_, rfl⟩
  refine ⟨t, hrun, session, hsession, ?_⟩
  exact peer_reads_answers hrun hsession rfl hconversation (by decide) (by decide)

end Server

end EzServer.Application
