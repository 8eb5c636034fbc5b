import EzServer.Application.Isolation
import EzServer.Application.WorkerThreads

/-!
# The clients of a server

What a session keeps by itself, every client of the server keeps in every run. A client is handed
the requests of its own socket, in order; and its socket is closed once nobody reads from it any
more, unless an exception has left one of its own handlers.
-/

namespace EzServer.Application

open Net Net.AsyncTcpClient

namespace Session

/-! ### Requests -/

/-- The session reads the frames of `socket`. -/
structure Reading (socket : List UInt8) (s : Session) : Prop where
  linked : Linked s
  framed : Framed socket s.client

lemma reading_accepted (id : UInt64) (socket : List UInt8) : Reading socket (accepted id socket) :=
  ⟨(linked_subscribed id socket).step (start_subscribed id socket),
    (framed_init true socket).step (a := .start) rfl⟩

lemma Reading.step {socket : List UInt8} {s s' : Session} {l : SessionLabel}
    (hs : Reading socket s) (h : s.step l = some s') : Reading socket s' := by
  have hlinked := hs.linked.step h
  refine ⟨hlinked, ?_⟩
  cases SessionRule.of_step h with
  | returned hclient _ => exact hs.framed.step hclient
  | client _ hclient => exact hs.framed.step hclient
  | @closed throws statement _ _ hs' =>
    cases statement with
    | stop =>
      obtain rfl := Option.some.inj hs'
      exact hs.framed.step (a := .stop) rfl
    | returned => cases hs'
    | _ =>
      obtain rfl := Option.some.inj hs'
      exact hs.framed
  | commandThrew hreads =>
    -- the chain is gone, and what it has answered stays answered
    obtain ⟨fs, hfs⟩ := hs.framed.answered
    obtain ⟨part, hpart, -⟩ := hfs.received
    exact ⟨hlinked.chain, hs.framed.stream, fs, hfs.deliveries, part, hpart, by simp⟩

lemma Reading.run {socket : List UInt8} {s s' : Session} {ls : List SessionLabel}
    (hs : Reading socket s) (h : Core.run Session.step s ls = some s') : Reading socket s' :=
  Core.run_invariant (I := Reading socket) (fun _ _ _ hs h => hs.step h) hs h

/-! ### Sockets -/

/-- The session is read or being closed, or the socket is closed. -/
inductive Kept (s : Session) : Prop where
  | attended (hs : Attended s)
      (hreleased : s.closing = some .returned → s.client.isOpen = false)
  | forgotten (hs : Forgotten s)

lemma kept_accepted (id : UInt64) (stream : List UInt8) : Kept (accepted id stream) :=
  .attended (attended_accepted id stream) fun h => by cases h

/-- No step opens a socket again. -/
lemma isOpen_of_step {c c' : AsyncTcpClient} {a : Label} (h : c.step a = some c')
    (hopen : c.isOpen = false) : c'.isOpen = false := by
  by_cases ha : ∃ i l, a = .read i l
  · obtain ⟨i, l, rfl⟩ := ha
    simp only [AsyncTcpClient.step, Option.bind_eq_bind, Option.bind_eq_some_iff,
      Prod.exists] at h
    obtain ⟨op, -, c₁, ops, hstep, h⟩ := h
    obtain rfl := Option.some.inj h
    exact (ReadRule.of_stepRead hstep).flags_eq.2.trans hopen
  · cases OuterRule.of_step (fun i l hil => ha ⟨i, l, hil⟩) h with
    | quiet _ _ _ hsame _ => exact hsame.trans hopen
    | started _ _ _ hopen' _ _ _ =>
      rw [hopen] at hopen'
      cases hopen'
    | restarted _ _ _ _ _ hopen' _ => exact hopen'
    | stopped _ _ _ _ _ hopen' => exact hopen'

/-- `OnConnectionClosed` leaves the socket closed when it returns. -/
lemma released_of_step {s s' : Session} {l : SessionLabel} (hs : Attended s)
    (hreleased : s.closing = some .returned → s.client.isOpen = false)
    (hl : s.escapes l = false) (h : s.step l = some s') :
    s'.closing = some .returned → s'.client.isOpen = false := by
  intro hreturned
  cases SessionRule.of_step h with
  | returned hclient hclosing => exact isOpen_of_step hclient (hreleased hclosing)
  | client _ hclient =>
    apply isOpen_of_step hclient
    apply hreleased
    cases hclosing : s.closing with
    | none =>
      rw [advance, hclosing] at hreturned
      simp at hreturned
    | some statement =>
      rw [advance, hclosing] at hreturned
      exact hreturned
  | @closed throws statement _ hclosing hs' =>
    cases statement with
    | erase err =>
      obtain rfl := Option.some.inj hs'
      cases hreturned
    | checkOpen err =>
      obtain rfl := Option.some.inj hs'
      show s.client.isOpen = false
      by_contra hopen
      have hopen : s.client.isOpen = true := by simpa using hopen
      simp only [hopen, if_true] at hreturned
      split_ifs at hreturned <;> cases hreturned
    | logEndpoint =>
      obtain rfl := Option.some.inj hs'
      have hthrows : throws = false := by simpa [escapes, hclosing] using hl
      rw [hthrows] at hreturned
      cases hreturned
    | stop =>
      obtain rfl := Option.some.inj hs'
      show (s.client.stop none).2.isOpen = false
      rw [stop_eq]
      cases hopen : s.client.isOpen with
      | true => simp [hs.opened hopen]
      | false => simp
    | returned => cases hs'
  | commandThrew _ => cases hl

lemma Kept.step {s s' : Session} {l : SessionLabel} (hs : Kept s) (hl : s.escapes l = false)
    (h : s.step l = some s') : Kept s' := by
  cases hs with
  | attended hs hreleased =>
    have hcommand : commandsReturn l = true := by
      cases l <;> first | rfl | cases hl
    by_cases hresumes : s.resumes l = true
    · exact .attended (hs.step hcommand hresumes h) (released_of_step hs hreleased hl h)
    · exact .forgotten (hs.forgotten hresumes h)
  | forgotten hs => exact .forgotten (hs.step h)

lemma Kept.released {s : Session} (hs : Kept s) (hidle : s.client.reads = []) :
    s.client.isOpen = false := by
  cases hs with
  | attended hs hreleased =>
    cases hs.phase with
    | reading op hreads _ =>
      rw [hidle] at hreads
      cases hreads
    | closing err hreads _ =>
      rw [hidle] at hreads
      cases hreads
    | closed _ hclosing => exact hreleased hclosing
  | forgotten hs => exact hs.isOpen

end Session

namespace Server

/-- In every run of the server, whatever the other clients do, the `k`-th client has at most one
read operation outstanding, has been handed the first requests of the `k`-th socket that arrived,
each once and in order, and nothing after the one `ConnectionClosed` that calls
`OnConnectionClosed`. -/
theorem requests_of_arrival {threadsCount : ℕ} {as : List ServerLabel} {s : Server} {k : ℕ}
    {session : Session} (hrun : Core.run step (init threadsCount) as = some s)
    (hsession : s.sessionAt k = some session) :
    ∃ socket, (arrivals as)[k]? = some (.ok socket) ∧
      (session.client.reads.filter ReadOp.isOutstanding).length ≤ 1 ∧
      (∃ j, deliveries session.client.events =
        ((requestFraming.frames socket).take j).map requestEvent) ∧
      NoClose session.client.events.dropLast ∧ session.closing.isSome = session.raised := by
  obtain ⟨socket, harrival, hsessions⟩ := exists_session_run hrun hsession
  have hreading := (Session.reading_accepted (UInt64.ofNat (k + 1)) socket).run hsessions
  have hchain := hreading.linked.chain
  obtain ⟨fs, hfs⟩ := hreading.framed.answered
  refine ⟨socket, harrival, ?_, ⟨fs.length, ?_⟩, hchain.closeLast, hreading.linked.raised_eq.symm⟩
  · exact (List.length_filter_le _ _).trans hchain.length_le
  · rw [hfs.take_frames hreading.framed, hfs.deliveries]

/-- The second of two clients, whose requests are read while the first one's are not. -/
theorem requests_of_arrival_second :
    let as := List.replicate 6 (.startup ⟨false, false, false⟩) ++ [.complete 0 (.ok [65]),
      .handle 0 false, .handle 0 false, .handle 0 false, .accepted 0, .accepted 0, .accepted 0,
      .complete 0 (.ok [0, 0, 0, 0, 1, 0, 0, 0, 66]), .handle 0 false, .handle 0 false,
      .handle 0 false, .accepted 1, .session 1 (.client (.arrive 9)),
      .session 1 (.client (.read 0 (.receiveSome 8))),
      .session 1 (.client (.read 0 .headerHandler)),
      .session 1 (.client (.read 0 (.readSome 1))), .session 1 (.client (.read 0 .bodyHandler))]
    ∃ s session, (Core.run step (init 1) as = some s ∧ s.sessionAt 1 = some session) ∧
      ∃ socket, (arrivals as)[1]? = some (.ok socket) ∧
        (session.client.reads.filter ReadOp.isOutstanding).length ≤ 1 ∧
        (∃ j, deliveries session.client.events =
          ((requestFraming.frames socket).take j).map requestEvent) ∧
        NoClose session.client.events.dropLast ∧ session.closing.isSome = session.raised :=
  ⟨_, _, ⟨rfl, rfl⟩, @requests_of_arrival 1 _ _ 1 _ rfl rfl⟩

/-- No exception leaves a handler of the `k`-th client. -/
def contained (k : ℕ) (s : Server) (a : ServerLabel) : Bool :=
  (sessionLabel k a).isNone || !s.escapes a

lemma escapes_of_contained {k : ℕ} {s : Server} {a : ServerLabel} {p : Session}
    {l : SessionLabel} (h : s.contained k a = true) (hp : s.sessionAt k = some p)
    (hl : sessionLabel k a = some l) : p.escapes l = false := by
  have hescapes : s.escapes a = false := by simpa [contained, hl] using h
  obtain ⟨c, hc, hstarted⟩ := Option.bind_eq_some_iff.mp hp
  rw [Connection.started] at hstarted
  split_ifs at hstarted
  obtain rfl := Option.some.inj hstarted
  cases a with
  | session j l' =>
    rw [sessionLabel] at hl
    split_ifs at hl with hjk
    obtain rfl := hjk
    obtain rfl := Option.some.inj hl
    simpa [escapes, hc] using hescapes
  | _ => cases hl

/-- In every run of the server, once a client has been started, all of its handlers have returned and
nobody reads from it any more, its socket is closed, whatever escapes from the handlers of the
others. -/
theorem socket_released {threadsCount : ℕ} {as : List ServerLabel} {s : Server} {k : ℕ}
    {session : Session} (hrun : Core.run step (init threadsCount) as = some s)
    (hcontained : Core.EveryStep step (fun t a => t.contained k a = true) (init threadsCount) as)
    (hsession : s.sessionAt k = some session) (hidle : session.client.reads = []) :
    session.client.isOpen = false := by
  have hkept : ∀ q, s.sessionAt k = some q → q.Kept := by
    apply (projection k).invariant (I := Session.Kept) (H := fun p l => p.escapes l = false) _ _ _
      (untouched_init threadsCount) _ hcontained hrun
    · rintro p ⟨id, socket, rfl⟩
      exact Session.kept_accepted id socket
    · intro p l q hp hl h
      exact hp.step hl h
    · intro t a p l h hp hl
      exact escapes_of_contained h hp hl
    · intro p hp
      cases hp
  exact (hkept session hsession).released hidle

/-- A client that disconnects after an exception has taken one of two threads. -/
theorem socket_released_disconnected :
    ∃ s session, (Core.run step (init 2) (List.replicate 7 (.startup ⟨false, false, false⟩) ++
        [.complete 0 (.ok []), .handle 0 false, .handle 0 false, .handle 0 false, .accepted 0,
          .accepted 0, .accepted 0, .complete 0 (.ok []), .handle 0 false, .handle 0 true,
          .session 0 (.client (.read 0 (.receiveFail .eof))),
          .session 0 (.client (.read 0 .headerHandler)), .session 0 (.closed false),
          .session 0 (.closed false), .session 0 (.closed false), .session 0 (.closed false),
          .session 0 (.client (.read 0 .closeReturned))]) = some s ∧
        s.sessionAt 0 = some session ∧ session.client.reads = []) ∧
      session.client.isOpen = false :=
  ⟨_, _, ⟨rfl, rfl, rfl⟩, @socket_released 2 (List.replicate 7 (.startup ⟨false, false, false⟩) ++
    [.complete 0 (.ok []), .handle 0 false, .handle 0 false, .handle 0 false, .accepted 0,
      .accepted 0, .accepted 0, .complete 0 (.ok []), .handle 0 false, .handle 0 true,
      .session 0 (.client (.read 0 (.receiveFail .eof))),
      .session 0 (.client (.read 0 .headerHandler)), .session 0 (.closed false),
      .session 0 (.closed false), .session 0 (.closed false), .session 0 (.closed false),
      .session 0 (.client (.read 0 .closeReturned))]) _ 0 _ rfl (by decide) rfl rfl⟩

end Server

end EzServer.Application
