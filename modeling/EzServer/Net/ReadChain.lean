import EzServer.Net.ClientRules

/-!
# One read chain

A client never has more than one read chain, and its last event is the only one that may be
`ConnectionClosed`. The reason is that a client which is open but not running has never been
started: only `Stop` resets `is_running_`, and it closes the socket.
-/

namespace EzServer.Net

/-- A read operation that is pending, or whose completion is queued. -/
def ReadOp.isOutstanding : ReadOp → Bool
  | .receivingHeader | .headerReceived _ _ | .readingBody _ _ | .bodyRead _ _ _ => true
  | _ => false

/-- The chain has come to its close event. -/
def ReadOp.isClosing : ReadOp → Bool
  | .raisingConnectionClosed _ => true
  | _ => false

def Event.isConnectionClosed : Event → Bool
  | .connectionClosed _ => true
  | _ => false

/-- No close event is among the events. -/
def NoClose (evs : List Event) : Prop := ∀ e ∈ evs, e.isConnectionClosed = false

namespace AsyncTcpClient

/-- Nothing has been read and nothing raised. -/
structure Fresh (c : AsyncTcpClient) : Prop where
  reads : c.reads = []
  events : c.events = []
  buffer : c.buffer = []
  received : c.received = []

structure OneChain (c : AsyncTcpClient) : Prop where
  length_le : c.reads.length ≤ 1
  fresh : c.isOpen = true → c.isRunning = false → Fresh c
  noClose : ∀ op ∈ c.reads, op.isClosing = false → NoClose c.events
  closeLast : NoClose c.events.dropLast

/-! ### Steps -/

lemma length_startRead_le (c : AsyncTcpClient) : c.startRead.length ≤ 1 := by
  rw [startRead]
  split_ifs <;> simp

lemma ReadRule.flags_eq {c c' : AsyncTcpClient} {l : ReadLabel} {op : ReadOp} {ops : List ReadOp}
    (h : ReadRule c l op c' ops) : c'.isRunning = c.isRunning ∧ c'.isOpen = c.isOpen := by
  cases h <;> exact ⟨rfl, rfl⟩

lemma ReadRule.length_le {c c' : AsyncTcpClient} {l : ReadLabel} {op : ReadOp}
    {ops : List ReadOp} (h : ReadRule c l op c' ops) : ops.length ≤ 1 := by
  cases h
  case messageHandled => exact length_startRead_le c
  case emptyAnswered => exact length_startRead_le c
  all_goals simp

/-- A step adds at most one event, and only to a chain that has not come to its close event. -/
lemma ReadRule.events_eq {c c' : AsyncTcpClient} {l : ReadLabel} {op : ReadOp}
    {ops : List ReadOp} (h : ReadRule c l op c' ops) :
    c'.events = c.events ∨ op.isClosing = false ∧ ∃ e, c'.events = c.events ++ [e] := by
  cases h
  case headerClosed => exact Or.inr ⟨rfl, _, rfl⟩
  case headerEmpty => exact Or.inr ⟨rfl, _, rfl⟩
  case bodyClosed => exact Or.inr ⟨rfl, _, rfl⟩
  case bodyMessage => exact Or.inr ⟨rfl, _, rfl⟩
  all_goals exact Or.inl rfl

/-- A step that leaves a chain before its close event adds no close event. -/
lemma ReadRule.noClose {c c' : AsyncTcpClient} {l : ReadLabel} {op op' : ReadOp}
    {ops : List ReadOp} (h : ReadRule c l op c' ops) (hop' : op' ∈ ops)
    (hgo : op'.isClosing = false) :
    op.isClosing = false ∧ (NoClose c.events → NoClose c'.events) := by
  have hadd : ∀ e : Event, e.isConnectionClosed = false → NoClose c.events →
      NoClose (c.events ++ [e]) := by
    intro e he hno d hd
    rcases List.mem_append.mp hd with hd | hd
    · exact hno d hd
    · rwa [List.mem_singleton.mp hd]
  cases h
  case headerClosed => simp_all [ReadOp.isClosing]
  case headerEmpty => exact ⟨rfl, hadd _ rfl⟩
  case bodyClosed => simp_all [ReadOp.isClosing]
  case bodyMessage => exact ⟨rfl, hadd _ rfl⟩
  case closeReturned => simp at hop'
  all_goals exact ⟨rfl, id⟩

/-- A chain that does not end goes on with one operation, and raises the close event it comes
to. -/
lemma ReadRule.goes_on {c c' : AsyncTcpClient} {l : ReadLabel} {op : ReadOp} {ops : List ReadOp}
    (h : ReadRule c l op c' ops) (hresume : l = .resume → c.startRead ≠ [])
    (hreturn : l ≠ .closeReturned) :
    op.isClosing = false ∧ ∃ op', ops = [op'] ∧
      (op'.isClosing = true → ∃ err, op' = .raisingConnectionClosed err ∧
        .connectionClosed err ∈ c'.events) := by
  have hstart : c.startRead ≠ [] → c.startRead = [.receivingHeader] := by
    rw [startRead]
    split_ifs
    · exact fun hne => absurd rfl hne
    · exact fun _ => rfl
  cases h
  case headerClosed e _ _ => exact ⟨rfl, _, rfl, fun _ => ⟨e, rfl, by simp⟩⟩
  case bodyClosed e _ _ => exact ⟨rfl, _, rfl, fun _ => ⟨e, rfl, by simp⟩⟩
  case messageHandled => exact ⟨rfl, _, hstart (hresume rfl), fun h => by cases h⟩
  case emptyAnswered => exact ⟨rfl, _, hstart (hresume rfl), fun h => by cases h⟩
  case closeReturned => exact absurd rfl hreturn
  all_goals exact ⟨rfl, _, rfl, fun h => by cases h⟩

lemma OneChain.read {c c' : AsyncTcpClient} {i : ℕ} {l : ReadLabel} (hc : OneChain c)
    (h : c.step (.read i l) = some c') : OneChain c' := by
  obtain ⟨op, c₁, ops, hreads, hrule, rfl⟩ := ReadRule.of_step hc.length_le h
  have hmem : op ∈ c.reads := by simp [hreads]
  refine ⟨hrule.length_le, fun hopen hrun => ?_, fun op' hop' hgo => ?_, ?_⟩
  · -- a chain exists, so the client is not one that is open but not running
    have hfresh := hc.fresh (hrule.flags_eq.2 ▸ hopen) (hrule.flags_eq.1 ▸ hrun)
    simp [hfresh.reads] at hreads
  · obtain ⟨hop, hkeep⟩ := hrule.noClose hop' hgo
    exact hkeep (hc.noClose op hmem hop)
  · rcases hrule.events_eq with hev | ⟨hop, e, hev⟩
    · simpa only [hev] using hc.closeLast
    · simpa only [hev, List.dropLast_concat] using hc.noClose op hmem hop

lemma Fresh.of_keeps {c c' : AsyncTcpClient} (hc : Fresh c) (h : Keeps c c')
    (hreads : c'.reads = c.reads) : Fresh c' :=
  ⟨hreads.trans hc.reads, h.events.trans hc.events, h.buffer.trans hc.buffer,
    h.received.trans hc.received⟩

lemma OneChain.outer {c c' : AsyncTcpClient} {a : Label} (hc : OneChain c)
    (h : OuterRule c a c') : OneChain c' := by
  cases h with
  | quiet hkeep hreads hrun hopen hstop =>
    refine ⟨hreads ▸ hc.length_le, fun ho hr => ?_, ?_, ?_⟩
    · exact (hc.fresh (hopen ▸ ho) (hrun ▸ hr)).of_keeps hkeep hreads
    · simpa only [hreads, hkeep.events] using hc.noClose
    · simpa only [hkeep.events] using hc.closeLast
  | started hkeep hreads hrun hopen hrun' hopen' hstop =>
    have hfresh := hc.fresh hopen hrun
    refine ⟨?_, fun _ hr => ?_, ?_, ?_⟩
    · simp [hreads, hfresh.reads]
    · simp [hrun'] at hr
    · simp [hkeep.events, hfresh.events, NoClose]
    · simp [hkeep.events, hfresh.events, NoClose]
  | restarted hkeep hreads hrun hopen hrun' hopen' hstop =>
    refine ⟨hreads ▸ hc.length_le, fun _ hr => ?_, ?_, ?_⟩
    · simp [hrun'] at hr
    · simpa only [hreads, hkeep.events] using hc.noClose
    · simpa only [hkeep.events] using hc.closeLast
  | stopped hkeep hreads hstop hrun hrun' hopen' =>
    refine ⟨hreads ▸ hc.length_le, fun ho _ => ?_, ?_, ?_⟩
    · simp [hopen'] at ho
    · simpa only [hreads, hkeep.events] using hc.noClose
    · simpa only [hkeep.events] using hc.closeLast

/-- Every step keeps the invariant. -/
lemma OneChain.step {c c' : AsyncTcpClient} {a : Label} (hc : OneChain c)
    (h : c.step a = some c') : OneChain c' := by
  by_cases ha : ∃ i l, a = .read i l
  · obtain ⟨i, l, rfl⟩ := ha
    exact hc.read h
  · exact hc.outer (.of_step (fun i l hil => ha ⟨i, l, hil⟩) h)

/-- Events are only added. -/
lemma OneChain.events_prefix {c c' : AsyncTcpClient} {a : Label} (hc : OneChain c)
    (h : c.step a = some c') : c.events <+: c'.events := by
  by_cases ha : ∃ i l, a = .read i l
  · obtain ⟨i, l, rfl⟩ := ha
    obtain ⟨op, c₁, ops, -, hrule, rfl⟩ := ReadRule.of_step hc.length_le h
    rcases hrule.events_eq with hev | ⟨-, e, hev⟩
    · exact hev ▸ List.prefix_rfl
    · exact hev ▸ List.prefix_append _ _
  · have hkeep : Keeps c c' := by
      cases OuterRule.of_step (fun i l hil => ha ⟨i, l, hil⟩) h <;> assumption
    exact hkeep.events ▸ List.prefix_rfl

/-! ### Runs -/

lemma fresh_init (isOpen : Bool) (incoming : List UInt8) : Fresh (init isOpen incoming) :=
  ⟨rfl, rfl, rfl, rfl⟩

lemma Fresh.oneChain {c : AsyncTcpClient} (hc : Fresh c) : OneChain c :=
  ⟨by simp [hc.reads], fun _ _ => hc, by simp [hc.reads], by simp [hc.events, NoClose]⟩

lemma oneChain_connected (stream : List UInt8) : OneChain (connected stream) :=
  (fresh_init true stream).oneChain.step (a := .start) rfl

/-- The invariant holds along every run. -/
theorem OneChain.run {c c' : AsyncTcpClient} {ls : List Label} (hc : OneChain c)
    (h : c.run ls = some c') : OneChain c' :=
  Core.run_invariant (I := OneChain) (fun _ _ _ hs hstep => hs.step hstep) hc h

/-- Events whose last one at most is a close event hold at most one close event. -/
lemma NoClose.count_le {evs : List Event} (h : NoClose evs.dropLast) :
    (evs.filter Event.isConnectionClosed).length ≤ 1 := by
  rcases List.eq_nil_or_concat evs with rfl | ⟨ds, e, rfl⟩
  · simp
  · simp only [List.concat_eq_append, List.dropLast_concat] at h
    have hds : ds.filter Event.isConnectionClosed = [] :=
      List.filter_eq_nil_iff.mpr fun d hd => by simp [h d hd]
    simp only [List.concat_eq_append, List.filter_append, hds, List.nil_append]
    exact List.length_filter_le _ [e]

/-- No event follows a close event. -/
lemma NoClose.eq_nil_of_append {evs rest : List Event} {err : ErrorCode}
    (h : NoClose (evs ++ .connectionClosed err :: rest).dropLast) : rest = [] := by
  by_contra hne
  have hmem : Event.connectionClosed err ∈ (evs ++ .connectionClosed err :: rest).dropLast := by
    rw [List.dropLast_append_of_ne_nil (by simp), List.dropLast_cons_of_ne_nil hne]
    simp
  simpa [Event.isConnectionClosed] using h _ hmem

/-- Whatever is called and whatever completes, at most one read operation is outstanding,
`ConnectionClosed` is raised at most once, and no `MessageRecieved` after it. -/
theorem one_chain_one_close {isOpen : Bool} {incoming : List UInt8} {ls : List Label}
    {c : AsyncTcpClient} (h : (init isOpen incoming).run ls = some c) :
    (c.reads.filter ReadOp.isOutstanding).length ≤ 1 ∧
      (c.events.filter Event.isConnectionClosed).length ≤ 1 ∧
      ∀ evs err rest, c.events = evs ++ .connectionClosed err :: rest →
        ∀ message, .messageRecieved message ∉ rest := by
  have hc : OneChain c := (fresh_init isOpen incoming).oneChain.run h
  refine ⟨?_, NoClose.count_le hc.closeLast, fun evs err rest hev message hmem => ?_⟩
  · exact (List.length_filter_le _ _).trans hc.length_le
  · obtain rfl : rest = [] := NoClose.eq_nil_of_append (hev ▸ hc.closeLast)
    simp at hmem

/-- A message handler that stops and restarts its client, seen from the start of the client. -/
theorem one_chain_one_close_restarted :
    ∃ c, (init true [0, 0, 0, 0, 1, 0, 0, 0, 65]).run
        [.start, .arrive 9, .read 0 (.receiveSome 8), .read 0 .headerHandler,
          .read 0 (.readSome 1), .read 0 .bodyHandler, .stop, .start, .read 0 .resume] = some c ∧
      (c.reads.filter ReadOp.isOutstanding).length ≤ 1 ∧
      (c.events.filter Event.isConnectionClosed).length ≤ 1 ∧
      ∀ evs err rest, c.events = evs ++ .connectionClosed err :: rest →
        ∀ message, .messageRecieved message ∉ rest :=
  ⟨_, rfl, @one_chain_one_close true [0, 0, 0, 0, 1, 0, 0, 0, 65]
    [.start, .arrive 9, .read 0 (.receiveSome 8), .read 0 .headerHandler,
      .read 0 (.readSome 1), .read 0 .bodyHandler, .stop, .start, .read 0 .resume] _ rfl⟩

end AsyncTcpClient

end EzServer.Net
