import EzServer.Net.ReadFraming

/-!
# When every request is delivered

On a stream of whole requests, with no socket error and no `Stop`, the read loop delivers every
request exactly when the socket hands it the frames in whole reads: `async_receive` fills the
header at once, and no read of a body takes bytes of the next frame. `async_receive` does not wait
for the rest of a header, and `transfer_at_least` does not stop at the end of a body.
-/

namespace EzServer.Net

open EzServer.Core Core.Framing

/-- The messages among the events. -/
def messages (evs : List Event) : List (List UInt8) :=
  evs.filterMap fun
    | .messageRecieved message => some message
    | _ => none

/-- The bodies of the non-empty requests. -/
def bodies (fs : List RequestFrame) : List (List UInt8) :=
  (fs.map (·.body)).filter (· ≠ [])

/-- A step that takes bytes to the client or runs its read chain. -/
def Label.isReadStep : Label → Bool
  | .arrive _ | .read _ _ => true
  | _ => false

/-- How far a link is from the end of its chain. -/
def ReadOp.rank : ReadOp → ℕ
  | .headerReceived none _ => 7
  | .readingBody _ _ => 6
  | .bodyRead _ none _ => 5
  | .raisingMessageRecieved | .respondedEmpty => 4
  | .receivingHeader => 3
  | .headerReceived (some _) _ | .bodyRead _ (some _) _ => 2
  | .raisingConnectionClosed _ => 1

namespace AsyncTcpClient

/-- No socket error, only the end of the stream once it has been read, and no `Stop`. -/
def quiet (c : AsyncTcpClient) : Label → Bool
  | .stop => false
  | .handleWrite i => !c.callsStop (.handleWrite i)
  | .send _ err => err.isNone
  | .read _ (.receiveFail err) | .read _ (.readFail err) =>
    err == .eof && c.available.isEmpty && c.incoming.isEmpty
  | _ => true

/-- A header is received at once, and a body is not read beyond its end. -/
def wholeRead (c : AsyncTcpClient) : Label → Bool
  | .read _ (.receiveSome n) => n == 8
  | .read i (.readSome n) =>
    match c.reads[i]? with
    | some (.readingBody length t) => t + n ≤ length.toNat
    | _ => true
  | _ => true

/-- The run delivers the bodies of the non-empty requests in order, and does not raise
`ConnectionClosed` before the end of the stream. -/
def Delivers (fs : List RequestFrame) (ls : List Label) (c : AsyncTcpClient) : Prop :=
  messages c.events = bodies fs ∧
    EveryState step (fun d => NoClose d.events ∨ d.received = encodeAll fs)
      (connected (encodeAll fs)) ls

/-! ### Messages and bodies -/

@[simp] lemma messages_append (evs evs' : List Event) :
    messages (evs ++ evs') = messages evs ++ messages evs' := List.filterMap_append ..

@[simp] lemma messages_closed (err : ErrorCode) : messages [.connectionClosed err] = [] := rfl

lemma bodies_append (fs gs : List RequestFrame) : bodies (fs ++ gs) = bodies fs ++ bodies gs := by
  simp [bodies]

lemma messages_deliveries (evs : List Event) : messages (deliveries evs) = messages evs := by
  simp only [messages, deliveries, List.filterMap_filter]
  congr 1
  funext e
  cases e <;> rfl

lemma messages_requestEvent (fs : List RequestFrame) :
    messages (fs.map requestEvent) = bodies fs := by
  induction fs with
  | nil => rfl
  | cons f fs ih =>
    simp only [messages, bodies, List.map_cons] at ih ⊢
    by_cases hbody : f.body = [] <;> simp [requestEvent, hbody, ih]

lemma Answered.messages {c : AsyncTcpClient} {fs : List RequestFrame} (hc : Answered c fs) :
    messages c.events = bodies fs := by
  rw [← messages_deliveries, hc.deliveries, messages_requestEvent]

/-! ### Quiet steps -/

lemma quiet.callsStop {c : AsyncTcpClient} {a : Label} (h : c.quiet a = true) :
    c.callsStop a = false := by
  cases a with
  | stop => simp [quiet] at h
  | handleWrite i => simpa [quiet] using h
  | _ => rfl

/-- A quiet step outside of the chain of a running client changes nothing the chain sees. -/
lemma OuterRule.of_quiet {c c' : AsyncTcpClient} {a : Label} (h : OuterRule c a c')
    (hquiet : c.quiet a = true) (hrun : c.isRunning = true) :
    Keeps c c' ∧ c'.reads = c.reads ∧ c'.isRunning = true ∧ c'.isOpen = c.isOpen := by
  cases h with
  | quiet hkeep hreads hr hopen => exact ⟨hkeep, hreads, hr.trans hrun, hopen⟩
  | started _ _ hr => simp [hrun] at hr
  | restarted _ _ hr => simp [hrun] at hr
  | stopped _ _ hstop => simp [quiet.callsStop hquiet] at hstop

/-- The invariant of the quiet runs: the client stays running and open. -/
structure Live (stream : List UInt8) (c : AsyncTcpClient) : Prop where
  framed : Framed stream c
  running : c.isRunning = true
  isOpen : c.isOpen = true

lemma Live.step {stream : List UInt8} {c c' : AsyncTcpClient} {a : Label} (hc : Live stream c)
    (hquiet : c.quiet a = true) (h : c.step a = some c') : Live stream c' := by
  have hframed := hc.framed.step h
  by_cases ha : ∃ i l, a = .read i l
  · obtain ⟨i, l, rfl⟩ := ha
    obtain ⟨op, c₁, ops, -, hrule, rfl⟩ := ReadRule.of_step hc.framed.chain.length_le h
    exact ⟨hframed, hrule.flags_eq.1.trans hc.running, hrule.flags_eq.2.trans hc.isOpen⟩
  · have houter : OuterRule c a c' := .of_step (fun i l hil => ha ⟨i, l, hil⟩) h
    obtain ⟨-, -, hrun, hopen⟩ := houter.of_quiet hquiet hc.running
    exact ⟨hframed, hrun, hopen.trans hc.isOpen⟩

lemma exhausted_of_quiet {c : AsyncTcpClient} {stream : List UInt8} (hc : Framed stream c)
    (havail : c.available = []) (hincoming : c.incoming = []) : c.received = stream := by
  simpa [havail, hincoming] using hc.stream

/-! ### Whole reads -/

/-- Every request has been delivered and the stream has been read to its end. -/
structure Finished (fs : List RequestFrame) (c : AsyncTcpClient) : Prop where
  messages : messages c.events = bodies fs
  received : c.received = encodeAll fs

/-- What whole reads make of a link of the chain. -/
def OnTrack (fs : List RequestFrame) (c : AsyncTcpClient) : ReadOp → Prop
  | .headerReceived none n => n = 8
  | .headerReceived (some _) _ | .raisingConnectionClosed _ => Finished fs c
  | .readingBody length t => t < length.toNat
  | .bodyRead length none t => t = length.toNat
  | .bodyRead _ (some _) _ => False
  | .receivingHeader | .raisingMessageRecieved | .respondedEmpty => True

/-- The invariant of the runs with whole reads. -/
structure Whole (fs : List RequestFrame) (c : AsyncTcpClient) : Prop
    extends Live (encodeAll fs) c where
  onTrack : ∀ op ∈ c.reads, OnTrack fs c op
  ended : c.reads = [] → Finished fs c

/-- At a frame boundary with nothing left to read, every request has been answered. -/
lemma Answered.finished {fs gs : List RequestFrame} {c : AsyncTcpClient}
    (hgs : Answered c gs) (hpart : c.received = encodeAll gs)
    (hend : c.received = encodeAll fs) : Finished fs c := by
  obtain rfl : gs = fs := encodeAll_injective (hpart.symm.trans hend)
  exact ⟨hgs.messages, hend⟩

/-- A stream of whole requests does not end inside a body. -/
lemma length_le_of_body {fs gs : List RequestFrame} {header buffer : List UInt8}
    (hlen : header.length = 8) (h : encodeAll gs ++ (header ++ buffer) = encodeAll fs) :
    littleEndianLength header ≤ buffer.length := by
  have hne : header ++ buffer ≠ [] := by
    intro hnil
    simp [(List.append_eq_nil_iff.mp hnil).1] at hlen
  have hend : encodeAll gs ++ (header ++ buffer) ++ [] = encodeAll fs := by simpa using h
  obtain ⟨f, rest, -, hf⟩ := exists_next_frame hend hne
  rw [List.append_nil, Frame.encode, List.append_assoc] at hf
  obtain ⟨rfl, rfl⟩ := List.append_inj hf (hlen.trans f.header_length.symm)
  have hbody : f.body.length = littleEndianLength f.header := f.body_length
  simp only [List.length_append]
  omega

/-- What becomes of a link that is on track, under a quiet step that is a whole read. -/
lemma ReadRule.onTrack {fs : List RequestFrame} {c c' : AsyncTcpClient} {l : ReadLabel}
    {op : ReadOp} {ops : List ReadOp} (h : ReadRule c l op c' ops) (hc : Whole fs c)
    (hreads : c.reads = [op]) (hquiet : c.quiet (.read 0 l) = true)
    (hwhole : c.wholeRead (.read 0 l) = true) :
    (∀ op' ∈ ops, OnTrack fs c' op') ∧ (ops = [] → Finished fs c') := by
  have htrack : OnTrack fs c op := hc.onTrack op (by simp [hreads])
  obtain ⟨gs, hgs⟩ := hc.framed.answered
  obtain ⟨part, hpart, hstands⟩ := hgs.received
  replace hstands : c.Stands part op := hstands op (by simp [hreads])
  have hlive : c.startRead = [.receivingHeader] := by simp [startRead, hc.running, hc.isOpen]
  cases h with
  | @receiveSome n hopen hpos hle hn =>
    have hn8 : n = 8 := by simpa [wholeRead] using hwhole
    simp [OnTrack, hn8]
  | receiveFail err =>
    simp only [quiet, Bool.and_eq_true, List.isEmpty_iff] at hquiet
    obtain ⟨rfl, -⟩ := hstands
    have hend := exhausted_of_quiet hc.framed hquiet.1.2 hquiet.2
    have hfin : Finished fs c := hgs.finished (by simpa using hpart) hend
    simp [OnTrack, hfin]
  | readMore hopen hpos hn hlt => simp [OnTrack, hlt]
  | readEnough hopen hpos hn hge =>
    simp only [wholeRead, hreads, List.getElem?_cons_zero, decide_eq_true_eq] at hwhole
    simp [OnTrack, le_antisymm hwhole hge]
  | readFail err =>
    -- the stream would end inside a body
    simp only [quiet, Bool.and_eq_true, List.isEmpty_iff] at hquiet
    obtain ⟨header, rfl, hlen, -, hval, hbuf⟩ := hstands
    have hend := exhausted_of_quiet hc.framed hquiet.1.2 hquiet.2
    have hle := length_le_of_body hlen (hpart.symm.trans hend)
    simp only [OnTrack] at htrack
    omega
  | @headerClosed err rec e hfree hbad =>
    cases err with
    | none => simp_all [OnTrack]
    | some _ =>
      have hfin : Finished fs c := htrack
      refine ⟨fun op' hop' => ?_, by simp⟩
      obtain rfl := List.mem_singleton.mp hop'
      exact ⟨by simpa using hfin.messages, hfin.received⟩
  | headerEmpty hfree hlen => simp [OnTrack]
  | headerBody hfree hlen =>
    have hpos : 0 < (msgLength c.headerBuffer).toNat :=
      Nat.pos_of_ne_zero fun hzero => hlen (UInt32.toNat.inj hzero)
    simp [OnTrack, hpos]
  | @bodyClosed length err rec e hfree hbad => cases err <;> simp_all [OnTrack]
  | bodyMessage hfree => simp [OnTrack]
  | messageHandled => simp [hlive, OnTrack]
  | emptyAnswered => simp [hlive, OnTrack]
  | closeReturned err =>
    have hfin : Finished fs c := htrack
    simp [hfin]

lemma Finished.congr {fs : List RequestFrame} {c c' : AsyncTcpClient} (hc : Finished fs c)
    (hevents : c'.events = c.events) (hreceived : c'.received = c.received) : Finished fs c' :=
  ⟨hevents ▸ hc.messages, hreceived ▸ hc.received⟩

lemma OnTrack.congr {fs : List RequestFrame} {c c' : AsyncTcpClient} {op : ReadOp}
    (hop : OnTrack fs c op) (hevents : c'.events = c.events)
    (hreceived : c'.received = c.received) : OnTrack fs c' op := by
  unfold OnTrack at hop ⊢
  split <;> first | exact hop | exact Finished.congr hop hevents hreceived

/-- Quiet steps with whole reads keep the invariant. -/
lemma Whole.step {fs : List RequestFrame} {c c' : AsyncTcpClient} {a : Label} (hc : Whole fs c)
    (hquiet : c.quiet a = true) (hwhole : c.wholeRead a = true) (h : c.step a = some c') :
    Whole fs c' := by
  have hlive := hc.toLive.step hquiet h
  by_cases ha : ∃ i l, a = .read i l
  · obtain ⟨i, l, rfl⟩ := ha
    obtain rfl := index_eq_zero_of_step hc.framed.chain.length_le h
    obtain ⟨op, c₁, ops, hreads, hrule, rfl⟩ := ReadRule.of_step hc.framed.chain.length_le h
    obtain ⟨htrack, hended⟩ := hrule.onTrack hc hreads hquiet hwhole
    exact ⟨hlive, fun op' hop' => (htrack op' hop').congr rfl rfl,
      fun hnil => (hended hnil).congr rfl rfl⟩
  · have houter : OuterRule c a c' := .of_step (fun i l hil => ha ⟨i, l, hil⟩) h
    obtain ⟨hkeep, hreads, -, -⟩ := houter.of_quiet hquiet hc.running
    exact ⟨hlive, fun op hop => (hc.onTrack op (hreads ▸ hop)).congr hkeep.events hkeep.received,
      fun hnil => (hc.ended (hreads ▸ hnil)).congr hkeep.events hkeep.received⟩

/-! ### Split and overlong reads -/

/-- A completion that its handler answers with `message_size`. -/
def Derailed : ReadOp → Prop
  | .headerReceived none n => n ≠ 8
  | .bodyRead length none t => t ≠ length.toNat
  | _ => False

/-- The latch of the runs with a read that is not whole. -/
structure Doomed (fs : List RequestFrame) (c : AsyncTcpClient) : Prop where
  chain : OneChain c
  running : c.isRunning = true
  off : messages c.events ≠ bodies fs ∨ c.received ≠ encodeAll fs
  stuck : (∃ op, c.reads = [op] ∧ Derailed op) ∨
    (¬ NoClose c.events ∧ ∀ op ∈ c.reads, op.isClosing = true)

/-- A part of a header is not a whole number of frames. -/
lemma received_ne_of_split {fs gs : List RequestFrame} {part : List UInt8} (hpos : part ≠ [])
    (hlt : part.length < 8) : encodeAll gs ++ part ≠ encodeAll fs := by
  intro h
  have hend : encodeAll gs ++ part ++ [] = encodeAll fs := by simpa using h
  obtain ⟨f, rest, -, hf⟩ := exists_next_frame hend hpos
  have hlen := congrArg List.length hf
  have hsize : requestFraming.headerSize = 8 := rfl
  simp only [List.append_nil, List.length_append, Frame.length_encode, hsize] at hlen
  omega

/-- Inside the body of a request, the deliveries so far leave that request out. -/
lemma bodies_ne_of_body {fs gs : List RequestFrame} {header buffer tail : List UInt8}
    (hlen : header.length = 8) (hpos : littleEndianLength header ≠ 0)
    (h : encodeAll gs ++ (header ++ buffer) ++ tail = encodeAll fs) : bodies gs ≠ bodies fs := by
  have hne : header ++ buffer ≠ [] := by
    intro hnil
    simp [(List.append_eq_nil_iff.mp hnil).1] at hlen
  obtain ⟨f, rest, rfl, hf⟩ := exists_next_frame h hne
  rw [Frame.encode, List.append_assoc, List.append_assoc] at hf
  obtain ⟨rfl, -⟩ := List.append_inj hf (hlen.trans f.header_length.symm)
  have hbody : f.body ≠ [] := by
    intro hnil
    have hlength : f.body.length = littleEndianLength f.header := f.body_length
    apply hpos
    rw [← hlength, hnil]
    rfl
  intro heq
  have hcount := congrArg List.length heq
  rw [bodies_append, List.length_append] at hcount
  have hone : 0 < (bodies (f :: rest)).length := by simp [bodies, hbody]
  omega

/-- A quiet read that is not whole derails the chain. -/
lemma Whole.derail {fs : List RequestFrame} {c c' : AsyncTcpClient} {a : Label} (hc : Whole fs c)
    (hwhole : ¬ c.wholeRead a = true) (h : c.step a = some c') : Doomed fs c' := by
  obtain ⟨i, l, rfl⟩ : ∃ i l, a = .read i l := by
    cases a with
    | read i l => exact ⟨i, l, rfl⟩
    | _ => simp [wholeRead] at hwhole
  obtain rfl := index_eq_zero_of_step hc.framed.chain.length_le h
  have hchain := hc.framed.chain.step h
  obtain ⟨op, c₁, ops, hreads, hrule, rfl⟩ := ReadRule.of_step hc.framed.chain.length_le h
  have hrun := hrule.flags_eq.1.trans hc.running
  obtain ⟨gs, hgs⟩ := hc.framed.answered
  cases hrule with
  | @receiveSome n hopen hpos hle hn =>
    obtain ⟨part, hpart, hstands⟩ := hgs.received
    obtain ⟨rfl, -⟩ := hstands .receivingHeader (by simp [hreads])
    have hn8 : n ≠ 8 := by simpa [wholeRead] using hwhole
    have htake : (c.available.take n).length = n := List.length_take_of_le hn
    refine ⟨hchain, hrun, Or.inr ?_, Or.inl ⟨_, rfl, hn8⟩⟩
    simp only [takeBytes, hpart, List.append_nil]
    apply received_ne_of_split (List.ne_nil_of_length_pos (by omega))
    omega
  | @readMore n t length hopen hpos hn hlt =>
    simp only [wholeRead, hreads, List.getElem?_cons_zero, decide_eq_true_eq] at hwhole
    omega
  | @readEnough n t length hopen hpos hn hge =>
    simp only [wholeRead, hreads, List.getElem?_cons_zero, decide_eq_true_eq] at hwhole
    obtain ⟨part, header, hrec, rfl, hlen, hne, hval, -⟩ := hgs.readSome hreads hn
    refine ⟨hchain, hrun, Or.inl ?_, Or.inl ⟨_, rfl, fun heq => hwhole heq.le⟩⟩
    change messages c.events ≠ bodies fs
    rw [hgs.messages]
    have hstream : encodeAll gs ++ (header ++ (c.buffer ++ c.available.take n)) ++
        (c.available.drop n ++ c.incoming) = encodeAll fs := by
      rw [← hrec, ← hc.framed.stream]
      simp only [takeBytes, List.append_assoc, List.append_cancel_left_eq]
      rw [← List.append_assoc, List.take_append_drop]
    refine bodies_ne_of_body hlen ?_ hstream
    rw [hval]
    exact fun hzero => hne (UInt32.toNat.inj hzero)
  | receiveFail => simp [wholeRead] at hwhole
  | readFail => simp [wholeRead] at hwhole
  | headerClosed => simp [wholeRead] at hwhole
  | headerEmpty => simp [wholeRead] at hwhole
  | headerBody => simp [wholeRead] at hwhole
  | bodyClosed => simp [wholeRead] at hwhole
  | bodyMessage => simp [wholeRead] at hwhole
  | messageHandled => simp [wholeRead] at hwhole
  | emptyAnswered => simp [wholeRead] at hwhole
  | closeReturned => simp [wholeRead] at hwhole

lemma not_noClose_append {evs : List Event} (e : ErrorCode) :
    ¬ NoClose (evs ++ [.connectionClosed e]) := fun h => by
  simpa [Event.isConnectionClosed] using h (.connectionClosed e) (by simp)

/-- A derailed chain goes to its close event without another read or message. -/
lemma Doomed.step {fs : List RequestFrame} {c c' : AsyncTcpClient} {a : Label}
    (hc : Doomed fs c) (hquiet : c.quiet a = true) (h : c.step a = some c') : Doomed fs c' := by
  have hchain := hc.chain.step h
  by_cases ha : ∃ i l, a = .read i l
  · obtain ⟨i, l, rfl⟩ := ha
    obtain ⟨op, c₁, ops, hreads, hrule, rfl⟩ := ReadRule.of_step hc.chain.length_le h
    have hrun := hrule.flags_eq.1.trans hc.running
    have hlink : Derailed op ∨ (¬ NoClose c.events ∧ op.isClosing = true) := by
      rcases hc.stuck with ⟨op', hop', hd⟩ | ⟨hno, hall⟩
      · obtain rfl : op = op' := by simpa [hreads] using hop'
        exact Or.inl hd
      · exact Or.inr ⟨hno, hall op (by simp [hreads])⟩
    cases hrule with
    | headerClosed e hfree hbad =>
      refine ⟨hchain, hrun, by simpa using hc.off, Or.inr ⟨not_noClose_append e, ?_⟩⟩
      simp [ReadOp.isClosing]
    | bodyClosed e hfree hbad =>
      refine ⟨hchain, hrun, by simpa using hc.off, Or.inr ⟨not_noClose_append e, ?_⟩⟩
      simp [ReadOp.isClosing]
    | closeReturned err =>
      refine ⟨hchain, hrun, hc.off, Or.inr ⟨?_, by simp⟩⟩
      exact hlink.resolve_left (by simp [Derailed]) |>.1
    | receiveSome => simp [Derailed, ReadOp.isClosing] at hlink
    | receiveFail => simp [Derailed, ReadOp.isClosing] at hlink
    | readMore => simp [Derailed, ReadOp.isClosing] at hlink
    | readEnough => simp [Derailed, ReadOp.isClosing] at hlink
    | readFail => simp [Derailed, ReadOp.isClosing] at hlink
    | headerEmpty => simp [Derailed, ReadOp.isClosing] at hlink
    | headerBody => simp [Derailed, ReadOp.isClosing] at hlink
    | bodyMessage => simp [Derailed, ReadOp.isClosing] at hlink
    | messageHandled => simp [Derailed, ReadOp.isClosing] at hlink
    | emptyAnswered => simp [Derailed, ReadOp.isClosing] at hlink
  · have houter : OuterRule c a c' := .of_step (fun i l hil => ha ⟨i, l, hil⟩) h
    obtain ⟨hkeep, hreads, hrun, -⟩ := houter.of_quiet hquiet hc.running
    refine ⟨hchain, hrun, ?_, ?_⟩
    · rw [hkeep.events, hkeep.received]
      exact hc.off
    · rw [hkeep.events, hreads]
      exact hc.stuck

/-! ### Every run comes to an end -/

/-- A bound on the steps that are left: every byte pays for the links it leads to. -/
def rank (c : AsyncTcpClient) : ℕ :=
  6 * c.incoming.length + 5 * c.available.length + (c.reads.map ReadOp.rank).sum

lemma ReadRule.rank_lt {c c' : AsyncTcpClient} {l : ReadLabel} {op : ReadOp} {ops : List ReadOp}
    (h : ReadRule c l op c' ops) :
    c'.incoming = c.incoming ∧
      5 * c'.available.length + (ops.map ReadOp.rank).sum + 1 ≤
        5 * c.available.length + op.rank := by
  have hstart : (c.startRead.map ReadOp.rank).sum ≤ 3 := by
    rw [startRead]
    split_ifs <;> simp [ReadOp.rank]
  cases h with
  | receiveSome hopen hpos hle hn =>
    refine ⟨rfl, ?_⟩
    simp only [takeBytes, List.length_drop, ReadOp.rank, List.map_cons, List.map_nil,
      List.sum_cons, List.sum_nil]
    omega
  | readMore hopen hpos hn hlt =>
    refine ⟨rfl, ?_⟩
    simp only [takeBytes, List.length_drop, ReadOp.rank, List.map_cons, List.map_nil,
      List.sum_cons, List.sum_nil]
    omega
  | readEnough hopen hpos hn hge =>
    refine ⟨rfl, ?_⟩
    simp only [takeBytes, List.length_drop, ReadOp.rank, List.map_cons, List.map_nil,
      List.sum_cons, List.sum_nil]
    omega
  | @headerClosed err => exact ⟨rfl, by cases err <;> simp [ReadOp.rank]⟩
  | @bodyClosed _ err => exact ⟨rfl, by cases err <;> simp [ReadOp.rank]⟩
  | messageHandled => exact ⟨rfl, by simp only [ReadOp.rank]; omega⟩
  | emptyAnswered => exact ⟨rfl, by simp only [ReadOp.rank]; omega⟩
  | headerEmpty => exact ⟨rfl, by simp [ReadOp.rank, respond, asyncSend]⟩
  | _ => exact ⟨rfl, by simp [ReadOp.rank]⟩

lemma Live.rank_step {stream : List UInt8} {c c' : AsyncTcpClient} {a : Label}
    (hc : Live stream c) (hquiet : c.quiet a = true)
    (h : c.step a = some c') : (if a.isReadStep then 1 else 0) + c'.rank ≤ c.rank := by
  by_cases ha : ∃ i l, a = .read i l
  · obtain ⟨i, l, rfl⟩ := ha
    obtain ⟨op, c₁, ops, hreads, hrule, rfl⟩ := ReadRule.of_step hc.framed.chain.length_le h
    obtain ⟨hin, hlt⟩ := hrule.rank_lt
    simp only [rank, hreads, hin, Label.isReadStep, if_true, List.map_cons, List.map_nil,
      List.sum_cons, List.sum_nil]
    omega
  · have houter : OuterRule c a c' := .of_step (fun i l hil => ha ⟨i, l, hil⟩) h
    obtain ⟨hkeep, hreads, -⟩ := houter.of_quiet hquiet hc.running
    have hlen := congrArg List.length hkeep.stream
    have hin := hkeep.incoming.length_le
    simp only [List.length_append] at hlen
    have hkept : c'.rank + (c.incoming.length - c'.incoming.length) = c.rank := by
      simp only [rank, hreads]
      omega
    cases a with
    | arrive n =>
      simp only [AsyncTcpClient.step] at h
      split_ifs at h with hn
      obtain rfl := Option.some.inj h
      simp only [List.length_drop] at hkept
      simp only [Label.isReadStep, if_true]
      omega
    | read i l => exact absurd ⟨i, l, rfl⟩ ha
    | _ => simp only [Label.isReadStep, Bool.false_eq_true, if_false]; omega

/-- A lone chain whose handlers are not running leaves the strand free. -/
lemma strandFree_of_reads {c : AsyncTcpClient} {op : ReadOp} (hreads : c.reads = [op])
    (hop : op.isOutstanding = true) : c.strandFree = true := by
  cases op <;> simp_all [strandFree, ReadOp.isOutstanding]

lemma isSome_step_read {c c' : AsyncTcpClient} {l : ReadLabel} {op : ReadOp} {ops : List ReadOp}
    (hreads : c.reads = [op]) (h : c.stepRead l op = some (c', ops)) :
    (c.step (.read 0 l)).isSome = true := by
  simp [AsyncTcpClient.step, hreads, h]

/-- As long as the chain has not ended, some read step is possible without an error. -/
lemma OneChain.progress {c : AsyncTcpClient} (hc : OneChain c)
    (hopen : c.isOpen = true) (hne : c.reads ≠ []) :
    ∃ a, a.isReadStep = true ∧ c.quiet a = true ∧ (c.step a).isSome = true := by
  obtain ⟨op, hreads⟩ := List.length_eq_one_iff.mp
    (le_antisymm hc.length_le (List.length_pos_iff.mpr hne))
  -- bytes are there, or arrive, or the stream is at its end
  have hsocket : 1 ≤ c.available.length ∨
      (∃ a, a.isReadStep = true ∧ c.quiet a = true ∧ (c.step a).isSome = true) ∨
      (c.available = [] ∧ c.incoming = []) := by
    cases havail : c.available with
    | cons b bs => exact Or.inl (by simp)
    | nil =>
      cases hin : c.incoming with
      | cons b bs => exact Or.inr (Or.inl ⟨.arrive 1, rfl, rfl, by simp [AsyncTcpClient.step, hin]⟩)
      | nil => exact Or.inr (Or.inr ⟨rfl, rfl⟩)
  cases op with
  | receivingHeader =>
    rcases hsocket with hpos | hstep | ⟨havail, hin⟩
    · refine ⟨.read 0 (.receiveSome 1), rfl, rfl, isSome_step_read hreads (if_pos ?_)⟩
      exact ⟨hopen, le_rfl, by omega, hpos⟩
    · exact hstep
    · exact ⟨.read 0 (.receiveFail .eof), rfl, by simp [quiet, havail, hin],
        isSome_step_read hreads rfl⟩
  | readingBody length t =>
    rcases hsocket with hpos | hstep | ⟨havail, hin⟩
    · refine ⟨.read 0 (.readSome 1), rfl, rfl, isSome_step_read hreads (if_pos ?_)⟩
      exact ⟨hopen, le_rfl, hpos⟩
    · exact hstep
    · exact ⟨.read 0 (.readFail .eof), rfl, by simp [quiet, havail, hin],
        isSome_step_read hreads rfl⟩
  | headerReceived err rec =>
    exact ⟨.read 0 .headerHandler, rfl, rfl,
      isSome_step_read hreads (if_pos (strandFree_of_reads hreads rfl))⟩
  | bodyRead length err rec =>
    exact ⟨.read 0 .bodyHandler, rfl, rfl,
      isSome_step_read hreads (if_pos (strandFree_of_reads hreads rfl))⟩
  | raisingMessageRecieved => exact ⟨.read 0 .resume, rfl, rfl, isSome_step_read hreads rfl⟩
  | respondedEmpty => exact ⟨.read 0 .resume, rfl, rfl, isSome_step_read hreads rfl⟩
  | raisingConnectionClosed err =>
    exact ⟨.read 0 .closeReturned, rfl, rfl, isSome_step_read hreads rfl⟩

/-- As long as a chain on track has not come to its close event, some step of it is a whole read. -/
lemma Whole.progress {fs : List RequestFrame} {c : AsyncTcpClient} {op : ReadOp}
    (hc : Whole fs c) (hreads : c.reads = [op]) (hop : op.isClosing = false) :
    ∃ a, a.isReadStep = true ∧ c.quiet a = true ∧ c.wholeRead a = true ∧
      (∀ i, a ≠ .read i .closeReturned) ∧ (c.step a).isSome = true := by
  have htrack : OnTrack fs c op := hc.onTrack op (by simp [hreads])
  obtain ⟨gs, hgs⟩ := hc.framed.answered
  obtain ⟨part, hpart, hstands⟩ := hgs.received
  replace hstands : c.Stands part op := hstands op (by simp [hreads])
  have harrive : c.incoming ≠ [] → (c.step (.arrive 1)).isSome = true := by
    intro hin
    have hpos := List.length_pos_iff.mpr hin
    rw [AsyncTcpClient.step, if_pos ⟨le_rfl, hpos⟩]
    rfl
  cases op with
  | receivingHeader =>
    by_cases havail : 8 ≤ c.available.length
    · refine ⟨.read 0 (.receiveSome 8), rfl, rfl, rfl, by simp, isSome_step_read hreads (if_pos ?_)⟩
      exact ⟨hc.isOpen, by omega, le_rfl, havail⟩
    · by_cases hin : c.incoming = []
      · -- the stream does not end inside a header
        obtain ⟨rfl, -⟩ := hstands
        have hstream := hc.framed.stream
        rw [hin, List.append_nil, hpart, List.append_nil] at hstream
        have hempty : c.available = [] := by
          by_contra hne
          exact received_ne_of_split hne (by omega) hstream
        exact ⟨.read 0 (.receiveFail .eof), rfl, by simp [quiet, hempty, hin], rfl, by simp,
          isSome_step_read hreads rfl⟩
      · exact ⟨.arrive 1, rfl, rfl, rfl, by simp, harrive hin⟩
  | readingBody length t =>
    by_cases havail : c.available = []
    · refine ⟨.arrive 1, rfl, rfl, rfl, by simp, harrive fun hin => ?_⟩
      -- nor inside a body
      obtain ⟨header, rfl, hlen, -, hval, hbuf⟩ := hstands
      have hend := exhausted_of_quiet hc.framed havail hin
      have hle := length_le_of_body hlen (hpart.symm.trans hend)
      simp only [OnTrack] at htrack
      omega
    · have hpos := List.length_pos_iff.mpr havail
      refine ⟨.read 0 (.readSome 1), rfl, rfl, ?_, by simp, isSome_step_read hreads (if_pos ?_)⟩
      · simp only [wholeRead, hreads, List.getElem?_cons_zero, decide_eq_true_eq]
        exact htrack
      · exact ⟨hc.isOpen, le_rfl, hpos⟩
  | headerReceived err rec =>
    exact ⟨.read 0 .headerHandler, rfl, rfl, rfl, by simp,
      isSome_step_read hreads (if_pos (strandFree_of_reads hreads rfl))⟩
  | bodyRead length err rec =>
    exact ⟨.read 0 .bodyHandler, rfl, rfl, rfl, by simp,
      isSome_step_read hreads (if_pos (strandFree_of_reads hreads rfl))⟩
  | raisingMessageRecieved =>
    exact ⟨.read 0 .resume, rfl, rfl, rfl, by simp, isSome_step_read hreads rfl⟩
  | respondedEmpty =>
    exact ⟨.read 0 .resume, rfl, rfl, rfl, by simp, isSome_step_read hreads rfl⟩
  | raisingConnectionClosed err => cases hop

/-! ### Runs -/

lemma whole_connected (fs : List RequestFrame) : Whole fs (connected (encodeAll fs)) where
  framed := (framed_init true (encodeAll fs)).step (a := .start) rfl
  running := rfl
  isOpen := rfl
  onTrack := by simp [connected, start, startRead, init, OnTrack]
  ended := by simp [connected, start, startRead, init]

/-- Until the stream has been read to its end no close event is raised. -/
lemma Whole.noClose {fs : List RequestFrame} {c : AsyncTcpClient} (hc : Whole fs c) :
    NoClose c.events ∨ c.received = encodeAll fs := by
  cases hreads : c.reads with
  | nil => exact Or.inr (hc.ended hreads).received
  | cons op ops =>
    cases hop : op.isClosing with
    | false => exact Or.inl (hc.framed.chain.noClose op (by simp [hreads]) hop)
    | true =>
      have htrack := hc.onTrack op (by simp [hreads])
      cases op with
      | raisingConnectionClosed err => exact Or.inr (Finished.received htrack)
      | _ => simp [ReadOp.isClosing] at hop

/-- On a stream of whole requests, with no socket error and no `Stop`, the read loop takes
boundedly many steps and cannot get stuck before the end of its chain, and then it has delivered
every request if and only if every read was whole. -/
theorem delivers_iff_wholeReads {fs : List RequestFrame} {ls : List Label} {c : AsyncTcpClient}
    (hrun : (connected (encodeAll fs)).run ls = some c)
    (hquiet : EveryStep step (fun d a => d.quiet a = true) (connected (encodeAll fs)) ls) :
    ls.countP Label.isReadStep ≤ 6 * (encodeAll fs).length + 3 ∧
      (c.reads ≠ [] → ∃ a, a.isReadStep = true ∧ c.quiet a = true ∧ (c.step a).isSome = true) ∧
      (c.reads = [] → (Delivers fs ls c ↔
        EveryStep step (fun d a => d.wholeRead a = true) (connected (encodeAll fs)) ls)) := by
  have hwhole₀ := whole_connected fs
  have hlive₀ := hwhole₀.toLive
  have hlive : Live (encodeAll fs) c :=
    run_invariant_of_everyStep (fun _ _ _ hs hq hstep => hs.step hq hstep) hlive₀ hquiet hrun
  refine ⟨?_, hlive.framed.chain.progress hlive.isOpen, fun hend => ?_⟩
  · have hle := @run_countP_le _ _ step (Live (encodeAll fs)) _ Label.isReadStep rank
      (fun _ _ _ hs hq hstep => Live.step hs hq hstep)
      (fun _ _ _ hs hq hstep => hs.rank_step hq hstep) _ c ls hlive₀ hquiet hrun
    have hrank : (connected (encodeAll fs)).rank = 6 * (encodeAll fs).length + 3 := rfl
    omega
  · rcases everyStep_or_latched (I := Whole fs) (B := Doomed fs)
        (H := fun d a => d.quiet a = true) (G := fun d a => d.wholeRead a = true)
        (fun _ _ _ hs hq hw hstep => hs.step hq hw hstep)
        (fun _ _ _ hs _ hw hstep => hs.derail hw hstep)
        (fun _ _ _ hs hq hstep => hs.step hq hstep) hwhole₀ hquiet hrun with
      ⟨hall, hc⟩ | ⟨hnot, hc⟩
    · refine iff_of_true ⟨(hc.ended hend).messages, ?_⟩ hall
      exact (everyState_of_everyStep (I := Whole fs)
        (fun _ _ _ hs hG hstep => hs.step hG.1 hG.2 hstep) hwhole₀ (hquiet.and hall)).imp
        fun _ hd => hd.noClose
    · refine iff_of_false ?_ hnot
      rintro ⟨hmsg, hstates⟩
      have hclosed : ¬ NoClose c.events := by
        rcases hc.stuck with ⟨op, hop, -⟩ | ⟨hno, -⟩
        · simp [hend] at hop
        · exact hno
      exact hc.off.elim (absurd hmsg) (absurd ((hstates.last hrun).resolve_left hclosed))

/-- A request whose body is the byte 65. -/
def oneByteRequest : RequestFrame := ⟨[0, 0, 0, 0, 1, 0, 0, 0], [65], rfl, rfl⟩

/-- The request in two pieces, the body after the header. -/
theorem delivers_iff_wholeReads_one :
    let ls := [.arrive 8, .read 0 (.receiveSome 8), .read 0 .headerHandler, .arrive 1,
      .read 0 (.readSome 1), .read 0 .bodyHandler, .read 0 .resume, .read 0 (.receiveFail .eof),
      .read 0 .headerHandler, .read 0 .closeReturned]
    ∃ c, (connected (encodeAll [oneByteRequest])).run ls = some c ∧
      ls.countP Label.isReadStep ≤ 6 * (encodeAll [oneByteRequest]).length + 3 ∧
      (c.reads ≠ [] → ∃ a, a.isReadStep = true ∧ c.quiet a = true ∧ (c.step a).isSome = true) ∧
      (c.reads = [] → (Delivers [oneByteRequest] ls c ↔ EveryStep step
        (fun d a => d.wholeRead a = true) (connected (encodeAll [oneByteRequest])) ls)) :=
  ⟨_, rfl, delivers_iff_wholeReads rfl (by decide)⟩

/-- A header that arrives in two pieces closes the connection. -/
theorem not_delivers_of_split_header :
    ¬ ∀ (fs : List RequestFrame) (ls : List Label) (c : AsyncTcpClient),
      (connected (encodeAll fs)).run ls = some c →
      EveryStep step (fun d a => d.quiet a = true) (connected (encodeAll fs)) ls →
      c.reads = [] → Delivers fs ls c := by
  intro h
  have hdel := h [oneByteRequest]
    [.arrive 4, .read 0 (.receiveSome 4), .read 0 .headerHandler, .read 0 .closeReturned]
    _ rfl (by decide) rfl
  exact absurd hdel.1 (by decide)

end AsyncTcpClient

end EzServer.Net
