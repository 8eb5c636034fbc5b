import EzServer.Net.ReadChain
import Mathlib.Data.List.GetD

/-!
# The read loop never misframes

The abstract reader answers the frames of the peer's stream one after the other. The read loop
refines it: whatever the socket delivers and whenever it fails or is stopped, its deliveries are
those of the first frames of the stream.
-/

namespace EzServer.Net

open EzServer.Core.Framing

/-- A request on the stream. -/
abbrev RequestFrame := requestFraming.Frame

/-- What the read loop owes to a request. -/
def requestEvent (f : RequestFrame) : Event :=
  if f.body = [] then .respondedEmpty else .messageRecieved f.body

/-- The events that answer requests. -/
def deliveries (evs : List Event) : List Event := evs.filter fun e => !e.isConnectionClosed

@[simp] lemma deliveries_append (evs evs' : List Event) :
    deliveries (evs ++ evs') = deliveries evs ++ deliveries evs' := List.filter_append ..

@[simp] lemma deliveries_closed (err : ErrorCode) : deliveries [.connectionClosed err] = [] := rfl

@[simp] lemma deliveries_respondedEmpty : deliveries [.respondedEmpty] = [.respondedEmpty] := rfl

@[simp] lemma deliveries_message (message : List UInt8) :
    deliveries [.messageRecieved message] = [.messageRecieved message] := rfl

/-- Only the first eight bytes of the header buffer matter. -/
lemma littleEndianLength_append {header : List UInt8} (h : header.length = 8)
    (tail : List UInt8) : littleEndianLength (header ++ tail) = littleEndianLength header := by
  have hget : ∀ i < 8, (header ++ tail).getD i 0 = header.getD i 0 := fun i hi =>
    List.getD_append header tail 0 i (h ▸ hi)
  simp only [littleEndianLength, hget 4 (by omega), hget 5 (by omega), hget 6 (by omega),
    hget 7 (by omega)]

namespace AsyncTcpClient

/-- Where a chain stands when `part` has been read beyond the answered frames. -/
def Stands (c : AsyncTcpClient) (part : List UInt8) : ReadOp → Prop
  | .receivingHeader | .raisingMessageRecieved | .respondedEmpty => part = [] ∧ c.buffer = []
  | .headerReceived none n =>
    part.length = n ∧ c.buffer = [] ∧ ∃ tail, c.headerBuffer = part ++ tail
  | .readingBody length t | .bodyRead length none t =>
    ∃ header, part = header ++ c.buffer ∧ header.length = 8 ∧ length ≠ 0 ∧
      littleEndianLength header = length.toNat ∧ c.buffer.length = t
  | .headerReceived (some _) _ | .bodyRead _ (some _) _ | .raisingConnectionClosed _ => True

/-- `fs` are the frames that have been answered. -/
structure Answered (c : AsyncTcpClient) (fs : List RequestFrame) : Prop where
  deliveries : deliveries c.events = fs.map requestEvent
  received : ∃ part, c.received = encodeAll fs ++ part ∧ ∀ op ∈ c.reads, c.Stands part op

/-- The invariant of the read loop on a stream. -/
structure Framed (stream : List UInt8) (c : AsyncTcpClient) : Prop where
  chain : OneChain c
  stream : c.received ++ c.available ++ c.incoming = stream
  answered : ∃ fs, Answered c fs

/-! ### Steps -/

lemma takeBytes_stream (c : AsyncTcpClient) (n : ℕ) :
    (c.takeBytes n).received ++ (c.takeBytes n).available = c.received ++ c.available := by
  simp [takeBytes, List.append_assoc]

lemma ReadRule.stream_eq {c c' : AsyncTcpClient} {l : ReadLabel} {op : ReadOp} {ops : List ReadOp}
    (h : ReadRule c l op c' ops) :
    c'.received ++ c'.available ++ c'.incoming = c.received ++ c.available ++ c.incoming := by
  cases h
  case receiveSome n _ _ _ _ => exact congrArg (· ++ c.incoming) (c.takeBytes_stream n)
  case readMore n _ _ _ _ _ _ => exact congrArg (· ++ c.incoming) (c.takeBytes_stream n)
  case readEnough n _ _ _ _ _ _ => exact congrArg (· ++ c.incoming) (c.takeBytes_stream n)
  all_goals rfl

/-- The operation `StartRead` issues stands at the start of a frame. -/
lemma stands_startRead {c : AsyncTcpClient} (hbuf : c.buffer = []) :
    ∀ op ∈ c.startRead, c.Stands [] op := by
  intro op hop
  rw [startRead] at hop
  split_ifs at hop
  · simp at hop
  · obtain rfl := List.mem_singleton.mp hop
    exact ⟨rfl, hbuf⟩

/-- Bytes taken into the buffer extend the part of the current frame. -/
lemma Answered.readSome {c : AsyncTcpClient} {fs : List RequestFrame} {n t : ℕ}
    {length : UInt32} (hc : Answered c fs) (hreads : c.reads = [.readingBody length t])
    (hn : n ≤ c.available.length) :
    ∃ part header, (c.takeBytes n).received = encodeAll fs ++ part ∧
      part = header ++ (c.buffer ++ c.available.take n) ∧ header.length = 8 ∧ length ≠ 0 ∧
      littleEndianLength header = length.toNat ∧
      (c.buffer ++ c.available.take n).length = t + n := by
  obtain ⟨part, hpart, hstands⟩ := hc.received
  obtain ⟨header, rfl, hlen, hne, hval, hbuf⟩ := hstands (.readingBody length t) (by simp [hreads])
  refine ⟨header ++ (c.buffer ++ c.available.take n), header, ?_, rfl, hlen, hne, hval, ?_⟩
  · simp [takeBytes, hpart]
  · simp [hbuf, hn]

/-- A step of the chain answers at most the frame it has just completed. -/
lemma Answered.read {c c' : AsyncTcpClient} {fs : List RequestFrame} {l : ReadLabel}
    {op : ReadOp} {ops : List ReadOp} (hc : Answered c fs) (hreads : c.reads = [op])
    (h : ReadRule c l op c' ops) : ∃ fs', Answered { c' with reads := ops } fs' := by
  obtain ⟨part, hpart, hstands⟩ := hc.received
  replace hstands : c.Stands part op := hstands op (by rw [hreads]; simp)
  cases h with
  | @receiveSome n hopen hpos hle hn =>
    obtain ⟨rfl, hbuf⟩ := hstands
    refine ⟨fs, hc.deliveries, c.available.take n, ?_, fun op' hop' => ?_⟩
    · simp [takeBytes, hpart]
    · obtain rfl := List.mem_singleton.mp hop'
      exact ⟨by simp [hn], hbuf, c.headerBuffer.drop n, rfl⟩
  | receiveFail err =>
    exact ⟨fs, hc.deliveries, part, hpart, by simp [Stands]⟩
  | readMore hopen hpos hn hlt =>
    obtain ⟨part, header, hrec, rest⟩ := hc.readSome hreads hn
    refine ⟨fs, hc.deliveries, part, hrec, fun op' hop' => ?_⟩
    obtain rfl := List.mem_singleton.mp hop'
    exact ⟨header, rest⟩
  | readEnough hopen hpos hn hge =>
    obtain ⟨part, header, hrec, rest⟩ := hc.readSome hreads hn
    refine ⟨fs, hc.deliveries, part, hrec, fun op' hop' => ?_⟩
    obtain rfl := List.mem_singleton.mp hop'
    exact ⟨header, rest⟩
  | readFail err => exact ⟨fs, hc.deliveries, part, hpart, by simp [Stands]⟩
  | headerClosed e hfree hbad =>
    exact ⟨fs, by simpa using hc.deliveries, part, hpart, by simp [Stands]⟩
  | headerEmpty hfree hlen =>
    -- the eight bytes are a whole frame
    obtain ⟨hlen8, hbuf, tail, hhead⟩ := hstands
    have hzero : littleEndianLength part = 0 := by
      rw [← littleEndianLength_append hlen8 tail, ← hhead, ← toNat_msgLength, hlen]; rfl
    let f : RequestFrame := ⟨part, [], hlen8, hzero.symm⟩
    refine ⟨fs ++ [f], ?_, [], ?_, fun op' hop' => ?_⟩
    · simp [hc.deliveries, requestEvent, f]
    · simp [asyncSend, respond, hpart, Frame.encode, f]
    · obtain rfl := List.mem_singleton.mp hop'
      exact ⟨rfl, hbuf⟩
  | headerBody hfree hlen =>
    obtain ⟨hlen8, hbuf, tail, hhead⟩ := hstands
    refine ⟨fs, hc.deliveries, part, hpart, fun op' hop' => ?_⟩
    obtain rfl := List.mem_singleton.mp hop'
    refine ⟨part, by simp [hbuf], hlen8, hlen, ?_, by simp [hbuf]⟩
    rw [toNat_msgLength, hhead, littleEndianLength_append hlen8]
  | bodyClosed e hfree hbad =>
    exact ⟨fs, by simpa using hc.deliveries, part, hpart, by simp [Stands]⟩
  | bodyMessage hfree =>
    -- the buffer holds exactly the announced bytes
    obtain ⟨header, rfl, hlen8, hne, hval, hbuf⟩ := hstands
    let f : RequestFrame := ⟨header, c.buffer, hlen8, hbuf.trans hval.symm⟩
    have hbody : c.buffer ≠ [] := by
      intro hnil
      rw [hnil] at hbuf
      exact hne (UInt32.toNat.inj hbuf.symm)
    refine ⟨fs ++ [f], ?_, [], ?_, fun op' hop' => ?_⟩
    · simp [hc.deliveries, requestEvent, f, hbody]
    · simp [hpart, Frame.encode, f]
    · obtain rfl := List.mem_singleton.mp hop'
      exact ⟨rfl, rfl⟩
  | messageHandled =>
    obtain ⟨rfl, hbuf⟩ := hstands
    exact ⟨fs, hc.deliveries, [], hpart, stands_startRead hbuf⟩
  | emptyAnswered =>
    obtain ⟨rfl, hbuf⟩ := hstands
    exact ⟨fs, hc.deliveries, [], hpart, stands_startRead hbuf⟩
  | closeReturned err => exact ⟨fs, hc.deliveries, part, hpart, by simp⟩

/-- Where a chain stands depends on the two buffers only. -/
lemma Stands.of_keeps {c c' : AsyncTcpClient} {part : List UInt8} {op : ReadOp}
    (h : Keeps c c') (hop : c.Stands part op) : c'.Stands part op := by
  unfold Stands at hop ⊢
  rw [h.buffer, h.headerBuffer]
  exact hop

lemma Answered.of_keeps {c c' : AsyncTcpClient} {fs : List RequestFrame} (hc : Answered c fs)
    (h : Keeps c c') (hreads : c'.reads = c.reads) : Answered c' fs := by
  obtain ⟨part, hpart, hstands⟩ := hc.received
  refine ⟨h.events ▸ hc.deliveries, part, h.received ▸ hpart, fun op hop => ?_⟩
  exact (hstands op (hreads ▸ hop)).of_keeps h

lemma Framed.outer {stream : List UInt8} {c c' : AsyncTcpClient} {a : Label}
    (hc : Framed stream c) (h : OuterRule c a c') : Framed stream c' := by
  have hstream : ∀ {c'}, Keeps c c' → c'.received ++ c'.available ++ c'.incoming = stream := by
    intro c' hkeep
    rw [List.append_assoc, hkeep.stream, hkeep.received, ← List.append_assoc, hc.stream]
  obtain ⟨fs, hfs⟩ := hc.answered
  have hchain := hc.chain.outer h
  cases h with
  | quiet hkeep hreads =>
    exact ⟨hchain, hstream hkeep, fs, hfs.of_keeps hkeep hreads⟩
  | restarted hkeep hreads =>
    exact ⟨hchain, hstream hkeep, fs, hfs.of_keeps hkeep hreads⟩
  | stopped hkeep hreads =>
    exact ⟨hchain, hstream hkeep, fs, hfs.of_keeps hkeep hreads⟩
  | started hkeep hreads hrun hopen =>
    have hfresh := hc.chain.fresh hopen hrun
    refine ⟨hchain, hstream hkeep, [], ?_, [], ?_, fun op hop => ?_⟩
    · simp [hkeep.events, hfresh.events, deliveries]
    · simp [hkeep.received, hfresh.received]
    · rw [hreads, hfresh.reads] at hop
      obtain rfl := List.mem_singleton.mp hop
      exact ⟨rfl, hkeep.buffer.trans hfresh.buffer⟩

/-- Every step keeps the invariant. -/
lemma Framed.step {stream : List UInt8} {c c' : AsyncTcpClient} {a : Label}
    (hc : Framed stream c) (h : c.step a = some c') : Framed stream c' := by
  by_cases ha : ∃ i l, a = .read i l
  · obtain ⟨i, l, rfl⟩ := ha
    have hchain := hc.chain.step h
    obtain ⟨op, c₁, ops, hreads, hrule, rfl⟩ := ReadRule.of_step hc.chain.length_le h
    obtain ⟨fs, hfs⟩ := hc.answered
    exact ⟨hchain, hrule.stream_eq.trans hc.stream, hfs.read hreads hrule⟩
  · exact hc.outer (.of_step (fun i l hil => ha ⟨i, l, hil⟩) h)

/-! ### Runs -/

lemma framed_init (isOpen : Bool) (stream : List UInt8) : Framed stream (init isOpen stream) :=
  ⟨(fresh_init isOpen stream).oneChain, by simp [init], [], rfl, [], by simp [init], by simp [init]⟩

theorem Framed.run {stream : List UInt8} {c c' : AsyncTcpClient} {ls : List Label}
    (hc : Framed stream c) (h : c.run ls = some c') : Framed stream c' :=
  Core.run_invariant (I := Framed stream) (fun _ _ _ hs hstep => hs.step hstep) hc h

/-- The answered frames are the first frames of the stream. -/
lemma Answered.take_frames {stream : List UInt8} {c : AsyncTcpClient} {fs : List RequestFrame}
    (hfs : Answered c fs) (hc : Framed stream c) :
    (requestFraming.frames stream).take fs.length = fs := by
  obtain ⟨part, hpart, -⟩ := hfs.received
  apply take_frames_of_prefix
  refine ⟨part ++ (c.available ++ c.incoming), ?_⟩
  rw [← hc.stream, hpart]
  simp [List.append_assoc]

/-- At any point of any run, the requests answered so far are the first frames of the stream,
and a body read is only ever started on an empty buffer. -/
theorem deliveries_eq_take_frames {isOpen : Bool} {stream : List UInt8} {ls : List Label}
    {c : AsyncTcpClient} (h : (init isOpen stream).run ls = some c) :
    (∃ j, deliveries c.events = ((requestFraming.frames stream).take j).map requestEvent) ∧
      ∀ i c', c.step (.read i .headerHandler) = some c' →
        (∃ length, .readingBody length 0 ∈ c'.reads) → c.buffer = [] := by
  have hc : Framed stream c := (framed_init isOpen stream).run h
  obtain ⟨fs, hfs⟩ := hc.answered
  refine ⟨⟨fs.length, ?_⟩, ?_⟩
  · rw [hfs.take_frames hc, hfs.deliveries]
  · rintro i c' hstep ⟨length, hbody⟩
    obtain ⟨op, c₁, ops, hreads, hrule, rfl⟩ := ReadRule.of_step hc.chain.length_le hstep
    obtain ⟨part, -, hstands⟩ := hfs.received
    cases hrule with
    | headerClosed => simp at hbody
    | headerEmpty => simp at hbody
    | headerBody => exact (hstands (.headerReceived none 8) (by simp [hreads])).2.1

/-- A truncated stream, with a stop while the second header is being received. -/
theorem deliveries_eq_take_frames_truncated :
    ∃ c, (init true [0, 0, 0, 0, 1, 0, 0, 0, 65, 0, 0]).run
        [.start, .arrive 11, .read 0 (.receiveSome 8), .read 0 .headerHandler,
          .read 0 (.readSome 1), .read 0 .bodyHandler, .read 0 .resume,
          .read 0 (.receiveSome 2), .stop, .read 0 .headerHandler] = some c ∧
      (∃ j, deliveries c.events = ((requestFraming.frames
        [0, 0, 0, 0, 1, 0, 0, 0, 65, 0, 0]).take j).map requestEvent) ∧
      ∀ i c', c.step (.read i .headerHandler) = some c' →
        (∃ length, .readingBody length 0 ∈ c'.reads) → c.buffer = [] :=
  ⟨_, rfl, @deliveries_eq_take_frames true _
    [.start, .arrive 11, .read 0 (.receiveSome 8), .read 0 .headerHandler,
      .read 0 (.readSome 1), .read 0 .bodyHandler, .read 0 .resume,
      .read 0 (.receiveSome 2), .stop, .read 0 .headerHandler] _ rfl⟩

end AsyncTcpClient

end EzServer.Net
