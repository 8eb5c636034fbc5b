import EzServer.Net.Delivery

/-!
# After `Stop`

`Stop` closes the socket, so no read that is still pending can succeed, and `StartRead` looks at
`is_running_` before it initiates another one. The handlers themselves do not look: a body that has
been read in full when `Stop` is called is still raised by its handler.
-/

namespace EzServer.Net

/-- A body has been read in full and its handler is queued. -/
def ReadOp.isBodyQueued : ReadOp → Bool
  | .bodyRead length none rec => rec == length.toNat
  | _ => false

namespace AsyncTcpClient

/-- A message waits for the handler that raises it. -/
def bodyQueued (c : AsyncTcpClient) : Bool := c.reads.any ReadOp.isBodyQueued

/-- A closed client on which no message waits. -/
structure Silent (c : AsyncTcpClient) : Prop where
  isOpen_eq : c.isOpen = false
  bodyQueued_eq : c.bodyQueued = false

/-! ### Silence -/

/-- A chain of a closed client moves on to no message, unless one waited already. -/
lemma ReadRule.silent {c c' : AsyncTcpClient} {l : ReadLabel} {op : ReadOp} {ops : List ReadOp}
    (h : ReadRule c l op c' ops) (hopen : c.isOpen = false) (hop : op.isBodyQueued = false) :
    ops.any ReadOp.isBodyQueued = false ∧ messages c'.events = messages c.events := by
  have hstart : c.startRead = [] := by simp [startRead, hopen]
  cases h with
  | receiveSome hopen' _ _ _ => simp [hopen] at hopen'
  | readMore hopen' _ _ _ => simp [hopen] at hopen'
  | readEnough hopen' _ _ _ => simp [hopen] at hopen'
  | headerClosed e _ _ => exact ⟨rfl, by simp⟩
  | headerEmpty _ _ => exact ⟨rfl, by simp [messages]⟩
  | bodyClosed e _ _ => exact ⟨rfl, by simp⟩
  | bodyMessage _ => simp [ReadOp.isBodyQueued] at hop
  | messageHandled => exact ⟨by rw [hstart]; rfl, rfl⟩
  | emptyAnswered => exact ⟨by rw [hstart]; rfl, rfl⟩
  | receiveFail _ => exact ⟨rfl, rfl⟩
  | readFail _ => exact ⟨rfl, rfl⟩
  | headerBody _ _ => exact ⟨rfl, rfl⟩
  | closeReturned _ => exact ⟨rfl, rfl⟩

lemma Silent.congr {c c' : AsyncTcpClient} (hc : Silent c) (hopen : c'.isOpen = false)
    (hreads : c'.reads = c.reads) : Silent c' :=
  ⟨hopen, by rw [bodyQueued, hreads]; exact hc.bodyQueued_eq⟩

/-- Whatever is called, even `Start`, a silent client stays silent and raises no message. -/
lemma Silent.step {c c' : AsyncTcpClient} {a : Label} (hone : OneChain c) (hc : Silent c)
    (h : c.step a = some c') : Silent c' ∧ messages c'.events = messages c.events := by
  have hopen : c.isOpen = false := hc.isOpen_eq
  by_cases ha : ∃ i l, a = .read i l
  · obtain ⟨i, l, rfl⟩ := ha
    obtain ⟨op, c₁, ops, hreads, hrule, rfl⟩ := ReadRule.of_step hone.length_le h
    have hop : op.isBodyQueued = false := by simpa [bodyQueued, hreads] using hc.bodyQueued_eq
    obtain ⟨hops, hmessages⟩ := hrule.silent hopen hop
    exact ⟨⟨hrule.flags_eq.2.trans hopen, hops⟩, hmessages⟩
  · cases OuterRule.of_step (fun i l hil => ha ⟨i, l, hil⟩) h with
    | quiet hkeep hreads _ hopen' _ =>
      exact ⟨hc.congr (hopen'.trans hopen) hreads, by rw [hkeep.events]⟩
    | started _ _ _ hopen' _ _ _ => simp [hopen] at hopen'
    | restarted hkeep hreads _ _ _ hopen' _ => exact ⟨hc.congr hopen' hreads, by rw [hkeep.events]⟩
    | stopped hkeep hreads _ _ _ hopen' => exact ⟨hc.congr hopen' hreads, by rw [hkeep.events]⟩

/-- A silent client raises no message on any run. -/
lemma Silent.run {c c' : AsyncTcpClient} {ls : List Label} (hone : OneChain c) (hc : Silent c)
    (h : c.run ls = some c') : messages c'.events = messages c.events := by
  have key : OneChain c' ∧ Silent c' ∧ messages c'.events = messages c.events := by
    refine Core.run_invariant
      (I := fun d => OneChain d ∧ Silent d ∧ messages d.events = messages c.events) ?_
      ⟨hone, hc, rfl⟩ h
    rintro d a d' ⟨hd, hsilent, hmessages⟩ hstep
    obtain ⟨hsilent', hmessages'⟩ := hsilent.step hd hstep
    exact ⟨hd.step hstep, hsilent', hmessages'.trans hmessages⟩
  exact key.2.2

/-! ### Stop -/

/-- A `Stop` of a running client closes its socket and leaves the read chain where it is. -/
lemma stopped_of_callsStop {c c' : AsyncTcpClient} {a : Label} (h : c.step a = some c')
    (hstop : c.callsStop a = true) (hrun : c.isRunning = true) :
    c'.isOpen = false ∧ c'.reads = c.reads := by
  have ha : ∀ i l, a ≠ .read i l := by
    rintro i l rfl
    cases hstop
  cases OuterRule.of_step ha h with
  | quiet _ _ _ _ hnot => simp [hrun] at hnot; simp [hnot] at hstop
  | started _ _ hrun' _ _ _ _ => simp [hrun] at hrun'
  | restarted _ _ hrun' _ _ _ _ => simp [hrun] at hrun'
  | stopped _ hreads _ _ _ hopen' => exact ⟨hopen', hreads⟩

/-- The handler of a queued body raises its message, whether the client runs or not. -/
lemma exists_message_of_bodyQueued {c : AsyncTcpClient} (hone : OneChain c)
    (h : c.bodyQueued = true) :
    ∃ c', c.run [.read 0 .bodyHandler] = some c' ∧
      messages c'.events = messages c.events ++ [c.buffer] := by
  obtain ⟨op, hop, hqueued⟩ := List.any_eq_true.mp h
  have hreads : c.reads = [op] := by
    obtain ⟨op', hreads⟩ := List.length_eq_one_iff.mp
      (le_antisymm hone.length_le (List.length_pos_of_mem hop))
    rw [hreads, List.mem_singleton] at hop
    rw [hreads, hop]
  have hfree : c.strandFree = true := by
    apply strandFree_of_reads hreads
    cases op <;> first | rfl | cases hqueued
  cases op with
  | bodyRead length err rec =>
    cases err with
    | some err => cases hqueued
    | none =>
      obtain rfl : rec = length.toNat := by simpa [ReadOp.isBodyQueued] using hqueued
      refine ⟨{ c with
        buffer := []
        reads := [.raisingMessageRecieved]
        events := c.events ++ [.messageRecieved c.buffer] }, ?_, ?_⟩
      · simp [AsyncTcpClient.step, hreads, stepRead, hfree, handleBody]
      · simp [messages]
  | _ => cases hqueued

/-! ### Runs -/

/-- After a `Stop` that finds the client running no message is ever raised again if and only if at
that moment no body that has been read in full is queued for, or already taken up by, its handler. -/
theorem silent_after_stop_iff {isOpen : Bool} {incoming : List UInt8} {ls : List Label}
    {c c' : AsyncTcpClient} {a : Label} (hrun : (init isOpen incoming).run ls = some c)
    (hstop : c.callsStop a = true) (hrunning : c.isRunning = true) (h : c.step a = some c') :
    (∀ ms d, c'.run ms = some d → messages d.events = messages c'.events) ↔
      c.bodyQueued = false := by
  have hone : OneChain c := (fresh_init isOpen incoming).oneChain.run hrun
  obtain ⟨hopen, hreads⟩ := stopped_of_callsStop h hstop hrunning
  have hqueued : c'.bodyQueued = c.bodyQueued := by rw [bodyQueued, hreads]; rfl
  constructor
  · intro hall
    by_contra hbody
    obtain ⟨d, hd, hmessage⟩ := exists_message_of_bodyQueued (hone.step h)
      (hqueued.trans (by simpa using hbody))
    have hnil := (hall _ d hd).symm.trans hmessage
    simp at hnil
  · intro hbody ms d hd
    exact Silent.run (hone.step h) ⟨hopen, hqueued.trans hbody⟩ hd

/-- A `Stop` while the client waits for its first request. -/
theorem silent_after_stop_iff_receiving :
    ∃ c c', (init true [0, 0, 0, 0, 1, 0, 0, 0, 65]).run [.start, .arrive 9] = some c ∧
      c.step .stop = some c' ∧
      ((∀ ms d, c'.run ms = some d → messages d.events = messages c'.events) ↔
        c.bodyQueued = false) :=
  ⟨_, _, rfl, rfl, @silent_after_stop_iff true [0, 0, 0, 0, 1, 0, 0, 0, 65] [.start, .arrive 9] _ _
    .stop rfl rfl rfl rfl⟩

/-- A message whose bytes are all there when the application stops the client. -/
theorem not_silent_after_stop :
    ¬ ∀ (isOpen : Bool) (incoming : List UInt8) (ls : List Label) (a : Label)
        (c c' : AsyncTcpClient), (init isOpen incoming).run ls = some c →
      c.callsStop a = true → c.isRunning = true → c.step a = some c' →
      ∀ ms d, c'.run ms = some d → messages d.events = messages c'.events := by
  intro h
  have hsame := h true [0, 0, 0, 0, 1, 0, 0, 0, 65]
    [.start, .arrive 9, .read 0 (.receiveSome 8), .read 0 .headerHandler, .read 0 (.readSome 1)]
    .stop _ _ rfl rfl rfl rfl [.read 0 .bodyHandler] _ rfl
  exact absurd hsame (by decide)

end AsyncTcpClient

end EzServer.Net
