import EzServer.Net.AsyncTcpClient

/-!
# What a step of a client can do

`ReadRule` lists the steps of a read chain, `OuterRule` the steps outside of it. Every later
invariant is a case analysis on these rules.
-/

namespace EzServer.Net.AsyncTcpClient

/-! ### Read chains -/

/-- The steps of a read chain: the effect on the client and what becomes of the chain. -/
inductive ReadRule (c : AsyncTcpClient) :
    ReadLabel → ReadOp → AsyncTcpClient → List ReadOp → Prop where
  | receiveSome {n : ℕ} (hopen : c.isOpen = true) (hpos : 1 ≤ n) (hle : n ≤ 8)
      (hn : n ≤ c.available.length) :
      ReadRule c (.receiveSome n) .receivingHeader
        { c.takeBytes n with headerBuffer := c.available.take n ++ c.headerBuffer.drop n }
        [.headerReceived none n]
  | receiveFail (err : ErrorCode) :
      ReadRule c (.receiveFail err) .receivingHeader c [.headerReceived (some err) 0]
  | readMore {n t : ℕ} {length : UInt32} (hopen : c.isOpen = true) (hpos : 1 ≤ n)
      (hn : n ≤ c.available.length) (hlt : t + n < length.toNat) :
      ReadRule c (.readSome n) (.readingBody length t)
        { c.takeBytes n with buffer := c.buffer ++ c.available.take n }
        [.readingBody length (t + n)]
  | readEnough {n t : ℕ} {length : UInt32} (hopen : c.isOpen = true) (hpos : 1 ≤ n)
      (hn : n ≤ c.available.length) (hge : length.toNat ≤ t + n) :
      ReadRule c (.readSome n) (.readingBody length t)
        { c.takeBytes n with buffer := c.buffer ++ c.available.take n }
        [.bodyRead length none (t + n)]
  | readFail {t : ℕ} {length : UInt32} (err : ErrorCode) :
      ReadRule c (.readFail err) (.readingBody length t) c [.bodyRead length (some err) t]
  | headerClosed {err : Option ErrorCode} {rec : ℕ} (e : ErrorCode)
      (hfree : c.strandFree = true) (hbad : err = some e ∨ rec ≠ 8) :
      ReadRule c .headerHandler (.headerReceived err rec)
        { c with events := c.events ++ [.connectionClosed e] } [.raisingConnectionClosed e]
  | headerEmpty (hfree : c.strandFree = true) (hlen : msgLength c.headerBuffer = 0) :
      ReadRule c .headerHandler (.headerReceived none 8)
        { c.respond .kEmptyMessage emptyMessageText 0 with
          events := c.events ++ [.respondedEmpty] } [.respondedEmpty]
  | headerBody (hfree : c.strandFree = true) (hlen : msgLength c.headerBuffer ≠ 0) :
      ReadRule c .headerHandler (.headerReceived none 8) c
        [.readingBody (msgLength c.headerBuffer) 0]
  | bodyClosed {length : UInt32} {err : Option ErrorCode} {rec : ℕ} (e : ErrorCode)
      (hfree : c.strandFree = true) (hbad : err = some e ∨ rec ≠ length.toNat) :
      ReadRule c .bodyHandler (.bodyRead length err rec)
        { c with events := c.events ++ [.connectionClosed e] } [.raisingConnectionClosed e]
  | bodyMessage {length : UInt32} (hfree : c.strandFree = true) :
      ReadRule c .bodyHandler (.bodyRead length none length.toNat)
        { c with buffer := [], events := c.events ++ [.messageRecieved c.buffer] }
        [.raisingMessageRecieved]
  | messageHandled : ReadRule c .resume .raisingMessageRecieved c c.startRead
  | emptyAnswered : ReadRule c .resume .respondedEmpty c c.startRead
  | closeReturned (err : ErrorCode) :
      ReadRule c .closeReturned (.raisingConnectionClosed err) c []

lemma ReadRule.of_handleHeader {c c' : AsyncTcpClient} {err : Option ErrorCode} {rec : ℕ}
    {ops : List ReadOp} (hfree : c.strandFree = true) (h : c.handleHeader err rec = (c', ops)) :
    ReadRule c .headerHandler (.headerReceived err rec) c' ops := by
  cases err with
  | some e =>
    obtain ⟨rfl, rfl⟩ := Prod.mk.inj h
    exact .headerClosed e hfree (Or.inl rfl)
  | none =>
    simp only [handleHeader, bne_iff_ne, ne_eq, ite_not, beq_iff_eq] at h
    split_ifs at h with hrec hlen <;> obtain ⟨rfl, rfl⟩ := Prod.mk.inj h
    · obtain rfl := hrec
      exact .headerEmpty hfree hlen
    · obtain rfl := hrec
      exact .headerBody hfree hlen
    · exact .headerClosed _ hfree (Or.inr hrec)

lemma ReadRule.of_handleBody {c c' : AsyncTcpClient} {length : UInt32} {err : Option ErrorCode}
    {rec : ℕ} {ops : List ReadOp} (hfree : c.strandFree = true)
    (h : c.handleBody length err rec = (c', ops)) :
    ReadRule c .bodyHandler (.bodyRead length err rec) c' ops := by
  cases err with
  | some e =>
    obtain ⟨rfl, rfl⟩ := Prod.mk.inj h
    exact .bodyClosed e hfree (Or.inl rfl)
  | none =>
    simp only [handleBody, bne_iff_ne, ne_eq, ite_not] at h
    split_ifs at h with hrec <;> obtain ⟨rfl, rfl⟩ := Prod.mk.inj h
    · obtain rfl := hrec
      exact .bodyMessage hfree
    · exact .bodyClosed _ hfree (Or.inr (Ne.symm hrec))

lemma ReadRule.of_stepRead {c c' : AsyncTcpClient} {l : ReadLabel} {op : ReadOp}
    {ops : List ReadOp} (h : c.stepRead l op = some (c', ops)) : ReadRule c l op c' ops := by
  cases l <;> cases op <;> simp only [stepRead, reduceCtorEq] at h
  case receiveSome.receivingHeader n =>
    split_ifs at h with hn
    obtain ⟨rfl, rfl⟩ := Prod.mk.inj (Option.some.inj h)
    exact .receiveSome hn.1 hn.2.1 hn.2.2.1 hn.2.2.2
  case receiveFail.receivingHeader err =>
    obtain ⟨rfl, rfl⟩ := Prod.mk.inj (Option.some.inj h)
    exact .receiveFail err
  case readSome.readingBody n length t =>
    split_ifs at h with hn hlt <;> obtain ⟨rfl, rfl⟩ := Prod.mk.inj (Option.some.inj h)
    · exact .readMore hn.1 hn.2.1 hn.2.2 hlt
    · exact .readEnough hn.1 hn.2.1 hn.2.2 (not_lt.mp hlt)
  case readFail.readingBody err length t =>
    obtain ⟨rfl, rfl⟩ := Prod.mk.inj (Option.some.inj h)
    exact .readFail err
  case headerHandler.headerReceived err rec =>
    split_ifs at h with hfree
    exact .of_handleHeader hfree (Option.some.inj h)
  case bodyHandler.bodyRead length err rec =>
    split_ifs at h with hfree
    exact .of_handleBody hfree (Option.some.inj h)
  case resume.raisingMessageRecieved =>
    obtain ⟨rfl, rfl⟩ := Prod.mk.inj (Option.some.inj h)
    exact .messageHandled
  case resume.respondedEmpty =>
    obtain ⟨rfl, rfl⟩ := Prod.mk.inj (Option.some.inj h)
    exact .emptyAnswered
  case closeReturned.raisingConnectionClosed err =>
    obtain ⟨rfl, rfl⟩ := Prod.mk.inj (Option.some.inj h)
    exact .closeReturned err

lemma index_eq_zero_of_step {c c' : AsyncTcpClient} {i : ℕ} {l : ReadLabel}
    (hone : c.reads.length ≤ 1) (h : c.step (.read i l) = some c') : i = 0 := by
  simp only [step, Option.bind_eq_bind, Option.bind_eq_some_iff] at h
  obtain ⟨op, hop, -⟩ := h
  have hi : i < c.reads.length := (List.getElem?_eq_some_iff.mp hop).1
  omega

/-- With at most one chain, a read step is a step of that chain. -/
lemma ReadRule.of_step {c c' : AsyncTcpClient} {i : ℕ} {l : ReadLabel}
    (hone : c.reads.length ≤ 1) (h : c.step (.read i l) = some c') :
    ∃ op c₁ ops, c.reads = [op] ∧ ReadRule c l op c₁ ops ∧ c' = { c₁ with reads := ops } := by
  obtain rfl := index_eq_zero_of_step hone h
  simp only [step, Option.bind_eq_bind, Option.bind_eq_some_iff, Prod.exists, Option.pure_def,
    Option.some.injEq] at h
  obtain ⟨op, hop, c₁, ops, hstep, rfl⟩ := h
  have hpos : 0 < c.reads.length := (List.getElem?_eq_some_iff.mp hop).1
  obtain ⟨op', hreads⟩ := List.length_eq_one_iff.mp (by omega : c.reads.length = 1)
  obtain rfl : op' = op := by simpa [hreads] using hop
  exact ⟨op', c₁, ops, hreads, of_stepRead hstep, by simp [hreads]⟩

/-! ### Everything else -/

/-- The step calls `Stop`. -/
def callsStop (c : AsyncTcpClient) : Label → Bool
  | .stop => true
  | .handleWrite i => (c.writes[i]?).any fun w => w.err.isSome || w.sent != w.expected
  | _ => false

/-- What only read chains change. -/
structure Keeps (c c' : AsyncTcpClient) : Prop where
  headerBuffer : c'.headerBuffer = c.headerBuffer
  buffer : c'.buffer = c.buffer
  received : c'.received = c.received
  events : c'.events = c.events
  stream : c'.available ++ c'.incoming = c.available ++ c.incoming
  incoming : c'.incoming <:+ c.incoming

/-- The steps outside of the read chains. -/
inductive OuterRule (c : AsyncTcpClient) (a : Label) (c' : AsyncTcpClient) : Prop where
  | quiet (hkeep : Keeps c c') (hreads : c'.reads = c.reads) (hrun : c'.isRunning = c.isRunning)
      (hopen : c'.isOpen = c.isOpen) (hstop : c.callsStop a = true → c.isRunning = false)
  | started (hkeep : Keeps c c') (hreads : c'.reads = c.reads ++ [.receivingHeader])
      (hrun : c.isRunning = false) (hopen : c.isOpen = true)
      (hrun' : c'.isRunning = true) (hopen' : c'.isOpen = true) (hstop : c.callsStop a = false)
  | restarted (hkeep : Keeps c c') (hreads : c'.reads = c.reads)
      (hrun : c.isRunning = false) (hopen : c.isOpen = false)
      (hrun' : c'.isRunning = true) (hopen' : c'.isOpen = false) (hstop : c.callsStop a = false)
  | stopped (hkeep : Keeps c c') (hreads : c'.reads = c.reads)
      (hstop : c.callsStop a = true) (hrun : c.isRunning = true)
      (hrun' : c'.isRunning = false) (hopen' : c'.isOpen = false)

lemma Keeps.refl (c : AsyncTcpClient) : Keeps c c :=
  ⟨rfl, rfl, rfl, rfl, rfl, List.suffix_rfl⟩

lemma OuterRule.of_start (c : AsyncTcpClient) : OuterRule c .start c.start.2 := by
  cases hrun : c.isRunning with
  | true =>
    have hstart : c.start.2 = c := by simp [start, hrun]
    rw [hstart]
    exact .quiet (Keeps.refl c) rfl rfl rfl (by simp [callsStop])
  | false =>
    have hkeep : Keeps c c.start.2 := by
      simp only [start, hrun, Bool.false_eq_true, if_false]
      exact ⟨rfl, rfl, rfl, rfl, rfl, List.suffix_rfl⟩
    cases hopen : c.isOpen with
    | true =>
      exact .started hkeep (by simp [start, startRead, hrun, hopen]) hrun hopen
        (by simp [start, hrun]) (by simp [start, hrun, hopen]) rfl
    | false =>
      exact .restarted hkeep (by simp [start, startRead, hrun, hopen]) hrun hopen
        (by simp [start, hrun]) (by simp [start, hrun, hopen]) rfl

/-- `Stop` touches the two flags only, and leaves a running client closed. -/
lemma stop_eq (c : AsyncTcpClient) (e : Option ErrorCode) :
    (c.stop e).2 = { c with
      isRunning := false
      isOpen := if c.isRunning then false else c.isOpen } := by
  cases c with | mk isRunning isOpen => cases isRunning <;> cases isOpen <;> rfl

/-- Overwriting a buffer is nothing that the client can tell. -/
lemma overwrite_eq_some {c c' : AsyncTcpClient} {i : ℕ} {contents : List UInt8}
    (h : c.step (.overwrite i contents) = some c') :
    ∃ op, c.sends[i]? = some op ∧
      c' = { c with sends := c.sends.set i { op with contents := contents } } := by
  simp only [step, Option.bind_eq_bind, Option.bind_eq_some_iff] at h
  obtain ⟨op, hop, h⟩ := h
  split_ifs at h
  exact ⟨op, hop, (Option.some.inj h).symm⟩

/-- It leaves what the sends were given. -/
lemma data_set {sends : List SendOp} {i : ℕ} {op : SendOp} (h : sends[i]? = some op)
    (contents : List UInt8) :
    (sends.set i { op with contents := contents }).map SendOp.data = sends.map SendOp.data := by
  obtain ⟨l, r, hsplit, hset⟩ := Core.exists_split_set h
  rw [hset, hsplit, List.map_append, List.map_append, List.map_cons, List.map_cons]

lemma OuterRule.of_stop {c c' : AsyncTcpClient} {a : Label} (hkeep : Keeps c c')
    (hreads : c'.reads = c.reads) (hrun : c'.isRunning = c.isRunning)
    (hopen : c'.isOpen = c.isOpen) (hstop : c.callsStop a = true) :
    OuterRule c a (c'.stop none).2 := by
  have hkeep' : Keeps c (c'.stop none).2 := by
    rw [stop_eq]
    exact ⟨hkeep.headerBuffer, hkeep.buffer, hkeep.received, hkeep.events, hkeep.stream,
      hkeep.incoming⟩
  cases hr : c.isRunning with
  | true =>
    exact .stopped hkeep' (by simp [stop_eq, hreads]) hstop hr (by simp [stop_eq])
      (by simp [stop_eq, hrun, hr])
  | false =>
    exact .quiet hkeep' (by simp [stop_eq, hreads]) (by simp [stop_eq, hr])
      (by simp [stop_eq, hrun, hr, hopen]) (fun _ => hr)

lemma OuterRule.of_step {c c' : AsyncTcpClient} {a : Label} (ha : ∀ i l, a ≠ .read i l)
    (h : c.step a = some c') : OuterRule c a c' := by
  cases a with
  | start =>
    obtain rfl := Option.some.inj h
    exact of_start c
  | stop =>
    obtain rfl := Option.some.inj h
    exact of_stop (Keeps.refl c) rfl rfl rfl rfl
  | respond code message flags =>
    obtain rfl := Option.some.inj h
    exact .quiet ⟨rfl, rfl, rfl, rfl, rfl, List.suffix_rfl⟩ rfl rfl rfl (by simp [callsStop])
  | arrive n =>
    simp only [step] at h
    split_ifs at h with hn
    obtain rfl := Option.some.inj h
    exact .quiet ⟨rfl, rfl, rfl, rfl, by simp, List.drop_suffix _ _⟩ rfl rfl rfl
      (by simp [callsStop])
  | read i l => exact absurd rfl (ha i l)
  | overwrite i contents =>
    obtain ⟨op, -, rfl⟩ := overwrite_eq_some h
    exact .quiet ⟨rfl, rfl, rfl, rfl, rfl, List.suffix_rfl⟩ rfl rfl rfl (by simp [callsStop])
  | send sent err =>
    simp only [step] at h
    split at h
    · cases h
    · split_ifs at h with hsent
      obtain rfl := Option.some.inj h
      exact .quiet ⟨rfl, rfl, rfl, rfl, rfl, List.suffix_rfl⟩ rfl rfl rfl (by simp [callsStop])
  | handleWrite i =>
    simp only [step, Option.bind_eq_bind, Option.bind_eq_some_iff] at h
    obtain ⟨w, hw, h⟩ := h
    split_ifs at h with hfree
    obtain rfl := Option.some.inj h
    by_cases hfail : (w.err.isSome || w.sent != w.expected) = true
    · rw [handleWrite, if_pos hfail]
      exact of_stop ⟨rfl, rfl, rfl, rfl, rfl, List.suffix_rfl⟩ rfl rfl rfl
        (by simp only [callsStop, hw]; exact hfail)
    · rw [handleWrite, if_neg hfail]
      refine .quiet ⟨rfl, rfl, rfl, rfl, rfl, List.suffix_rfl⟩ rfl rfl rfl ?_
      intro hstop
      apply absurd _ hfail
      simpa only [callsStop, hw, Option.any_some] using hstop

end EzServer.Net.AsyncTcpClient
