import EzServer.Net.LengthField
import EzServer.Net.ResponseStream

/-!
# What the peer reads

A peer that cuts the bytes it gets into frames, as the server does with its own, and takes the code
and the flags off each header gets back the responses. The length field holds 32 bits, so this is
about messages that are shorter than `2 ^ 32`.
-/

namespace EzServer.Net

open EzServer.Core EzServer.Core.Framing

namespace ResponseCode

/-- The response code that is sent as this byte. -/
def ofUInt8 (b : UInt8) : Option ResponseCode :=
  [kSuccess, kFailure, kInvalidRequest, kCommandNotFound, kEmptyMessage].find? (·.toUInt8 == b)

/-- No two codes are sent as the same byte. -/
@[simp] lemma ofUInt8_toUInt8 (code : ResponseCode) : ofUInt8 code.toUInt8 = some code := by
  cases code <;> rfl

end ResponseCode

namespace Response

/-- The length of the message fits the length field. -/
def Fits (r : Response) : Prop := r.message.length < 2 ^ 32

instance Fits.decidable (r : Response) : Decidable r.Fits :=
  inferInstanceAs (Decidable (r.message.length < 2 ^ 32))

/-- The response in a frame. -/
def ofFrame (f : requestFraming.Frame) : Option Response := do
  let code ← ResponseCode.ofUInt8 (f.header.getD 0 0)
  return ⟨code, f.body, f.header.getD 1 0⟩

/-- The responses that a peer reads. -/
def read (bytes : List UInt8) : List Response := (requestFraming.frames bytes).filterMap ofFrame

lemma littleEndianLength_header (r : Response) (h : r.Fits) :
    littleEndianLength r.header = r.message.length := by
  have hlt : r.message.length < 2 ^ 32 := h
  rw [← toNat_msgLength, header, toNat_msgLength_responseHeader, UInt64.toNat_ofNat']
  omega

/-- The frame of a response that fits. -/
def toFrame (r : Response) (h : r.Fits) : requestFraming.Frame where
  header := r.header
  body := r.message
  header_length := rfl
  body_length := (r.littleEndianLength_header h).symm

lemma ofFrame_toFrame (r : Response) (h : r.Fits) : ofFrame (r.toFrame h) = some r := by
  show (ResponseCode.ofUInt8 r.code.toUInt8).bind _ = _
  rw [ResponseCode.ofUInt8_toUInt8]
  rfl

/-- Responses that fit are frames on the wire. -/
lemma exists_frames {rs : List Response} (h : ∀ r ∈ rs, r.Fits) :
    ∃ fs : List requestFraming.Frame, encodeAll fs = rs.flatMap frame ∧
      fs.map ofFrame = rs.map some := by
  induction rs with
  | nil => exact ⟨[], rfl, rfl⟩
  | cons r rs ih =>
    obtain ⟨fs, hbytes, hread⟩ := ih fun r' hr' => h r' (List.mem_cons_of_mem _ hr')
    have hr : r.Fits := h r List.mem_cons_self
    refine ⟨r.toFrame hr :: fs, ?_, ?_⟩
    · rw [encodeAll_cons, List.flatMap_cons, hbytes]
      rfl
    · rw [List.map_cons, List.map_cons, ofFrame_toFrame, hread]

lemma filterMap_ofFrame {fs : List requestFraming.Frame} {rs : List Response}
    (h : fs.map ofFrame = rs.map some) : fs.filterMap ofFrame = rs := calc
  fs.filterMap ofFrame = (fs.map ofFrame).filterMap id := by simp [List.filterMap_map]
  _ = (rs.map some).filterMap id := by rw [h]
  _ = rs := by simp [List.filterMap_map]

/-- Reading inverts writing. -/
lemma read_flatMap_frame {rs : List Response} (h : ∀ r ∈ rs, r.Fits) :
    read (rs.flatMap frame) = rs := by
  obtain ⟨fs, hbytes, hread⟩ := exists_frames h
  rw [read, ← hbytes, frames_encodeAll]
  exact filterMap_ofFrame hread

/-- From the front of what was written the first responses are read. -/
lemma read_prefix_of_prefix {rs : List Response} {bytes : List UInt8} (h : ∀ r ∈ rs, r.Fits)
    (hpre : bytes <+: rs.flatMap frame) : read bytes <+: rs := by
  obtain ⟨fs, hbytes, hread⟩ := exists_frames h
  rw [← hbytes] at hpre
  rw [← filterMap_ofFrame hread]
  exact (frames_isPrefix_of_encodeAll hpre).filterMap ofFrame

end Response

namespace Responder

lemma Orderly.run {s t : Responder} {ls : List ResponderLabel} (hs : Orderly s)
    (hls : Core.EveryStep Responder.step (fun s a => s.orderly a = true) s ls)
    (hrun : Core.run Responder.step s ls = some t) : Orderly t :=
  Core.run_invariant_of_everyStep (fun _ _ _ hs ha h => Orderly.step hs ha h) hs hls hrun

/-- When all messages fit the length field, headers and messages do not interleave, nothing follows a
truncated send and every send finds what it was given, the peer reads the responses whose headers
were sent, in that order and with their codes, flags and messages: as many of them as have arrived,
and all of them once every send has been completed in full. -/
theorem read_wire_of_orderly {stream : List UInt8} {ls : List ResponderLabel} {s : Responder}
    (hls : Core.EveryStep step (fun s a => s.orderly a = true) (init stream) ls)
    (hrun : Core.run step (init stream) ls = some s) (hfits : ∀ r ∈ s.calls, r.Fits) :
    Response.read s.client.wire <+: s.begun.map Prod.fst ∧
      (s.truncated = false → s.client.sends = [] → (∀ p ∈ s.begun, p.2 = true) →
        Response.read s.client.wire = s.begun.map Prod.fst) := by
  have hs := (Orderly.init stream).run hls hrun
  have hbegun : ∀ r ∈ s.begun.map Prod.fst, r.Fits := fun r hr =>
    hfits r (List.mem_append_right _ hr)
  constructor
  · exact Response.read_prefix_of_prefix hbegun hs.isPrefix
  · intro htruncated hsends hsent
    have hwhole := hs.whole htruncated
    have hmissing : missing s.begun = [] := missing_eq_nil fun p hp => Or.inl (hsent p hp)
    rw [pending, hsends, hmissing] at hwhole
    simp only [List.flatMap_nil, List.append_nil] at hwhole
    rw [hwhole, frames]
    exact Response.read_flatMap_frame hbegun

/-- Two calls on different threads, the second of which has its message sent in two parts. -/
theorem read_wire_of_orderly_two :
    ∃ s, Core.run step (init [])
        [.call ⟨.kSuccess, [65], 0⟩, .call ⟨.kFailure, [66, 67], 1⟩, .sendHeader 1, .sendMessage 0,
          .sendHeader 0, .transfer 8 none, .sendMessage 1, .transfer 2 none, .transfer 8 none,
          .transfer 1 none] = some s ∧
      (Response.read s.client.wire <+: s.begun.map Prod.fst ∧
        (s.truncated = false → s.client.sends = [] → (∀ p ∈ s.begun, p.2 = true) →
          Response.read s.client.wire = s.begun.map Prod.fst)) :=
  ⟨_, rfl, @read_wire_of_orderly [] [.call ⟨.kSuccess, [65], 0⟩, .call ⟨.kFailure, [66, 67], 1⟩,
    .sendHeader 1, .sendMessage 0, .sendHeader 0, .transfer 8 none, .sendMessage 1,
    .transfer 2 none, .transfer 8 none, .transfer 1 none] _ (by decide) rfl
    (by decide)⟩

end Responder

end EzServer.Net
