import Mathlib.Data.List.Basic
import Mathlib.Data.List.TakeDrop
import Mathlib.Algebra.Order.Group.Nat

/-!
# Length-prefixed framing

A framing cuts a stream into frames: a header of a fixed positive size, which announces the
length of the body that follows it. `Framing.frames` reads a stream as far as it holds complete
frames; it inverts `Framing.encodeAll` and, on any stream, only depends on the bytes it has read.
-/

namespace EzServer.Core

universe u
variable {β : Type u}

/-- How a header announces the length of its body. -/
structure Framing (β : Type u) where
  headerSize : ℕ
  bodyLength : List β → ℕ
  headerSize_pos : 0 < headerSize

namespace Framing

/-- A frame: a full header and a body of the announced length. -/
@[ext] structure Frame (F : Framing β) where
  header : List β
  body : List β
  header_length : header.length = F.headerSize
  body_length : body.length = F.bodyLength header

instance {F : Framing β} [DecidableEq β] : DecidableEq F.Frame := fun f g =>
  decidable_of_iff (f.header = g.header ∧ f.body = g.body) Frame.ext_iff.symm

variable {F : Framing β}

/-- The bytes of a frame on the stream. -/
def Frame.encode (f : F.Frame) : List β := f.header ++ f.body

/-- The bytes of several frames, one after the other. -/
def encodeAll (fs : List F.Frame) : List β := fs.flatMap Frame.encode

/-- The first frame of a stream and what follows it. -/
def next (F : Framing β) (s : List β) : Option (F.Frame × List β) :=
  if h : F.headerSize ≤ s.length ∧
      F.bodyLength (s.take F.headerSize) ≤ (s.drop F.headerSize).length then
    some ({ header := s.take F.headerSize
            body := (s.drop F.headerSize).take (F.bodyLength (s.take F.headerSize))
            header_length := List.length_take_of_le h.1
            body_length := List.length_take_of_le h.2 },
          (s.drop F.headerSize).drop (F.bodyLength (s.take F.headerSize)))
  else none

/-- At most `fuel` frames of a stream. -/
def framesUpTo (F : Framing β) : ℕ → List β → List F.Frame
  | 0,        _ => []
  | fuel + 1, s =>
    match F.next s with
    | none        => []
    | some (f, r) => f :: framesUpTo F fuel r

/-- The complete frames at the front of a stream. -/
def frames (F : Framing β) (s : List β) : List F.Frame := F.framesUpTo s.length s

/-! ### One frame -/

@[simp] lemma Frame.length_encode (f : F.Frame) :
    f.encode.length = F.headerSize + f.body.length := by
  simp [encode, f.header_length]

lemma Frame.length_encode_pos (f : F.Frame) : 0 < f.encode.length := by
  have := F.headerSize_pos
  simp only [length_encode]
  omega

/-- A frame at the front of a stream is the one that is read. -/
lemma next_encode_append (f : F.Frame) (s : List β) : F.next (f.encode ++ s) = some (f, s) := by
  have hh : (f.header ++ f.body ++ s).take F.headerSize = f.header := by
    rw [List.append_assoc, ← f.header_length, List.take_left]
  have hd : (f.header ++ f.body ++ s).drop F.headerSize = f.body ++ s := by
    rw [List.append_assoc, ← f.header_length, List.drop_left]
  have hlen : F.headerSize ≤ (f.header ++ f.body ++ s).length ∧
      F.bodyLength f.header ≤ (f.body ++ s).length := by
    simp only [List.length_append, f.header_length, f.body_length]
    omega
  simp only [next, Frame.encode, hh, hd, dif_pos hlen, Option.some.injEq, Prod.mk.injEq]
  refine ⟨?_, ?_⟩
  · ext1
    · rfl
    · simp only [← f.body_length, List.take_left]
  · rw [← f.body_length, List.drop_left]

/-- Reading a frame takes exactly its bytes off the stream. -/
lemma eq_encode_append_of_next {s r : List β} {f : F.Frame} (h : F.next s = some (f, r)) :
    s = f.encode ++ r := by
  simp only [next] at h
  split_ifs at h with hlen
  obtain ⟨rfl, rfl⟩ := Prod.mk.inj (Option.some.inj h)
  simp only [Frame.encode, List.append_assoc, List.take_append_drop]

/-! ### Streams of frames -/

@[simp] lemma encodeAll_nil : encodeAll ([] : List F.Frame) = [] := rfl

@[simp] lemma encodeAll_cons (f : F.Frame) (fs : List F.Frame) :
    encodeAll (f :: fs) = f.encode ++ encodeAll fs := by simp [encodeAll]

@[simp] lemma encodeAll_append (fs gs : List F.Frame) :
    encodeAll (fs ++ gs) = encodeAll fs ++ encodeAll gs := by simp [encodeAll]

/-- Fuel beyond the length of the stream makes no difference. -/
lemma framesUpTo_eq_frames {s : List β} {fuel : ℕ} (h : s.length ≤ fuel) :
    F.framesUpTo fuel s = F.frames s := by
  induction fuel using Nat.strong_induction_on generalizing s with
  | _ fuel ih =>
    cases hnext : F.next s with
    | none => cases fuel <;> cases hs : s.length <;> simp [frames, framesUpTo, hs, hnext]
    | some p =>
      obtain ⟨f, r⟩ := p
      have hs : s.length = f.encode.length + r.length := by
        rw [eq_encode_append_of_next hnext, List.length_append]
      have hpos := f.length_encode_pos
      obtain ⟨n, rfl⟩ : ∃ n, fuel = n + 1 := ⟨fuel - 1, by omega⟩
      obtain ⟨m, hm⟩ : ∃ m, s.length = m + 1 := ⟨s.length - 1, by omega⟩
      have hn : F.framesUpTo n r = F.frames r := ih n (by omega) (by omega)
      have hm' : F.framesUpTo m r = F.frames r := ih m (by omega) (by omega)
      simp only [frames, hm, framesUpTo, hnext, List.cons.injEq, true_and]
      rw [hn, hm']

/-- Reading a stream that starts with a frame gives that frame first. -/
lemma frames_encode_append (f : F.Frame) (s : List β) :
    F.frames (f.encode ++ s) = f :: F.frames s := by
  have hpos := f.length_encode_pos
  obtain ⟨m, hm⟩ : ∃ m, (f.encode ++ s).length = m + 1 :=
    ⟨(f.encode ++ s).length - 1, by rw [List.length_append]; omega⟩
  have hs : s.length ≤ m := by rw [List.length_append] at hm; omega
  simp only [frames, hm, framesUpTo, next_encode_append, List.cons.injEq, true_and]
  exact framesUpTo_eq_frames hs

@[simp] lemma frames_nil : F.frames ([] : List β) = [] := rfl

/-- Reading a stream that starts with whole frames gives these frames first. -/
theorem frames_encodeAll_append (fs : List F.Frame) (s : List β) :
    F.frames (encodeAll fs ++ s) = fs ++ F.frames s := by
  induction fs with
  | nil => simp
  | cons f fs ih =>
    rw [encodeAll_cons, List.append_assoc, frames_encode_append, ih, List.cons_append]

/-- Reading inverts writing. -/
theorem frames_encodeAll (fs : List F.Frame) : F.frames (encodeAll fs) = fs := by
  simpa using frames_encodeAll_append fs []

/-- Whole frames at the front of a stream are the first frames read from it. -/
theorem take_frames_of_prefix {fs : List F.Frame} {s : List β} (h : encodeAll fs <+: s) :
    (F.frames s).take fs.length = fs := by
  obtain ⟨r, rfl⟩ := h
  rw [frames_encodeAll_append, List.take_left]

lemma encodeAll_injective : Function.Injective (encodeAll : List F.Frame → List β) :=
  fun fs gs h => by rw [← frames_encodeAll fs, h, frames_encodeAll]

/-- Reading beyond some whole frames of a stream of frames is reading the next frame. -/
theorem exists_next_frame {fs gs : List F.Frame} {part tail : List β}
    (h : encodeAll gs ++ part ++ tail = encodeAll fs) (hpart : part ≠ []) :
    ∃ f rest, fs = gs ++ f :: rest ∧ part ++ tail = f.encode ++ encodeAll rest := by
  have htake : fs.take gs.length = gs := by
    rw [← frames_encodeAll fs, ← h, List.append_assoc, frames_encodeAll_append, List.take_left]
  obtain ⟨rest, hrest⟩ : ∃ rest, fs = gs ++ rest := by
    refine ⟨fs.drop gs.length, ?_⟩
    conv_lhs => rw [← List.take_append_drop gs.length fs, htake]
  have hcancel : part ++ tail = encodeAll rest := by
    rw [hrest, encodeAll_append, List.append_assoc] at h
    exact List.append_cancel_left h
  cases rest with
  | nil => exact absurd (List.append_eq_nil_iff.mp hcancel).1 hpart
  | cons f rest => exact ⟨f, rest, hrest, by rw [hcancel, encodeAll_cons]⟩

/-! ### Parts of a stream -/

/-- The frames that are read from a stream are at its front. -/
lemma encodeAll_framesUpTo_prefix (fuel : ℕ) (s : List β) :
    encodeAll (F.framesUpTo fuel s) <+: s := by
  induction fuel generalizing s with
  | zero => exact List.nil_prefix
  | succ fuel ih =>
    rw [framesUpTo]
    cases hnext : F.next s with
    | none => exact List.nil_prefix
    | some p =>
      obtain ⟨f, r⟩ := p
      rw [eq_encode_append_of_next hnext, encodeAll_cons]
      exact (List.prefix_append_right_inj _).mpr (ih r)

lemma encodeAll_frames_prefix (s : List β) : encodeAll (F.frames s) <+: s :=
  encodeAll_framesUpTo_prefix _ _

/-- More bytes never change the frames that have been read. -/
theorem frames_prefix {s t : List β} (h : s <+: t) : F.frames s <+: F.frames t := by
  obtain ⟨r, hr⟩ := encodeAll_frames_prefix (F := F) s
  obtain ⟨tail, rfl⟩ := h
  have hfront : F.frames (s ++ tail) = F.frames s ++ F.frames (r ++ tail) := by
    conv_lhs => rw [← hr, List.append_assoc]
    exact frames_encodeAll_append _ _
  rw [hfront]
  exact List.prefix_append _ _

/-- Of a stream of frames that is cut off, the first frames are read. -/
theorem frames_isPrefix_of_encodeAll {fs : List F.Frame} {s : List β} (h : s <+: encodeAll fs) :
    F.frames s <+: fs := by
  have hpre := frames_prefix (F := F) h
  rwa [frames_encodeAll] at hpre

end Framing

end EzServer.Core
