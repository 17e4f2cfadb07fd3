import Meshwork.Frame.Basic

/-!
# Reading and writing frames

A node agrees to a largest payload. Frames above it are refused when they are written, and a header
that announces more is malformed. Main statements: `decode_bytes_append`, an encoded frame is read
back with whatever follows it, and `eq_bytes_append_of_decode`, nothing but encoded frames is read.
-/

namespace Meshwork

/-- The largest payload that the 16-bit length can announce. -/
def payloadLimit : Nat := 65531

inductive WireError where
  | payloadTooLarge (size limit : Nat)
  | malformed (declared : Nat)
deriving DecidableEq, Repr

def WireError.message : WireError → String
  | .payloadTooLarge size limit =>
    "payload of " ++ Numeral.decimal size ++ " bytes exceeds maximum of " ++ Numeral.decimal limit
  | .malformed declared => "malformed frame: declared length " ++ Numeral.decimal declared

structure Wire where
  maxPayload : Nat
  maxPayload_le : maxPayload ≤ payloadLimit
deriving DecidableEq, Repr

namespace Wire

/-- A request above what the format can announce is cut down to that. -/
def ofRequest (n : Nat) : Wire := ⟨min n payloadLimit, Nat.min_le_right ..⟩

def unlimited : Wire := ofRequest payloadLimit

/-- Appends a frame to a buffer. A frame that is refused leaves the buffer as it is. -/
def encodeInto (w : Wire) (f : Frame) (buffer : List UInt8) : Except WireError Unit × List UInt8 :=
  if w.maxPayload < f.payload.length then
    (.error (.payloadTooLarge f.payload.length w.maxPayload), buffer)
  else (.ok (), buffer ++ f.bytes)

def encode (w : Wire) (f : Frame) : Except WireError (List UInt8) :=
  match w.encodeInto f [] with
  | (.error e, _) => .error e
  | (.ok (), bytes) => .ok bytes

theorem encodeInto_of_le {w : Wire} {f : Frame} (h : f.payload.length ≤ w.maxPayload)
    (buffer : List UInt8) : w.encodeInto f buffer = (.ok (), buffer ++ f.bytes) :=
  if_neg (Nat.not_lt.2 h)

theorem encodeInto_of_lt {w : Wire} {f : Frame} (h : w.maxPayload < f.payload.length)
    (buffer : List UInt8) :
    w.encodeInto f buffer = (.error (.payloadTooLarge f.payload.length w.maxPayload), buffer) :=
  if_pos h

theorem encode_eq_ok_iff {w : Wire} {f : Frame} {bytes : List UInt8} :
    w.encode f = .ok bytes ↔ f.payload.length ≤ w.maxPayload ∧ bytes = f.bytes := by
  unfold encode
  by_cases h : f.payload.length ≤ w.maxPayload
  · simp [encodeInto_of_le h, h, eq_comm]
  · simp [encodeInto_of_lt (Nat.not_le.1 h), h]

def splitExact? {α : Type} : Nat → List α → Option (List α × List α)
  | 0, l => some ([], l)
  | _ + 1, [] => none
  | n + 1, a :: l => (splitExact? n l).map fun p => (a :: p.1, p.2)

/-- Reads the first frame and the bytes after it, or `none` if it is not complete. The length is
judged as soon as the header is there. -/
def decode (w : Wire) : List UInt8 → Except WireError (Option (Frame × List UInt8))
  | low :: high :: moduleId :: node :: dest :: kind :: body =>
    let declared := Frame.joinBytes low high
    if declared < 4 ∨ w.maxPayload < declared - 4 then .error (.malformed declared)
    else .ok ((splitExact? (declared - 4) body).map fun p =>
      ({ source := ⟨⟨node⟩, moduleId⟩, dest, kind, payload := p.1 }, p.2))
  | _ => .ok none

theorem splitExact?_append {α : Type} (a b : List α) :
    splitExact? a.length (a ++ b) = some (a, b) := by
  induction a with
  | nil => cases b <;> rfl
  | cons x xs ih => simp [splitExact?, ih]

theorem eq_append_of_splitExact? {α : Type} {n : Nat} {l a b : List α}
    (h : splitExact? n l = some (a, b)) : l = a ++ b ∧ a.length = n := by
  induction n generalizing l a with
  | zero =>
    simp only [splitExact?, Option.some.injEq, Prod.mk.injEq] at h
    obtain ⟨rfl, rfl⟩ := h
    exact ⟨rfl, rfl⟩
  | succ n ih =>
    cases l with
    | nil => simp [splitExact?] at h
    | cons x xs =>
      simp only [splitExact?, Option.map_eq_some_iff, Prod.mk.injEq] at h
      obtain ⟨p, hp, rfl, rfl⟩ := h
      obtain ⟨h₁, h₂⟩ := ih hp
      refine ⟨?_, by simp [h₂]⟩
      rw [h₁, List.cons_append]

theorem decode_bytes_append {w : Wire} {f : Frame} (h : f.payload.length ≤ w.maxPayload)
    (rest : List UInt8) : w.decode (f.bytes ++ rest) = .ok (some (f, rest)) := by
  have hle := w.maxPayload_le
  have hd : Frame.joinBytes (Frame.lowByte (f.payload.length + 4))
      (Frame.highByte (f.payload.length + 4)) = f.payload.length + 4 :=
    Frame.joinBytes_lowByte_highByte (by simp only [payloadLimit] at hle; omega)
  simp only [Frame.bytes, List.cons_append, decode, hd]
  rw [if_neg (by omega), Nat.add_sub_cancel, splitExact?_append]
  rfl

theorem eq_bytes_append_of_decode {w : Wire} {buf rest : List UInt8} {f : Frame}
    (h : w.decode buf = .ok (some (f, rest))) :
    buf = f.bytes ++ rest ∧ f.payload.length ≤ w.maxPayload := by
  match buf with
  | low :: high :: moduleId :: node :: dest :: kind :: body =>
    rw [decode] at h
    split at h
    · cases h
    · rename_i hlen
      simp only [Except.ok.injEq, Option.map_eq_some_iff, Prod.mk.injEq] at h
      obtain ⟨p, hp, rfl, rfl⟩ := h
      obtain ⟨hb, hn⟩ := eq_append_of_splitExact? (a := p.1) (b := p.2) hp
      have h4 : p.1.length + 4 = Frame.joinBytes low high := by omega
      refine ⟨?_, by simp only; omega⟩
      rw [Frame.bytes]
      simp only [h4, Frame.lowByte_joinBytes, Frame.highByte_joinBytes, List.cons_append]
      rw [hb]
  | [] | [_] | [_, _] | [_, _, _] | [_, _, _, _] | [_, _, _, _, _] => simp [decode] at h

theorem length_lt_of_decode {w : Wire} {buf rest : List UInt8} {f : Frame}
    (h : w.decode buf = .ok (some (f, rest))) : rest.length < buf.length := by
  rw [(eq_bytes_append_of_decode h).1, List.length_append, Frame.length_bytes, Frame.size,
    Frame.headerSize]
  omega

/-- All complete frames at the front of a byte string, the bytes after them, and why reading stopped
if it did not run out of bytes. -/
structure Batch where
  frames : List Frame
  rest : List UInt8
  error : Option WireError
deriving Repr

def Batch.consumed (b : Batch) : Nat := b.frames.foldr (fun f n => f.size + n) 0

def decodeAll (w : Wire) (buf : List UInt8) : Batch :=
  match _h : w.decode buf with
  | .error e => { frames := [], rest := buf, error := some e }
  | .ok none => { frames := [], rest := buf, error := none }
  | .ok (some (f, rest)) =>
    let later := w.decodeAll rest
    { later with frames := f :: later.frames }
termination_by buf.length
decreasing_by exact length_lt_of_decode _h

/-- Reads a byte stream that arrives in chunks, one batch a chunk. Bytes that belong to no complete
frame wait for the next chunk. -/
def feed (w : Wire) (buffer : List UInt8) : List (List UInt8) → List Batch
  | [] => []
  | chunk :: chunks =>
    let batch := w.decodeAll (buffer ++ chunk)
    batch :: w.feed batch.rest chunks

end Wire

end Meshwork
