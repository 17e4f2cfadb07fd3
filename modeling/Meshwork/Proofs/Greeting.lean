import Meshwork.Proofs.Announcement
import Meshwork.Proofs.Frame.Batch

/-!
# Greetings read back

Whoever connects to a center reads one greeting from what has arrived so far, and waits for more as
long as it is not complete. Main statement: `readChunks_eq`, the greeting is read however its bytes
are cut, and no byte after it is lost.
-/

namespace Meshwork.Greeting

variable {w : Wire} {f : Frame} {g : Greeting} {buffer rest : List UInt8}
  {chunks : List (List UInt8)}

theorem readHandle_decimal (h : Handle) :
    Command.readHandle 10 (Numeral.decimal h.number) = .ok h := by
  simp [Command.readHandle, Numeral.readBelow?_decimal h.number_lt]

theorem parse_text (g : Greeting) : parse (Text.utf8 g.text) = .ok g := by
  have hwords :
      Text.words g.text = [Numeral.decimal g.center.number, Numeral.decimal g.mesh.number] := by
    refine Text.words_unwords fun w hw => ?_
    simp only [List.mem_cons, List.not_mem_nil, or_false] at hw
    rcases hw with rfl | rfl <;> exact Numeral.isWord_decimal _
  rw [parse, Text.ofUtf8?_utf8]
  simp only [hwords, ofWords, readHandle_decimal]
  rfl

/-- Reads a greeting that arrives in chunks: the greeting, what arrived after it, and the chunks
that were not needed; `none` if all chunks end before it does. -/
def readChunks (w : Wire) (buffer : List UInt8) :
    List (List UInt8) → Except ReadError (Option (Greeting × List UInt8 × List (List UInt8)))
  | [] => (read w buffer).map fun found => found.map fun (g, pending) => (g, pending, [])
  | chunk :: chunks =>
    match read w buffer with
    | .error e => .error e
    | .ok (some (g, pending)) => .ok (some (g, pending, chunk :: chunks))
    | .ok none => readChunks w (buffer ++ chunk) chunks

/-- Which of the chunks are read: all of them, unless before that there is a frame or a fault. -/
structure Taken (w : Wire) (buffer : List UInt8)
    (chunks taken later : List (List UInt8)) : Prop where
  append : taken ++ later = chunks
  read_eq : readChunks w buffer chunks = (read w (buffer ++ taken.flatten)).map fun found =>
    found.map fun (g, pending) => (g, pending, later)
  all : w.decode (buffer ++ taken.flatten) = .ok none → later = []

theorem exists_taken (w : Wire) (buffer : List UInt8) (chunks : List (List UInt8)) :
    ∃ taken later, Taken w buffer chunks taken later := by
  induction chunks generalizing buffer with
  | nil => exact ⟨[], [], rfl, by simp [readChunks], fun _ => rfl⟩
  | cons chunk chunks ih =>
    by_cases hbuffer : w.decode buffer = .ok none
    · obtain ⟨taken, later, rfl, hread, hall⟩ := ih (buffer ++ chunk)
      have hwait : read w buffer = .ok none := by simp only [read, hbuffer]
      refine ⟨chunk :: taken, later, rfl, ?_, ?_⟩
      · rw [readChunks, hwait, List.flatten_cons, ← List.append_assoc]
        exact hread
      · rw [List.flatten_cons, ← List.append_assoc]
        exact hall
    · refine ⟨[], chunk :: chunks, rfl, ?_, fun hnone => absurd ?_ hbuffer⟩
      · rw [List.flatten_nil, List.append_nil, readChunks]
        cases hd : w.decode buffer with
        | error e => simp [read, hd, Except.map]
        | ok found =>
          cases found with
          | none => exact absurd hd hbuffer
          | some found => cases hp : parse found.1.payload <;> simp [read, hd, hp, Except.map]
      · rwa [List.flatten_nil, List.append_nil] at hnone

/-- What is read depends on the bytes and not on how they are cut. -/
theorem readChunks_eq (w : Wire) (buffer : List UInt8) (chunks : List (List UInt8)) :
    match w.decode (buffer ++ chunks.flatten) with
    | .error e => readChunks w buffer chunks = .error (.wire e)
    | .ok none => readChunks w buffer chunks = .ok none
    | .ok (some (f, rest)) =>
      match parse f.payload with
      | .error e => readChunks w buffer chunks = .error (.command e)
      | .ok g => ∃ pending later, readChunks w buffer chunks = .ok (some (g, pending, later)) ∧
          pending ++ later.flatten = rest := by
  obtain ⟨taken, later, rfl, hread, hall⟩ := exists_taken w buffer chunks
  rw [hread, List.flatten_append, ← List.append_assoc]
  cases hd : w.decode (buffer ++ taken.flatten) with
  | error e =>
    rw [Wire.decode_append_of_error hd]
    simp [read, hd, Except.map]
  | ok found =>
    cases found with
    | none =>
      rw [hall hd, List.flatten_nil, List.append_nil, hd]
      simp [read, hd, Except.map]
    | some found =>
      obtain ⟨f, pending⟩ := found
      rw [Wire.decode_append_of_frame hd]
      cases hp : parse f.payload with
      | error e => simp [read, hd, hp, Except.map]
      | ok g =>
        simp only [hp]
        exact ⟨pending, later, by simp [read, hd, hp, Except.map], rfl⟩

theorem readChunks_of_frame (hdecode : w.decode (buffer ++ chunks.flatten) = .ok (some (f, rest)))
    (hparse : parse f.payload = .ok g) :
    ∃ pending later, readChunks w buffer chunks = .ok (some (g, pending, later)) ∧
      pending ++ later.flatten = rest := by
  simpa only [hdecode, hparse] using readChunks_eq w buffer chunks

end Meshwork.Greeting
