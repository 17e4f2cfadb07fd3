import Meshwork.Frame.Wire

/-!
# Sequences of frames

A batch holds the frames at the front of a byte string, and ends where no frame can be read. Main
statement: `decodeAll_encodings`, frames that were written one after the other are read back, and
nothing else is read.
-/

namespace Meshwork

def Frame.Declares (declared : Nat) (bytes : List UInt8) : Prop :=
  ∃ low high rest, bytes = low :: high :: rest ∧ 4 ≤ rest.length ∧ joinBytes low high = declared

namespace Wire

/-- The header is not complete, or it is that of an acceptable frame of which some bytes are still
to come. -/
def Incomplete (w : Wire) (bytes : List UInt8) : Prop :=
  bytes.length < Frame.headerSize ∨
    ∃ (f : Frame) (more : List UInt8),
      f.payload.length ≤ w.maxPayload ∧ f.bytes = bytes ++ more ∧ more ≠ []

variable {w : Wire} {buf rest : List UInt8} {f : Frame} {frames : List Frame} {e : WireError}

theorem splitExact?_eq_none_iff {α : Type} {n : Nat} {l : List α} :
    splitExact? n l = none ↔ l.length < n := by
  induction n generalizing l with
  | zero => cases l <;> simp [splitExact?]
  | succ n ih =>
    cases l with
    | nil => simp [splitExact?]
    | cons a l => simp [splitExact?, ih]

theorem decode_of_short (h : buf.length < Frame.headerSize) : w.decode buf = .ok none := by
  match buf with
  | [] | [_] | [_, _] | [_, _, _] | [_, _, _, _] | [_, _, _, _, _] => rfl
  | _ :: _ :: _ :: _ :: _ :: _ :: _ =>
    simp only [Frame.headerSize, List.length_cons] at h
    omega

theorem exists_header (h : Frame.headerSize ≤ buf.length) :
    ∃ low high moduleId node dest kind body,
      buf = low :: high :: moduleId :: node :: dest :: kind :: body := by
  match buf with
  | [] | [_] | [_, _] | [_, _, _] | [_, _, _, _] | [_, _, _, _, _] => simp [Frame.headerSize] at h
  | low :: high :: moduleId :: node :: dest :: kind :: body =>
    exact ⟨low, high, moduleId, node, dest, kind, body, rfl⟩

theorem declares_bytes (h : f.payload.length ≤ w.maxPayload) :
    Frame.Declares (f.payload.length + 4) f.bytes := by
  have hle := w.maxPayload_le
  refine ⟨_, _, _, rfl, by simp, Frame.joinBytes_lowByte_highByte ?_⟩
  simp only [payloadLimit] at hle
  omega

theorem decode_eq_error_iff : w.decode buf = .error e ↔
    ∃ declared, e = .malformed declared ∧ Frame.Declares declared buf ∧
      (declared < 4 ∨ w.maxPayload + 4 < declared) := by
  constructor
  · intro h
    by_cases hshort : buf.length < Frame.headerSize
    · rw [decode_of_short hshort] at h
      cases h
    · obtain ⟨low, high, moduleId, node, dest, kind, body, rfl⟩ :=
        exists_header (Nat.not_lt.1 hshort)
      rw [decode] at h
      split at h
      · rename_i hlen
        cases h
        exact ⟨_, rfl, ⟨low, high, _, rfl, by simp, rfl⟩, by omega⟩
      · cases h
  · rintro ⟨declared, rfl, ⟨low, high, rest, rfl, hrest, rfl⟩, hlen⟩
    have hheader : Frame.headerSize ≤ (low :: high :: rest).length := by
      simp only [Frame.headerSize, List.length_cons]
      omega
    obtain ⟨low, high, moduleId, node, dest, kind, body, heq⟩ := exists_header hheader
    cases heq
    rw [decode, if_pos (by omega)]

theorem decode_append_of_frame (h : w.decode buf = .ok (some (f, rest))) (more : List UInt8) :
    w.decode (buf ++ more) = .ok (some (f, rest ++ more)) := by
  obtain ⟨rfl, hfit⟩ := eq_bytes_append_of_decode h
  rw [List.append_assoc]
  exact decode_bytes_append hfit _

theorem decode_append_of_error (h : w.decode buf = .error e) (more : List UInt8) :
    w.decode (buf ++ more) = .error e := by
  obtain ⟨declared, rfl, ⟨low, high, rest, rfl, hrest, hdeclared⟩, hlen⟩ := decode_eq_error_iff.1 h
  refine decode_eq_error_iff.2 ⟨declared, rfl, ⟨low, high, rest ++ more, rfl, ?_, hdeclared⟩, hlen⟩
  rw [List.length_append]
  omega

theorem decode_eq_none_iff : w.decode buf = .ok none ↔ w.Incomplete buf := by
  constructor
  · intro h
    by_cases hshort : buf.length < Frame.headerSize
    · exact .inl hshort
    obtain ⟨low, high, moduleId, node, dest, kind, body, rfl⟩ := exists_header (Nat.not_lt.1 hshort)
    rw [decode] at h
    split at h
    · cases h
    rename_i hlen
    simp only [Except.ok.injEq, Option.map_eq_none_iff, splitExact?_eq_none_iff] at h
    -- any bytes will do for those that are still to come
    let missing : List UInt8 := List.replicate (Frame.joinBytes low high - 4 - body.length) 0
    have hpayload : (body ++ missing).length + 4 = Frame.joinBytes low high := by
      simp only [missing, List.length_append, List.length_replicate]
      omega
    refine .inr ⟨⟨⟨⟨node⟩, moduleId⟩, dest, kind, body ++ missing⟩, missing, ?_, ?_, ?_⟩
    · simp only
      omega
    · simp only [Frame.bytes, hpayload, Frame.lowByte_joinBytes, Frame.highByte_joinBytes,
        List.cons_append]
    · simp only [missing, ne_eq, List.replicate_eq_nil_iff]
      omega
  · rintro (hshort | ⟨f, more, hfit, hbytes, hmore⟩)
    · exact decode_of_short hshort
    have hwhole : w.decode (buf ++ more) = .ok (some (f, [])) := by
      rw [← hbytes, ← List.append_nil f.bytes]
      exact decode_bytes_append hfit []
    cases h : w.decode buf with
    | error e =>
      rw [decode_append_of_error h] at hwhole
      cases hwhole
    | ok read =>
      cases read with
      | none => rfl
      | some front =>
        rw [decode_append_of_frame h] at hwhole
        simp [hmore] at hwhole

theorem decodeAll_of_error (h : w.decode buf = .error e) : w.decodeAll buf = ⟨[], buf, some e⟩ := by
  rw [decodeAll]
  split <;> simp_all

theorem decodeAll_of_none (h : w.decode buf = .ok none) : w.decodeAll buf = ⟨[], buf, none⟩ := by
  rw [decodeAll]
  split <;> simp_all

theorem decodeAll_of_frame (h : w.decode buf = .ok (some (f, rest))) :
    w.decodeAll buf = { w.decodeAll rest with frames := f :: (w.decodeAll rest).frames } := by
  rw [decodeAll]
  split <;> simp_all

/-- To prove something of all byte strings, prove it where no frame can be read, and of a string
with a frame in front if it holds of what follows the frame. -/
theorem batch_induction {P : List UInt8 → Prop} (w : Wire) (buf : List UInt8)
    (error : ∀ buf e, w.decode buf = .error e → P buf)
    (none : ∀ buf, w.decode buf = .ok none → P buf)
    (frame : ∀ buf f rest, w.decode buf = .ok (some (f, rest)) → P rest → P buf) : P buf := by
  induction hn : buf.length using Nat.strongRecOn generalizing buf with
  | _ n ih =>
    match h : w.decode buf with
    | .error e => exact error buf e h
    | .ok .none => exact none buf h
    | .ok (some (f, rest)) =>
      exact frame buf f rest h (ih rest.length (hn ▸ length_lt_of_decode h) rest rfl)

theorem length_flatMap_bytes (b : Batch) : (b.frames.flatMap Frame.bytes).length = b.consumed := by
  unfold Batch.consumed
  induction b.frames with
  | nil => rfl
  | cons f frames ih => simp [ih, Frame.length_bytes]

theorem flatMap_bytes_append_rest (w : Wire) (buf : List UInt8) :
    (w.decodeAll buf).frames.flatMap Frame.bytes ++ (w.decodeAll buf).rest = buf ∧
      ∀ f ∈ (w.decodeAll buf).frames, f.payload.length ≤ w.maxPayload := by
  induction buf using batch_induction w with
  | error buf e h => simp [decodeAll_of_error h]
  | none buf h => simp [decodeAll_of_none h]
  | frame buf f rest h ih =>
    obtain ⟨rfl, hfit⟩ := eq_bytes_append_of_decode h
    rw [decodeAll_of_frame h]
    refine ⟨?_, List.forall_mem_cons.2 ⟨hfit, ih.2⟩⟩
    rw [List.flatMap_cons, List.append_assoc, ih.1]

theorem decode_rest (w : Wire) (buf : List UInt8) :
    w.decode (w.decodeAll buf).rest =
      match (w.decodeAll buf).error with
      | none => .ok none
      | some e => .error e := by
  induction buf using batch_induction w with
  | error buf e h => simpa [decodeAll_of_error h] using h
  | none buf h => simpa [decodeAll_of_none h] using h
  | frame buf f rest h ih => simpa [decodeAll_of_frame h] using ih

theorem decodeAll_flatMap_append (h : ∀ f ∈ frames, f.payload.length ≤ w.maxPayload)
    (tail : List UInt8) :
    w.decodeAll (frames.flatMap Frame.bytes ++ tail) =
      { w.decodeAll tail with frames := frames ++ (w.decodeAll tail).frames } := by
  induction frames with
  | nil => rfl
  | cons f frames ih =>
    rw [List.forall_mem_cons] at h
    have hf := decode_bytes_append h.1 (frames.flatMap Frame.bytes ++ tail)
    rw [List.flatMap_cons, List.append_assoc, decodeAll_of_frame hf, ih h.2]
    rfl

theorem mapM_encode (h : ∀ f ∈ frames, f.payload.length ≤ w.maxPayload) :
    frames.mapM w.encode = .ok (frames.map Frame.bytes) := by
  induction frames with
  | nil => rfl
  | cons f frames ih =>
    rw [List.forall_mem_cons] at h
    have hf : w.encode f = .ok f.bytes := encode_eq_ok_iff.2 ⟨h.1, rfl⟩
    rw [List.mapM_cons, hf, ih h.2]
    rfl

theorem headerSize_mul_length_le (b : Batch) : Frame.headerSize * b.frames.length ≤ b.consumed := by
  unfold Batch.consumed
  induction b.frames with
  | nil => simp
  | cons f frames ih =>
    have hsize : Frame.headerSize ≤ f.size := Nat.le_add_right ..
    simp only [List.length_cons, List.foldr_cons, Nat.mul_succ]
    omega

/-- With every limit that is asked for: frames that fit are written, and are read back in one batch
with anything after them that is no frame yet. Every batch is made of what its frames are written
as; what it leaves is no frame yet, or is refused for the length that it declares; and it takes no
more rounds than headers fit into the bytes. Only a payload above the limit is refused, which
changes no buffer, and the declared length is exact. -/
theorem decodeAll_encodings (request : Nat) :
    let w := Wire.ofRequest request
    w.maxPayload = min request 65531 ∧
    (∀ frames : List Frame, (∀ f ∈ frames, f.payload.length ≤ w.maxPayload) →
      ∃ pieces, frames.mapM w.encode = .ok pieces ∧ ∀ tail, w.Incomplete tail →
        w.decodeAll (pieces.flatten ++ tail) = { frames, rest := tail, error := none } ∧
          (w.decodeAll (pieces.flatten ++ tail)).consumed = pieces.flatten.length) ∧
    (∀ buf, let b := w.decodeAll buf
      ∃ pieces, b.frames.mapM w.encode = .ok pieces ∧ buf.take b.consumed = pieces.flatten ∧
        b.rest = buf.drop b.consumed ∧ Frame.headerSize * b.frames.length ≤ buf.length ∧
        (b.error = none ∧ w.Incomplete b.rest ∨
          ∃ declared, b.error = some (.malformed declared) ∧ Frame.Declares declared b.rest ∧
            (declared < 4 ∨ w.maxPayload + 4 < declared))) ∧
    ∀ f buffer, match w.encodeInto f buffer with
      | (.error e, after) =>
        w.maxPayload < f.payload.length ∧ e = .payloadTooLarge f.payload.length w.maxPayload ∧
          after = buffer
      | (.ok (), after) =>
        f.payload.length ≤ w.maxPayload ∧ ∃ bytes, w.encode f = .ok bytes ∧
          after = buffer ++ bytes ∧
          Frame.Declares (f.payload.length + 4) bytes ∧
          bytes.length = f.payload.length + 4 + 2 := by
  intro w
  refine ⟨rfl, fun frames hfit => ⟨_, mapM_encode hfit, fun tail htail => ?_⟩, fun buf => ?_,
    fun f buffer => ?_⟩
  · have hbatch := decodeAll_flatMap_append hfit tail
    rw [decodeAll_of_none (decode_eq_none_iff.2 htail), List.append_nil] at hbatch
    rw [← List.flatMap_def, hbatch]
    exact ⟨rfl, (length_flatMap_bytes _).symm⟩
  · intro b
    obtain ⟨hbuf, hfit⟩ : b.frames.flatMap Frame.bytes ++ b.rest = buf ∧ _ :=
      flatMap_bytes_append_rest w buf
    have hlength : (b.frames.flatMap Frame.bytes).length = b.consumed := length_flatMap_bytes b
    have hstop := decode_rest w buf
    have htake : buf.take b.consumed = b.frames.flatMap Frame.bytes := by
      rw [← hlength, ← hbuf, List.take_left]
    have hdrop : buf.drop b.consumed = b.rest := by
      rw [← hlength, ← hbuf, List.drop_left]
    have hle : b.consumed ≤ buf.length := by
      rw [← hlength, ← hbuf, List.length_append]
      exact Nat.le_add_right ..
    refine ⟨_, mapM_encode hfit, by rw [htake, List.flatMap_def], hdrop.symm,
      Nat.le_trans (headerSize_mul_length_le b) hle, ?_⟩
    cases herror : b.error with
    | none =>
      rw [herror] at hstop
      exact .inl ⟨rfl, decode_eq_none_iff.1 hstop⟩
    | some e =>
      rw [herror] at hstop
      obtain ⟨declared, rfl, hdeclares, hlen⟩ := decode_eq_error_iff.1 hstop
      exact .inr ⟨declared, rfl, hdeclares, hlen⟩
  · by_cases h : f.payload.length ≤ w.maxPayload
    · rw [encodeInto_of_le h]
      refine ⟨h, f.bytes, encode_eq_ok_iff.2 ⟨h, rfl⟩, rfl, declares_bytes h, ?_⟩
      rw [Frame.length_bytes, Frame.size, Frame.headerSize]
      omega
    · rw [encodeInto_of_lt (Nat.not_le.1 h)]
      exact ⟨Nat.not_le.1 h, rfl, rfl⟩

end Wire

end Meshwork
