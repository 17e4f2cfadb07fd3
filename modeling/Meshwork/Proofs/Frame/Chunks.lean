import Mathlib.Algebra.GroupWithZero.Nat
import Meshwork.Proofs.Frame.Batch

/-!
# Streams in chunks

How a byte stream is cut into chunks does not show. Main statement: `feed_eq_decodeAll`, the batches
that come of the chunks are together the batch of the whole stream, and after an error there is
nothing but that error.
-/

namespace Meshwork.Wire

variable {w : Wire} {buffer chunk : List UInt8} {chunks : List (List UInt8)} {b : Batch}
  {e : WireError}

theorem decodeAll_append (w : Wire) (buf more : List UInt8) :
    w.decodeAll (buf ++ more) =
      { w.decodeAll ((w.decodeAll buf).rest ++ more) with
        frames := (w.decodeAll buf).frames ++
          (w.decodeAll ((w.decodeAll buf).rest ++ more)).frames } := by
  induction buf using batch_induction w with
  | error buf e h => simp [decodeAll_of_error h]
  | none buf h => simp [decodeAll_of_none h]
  | frame buf f rest h ih =>
    rw [decodeAll_of_frame h, decodeAll_of_frame (decode_append_of_frame h more), ih]
    rfl

theorem length_feed (w : Wire) (buffer : List UInt8) (chunks : List (List UInt8)) :
    (w.feed buffer chunks).length = chunks.length := by
  induction chunks generalizing buffer with
  | nil => rfl
  | cons chunk chunks ih => rw [feed, List.length_cons, ih, List.length_cons]

theorem feed_cons (w : Wire) (buffer chunk : List UInt8) (chunks : List (List UInt8)) :
    (w.feed buffer (chunk :: chunks)).flatMap (·.frames) =
        (w.decodeAll (buffer ++ (chunk :: chunks).flatten)).frames ∧
      ∃ last, (w.feed buffer (chunk :: chunks)).getLast? = some last ∧
        last.rest = (w.decodeAll (buffer ++ (chunk :: chunks).flatten)).rest ∧
        last.error = (w.decodeAll (buffer ++ (chunk :: chunks).flatten)).error := by
  induction chunks generalizing buffer chunk with
  | nil => simp [feed]
  | cons next chunks ih =>
    obtain ⟨hframes, last, hlast, hrest, herror⟩ := ih (w.decodeAll (buffer ++ chunk)).rest next
    rw [feed, List.flatten_cons, ← List.append_assoc, decodeAll_append w (buffer ++ chunk),
      List.flatMap_cons, hframes]
    refine ⟨rfl, last, ?_, hrest, herror⟩
    rw [List.getLast?_cons, hlast, Option.getD_some]

theorem consumed_append (frames more : List Frame) (rest rest' : List UInt8)
    (error error' : Option WireError) :
    Batch.consumed ⟨frames ++ more, rest, error⟩ =
      Batch.consumed ⟨frames, rest', error'⟩ + Batch.consumed ⟨more, rest', error'⟩ := by
  simp only [← length_flatMap_bytes, List.flatMap_append, List.length_append]

theorem sum_consumed (batches : List Batch) (rest : List UInt8) (error : Option WireError) :
    (batches.map (·.consumed)).sum = Batch.consumed ⟨batches.flatMap (·.frames), rest, error⟩ := by
  induction batches with
  | nil => rfl
  | cons b batches ih =>
    rw [List.map_cons, List.sum_cons, ih, List.flatMap_cons]
    exact (consumed_append ..).symm

theorem feed_of_error (h : w.decode buffer = .error e) (chunks : List (List UInt8)) :
    ∀ b ∈ w.feed buffer chunks, b.error = some e ∧ b.frames = [] := by
  induction chunks generalizing buffer with
  | nil => simp [feed]
  | cons chunk chunks ih =>
    have hmore := decode_append_of_error h chunk
    rw [feed, decodeAll_of_error hmore, List.forall_mem_cons]
    exact ⟨⟨rfl, rfl⟩, ih hmore⟩

theorem pairwise_feed (w : Wire) (buffer : List UInt8) (chunks : List (List UInt8)) :
    (w.feed buffer chunks).Pairwise fun earlier later =>
      ∀ e, earlier.error = some e → later.error = some e ∧ later.frames = [] := by
  induction chunks generalizing buffer with
  | nil => exact .nil
  | cons chunk chunks ih =>
    refine .cons (fun later hlater e he => ?_) (ih _)
    have hrefused := decode_rest w (buffer ++ chunk)
    rw [he] at hrefused
    exact feed_of_error hrefused chunks later hlater

/-- However a stream is cut into chunks, empty ones included: there is one batch for each chunk, the
batches have together the frames of the whole stream in their order and take as many bytes, and the
last one leaves the same bytes and reports the same error. Once there is an error, every later chunk
reports it again and has no frames. -/
theorem feed_eq_decodeAll (w : Wire) (chunk : List UInt8) (chunks : List (List UInt8)) :
    let batches := w.feed [] (chunk :: chunks)
    let whole := w.decodeAll (chunk :: chunks).flatten
    batches.length = (chunk :: chunks).length ∧
    batches.flatMap (·.frames) = whole.frames ∧
    (batches.map (·.consumed)).sum = whole.consumed ∧
    (∃ last, batches.getLast? = some last ∧ last.rest = whole.rest ∧ last.error = whole.error) ∧
    batches.Pairwise fun earlier later =>
      ∀ e, earlier.error = some e → later.error = some e ∧ later.frames = [] := by
  intro batches whole
  obtain ⟨hframes, hlast⟩ := feed_cons w [] chunk chunks
  refine ⟨length_feed .., hframes, ?_, hlast, pairwise_feed ..⟩
  rw [sum_consumed batches whole.rest whole.error, hframes]
  rfl

end Meshwork.Wire
