import Meshwork.Command.Parser
import Meshwork.Frame.Basic

/-!
# The keyword of a frame

What a frame says is known from its first word: `Frame.keyword?_eq` for the frames that carry a
command, and `Frame.keyword?_of_parse` for the commands that are read from a frame.
-/

namespace Meshwork

namespace Text

variable {w : String}

theorem head?_words_unwords (hw : IsWord w) (ws : List String) :
    (words (unwords (w :: ws))).head? = some w := by
  have hspace : isBlank ' ' = true := by decide
  have hruns :
      ∃ rest, runs isBlank (joined ' ' ((w :: ws).map String.toList)) = w.toList :: rest := by
    cases ws with
    | nil => exact ⟨[], runs_of_isRun hw⟩
    | cons v vs => exact ⟨_, runs_append_sep hw hspace _⟩
  obtain ⟨rest, hrest⟩ := hruns
  rw [words, unwords, String.toList_ofList, hrest]
  simp

end Text

namespace Keyword

def IsRequest (k : Keyword) : Prop := k = reg ∨ k = sub ∨ k = pub

instance (k : Keyword) : Decidable k.IsRequest := inferInstanceAs (Decidable (_ ∨ _))

theorem isWord_text (k : Keyword) : Text.IsWord k.text :=
  Text.isWord_of_all (by cases k <;> decide) (by cases k <;> rfl)

end Keyword

namespace Frame

def keyword? (f : Frame) : Option Keyword :=
  (Text.ofUtf8? f.payload).bind fun text => (Text.words text).head?.bind Keyword.ofText?

def IsRequest (f : Frame) : Prop := ∃ k ∈ f.keyword?, k.IsRequest

instance (f : Frame) : Decidable f.IsRequest :=
  match h : f.keyword? with
  | none => isFalse (by simp [IsRequest, h])
  | some k => decidable_of_iff k.IsRequest (by simp [IsRequest, h])

variable {f : Frame} {c : Command}

theorem keyword?_eq (h : f.payload = c.payload) : f.keyword? = some c.keyword := by
  have hhead : (Text.words c.text).head? = some c.keyword.text :=
    Text.head?_words_unwords c.keyword.isWord_text c.arguments
  rw [keyword?, h, Command.payload, Text.ofUtf8?_utf8, Option.bind_some, hhead, Option.bind_some,
    Keyword.ofText?_text]

theorem isRequest_iff (h : f.payload = c.payload) : f.IsRequest ↔ c.keyword.IsRequest := by
  simp [IsRequest, keyword?_eq h]

end Frame

namespace Command

variable {c : Command}

theorem exists_of_map_eq_ok {ε α β : Type} {x : Except ε α} {f : α → β} {b : β}
    (h : x.map f = .ok b) : ∃ a, x = .ok a ∧ f a = b := by
  cases x with
  | error e => cases h
  | ok a => exact ⟨a, rfl, Except.ok.inj h⟩

theorem keyword_ofArguments {k : Keyword} {args : List String} (h : ofArguments k args = .ok c) :
    c.keyword = k := by
  unfold ofArguments at h
  split at h
  case h_5 | h_9 =>
    cases h
    rfl
  case h_10 => cases h
  all_goals
    obtain ⟨x, -, rfl⟩ := exists_of_map_eq_ok h
    rfl

theorem parse_eq_ok_iff {payload : List UInt8} : parse payload = .ok c ↔
    ∃ text, Text.ofUtf8? payload = some text ∧
      ∃ args, Text.words text = c.keyword.text :: args ∧ ofArguments c.keyword args = .ok c := by
  constructor
  · intro h
    unfold parse at h
    split at h
    · rename_i text htext
      refine ⟨text, htext, ?_⟩
      unfold ofWords at h
      split at h
      · cases h
      rename_i word args hwords
      split at h
      · rename_i k hk
        obtain rfl := keyword_ofArguments h
        exact ⟨args, by rw [hwords, Keyword.eq_text_of_ofText? hk], h⟩
      · cases h
    · cases h
  · rintro ⟨text, htext, args, hwords, hargs⟩
    simp only [parse, htext, hwords, ofWords, Keyword.ofText?_text, hargs]

theorem exists_arguments_of_parse {payload : List UInt8} (h : parse payload = .ok c) :
    ∃ args, ofArguments c.keyword args = .ok c ∧ ∀ w ∈ args, Text.IsWord w := by
  obtain ⟨text, -, args, hwords, hargs⟩ := parse_eq_ok_iff.1 h
  refine ⟨args, hargs, fun w hw => ?_⟩
  have hmem : w ∈ Text.words text := hwords ▸ List.mem_cons_of_mem _ hw
  exact Text.isWord_of_mem_words hmem

end Command

theorem Frame.keyword?_of_parse {f : Frame} {c : Command} (h : Command.parse f.payload = .ok c) :
    f.keyword? = some c.keyword := by
  obtain ⟨text, htext, args, hwords, -⟩ := Command.parse_eq_ok_iff.1 h
  simp [keyword?, htext, hwords, Keyword.ofText?_text]

end Meshwork
