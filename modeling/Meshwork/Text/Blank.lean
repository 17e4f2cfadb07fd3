import Meshwork.Text.Split

/-!
# Blanks and words

A blank is a character with the Unicode property White_Space. The words of a text are its runs of
other characters.
-/

namespace Meshwork

/-- The characters that separate words: the 25 of the property White_Space. -/
def isBlank (c : Char) : Bool :=
  let n := c.toNat
  (9 ≤ n && n ≤ 13) || n == 0x20 || n == 0x85 || n == 0xa0 || n == 0x1680 ||
    (0x2000 ≤ n && n ≤ 0x200a) || n == 0x2028 || n == 0x2029 || n == 0x202f || n == 0x205f ||
    n == 0x3000

namespace Text

def words (text : String) : List String := (runs isBlank text.toList).map String.ofList

def unwords (ws : List String) : String := String.ofList (joined ' ' (ws.map String.toList))

def IsWord (text : String) : Prop := IsRun isBlank text.toList

theorem isWord_of_all {text : String} (hne : text.toList ≠ [])
    (hall : text.toList.all (fun c => !isBlank c) = true) : IsWord text :=
  ⟨hne, fun c hc => by simpa using List.all_eq_true.1 hall c hc⟩

theorem words_unwords {ws : List String} (h : ∀ w ∈ ws, IsWord w) : words (unwords ws) = ws := by
  have hspace : isBlank ' ' = true := by decide
  rw [words, unwords, String.toList_ofList, runs_joined hspace (by simpa [IsWord] using h)]
  simp

theorem isWord_of_mem_words {text w : String} (h : w ∈ words text) : IsWord w := by
  obtain ⟨v, hv, rfl⟩ := List.mem_map.1 h
  rw [IsWord, String.toList_ofList]
  exact isRun_of_mem_runs hv

def ofUtf8? (bytes : List UInt8) : Option String := String.fromUTF8? ⟨bytes.toArray⟩

def utf8 (text : String) : List UInt8 := text.toUTF8.data.toList

private theorem fromUTF8?_toUTF8 (text : String) : String.fromUTF8? text.toUTF8 = some text := by
  rw [String.fromUTF8?, dif_pos (show text.toUTF8.IsValidUTF8 from text.isValidUTF8)]
  rfl

@[simp] theorem ofUtf8?_utf8 (text : String) : ofUtf8? (utf8 text) = some text := by
  simp only [ofUtf8?, utf8, Array.toArray_toList]
  exact fromUTF8?_toUTF8 text

theorem utf8_of_ofUtf8? {bytes : List UInt8} {text : String} (h : ofUtf8? bytes = some text) :
    utf8 text = bytes := by
  rw [ofUtf8?, String.fromUTF8?] at h
  split at h
  · obtain rfl := Option.some.inj h
    simp [utf8, String.fromUTF8]
  · cases h

end Text

end Meshwork
