import Meshwork.Proofs.Announcement

/-!
# Commands read back

A command is written as words, and not every command can be: hosts and names are words themselves,
and a name in front of a handle must not end at a colon of its own. Main statements:
`parse_payload_eq_ok_iff`, the commands that are read back as they were written are the
representable ones, and a valid name is no obstacle; and `rewritten_iff_of_parse`, what was read
from any spelling can be written and read again, but for a list of nothing.
-/

namespace Meshwork

namespace Text

variable {text : String}

def Unbroken (text : String) : Prop := ∀ c ∈ text.toList, isBlank c = false

instance (text : String) : Decidable (Unbroken text) :=
  List.decidableBAll (fun c => isBlank c = false) text.toList

theorem isWord_iff : IsWord text ↔ text ≠ "" ∧ Unbroken text := by
  rw [IsWord, IsRun, Unbroken, ne_eq, ne_eq, ← String.toList_inj]
  rfl

theorem unbroken_iff : Unbroken text ↔ text = "" ∨ IsWord text := by
  rw [isWord_iff]
  by_cases hempty : text = ""
  · simp [hempty, Unbroken]
  · simp [hempty]

theorem runs_eq_nil_iff {sep : Char → Bool} {cs : List Char} :
    runs sep cs = [] ↔ ∀ c ∈ cs, sep c = true := by
  induction cs with
  | nil => simp [runs]
  | cons c cs ih =>
    rw [List.forall_mem_cons]
    by_cases hc : sep c = true
    · rw [runs_sep hc, ih]
      exact ⟨fun h => ⟨hc, h⟩, And.right⟩
    · refine iff_of_false (fun h => ?_) fun h => hc h.1
      rw [runs_cons (by simpa using hc)] at h
      cases hruns : runs sep cs with
      | nil => simp [hruns, consRun] at h
      | cons w ws => cases hj : startsRun sep cs <;> simp [hruns, hj, consRun] at h

end Text

theorem validName_iff {name : String} :
    ValidName name ↔ Text.IsWord name ∧ ':' ∉ name.toList ∧ ',' ∉ name.toList := by
  refine ⟨fun h => ⟨⟨h.1, fun c hc => (h.2 c hc).1⟩, fun hc => (h.2 _ hc).2.1 rfl,
    fun hc => (h.2 _ hc).2.2 rfl⟩, ?_⟩
  rintro ⟨hword, hcolon, hcomma⟩
  refine ⟨hword.1, fun c hc => ⟨hword.2 c hc, ?_, ?_⟩⟩
  · rintro rfl
    exact hcolon hc
  · rintro rfl
    exact hcomma hc

theorem Announcement.readable_iff {a : Announcement} : a.Readable ↔ a.id.Assigned ∧
    ∀ host ∈ [a.address.nodeHost, a.address.gateHost, a.address.wanHost],
      host ≠ noHost ∧ Text.Unbroken host := by
  simp only [Text.unbroken_iff]
  exact ⟨fun h => ⟨h.assigned, h.host⟩, fun h => ⟨h.1, h.2⟩⟩

namespace Command

open Text

/-- The words of the command say all there is to it. -/
def Representable : Command → Prop
  | .register a | .address a =>
    a.id.Assigned ∧ ∀ host ∈ [a.address.nodeHost, a.address.gateHost, a.address.wanHost],
      host ≠ noHost ∧ Unbroken host
  | .broadcast id | .unregister id => id.Assigned
  | .subscribe name => name ≠ "" ∧ Unbroken name
  | .publish name _ | .handle name _ => Unbroken name ∧ ':' ∉ name.toList
  | .handles name list => Unbroken name ∧ ':' ∉ name.toList ∧ (list = [] → name ≠ "")
  | .heartbeat => True

def name? : Command → Option String
  | .subscribe name | .publish name _ | .handle name _ | .handles name _ => some name
  | .register _ | .address _ | .broadcast _ | .unregister _ | .heartbeat => none

variable {c : Command} {name : String} {handle : Handle} {handles : List Handle}

theorem toList_namedWord (name : String) (handle : Handle) :
    (namedWord name handle).toList = name.toList ++ ':' :: handle.text.toList := by
  simp [namedWord]

theorem toList_listedWord_cons (name : String) (handle : Handle) (handles : List Handle) :
    (listedWord name (handle :: handles)).toList =
      name.toList ++ ':' :: joined ',' ((handle :: handles).map fun h => h.text.toList) := by
  simp [listedWord]

theorem isRun_text (sep : Char → Bool) (hsep : ∀ d < 16, sep (Numeral.digitChar d) = false)
    (h : Handle) :
    IsRun sep h.text.toList := by
  have hdigit (n : Nat) : sep (Numeral.digitChar (n % 16)) = false :=
    hsep _ (Nat.mod_lt n (by decide))
  simp [IsRun, Handle.text, Numeral.hex4, hdigit]

theorem mapM_readHandle_text (handles : List Handle) :
    (handles.map fun h => h.text.toList).mapM (fun h => readHandle 16 (String.ofList h)) =
      .ok handles := by
  induction handles with
  | nil => rfl
  | cons h rest ih =>
    rw [List.map_cons, List.mapM_cons, String.ofList_toList, readHandle_text, ih]
    rfl

theorem readNamed_namedWord (h : ':' ∉ name.toList) :
    readNamed (namedWord name handle) = .ok (name, handle) := by
  rw [readNamed, toList_namedWord, splitFirst?_append h]
  simp [readHandle_text, Except.map]

theorem readListed_listedWord (h : ':' ∉ name.toList) :
    readListed (listedWord name handles) = .ok (name, handles) := by
  cases handles with
  | nil => simp [readListed, listedWord, splitFirst?_eq_none h, runs, Except.map, pure, Except.pure]
  | cons first rest =>
    have hruns : runs (· == ',') (joined ',' ((first :: rest).map fun h => h.text.toList)) =
        (first :: rest).map fun h => h.text.toList := by
      refine runs_joined (by decide) fun w hw => ?_
      obtain ⟨handle, -, rfl⟩ := List.mem_map.1 hw
      exact isRun_text _ (by decide) handle
    simp only [readListed, toList_listedWord_cons, splitFirst?_append h, Option.getD_some, hruns,
      mapM_readHandle_text, Except.map, String.ofList_toList]

theorem isWord_namedWord (h : Unbroken name) : IsWord (namedWord name handle) := by
  have htext := isRun_text isBlank Numeral.isBlank_digitChar handle
  refine ⟨by simp [toList_namedWord], fun c hc => ?_⟩
  rw [toList_namedWord, List.mem_append, List.mem_cons] at hc
  rcases hc with hc | rfl | hc
  · exact h c hc
  · decide
  · exact htext.2 c hc

theorem isWord_listedWord (h : Unbroken name) (hne : handles = [] → name ≠ "") :
    IsWord (listedWord name handles) := by
  cases handles with
  | nil => exact isWord_iff.2 ⟨hne rfl, h⟩
  | cons first rest =>
    refine ⟨by simp [toList_listedWord_cons], fun c hc => ?_⟩
    rw [toList_listedWord_cons, List.mem_append, List.mem_cons] at hc
    rcases hc with hc | rfl | hc
    · exact h c hc
    · decide
    · obtain rfl | ⟨w, hw, hc⟩ := mem_joined hc
      · decide
      · obtain ⟨handle, -, rfl⟩ := List.mem_map.1 hw
        exact (isRun_text isBlank Numeral.isBlank_digitChar handle).2 c hc

theorem of_readNamed {word : String} (hw : IsWord word) (h : readNamed word = .ok (name, handle)) :
    Unbroken name ∧ ':' ∉ name.toList := by
  unfold readNamed at h
  split at h
  · rename_i first rest hsplit
    obtain ⟨heq, hcolon⟩ := eq_append_of_splitFirst? hsplit
    obtain ⟨x, -, hx⟩ := exists_of_map_eq_ok h
    obtain ⟨rfl, -⟩ := Prod.mk.inj hx
    rw [Unbroken, String.toList_ofList]
    exact ⟨fun c hc => hw.2 c (heq ▸ List.mem_append_left _ hc), hcolon⟩
  · cases h

theorem of_readListed {word : String} (hw : IsWord word)
    (h : readListed word = .ok (name, handles)) :
    Unbroken name ∧ ':' ∉ name.toList := by
  unfold readListed at h
  obtain ⟨x, -, hx⟩ := exists_of_map_eq_ok h
  cases hsplit : splitFirst? ':' word.toList with
  | none =>
    simp only [hsplit, String.ofList_toList, Prod.mk.injEq] at hx
    obtain ⟨rfl, -⟩ := hx
    exact ⟨hw.2, not_mem_of_splitFirst? hsplit⟩
  | some parts =>
    obtain ⟨heq, hcolon⟩ := eq_append_of_splitFirst? hsplit
    simp only [hsplit, Prod.mk.injEq] at hx
    obtain ⟨rfl, -⟩ := hx
    rw [Unbroken, String.toList_ofList]
    exact ⟨fun c hc => hw.2 c (heq ▸ List.mem_append_left _ hc), hcolon⟩

theorem parse_payload_of_word {w : String} (hc : c.arguments = [w]) (hw : IsWord w) :
    parse c.payload = ofArguments c.keyword [w] := by
  rw [parse_payload (hc ▸ List.forall_mem_singleton.2 hw), hc]

theorem Representable.parse_payload (h : c.Representable) : parse c.payload = .ok c := by
  cases c with
  | register a => exact (Announcement.readable_iff.2 h).parse_register
  | address a => exact (Announcement.readable_iff.2 h).parse_address
  | broadcast id | unregister id =>
    rw [parse_payload_of_word (w := id.text) rfl (Numeral.isWord_decimal _)]
    simp [keyword, ofArguments, readNodeId_text h, Except.map]
  | subscribe name =>
    rw [parse_payload_of_word rfl (isWord_iff.2 h)]
    rfl
  | publish name handle | handle name handle =>
    rw [parse_payload_of_word rfl (isWord_namedWord h.1)]
    simp [keyword, ofArguments, readNamed_namedWord h.2, Except.map]
  | handles name list =>
    rw [parse_payload_of_word rfl (isWord_listedWord h.1 h.2.2)]
    simp [keyword, ofArguments, readListed_listedWord h.2.1, Except.map]
  | heartbeat =>
    rw [Command.parse_payload (by simp [arguments])]
    rfl

/-- What is read can be written, but for the list that names neither a module nor a handle: a colon
alone is read so. -/
theorem representable_of_parse {payload : List UInt8} (h : parse payload = .ok c) :
    c.Representable ∨ c = .handles "" [] := by
  obtain ⟨args, hargs, hwords⟩ := exists_arguments_of_parse h
  unfold ofArguments at hargs
  split at hargs
  case h_1 | h_2 =>
    obtain ⟨a, hread, rfl⟩ := exists_of_map_eq_ok hargs
    simp only [List.forall_mem_cons] at hwords
    exact .inl (Announcement.readable_iff.1 (readable_of_readAnnouncement hread (by simp [hwords])))
  case h_3 | h_4 =>
    obtain ⟨id, hread, rfl⟩ := exists_of_map_eq_ok hargs
    exact .inl (assigned_of_readNodeId hread)
  case h_5 =>
    cases hargs
    exact .inl (isWord_iff.1 (List.forall_mem_singleton.1 hwords))
  case h_6 | h_7 =>
    obtain ⟨⟨name, handle⟩, hread, rfl⟩ := exists_of_map_eq_ok hargs
    exact .inl (of_readNamed (List.forall_mem_singleton.1 hwords) hread)
  case h_8 =>
    obtain ⟨⟨name, list⟩, hread, rfl⟩ := exists_of_map_eq_ok hargs
    obtain ⟨hname, hcolon⟩ := of_readListed (List.forall_mem_singleton.1 hwords) hread
    by_cases hempty : list = [] ∧ name = ""
    · exact .inr (by simp [hempty])
    · exact .inl ⟨hname, hcolon, fun hlist heq => hempty ⟨hlist, heq⟩⟩
  case h_9 =>
    cases hargs
    exact .inl trivial
  case h_10 => cases hargs

theorem parse_handles_nil : parse (Command.handles "" []).payload = .error (.arity "HANDLES" 1 0) :=
  rfl

theorem representable_of_parse_payload (h : parse c.payload = .ok c) : c.Representable := by
  refine (representable_of_parse h).resolve_right ?_
  rintro rfl
  rw [parse_handles_nil] at h
  cases h

theorem representable_of_validName (hc : c.name? = some name) (hv : ValidName name) :
    c.Representable := by
  obtain ⟨hword, hcolon, -⟩ := validName_iff.1 hv
  obtain ⟨hne, hname⟩ := isWord_iff.1 hword
  cases c with
  | subscribe name' =>
    cases hc
    exact ⟨hne, hname⟩
  | publish name' handle | handle name' handle =>
    cases hc
    exact ⟨hname, hcolon⟩
  | handles name' list =>
    cases hc
    exact ⟨hname, hcolon, fun _ => hne⟩
  | _ => cases hc

/-- A command is read back as it was written if its words say all there is to it, and only then. Of
the commands about a module this is true of all with a valid name. -/
theorem parse_payload_eq_ok_iff (c : Command) :
    (parse c.payload = .ok c ↔ c.Representable) ∧
      ∀ name, c.name? = some name → ValidName name → parse c.payload = .ok c :=
  ⟨⟨representable_of_parse_payload, Representable.parse_payload⟩, fun _ hc hv =>
    (representable_of_validName hc hv).parse_payload⟩

section

variable {word : String} {payload : List UInt8}

/-- A colon with commas behind it: a list that names neither a module nor a handle. -/
def bareColon (commas : Nat) : String := String.ofList (':' :: List.replicate commas ',')

theorem readListed_bareColon (commas : Nat) : readListed (bareColon commas) = .ok ("", []) := by
  have hsplit :
      splitFirst? ':' (bareColon commas).toList = some ([], List.replicate commas ',') := by
    simp [bareColon, splitFirst?]
  have hruns : runs (· == ',') (List.replicate commas ',') = [] :=
    runs_eq_nil_iff.2 fun c hc => by simpa using List.eq_of_mem_replicate hc
  simp [readListed, hsplit, hruns, Except.map, pure, Except.pure]

theorem eq_nil_of_mapM {ε α β : Type} {f : α → Except ε β} {l : List α} (h : l.mapM f = .ok []) :
    l = [] := by
  cases l with
  | nil => rfl
  | cons a l =>
    rw [List.mapM_cons] at h
    cases ha : f a <;> cases hl :
      l.mapM f <;> simp [ha, hl, bind, Except.bind, pure, Except.pure] at h

theorem readListed_eq_nil_iff (hw : IsWord word) :
    readListed word = .ok ("", []) ↔ ∃ commas, word = bareColon commas := by
  refine ⟨fun h => ?_, ?_⟩
  · unfold readListed at h
    obtain ⟨list, hread, hname⟩ := exists_of_map_eq_ok h
    simp only [Prod.mk.injEq] at hname
    obtain ⟨hname, rfl⟩ := hname
    cases hsplit : splitFirst? ':' word.toList with
    | none =>
      simp only [hsplit, String.ofList_toList] at hname
      exact absurd hname (isWord_iff.1 hw).1
    | some parts =>
      obtain ⟨first, rest⟩ := parts
      simp only [hsplit] at hread hname
      obtain ⟨hword, -⟩ := eq_append_of_splitFirst? hsplit
      have hfirst : first = [] := by simpa using congrArg String.toList hname
      have hcommas : ∀ c ∈ rest, c = ',' := by simpa using runs_eq_nil_iff.1 (eq_nil_of_mapM hread)
      refine ⟨rest.length, ?_⟩
      rw [bareColon, ← List.eq_replicate_of_mem hcommas, ← String.ofList_toList (s := word), hword,
        hfirst]
      rfl
  · rintro ⟨commas, rfl⟩
    exact readListed_bareColon commas

theorem parse_eq_handles_nil_iff : parse payload = .ok (.handles "" []) ↔
    ∃ text, ofUtf8? payload = some text ∧ ∃ commas,
      Text.words text = ["HANDLES", bareColon commas] := by
  rw [parse_eq_ok_iff]
  refine exists_congr fun text => and_congr_right fun _ => ⟨?_, ?_⟩
  · rintro ⟨args, hwords, hargs⟩
    match args, hargs with
    | [word], hargs =>
      have hmem : word ∈ Text.words text := by simp [hwords]
      obtain ⟨⟨name, list⟩, hread, hlisted⟩ := exists_of_map_eq_ok hargs
      cases hlisted
      obtain ⟨commas, rfl⟩ := (readListed_eq_nil_iff (isWord_of_mem_words hmem)).1 hread
      exact ⟨commas, hwords⟩
  · rintro ⟨commas, hwords⟩
    refine ⟨_, hwords, ?_⟩
    simp [keyword, ofArguments, readListed_bareColon, Except.map]

/-- What is read can be written and is then read again as itself, however it was spelled, unless it
is the list of nothing. That is read from a colon with any number of commas and from nothing else,
and it is written as a keyword with no word after it, which is refused. -/
theorem rewritten_iff_of_parse (h : parse payload = .ok c) :
    (parse c.payload = .ok c ↔ c ≠ .handles "" []) ∧
      (c = .handles "" [] → parse c.payload = .error (.arity "HANDLES" 1 0)) ∧
      (c = .handles "" [] ↔
        ∃ text, ofUtf8? payload = some text ∧ ∃ commas,
          Text.words text = ["HANDLES", bareColon commas]) := by
  refine ⟨⟨?_, fun hne => ?_⟩, ?_, ?_⟩
  · rintro hread rfl
    rw [parse_handles_nil] at hread
    cases hread
  · exact ((representable_of_parse h).resolve_right hne).parse_payload
  · rintro rfl
    exact parse_handles_nil
  · rw [← parse_eq_handles_nil_iff, h, Except.ok.injEq]

/-- A colon is read and cannot be read again; a list with another spelling is read again. -/
theorem rewritten_iff_of_parse_colon :
    (parse (utf8 "HANDLES :,") = .ok (.handles "" []) ∧
      parse (Command.handles "" []).payload = .error (.arity "HANDLES" 1 0)) ∧
    ∃ c, parse (utf8 " HANDLES  hall:+203,,0A05") = .ok c ∧ parse c.payload = .ok c := by
  have hcolon : parse (utf8 "HANDLES :,") = .ok (.handles "" []) := rfl
  have hhall : parse (utf8 " HANDLES  hall:+203,,0A05") =
      .ok (.handles "hall" [.ofNumber 0x203, .ofNumber 0xa05]) := rfl
  exact ⟨⟨hcolon, (rewritten_iff_of_parse hcolon).2.1 rfl⟩, _, hhall,
    (rewritten_iff_of_parse hhall).1.2 (by simp)⟩

end

end Command

end Meshwork
