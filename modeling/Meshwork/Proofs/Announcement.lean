import Meshwork.Greeting
import Meshwork.Proofs.Command

/-!
# Announcements read back

A node passes on what another one said about itself. Main statement:
`Announcement.Readable.parse_address`, an announcement that came out of a command is read again as
it was, because all hosts are words or unknown.
-/

namespace Meshwork

namespace Numeral

theorem exists_digit_of_mem_digits {n : Nat} {c : Char} (h : c ∈ digits n) :
    ∃ d < 16, digitChar d = c := by
  apply Classical.byContradiction
  intro hnone
  exact not_mem_digits n c (fun d hd heq => hnone ⟨d, hd, heq⟩) h

theorem isBlank_digitChar : ∀ d < 16, isBlank (digitChar d) = false := by decide

theorem isWord_decimal (n : Nat) : Text.IsWord (decimal n) := by
  refine ⟨fun hnil => ?_, fun c hc => ?_⟩
  · have hread := read?_decimal n
    rw [hnil] at hread
    cases hread
  · rw [decimal, String.toList_ofList] at hc
    obtain ⟨d, hd, rfl⟩ := exists_digit_of_mem_digits hc
    exact isBlank_digitChar d hd

theorem isWord_hex4 (n : Nat) : Text.IsWord (hex4 n) := by
  have hdigit (m : Nat) : isBlank (digitChar (m % 16)) = false :=
    isBlank_digitChar _ (Nat.mod_lt m (by decide))
  refine ⟨by simp [hex4], fun c hc => ?_⟩
  simp only [hex4, String.toList_ofList, List.mem_cons, List.not_mem_nil, or_false] at hc
  rcases hc with rfl | rfl | rfl | rfl <;> exact hdigit _

theorem readBelow?_decimal {n bound : Nat} (h : n < bound) :
    readBelow? 10 bound (decimal n) = some n := by
  simp [readBelow?, read?_decimal, h]

theorem ofText?_decimal (n : Nat) : Keyword.ofText? (decimal n) = none := by
  cases hk : Keyword.ofText? (decimal n) with
  | none => rfl
  | some k =>
    have htext := Keyword.eq_text_of_ofText? hk
    have hletter : ∃ c ∈ k.text.toList, ∀ d < 16, digitChar d ≠ c := by
      cases k <;> exact ⟨_, List.mem_cons_self .., by decide⟩
    obtain ⟨c, hc, hdigits⟩ := hletter
    rw [← htext, decimal, String.toList_ofList] at hc
    exact absurd hc (not_mem_digits n c hdigits)

end Numeral

namespace Command

theorem readNodeId_text {id : NodeId} (h : id.Assigned) : readNodeId id.text = .ok id := by
  have hne : id.index ≠ 0 := Nat.pos_iff_ne_zero.1 (NodeId.assigned_iff.1 h)
  simp [readNodeId, NodeId.text, Numeral.readBelow?_decimal id.index_lt, hne]

theorem readPort_portWord (port : UInt16) : readPort (portWord port) = .ok port := by
  simp [readPort, portWord, Numeral.readBelow?_decimal port.toNat_lt]

theorem readHandle_text (h : Handle) : readHandle 16 h.text = .ok h := by
  have hlt := h.number_lt
  simp [readHandle, Handle.text, Numeral.readBelow?, Numeral.read?_hex4 hlt, Option.filter, hlt]

theorem readHost_hostWord {host : String} (h : host ≠ noHost) :
    readHost (hostWord host) = host := by
  by_cases hempty : host = ""
  · simp [hostWord, readHost, hempty]
  · simp [hostWord, readHost, hempty, h]

theorem assigned_of_readNodeId {word : String} {id : NodeId} (h : readNodeId word = .ok id) :
    id.Assigned := by
  unfold readNodeId at h
  split at h
  · rename_i n hn
    have hlt : n < 256 := by simpa using (Option.filter_eq_some_iff.1 hn).2
    split at h
    · cases h
    · rename_i hzero
      cases h
      rw [NodeId.assigned_iff, NodeId.index_ofNat, Nat.mod_eq_of_lt hlt]
      exact Nat.pos_iff_ne_zero.2 hzero
  · cases h

theorem parse_payload {c : Command} (h : ∀ w ∈ c.arguments, Text.IsWord w) :
    parse c.payload = ofArguments c.keyword c.arguments := by
  have hwords : Text.words c.text = c.words := by
    refine Text.words_unwords fun w hw => ?_
    obtain rfl | hw := List.mem_cons.1 hw
    · exact c.keyword.isWord_text
    · exact h w hw
  rw [parse, payload, Text.ofUtf8?_utf8]
  simp only [hwords, words, ofWords, Keyword.ofText?_text]

end Command

/-- Each host can stand in a command, and so can the id. -/
structure Announcement.Readable (a : Announcement) : Prop where
  assigned : a.id.Assigned
  host : ∀ host ∈ [a.address.nodeHost, a.address.gateHost, a.address.wanHost],
    host ≠ noHost ∧ (host = "" ∨ Text.IsWord host)

namespace Command

variable {a : Announcement}

theorem readable_of_readAnnouncement
    {id nodeHost nodePort gateHost gatePort wanHost handle : String}
    (h : readAnnouncement id nodeHost nodePort gateHost gatePort wanHost handle = .ok a)
    (hwords : ∀ w ∈ [nodeHost, gateHost, wanHost], Text.IsWord w) : a.Readable := by
  have hread {word : String} (hw : Text.IsWord word) :
      readHost word ≠ noHost ∧ (readHost word = "" ∨ Text.IsWord (readHost word)) := by
    unfold readHost
    split
    · exact ⟨by decide, .inl rfl⟩
    · exact ⟨‹_›, .inr hw⟩
  unfold readAnnouncement at h
  cases hid : readNodeId id with
  | error e => simp [hid, bind, Except.bind] at h
  | ok i =>
    cases hport : readPort nodePort <;> cases hgate : readPort gatePort <;>
      cases hhandle : readHandle 16 handle <;>
      simp only [hid, hport, hgate, hhandle, bind, Except.bind, pure, Except.pure, reduceCtorEq,
        Except.ok.injEq] at h
    subst h
    refine ⟨assigned_of_readNodeId hid, fun host hhost => ?_⟩
    simp only [List.forall_mem_cons] at hwords
    simp only [List.mem_cons, List.not_mem_nil, or_false] at hhost
    rcases hhost with rfl | rfl | rfl
    · exact hread hwords.1
    · exact hread hwords.2.1
    · exact hread hwords.2.2.1

theorem readable_of_map {id nodeHost nodePort gateHost gatePort wanHost handle : String}
    {f : Announcement → Command}
    (h : (readAnnouncement id nodeHost nodePort gateHost gatePort wanHost handle).map f = .ok (f a))
    (hf : ∀ b, f b = f a → b = a)
    (hwords : ∀ w ∈ [id, nodeHost, nodePort, gateHost, gatePort, wanHost, handle], Text.IsWord w) :
    a.Readable := by
  obtain ⟨b, hread, heq⟩ := exists_of_map_eq_ok h
  obtain rfl := hf b heq
  simp only [List.forall_mem_cons] at hwords
  exact readable_of_readAnnouncement hread (by simp [hwords])

theorem readable_of_parse {payload : List UInt8} {c : Command} (h : parse payload = .ok c)
    (hc : c = .register a ∨ c = .address a) : a.Readable := by
  obtain ⟨args, hargs, hwords⟩ := exists_arguments_of_parse h
  obtain rfl | rfl := hc
  · simp only [keyword] at hargs
    unfold ofArguments at hargs
    split at hargs
    · exact readable_of_map hargs (fun _ => Command.register.inj) hwords
    all_goals simp_all only [reduceCtorEq]
  · simp only [keyword] at hargs
    unfold ofArguments at hargs
    split at hargs
    · simp_all only [reduceCtorEq]
    · exact readable_of_map hargs (fun _ => Command.address.inj) hwords
    all_goals simp_all only [reduceCtorEq]

end Command

namespace Announcement.Readable

open Command

variable {a : Announcement}

theorem isWord_hostWord {host : String} (h : host = "" ∨ Text.IsWord host) :
    Text.IsWord (hostWord host) := by
  unfold hostWord
  split
  · exact Text.isWord_of_all (by decide) (by decide)
  · exact h.resolve_left ‹_›

theorem isWord_of_mem (h : a.Readable) : ∀ w ∈ announcementWords a, Text.IsWord w := by
  have hhost := h.host
  simp only [List.forall_mem_cons] at hhost
  simp only [announcementWords, List.forall_mem_cons]
  exact ⟨Numeral.isWord_decimal _, isWord_hostWord hhost.1.2, Numeral.isWord_decimal _,
    isWord_hostWord hhost.2.1.2, Numeral.isWord_decimal _, isWord_hostWord hhost.2.2.1.2,
    Numeral.isWord_hex4 _, nofun⟩

theorem readAnnouncement_eq (h : a.Readable) :
    readAnnouncement a.id.text (hostWord a.address.nodeHost) (portWord a.address.nodePort)
      (hostWord a.address.gateHost) (portWord a.address.gatePort) (hostWord a.address.wanHost)
        a.handle.text =
      .ok a := by
  have hhost := h.host
  simp only [List.forall_mem_cons] at hhost
  simp only [readAnnouncement, readNodeId_text h.assigned, readPort_portWord, readHandle_text,
    readHost_hostWord hhost.1.1, readHost_hostWord hhost.2.1.1, readHost_hostWord hhost.2.2.1.1]
  rfl

theorem parse_address (h : a.Readable) : parse (Command.address a).payload = .ok (.address a) := by
  rw [parse_payload (c := .address a) h.isWord_of_mem]
  simp only [keyword, arguments, announcementWords, ofArguments, h.readAnnouncement_eq]
  rfl

theorem parse_register (h : a.Readable) : parse (register a).payload = .ok (.register a) := by
  rw [parse_payload (c := .register a) h.isWord_of_mem]
  simp only [keyword, arguments, announcementWords, ofArguments, h.readAnnouncement_eq]
  rfl

end Announcement.Readable

namespace Frame

variable {f : Frame} {a : Announcement}

/-- Whom a frame introduces, if it is an introduction. -/
def introduced? (f : Frame) : Option Announcement :=
  match Command.parse f.payload with
  | .ok (.address a) => some a
  | _ => none

theorem introduced?_eq_some_iff :
    f.introduced? = some a ↔ Command.parse f.payload = .ok (.address a) := by
  unfold introduced?
  split
  · rename_i hparse
    simp [hparse]
  · rename_i hnot
    refine ⟨nofun, fun hparse => absurd hparse (hnot a)⟩

theorem introduced?_eq_none (h : f.keyword? ≠ some .addr) : f.introduced? = none := by
  cases hf : f.introduced? with
  | none => rfl
  | some a => exact absurd (keyword?_of_parse (introduced?_eq_some_iff.1 hf)) h

theorem introduced?_greeting (id : NodeId) : (Greeting.frame id).introduced? = none := by
  have hhead : (Text.words (Greeting.ofCenter id).text).head? = some _ :=
    Text.head?_words_unwords (Numeral.isWord_decimal _) _
  have hnone : (Greeting.frame id).keyword? = none := by
    rw [keyword?, Greeting.frame, ofText, Text.ofUtf8?_utf8, Option.bind_some, hhead,
      Option.bind_some, Numeral.ofText?_decimal]
  exact introduced?_eq_none (by simp [hnone])

end Frame

end Meshwork
