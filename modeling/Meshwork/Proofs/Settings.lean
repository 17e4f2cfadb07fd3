import Meshwork.Proofs.Node.Announced
import Meshwork.Proofs.RoundTrip
import Meshwork.Settings.Basic

/-!
# Settings announced

What a node says about itself comes from its settings, and the directory reads it as words. Main
statement: `announced_iff_of_accepted`, the announcement is read back if its hosts are words or
unknown, and only then; accepted settings may have any hosts.
-/

namespace Meshwork

namespace Text

variable {sep : Char → Bool} {c : Char} {text : String}

theorem consRun_append {joined : Bool} {ws : List (List Char)} (h : joined = true → ws ≠ [])
    (more : List (List Char)) : consRun c joined (ws ++ more) = consRun c joined ws ++ more := by
  cases ws with
  | cons w ws => cases joined <;> rfl
  | nil =>
    cases joined with
    | true => exact absurd rfl (h rfl)
    | false => cases more <;> rfl

theorem runs_ne_nil {cs : List Char} (h : startsRun sep cs = true) : runs sep cs ≠ [] := by
  cases cs with
  | nil => simp [startsRun] at h
  | cons d ds =>
    rw [runs_cons (by simpa [startsRun] using h)]
    cases runs sep ds with
    | nil => simp [consRun]
    | cons w ws => cases hj : startsRun sep ds <;> simp [consRun]

theorem runs_append_cons (hsep : sep c = true) (cs rest : List Char) :
    runs sep (cs ++ c :: rest) = runs sep cs ++ runs sep rest := by
  induction cs with
  | nil => exact runs_sep hsep rest
  | cons d ds ih =>
    by_cases hd : sep d = true
    · rw [List.cons_append, runs_sep hd, runs_sep hd, ih]
    · have hd' : sep d = false := by simpa using hd
      have hstarts : startsRun sep (ds ++ c :: rest) = startsRun sep ds := by
        cases ds with
        | nil => simp [startsRun, hsep]
        | cons e es => rfl
      rw [List.cons_append, runs_cons hd', runs_cons hd', hstarts, ih, consRun_append runs_ne_nil]

theorem runs_joined_eq_flatMap (hsep : sep c = true) (ws : List (List Char)) :
    runs sep (joined c ws) = ws.flatMap (runs sep) := by
  induction ws with
  | nil => rfl
  | cons w ws ih =>
    cases ws with
    | nil => simp [joined]
    | cons v vs =>
      rw [joined, runs_append_cons hsep, ih]
      · rfl
      · exact List.cons_ne_nil v vs

theorem words_unwords_eq_flatMap (texts : List String) :
    words (unwords texts) = texts.flatMap words := by
  have hspace : isBlank ' ' = true := by decide
  rw [words, unwords, String.toList_ofList, runs_joined_eq_flatMap hspace, List.flatMap_map,
    List.map_flatMap]
  rfl

theorem words_of_isWord (h : IsWord text) : words text = [text] := by
  rw [words, runs_of_isRun h]
  simp

end Text

namespace Command

variable {c : Command}

theorem parse_payload_eq_ofArguments (c : Command) :
    parse c.payload = ofArguments c.keyword (c.arguments.flatMap Text.words) := by
  have hwords : Text.words c.text = c.keyword.text :: c.arguments.flatMap Text.words := by
    rw [text, Text.words_unwords_eq_flatMap, words, List.flatMap_cons,
      Text.words_of_isWord c.keyword.isWord_text, List.singleton_append]
  rw [parse, payload, Text.ofUtf8?_utf8]
  simp only [hwords, ofWords, Keyword.ofText?_text]

theorem ofArguments_reg {args : List String} (h : args.length ≠ 7) :
    ofArguments .reg args = .error (.arity "REG" 7 args.length) := by
  unfold ofArguments
  split <;> simp_all [Keyword.text, Keyword.arity]

end Command

namespace Announcement

open Command

variable {a : Announcement}

def hosts (a : Announcement) : List String :=
  [a.address.nodeHost, a.address.gateHost, a.address.wanHost]

/-- What is read of an announcement with unbroken hosts: a host that stands for an unknown one is
taken for that. -/
def heard (a : Announcement) : Announcement :=
  { a with address := { a.address with
      nodeHost := readHost (hostWord a.address.nodeHost)
      gateHost := readHost (hostWord a.address.gateHost)
      wanHost := readHost (hostWord a.address.wanHost) } }

def hostWords (a : Announcement) : List String :=
  a.hosts.flatMap fun host => Text.words (hostWord host)

theorem length_words (a : Announcement) :
    ((announcementWords a).flatMap Text.words).length = a.hostWords.length + 4 := by
  have hone {w : String} (hw : Text.IsWord w) : (Text.words w).length = 1 := by
    rw [Text.words_of_isWord hw]
    rfl
  simp only [announcementWords, hostWords, hosts, List.flatMap_cons, List.flatMap_nil,
    List.length_append, List.length_nil, NodeId.text, portWord, Handle.text,
    hone (Numeral.isWord_decimal _), hone (Numeral.isWord_hex4 _)]
  omega

theorem parse_register_of_length (h : a.hostWords.length ≠ 3) :
    parse (register a).payload = .error (.arity "REG" 7 (a.hostWords.length + 4)) := by
  rw [parse_payload_eq_ofArguments, ← length_words]
  refine ofArguments_reg fun hlen => h ?_
  have hwords := a.length_words
  simp only [arguments] at hlen
  omega

theorem parse_register_of_unbroken (hid : a.id.Assigned)
    (h : ∀ host ∈ a.hosts, Text.Unbroken host) :
    parse (register a).payload = .ok (.register a.heard) := by
  have hword : ∀ w ∈ announcementWords a, Text.IsWord w := by
    simp only [hosts, List.forall_mem_cons, Text.unbroken_iff] at h
    simp only [announcementWords, List.forall_mem_cons]
    exact ⟨Numeral.isWord_decimal _, Readable.isWord_hostWord h.1, Numeral.isWord_decimal _,
      Readable.isWord_hostWord h.2.1, Numeral.isWord_decimal _, Readable.isWord_hostWord h.2.2.1,
      Numeral.isWord_hex4 _, List.forall_mem_nil _⟩
  rw [parse_payload (c := .register a) hword]
  simp only [keyword, arguments, announcementWords, ofArguments, readAnnouncement,
    readNodeId_text hid, readPort_portWord, readHandle_text, bind, Except.bind, pure, Except.pure,
    Except.map]
  rfl

theorem parse_register_iff : parse (register a).payload = .ok (.register a) ↔
    a.id.Assigned ∧ ∀ host ∈ a.hosts, host ≠ noHost ∧ Text.Unbroken host :=
  ⟨representable_of_parse_payload, fun h => Representable.parse_payload (c := .register a) h⟩

end Announcement

namespace Settings

open Node

variable {s : Settings} {catalog : Catalog} {port : UInt16} {now : Nat} {calls : List Command}
  {n : Node}
  {conn : ConnId} {directory : Handle}

theorem flaw?_address (s : Settings) (address : Address) :
    flaw? { s with node := { s.node with address } } = s.flaw? := rfl

theorem assigned_of_accepted (accepted : s.flaw? = none) : s.node.id.Assigned := by
  unfold flaw? at accepted
  split at accepted
  · cases accepted
  split at accepted
  · cases accepted
  · rename_i hid
    exact Decidable.not_not.1 (not_or.1 hid).1

/-- A node with accepted settings registers with what they say. The center reads just that if each
host is a word or unknown, and only then: with unbroken hosts it takes a host that stands for an
unknown one for that, and with hosts of too many words or too few it drops the registration.
Settings with any hosts are accepted. -/
theorem announced_iff_of_accepted (accepted : s.flaw? = none)
    (completed : Completes s.profile catalog port now calls n conn directory) :
    (n.queuedOn conn).head? =
      some ((Command.register (s.profile.announcement port)).frame s.node.id directory) ∧
    (Command.parse (Command.register (s.profile.announcement port)).payload =
        .ok (.register (s.profile.announcement port)) ↔
      ∀ host ∈ (s.profile.announcement port).hosts, host ≠ noHost ∧ Text.Unbroken host) ∧
    ((∀ host ∈ (s.profile.announcement port).hosts, Text.Unbroken host) →
      ∀ r : Routing, r.isCenter = true →
        r.classify
          ((Command.register (s.profile.announcement port)).frame s.node.id
            ⟨r.self, centerModule⟩) =
        .request ⟨s.node.id, meshModule⟩ (.register (s.profile.announcement port).heard)) ∧
    ((s.profile.announcement port).hostWords.length ≠ 3 → ∀ r : Routing, r.isCenter = true →
      r.classify
        ((Command.register (s.profile.announcement port)).frame s.node.id ⟨r.self, centerModule⟩) =
        .dropped) ∧
    ∀ address, flaw? { s with node := { s.node with address } } = none := by
  have hid : (s.profile.announcement port).id.Assigned := assigned_of_accepted accepted
  have hannounced : n.announcement = s.profile.announcement port :=
    announcement_of_completes completed
  obtain ⟨hopened, hfit, -⟩ := completed.opened
  have hself : n.self = s.node.id := congrArg Announcement.id hannounced
  refine ⟨?_, ?_, fun hhosts r hr => ?_, fun hlen r hr => ?_, fun address => ?_⟩
  · have hfirst := hopened.first hfit
    rwa [hannounced, hself] at hfirst
  · rw [Announcement.parse_register_iff]
    exact and_iff_right hid
  · rw [Routing.classify_frame hr, Announcement.parse_register_of_unbroken hid hhosts]
  · rw [Routing.classify_frame hr, Announcement.parse_register_of_length hlen]
  · rw [flaw?_address, accepted]

def ofBlankGate : Settings where
  node := { id := ⟨2⟩, address := { nodeHost := "127.0.0.1", gateHost := "front door" } }
  center := { host := "hub", isHere := false }

theorem announced_iff_of_accepted_gate :
    ∃ n, flaw? ofBlankGate = none ∧
      Completes ofBlankGate.profile {} 7101 0 [] n ⟨1⟩ (Greeting.ofCenter ⟨1⟩).center ∧
      (n.queuedOn ⟨1⟩).head? =
        some ((Command.register (ofBlankGate.profile.announcement 7101)).frame ⟨2⟩
        (Greeting.ofCenter ⟨1⟩).center) ∧
      Command.parse (Command.register (ofBlankGate.profile.announcement 7101)).payload ≠
        .ok (.register (ofBlankGate.profile.announcement 7101)) ∧
      Routing.classify ⟨⟨1⟩, true⟩
        ((Command.register (ofBlankGate.profile.announcement 7101)).frame ⟨2⟩ ⟨⟨1⟩, centerModule⟩) =
          .dropped := by
  have hj : (idle ofBlankGate.profile {} 7101 0).judge (.ok ⟨.ofCenter ⟨1⟩, []⟩) =
      .ok ⟨.ofCenter ⟨1⟩, []⟩ :=
    judge_of_contains (by decide +kernel) (by decide) (by decide +kernel)
  have hfit : (idle ofBlankGate.profile {} 7101 0).Fits
      (.register (idle ofBlankGate.profile {} 7101 0).announcement) := by
    unfold Fits
    decide +kernel
  obtain ⟨n, started, member, -⟩ := exists_start (by decide) rfl hj hfit
  obtain ⟨hfirst, hread, -, hdropped, -⟩ :=
    announced_iff_of_accepted (s := ofBlankGate) (by decide) (.first started member)
  refine ⟨n, by decide, .first started member, hfirst, fun hok => ?_, ?_⟩
  · obtain ⟨-, hunbroken⟩ := hread.1 hok "front door" (by decide)
    exact absurd hunbroken (by decide +kernel)
  · exact hdropped (by decide +kernel) ⟨⟨1⟩, true⟩ rfl

end Settings

end Meshwork
