import Mathlib.Data.List.Forall2
import Mathlib.Data.Nat.Digits.Defs
import Mathlib.Tactic.IntervalCases
import Meshwork.Proofs.Command

/-!
# The grammar of commands

Which payloads are commands, what they say, and which fault of a payload is reported, without a look
at how it is read. Main statement: `judged_of_payload`, a payload is judged by its words alone, and
the first fault wins: the keyword before the number of words, and that before the fields from left
to right.
-/

namespace Meshwork

namespace Text

/-- The parts of a text between separators, without the empty ones. -/
def pieces (sep : Char → Bool) (text : String) : List String :=
  ((text.toList.splitOnP sep).filter (· ≠ [])).map String.ofList

def beforeColon (text : String) : String := String.ofList (text.toList.takeWhile (· ≠ ':'))

def afterColon (text : String) : String := String.ofList (text.toList.dropWhile (· ≠ ':')).tail

theorem runs_eq_filter (sep : Char → Bool) (cs : List Char) :
    runs sep cs = (cs.splitOnP sep).filter (· ≠ []) := by
  induction cs with
  | nil => rfl
  | cons c cs ih =>
    rw [List.splitOnP_cons_eq_if_modifyHead]
    by_cases hc : sep c = true
    · rw [runs_sep hc, if_pos hc, ih]
      rfl
    rw [runs_cons (by simpa using hc), if_neg hc, ih]
    cases cs with
    | nil => rfl
    | cons d ds =>
      rw [List.splitOnP_cons_eq_if_modifyHead]
      -- the character is a part of its own if a separator follows, and else goes to the next part
      by_cases hd : sep d = true
      · simp only [hd, if_true, startsRun, Bool.not_true, List.modifyHead_cons, ne_eq, decide_not]
        cases hparts :
          (ds.splitOnP sep).filter (fun part => !decide (part = [])) <;> simp [consRun, hparts]
      · obtain ⟨first, rest, hparts⟩ := List.exists_cons_of_ne_nil (List.splitOnP_ne_nil sep ds)
        simp [hd, hparts, startsRun, consRun]

theorem words_eq_pieces (text : String) : words text = pieces isBlank text := by
  rw [words, pieces, runs_eq_filter]

theorem splitFirst?_eq (c : Char) (cs : List Char) : splitFirst? c cs =
    if c ∈ cs then some (cs.takeWhile (· ≠ c), (cs.dropWhile (· ≠ c)).tail) else none := by
  induction cs with
  | nil => rfl
  | cons d ds ih =>
    by_cases hd : d = c
    · simp [splitFirst?, hd]
    · by_cases hmem : c ∈ ds <;> simp [splitFirst?, hd, ih, hmem, Ne.symm hd]

theorem splitFirst?_colon (text : String) : splitFirst? ':' text.toList =
    if ':' ∈ text.toList then some ((beforeColon text).toList, (afterColon text).toList)
      else none := by
  rw [splitFirst?_eq, beforeColon, afterColon, String.toList_ofList, String.toList_ofList]

theorem beforeColon_of_not_mem {text : String} (h : ':' ∉ text.toList) :
    beforeColon text = text := by
  have hall : ∀ c ∈ text.toList, decide (c ≠ ':') = true := fun c hc =>
    decide_eq_true (ne_of_mem_of_not_mem hc h)
  rw [beforeColon, ← List.append_nil text.toList, List.takeWhile_append_of_pos hall]
  simp

theorem afterColon_of_not_mem {text : String} (h : ':' ∉ text.toList) : afterColon text = "" := by
  have hall : ∀ c ∈ text.toList, decide (c ≠ ':') = true := fun c hc =>
    decide_eq_true (ne_of_mem_of_not_mem hc h)
  rw [afterColon, ← List.append_nil text.toList, List.dropWhile_append_of_pos hall]
  simp

end Text

namespace Numeral

variable {base bound n : Nat} {c : Char} {cs : List Char} {text : String}

def IsDigit (base : Nat) (c : Char) (value : Nat) : Prop :=
  value < base ∧
    ("0123456789abcdef".toList[value]? = some c ∨ "0123456789ABCDEF".toList[value]? = some c)

/-- The text is a number: at least one digit, the most significant first, perhaps after a plus
sign. -/
def Spells (base : Nat) (text : String) (n : Nat) : Prop :=
  ∃ sign digits values, text.toList = sign ++ digits ∧ (sign = [] ∨ sign = ['+']) ∧ digits ≠ [] ∧
    List.Forall₂ (IsDigit base) digits values ∧ n = Nat.ofDigits base values.reverse

theorem digit?_of_isDigit {d : Nat} (hb : base ≤ 16) (h : IsDigit base c d) :
    digit? base c = some d := by
  obtain ⟨hlt, hc⟩ := h
  have hd : d < 16 := by omega
  interval_cases d <;> simp at hc <;> rcases hc with rfl | rfl <;> simp [digit?, hlt]

theorem isDigit_of_digit? {d : Nat} (h : digit? base c = some d) : IsDigit base c d := by
  simp only [digit?, Option.ite_none_right_eq_some, Option.some.injEq] at h
  obtain ⟨hlt, rfl⟩ := h
  refine ⟨hlt, ?_⟩
  obtain ⟨v, hv⟩ : ∃ v, c.toNat = v := ⟨_, rfl⟩
  obtain rfl : c = Char.ofNat v := by rw [← hv, Char.ofNat_toNat]
  rw [hv] at hlt ⊢
  split_ifs at hlt ⊢ with hdigit hlower hupper
  · obtain ⟨hlo, hhi⟩ := hdigit
    interval_cases v <;> decide
  · obtain ⟨hlo, hhi⟩ := hlower
    interval_cases v <;> decide
  · obtain ⟨hlo, hhi⟩ := hupper
    interval_cases v <;> decide
  · exact absurd hlt (Nat.lt_irrefl _)

theorem digit?_eq_some_iff {d : Nat} (hb : base ≤ 16) : digit? base c = some d ↔ IsDigit base c d :=
  ⟨isDigit_of_digit?, digit?_of_isDigit hb⟩

theorem readDigits?_eq_some_iff {acc : Nat} (hb : base ≤ 16) : readDigits? base acc cs = some n ↔
    ∃ values,
      List.Forall₂ (IsDigit base) cs values ∧ n = Nat.ofDigits base (values.reverse ++ [acc]) := by
  induction cs generalizing acc with
  | nil => simp [readDigits?, eq_comm]
  | cons c cs ih =>
    simp only [readDigits?, Option.bind_eq_some_iff, digit?_eq_some_iff hb, ih,
      List.forall₂_cons_left_iff]
    -- a digit that is read goes before those that were read
    have hvalue (d : Nat) (values : List Nat) :
        Nat.ofDigits base (values.reverse ++ [acc * base + d]) =
        Nat.ofDigits base ((d :: values).reverse ++ [acc]) := by
      simp only [List.reverse_cons, List.append_assoc, List.singleton_append, Nat.ofDigits_append,
        Nat.ofDigits_cons, Nat.ofDigits_nil]
      ring
    constructor
    · rintro ⟨d, hd, values, hvalues, rfl⟩
      exact ⟨d :: values, ⟨d, values, hd, hvalues, rfl⟩, hvalue d values⟩
    · rintro ⟨_, ⟨d, values, hd, hvalues, rfl⟩, rfl⟩
      exact ⟨d, hd, values, hvalues, (hvalue d values).symm⟩

theorem readUnsigned?_eq_some_iff (hb : base ≤ 16) : readUnsigned? base cs = some n ↔
    cs ≠ [] ∧ ∃ values, List.Forall₂ (IsDigit base) cs values ∧
      n = Nat.ofDigits base values.reverse := by
  cases cs with
  | nil => simp [readUnsigned?]
  | cons c cs =>
    have hread : readUnsigned? base (c :: cs) = readDigits? base 0 (c :: cs) := rfl
    rw [hread, readDigits?_eq_some_iff hb]
    simp [Nat.ofDigits_append]

theorem not_isDigit_plus {d : Nat} (hb : base ≤ 16) : ¬ IsDigit base '+' d := by
  rw [← digit?_eq_some_iff hb]
  simp [digit?]

theorem head?_ne_plus {values : List Nat} (hb : base ≤ 16)
    (h : List.Forall₂ (IsDigit base) cs values) :
    cs.head? ≠ some '+' := by
  cases h with
  | nil => simp
  | cons hc _ =>
    intro heq
    rw [List.head?_cons, Option.some.injEq] at heq
    exact not_isDigit_plus hb (heq ▸ hc)

theorem read?_eq_some_iff (hb : base ≤ 16) :
    read? base text.toList = some n ↔ Spells base text n := by
  unfold Spells
  generalize text.toList = cs
  constructor
  · intro h
    unfold read? at h
    split at h
    · rename_i digits
      obtain ⟨hne, values, hvalues, hn⟩ := (readUnsigned?_eq_some_iff hb).1 h
      exact ⟨['+'], digits, values, rfl, .inr rfl, hne, hvalues, hn⟩
    · obtain ⟨hne, values, hvalues, hn⟩ := (readUnsigned?_eq_some_iff hb).1 h
      exact ⟨[], cs, values, rfl, .inl rfl, hne, hvalues, hn⟩
  · rintro ⟨sign, digits, values, rfl, rfl | rfl, hne, hvalues, hn⟩
    · rw [List.nil_append, read?_eq_readUnsigned? (head?_ne_plus hb hvalues)]
      exact (readUnsigned?_eq_some_iff hb).2 ⟨hne, values, hvalues, hn⟩
    · exact (readUnsigned?_eq_some_iff hb).2 ⟨hne, values, hvalues, hn⟩

theorem readBelow?_eq_some_iff (hb : base ≤ 16) :
    readBelow? base bound text = some n ↔ Spells base text n ∧ n < bound := by
  rw [readBelow?, Option.filter_eq_some_iff, read?_eq_some_iff hb, decide_eq_true_iff]

end Numeral

def Field.Accepts : Field → String → Prop
  | nodeId, word => ∃ n, 1 ≤ n ∧ n ≤ 255 ∧ Numeral.Spells 10 word n
  | port, word => ∃ n, n ≤ 65535 ∧ Numeral.Spells 10 word n
  | handle, word => ∃ n, n ≤ 0xffff ∧ Numeral.Spells 16 word n
  | namedHandle, word => ':' ∈ word.toList

def Keyword.fields : Keyword → List String → List (Field × String)
  | .reg, [id, _, nodePort, _, gatePort, _, h] | .addr, [id, _, nodePort, _, gatePort, _, h] =>
    [(.nodeId, id), (.port, nodePort), (.port, gatePort), (.handle, h)]
  | .broadcast, [id] | .unreg, [id] => [(.nodeId, id)]
  | .pub, [named] | .handle, [named] => [(.namedHandle, named), (.handle, Text.afterColon named)]
  | .handles, [listed] =>
    (Text.pieces (· == ',') (Text.afterColon listed)).map fun h => (.handle, h)
  | _, _ => []

/-- The first field that is not read, with its word. -/
def FirstFault (fields : List (Field × String)) (fault : Field × String) : Prop :=
  ∃ before after,
    fields = before ++ fault :: after ∧ (∀ x ∈ before, x.1.Accepts x.2) ∧ ¬ fault.1.Accepts fault.2

namespace FirstFault

variable {fields more : List (Field × String)} {x y : Field × String}

theorem cons_iff : FirstFault (x :: fields) y ↔
    ¬ x.1.Accepts x.2 ∧ x = y ∨ x.1.Accepts x.2 ∧ FirstFault fields y := by
  constructor
  · rintro ⟨before, after, heq, hbefore, hfault⟩
    cases before with
    | nil =>
      obtain ⟨rfl, rfl⟩ := List.cons.inj heq
      exact .inl ⟨hfault, rfl⟩
    | cons z before =>
      obtain ⟨rfl, rfl⟩ := List.cons.inj heq
      rw [List.forall_mem_cons] at hbefore
      exact .inr ⟨hbefore.1, before, after, rfl, hbefore.2, hfault⟩
  · rintro (⟨hfault, rfl⟩ | ⟨hx, before, after, rfl, hbefore, hfault⟩)
    · exact ⟨[], fields, rfl, nofun, hfault⟩
    · exact ⟨x :: before, after, rfl, List.forall_mem_cons.2 ⟨hx, hbefore⟩, hfault⟩

theorem append_right (h : FirstFault fields x) (more : List (Field × String)) :
    FirstFault (fields ++ more) x := by
  obtain ⟨before, after, rfl, hbefore, hfault⟩ := h
  exact ⟨before, after ++ more, by rw [List.append_assoc, List.cons_append], hbefore, hfault⟩

theorem append_left (hall : ∀ x ∈ fields, x.1.Accepts x.2) (h : FirstFault more x) :
    FirstFault (fields ++ more) x := by
  obtain ⟨before, after, rfl, hbefore, hfault⟩ := h
  refine ⟨fields ++ before, after, by rw [List.append_assoc], fun y hy => ?_, hfault⟩
  exact (List.mem_append.1 hy).elim (hall y) (hbefore y)

theorem not_all (h : FirstFault fields x) : ¬ ∀ x ∈ fields, x.1.Accepts x.2 := by
  obtain ⟨before, after, rfl, -, hfault⟩ := h
  exact fun hall => hfault (hall x (by simp))

theorem unique (hx : FirstFault fields x) (hy : FirstFault fields y) : x = y := by
  induction fields with
  | nil =>
    obtain ⟨before, after, heq, -⟩ := hx
    simp at heq
  | cons z fields ih =>
    rw [cons_iff] at hx hy
    obtain ⟨hz, rfl⟩ | ⟨hz, hx⟩ := hx
    · obtain ⟨-, rfl⟩ | ⟨hz', -⟩ := hy
      · rfl
      · exact absurd hz' hz
    · exact ih hx (hy.resolve_left fun h => h.1 hz).2

end FirstFault

def HostIs (word host : String) : Prop := word = "0" ∧ host = "" ∨ word ≠ "0" ∧ host = word

def Announcement.SaidBy (a : Announcement) : List String → Prop
  | [id, nodeHost, nodePort, gateHost, gatePort, wanHost, handle] =>
    (a.id.Assigned ∧ Numeral.Spells 10 id a.id.index) ∧
      HostIs nodeHost a.address.nodeHost ∧ Numeral.Spells 10 nodePort a.address.nodePort.toNat ∧
      HostIs gateHost a.address.gateHost ∧ Numeral.Spells 10 gatePort a.address.gatePort.toNat ∧
      HostIs wanHost a.address.wanHost ∧ Numeral.Spells 16 handle a.handle.number
  | _ => False

theorem Keyword.text_inj {k k' : Keyword} : k.text = k'.text ↔ k = k' := by
  refine ⟨fun h => ?_, fun h => h ▸ rfl⟩
  rw [← Option.some_inj, ← ofText?_text k, ← ofText?_text k', h]

namespace Command

open Text

def SaidBy : Command → List String → Prop
  | .register a, args | .address a, args => a.SaidBy args
  | .broadcast id, args | .unregister id, args =>
    ∃ word, args = [word] ∧ id.Assigned ∧ Numeral.Spells 10 word id.index
  | .subscribe name, args => args = [name]
  | .publish name h, args | .handle name h, args =>
    ∃ word, args = [word] ∧ ':' ∈ word.toList ∧ name = beforeColon word ∧
      Numeral.Spells 16 (afterColon word) h.number
  | .handles name hs, args =>
    ∃ word, args = [word] ∧ name = beforeColon word ∧
      List.Forall₂ (fun item (h : Handle) => Numeral.Spells 16 item h.number)
        (pieces (· == ',') (afterColon word)) hs
  | .heartbeat, args => args = []

/-- All fields were read, or the first fault is reported. -/
inductive Outcome {α : Type} (fields : List (Field × String)) : Except CommandError α → Prop where
  | read {a : α} (all : ∀ x ∈ fields, x.1.Accepts x.2) : Outcome fields (.ok a)
  | fault {field : Field} {word : String} (first : FirstFault fields (field, word)) :
    Outcome fields (.error (.invalidField field word))

variable {α β : Type} {fields more : List (Field × String)} {r : Except CommandError α}
  {word name : String} {handle : Handle} {handles : List Handle}

theorem outcome_nil (a : α) : Outcome [] (.ok a) := .read nofun

theorem outcome_single {field : Field} (hok : ∀ a, r = .ok a → field.Accepts word)
    (herror : ∀ e, r = .error e → e = .invalidField field word ∧ ¬ field.Accepts word) :
    Outcome [(field, word)] r := by
  cases r with
  | ok a => exact .read (by simpa using hok a rfl)
  | error e =>
    obtain ⟨rfl, hfault⟩ := herror e rfl
    exact .fault ⟨[], [], rfl, nofun, hfault⟩

namespace Outcome

theorem map (h : Outcome fields r) (f : α → β) : Outcome fields (r.map f) := by
  cases h with
  | read all => exact .read all
  | fault first => exact .fault first

theorem cons {x : Field × String} (h : Outcome fields r) (hx : x.1.Accepts x.2) :
    Outcome (x :: fields) r := by
  cases h with
  | read all => exact .read (List.forall_mem_cons.2 ⟨hx, all⟩)
  | fault first => exact .fault (FirstFault.cons_iff.2 (.inr ⟨hx, first⟩))

theorem bind {f : α → Except CommandError β} (h : Outcome fields r) (hf : ∀ a, Outcome more (f a)) :
    Outcome (fields ++ more) (r >>= f) := by
  cases h with
  | fault first => exact .fault (first.append_right more)
  | @read a all =>
    have hmore := hf a
    change Outcome (fields ++ more) (f a)
    generalize f a = s at hmore
    cases hmore with
    | read rest => exact .read fun x hx => (List.mem_append.1 hx).elim (all x) (rest x)
    | fault first => exact .fault (first.append_left all)

theorem mapM {items : List α} {f : α → Except CommandError β} {field : α → Field × String}
    (h : ∀ a, Outcome [field a] (f a)) : Outcome (items.map field) (items.mapM f) := by
  induction items with
  | nil => exact outcome_nil _
  | cons a items ih =>
    rw [List.mapM_cons]
    refine (h a).bind fun b => ?_
    rw [bind_pure_comp]
    exact ih.map _

theorem exists_ok_iff (h : Outcome fields r) :
    (∃ a, r = .ok a) ↔ ∀ x ∈ fields, x.1.Accepts x.2 := by
  cases h with
  | read all => exact iff_of_true ⟨_, rfl⟩ all
  | fault first => exact iff_of_false nofun first.not_all

theorem eq_error_iff (h : Outcome fields r) {field : Field} :
    r = .error (.invalidField field word) ↔ FirstFault fields (field, word) := by
  cases h with
  | read all => exact iff_of_false nofun fun first => first.not_all all
  | fault first =>
    refine ⟨fun heq => ?_, fun other => ?_⟩
    · cases heq
      exact first
    · cases first.unique other
      rfl

end Outcome

theorem mapM_eq_ok_iff {ε : Type} {f : α → Except ε β} {l : List α} {bs : List β} :
    l.mapM f = .ok bs ↔ List.Forall₂ (fun a b => f a = .ok b) l bs := by
  induction l generalizing bs with
  | nil => simp [pure, Except.pure, eq_comm]
  | cons a l ih =>
    simp only [List.mapM_cons, List.forall₂_cons_left_iff, ← ih]
    cases ha : f a with
    | error e => simp [bind, Except.bind]
    | ok b => cases hl : l.mapM f <;> simp [bind, Except.bind, pure, Except.pure, eq_comm]

theorem index_ofNat {n : Nat} (h : n < 256) : (NodeId.ofNat n).index = n := by
  rw [NodeId.index_ofNat, Nat.mod_eq_of_lt h]

theorem readNodeId_eq_ok_iff {id : NodeId} :
    readNodeId word = .ok id ↔ id.Assigned ∧ Numeral.Spells 10 word id.index := by
  rw [NodeId.assigned_iff]
  unfold readNodeId
  constructor
  · intro h
    split at h
    · rename_i n hn
      obtain ⟨hspells, hlt⟩ := (Numeral.readBelow?_eq_some_iff (by decide)).1 hn
      split at h
      · cases h
      · rename_i hzero
        cases h
        rw [NodeId.index_ofNat, Nat.mod_eq_of_lt hlt]
        exact ⟨Nat.pos_iff_ne_zero.2 hzero, hspells⟩
    · cases h
  · rintro ⟨hpos, hspells⟩
    rw [(Numeral.readBelow?_eq_some_iff (by decide)).2 ⟨hspells, id.index_lt⟩]
    simp [Nat.pos_iff_ne_zero.1 hpos]

theorem readPort_eq_ok_iff {port : UInt16} :
    readPort word = .ok port ↔ Numeral.Spells 10 word port.toNat := by
  unfold readPort
  constructor
  · intro h
    split at h
    · rename_i n hn
      obtain ⟨hspells, hlt⟩ := (Numeral.readBelow?_eq_some_iff (by decide)).1 hn
      cases h
      rwa [UInt16.toNat_ofNat', Nat.mod_eq_of_lt hlt]
    · cases h
  · intro hspells
    rw [(Numeral.readBelow?_eq_some_iff (by decide)).2 ⟨hspells, port.toNat_lt⟩]
    simp

theorem readHandle_eq_ok_iff :
    readHandle 16 word = .ok handle ↔ Numeral.Spells 16 word handle.number := by
  unfold readHandle
  constructor
  · intro h
    split at h
    · rename_i n hn
      obtain ⟨hspells, hlt⟩ := (Numeral.readBelow?_eq_some_iff (by decide)).1 hn
      cases h
      rwa [Handle.number_ofNumber, Nat.mod_eq_of_lt hlt]
    · cases h
  · intro hspells
    rw [(Numeral.readBelow?_eq_some_iff (by decide)).2 ⟨hspells, handle.number_lt⟩]
    simp

theorem readHost_eq_iff {host : String} : readHost word = host ↔ HostIs word host := by
  unfold readHost HostIs noHost
  split <;> simp_all [eq_comm]

theorem outcome_readNodeId (word : String) : Outcome [(.nodeId, word)] (readNodeId word) := by
  refine outcome_single (fun id h => ?_) fun e h => ?_
  · obtain ⟨hpos, hspells⟩ := readNodeId_eq_ok_iff.1 h
    exact ⟨id.index, NodeId.assigned_iff.1 hpos, Nat.le_of_lt_succ id.index_lt, hspells⟩
  · refine ⟨by grind [readNodeId], ?_⟩
    rintro ⟨n, hpos, hle, hspells⟩
    have hread : readNodeId word = .ok (NodeId.ofNat n) :=
      readNodeId_eq_ok_iff.2 ⟨NodeId.assigned_iff.2 (by rwa [index_ofNat (by omega)]),
        by rwa [index_ofNat (by omega)]⟩
    simp [hread] at h

theorem outcome_readPort (word : String) : Outcome [(.port, word)] (readPort word) := by
  refine outcome_single (fun port h => ?_) fun e h => ?_
  · exact ⟨port.toNat, Nat.le_of_lt_succ port.toNat_lt, readPort_eq_ok_iff.1 h⟩
  · refine ⟨by grind [readPort], ?_⟩
    rintro ⟨n, hle, hspells⟩
    have hread : readPort word = .ok (UInt16.ofNat n) :=
      readPort_eq_ok_iff.2 (by rwa [UInt16.toNat_ofNat', Nat.mod_eq_of_lt (by omega)])
    simp [hread] at h

theorem outcome_readHandle (word : String) : Outcome [(.handle, word)] (readHandle 16 word) := by
  refine outcome_single (fun handle h => ?_) fun e h => ?_
  · exact ⟨handle.number, Nat.le_of_lt_succ handle.number_lt, readHandle_eq_ok_iff.1 h⟩
  · refine ⟨by grind [readHandle], ?_⟩
    rintro ⟨n, hle, hspells⟩
    have hread : readHandle 16 word = .ok (Handle.ofNumber n) :=
      readHandle_eq_ok_iff.2 (by rwa [Handle.number_ofNumber, Nat.mod_eq_of_lt (by omega)])
    simp [hread] at h

theorem outcome_readAnnouncement (id nodeHost nodePort gateHost gatePort wanHost handle : String) :
    Outcome [(.nodeId, id), (.port, nodePort), (.port, gatePort), (.handle, handle)]
      (readAnnouncement id nodeHost nodePort gateHost gatePort wanHost handle) :=
  (outcome_readNodeId id).bind fun _ => (outcome_readPort nodePort).bind fun _ =>
    (outcome_readPort gatePort).bind fun _ => (outcome_readHandle handle).bind fun _ =>
      outcome_nil _

theorem outcome_readNamed (word : String) :
    Outcome [(.namedHandle, word), (.handle, afterColon word)] (readNamed word) := by
  rw [readNamed, splitFirst?_colon]
  by_cases hcolon : ':' ∈ word.toList
  · simp only [hcolon, if_true, String.ofList_toList]
    exact ((outcome_readHandle (afterColon word)).map _).cons hcolon
  · simp only [hcolon, if_false]
    exact .fault ⟨[], _, rfl, nofun, hcolon⟩

theorem readNamed_eq_ok_iff : readNamed word = .ok (name, handle) ↔
    ':' ∈ word.toList ∧ name = beforeColon word ∧
      Numeral.Spells 16 (afterColon word) handle.number := by
  rw [readNamed, splitFirst?_colon, ← readHandle_eq_ok_iff]
  by_cases hcolon : ':' ∈ word.toList
  · simp only [hcolon, if_true, String.ofList_toList, true_and]
    cases hread : readHandle 16 (afterColon word) <;> simp [Except.map, eq_comm]
  · simp [hcolon]

theorem readListed_eq (word : String) : readListed word =
    ((pieces (· == ',') (afterColon word)).mapM (readHandle 16)).map fun hs =>
      (beforeColon word, hs) := by
  have hitems (text : String) :
      (runs (· == ',') text.toList).mapM (fun h => readHandle 16 (String.ofList h)) =
      (pieces (· == ',') text).mapM (readHandle 16) := by
    rw [pieces, ← runs_eq_filter, List.mapM_map]
    rfl
  rw [readListed, splitFirst?_colon, ← hitems]
  by_cases hcolon : ':' ∈ word.toList
  · simp [hcolon]
  · simp [hcolon, afterColon_of_not_mem hcolon, beforeColon_of_not_mem hcolon]

theorem outcome_readListed (word : String) :
    Outcome ((pieces (· == ',') (afterColon word)).map fun h => (.handle, h))
      (readListed word) := by
  rw [readListed_eq]
  exact (Outcome.mapM outcome_readHandle).map _

theorem readListed_eq_ok_iff : readListed word = .ok (name, handles) ↔ name = beforeColon word ∧
    List.Forall₂ (fun item (h : Handle) => Numeral.Spells 16 item h.number)
      (pieces (· == ',') (afterColon word))
      handles := by
  simp only [readListed_eq, ← readHandle_eq_ok_iff, ← mapM_eq_ok_iff]
  cases hread :
    (pieces (· == ',') (afterColon word)).mapM (readHandle 16) <;> simp [Except.map, eq_comm]

theorem bind_eq_ok_iff {ε : Type} {r : Except ε α} {f : α → Except ε β} {b : β} :
    r >>= f = .ok b ↔ ∃ a, r = .ok a ∧ f a = .ok b := by
  cases r with
  | error e => exact ⟨nofun, nofun⟩
  | ok a => simp [bind, Except.bind]

theorem readAnnouncement_eq_ok_iff {a : Announcement}
    {id nodeHost nodePort gateHost gatePort wanHost handle : String} :
    readAnnouncement id nodeHost nodePort gateHost gatePort wanHost handle = .ok a ↔
      a.SaidBy [id, nodeHost, nodePort, gateHost, gatePort, wanHost, handle] := by
  simp only [readAnnouncement, bind_eq_ok_iff, readNodeId_eq_ok_iff, readPort_eq_ok_iff,
    readHandle_eq_ok_iff, pure, Except.pure, Except.ok.injEq, Announcement.SaidBy,
    ← readHost_eq_iff]
  constructor
  · rintro ⟨id, hid, nodePort, hnode, gatePort, hgate, handle, hhandle, rfl⟩
    exact ⟨hid, rfl, hnode, rfl, hgate, rfl, hhandle⟩
  · rintro ⟨hid, hnodeHost, hnode, hgateHost, hgate, hwan, hhandle⟩
    refine ⟨_, hid, _, hnode, _, hgate, _, hhandle, ?_⟩
    rw [hnodeHost, hgateHost, hwan]

variable {k : Keyword} {args : List String} {c : Command}

theorem ofArguments_eq_ok_iff : ofArguments k args = .ok c ↔ c.keyword = k ∧ c.SaidBy args := by
  constructor
  · intro h
    refine ⟨keyword_ofArguments h, ?_⟩
    unfold ofArguments at h
    split at h
    case h_1 | h_2 =>
      obtain ⟨a, hread, rfl⟩ := exists_of_map_eq_ok h
      exact readAnnouncement_eq_ok_iff.1 hread
    case h_3 | h_4 =>
      obtain ⟨id, hread, rfl⟩ := exists_of_map_eq_ok h
      exact ⟨_, rfl, readNodeId_eq_ok_iff.1 hread⟩
    case h_5 | h_9 =>
      cases h
      rfl
    case h_6 | h_7 =>
      obtain ⟨⟨name, handle⟩, hread, rfl⟩ := exists_of_map_eq_ok h
      exact ⟨_, rfl, readNamed_eq_ok_iff.1 hread⟩
    case h_8 =>
      obtain ⟨⟨name, list⟩, hread, rfl⟩ := exists_of_map_eq_ok h
      exact ⟨_, rfl, readListed_eq_ok_iff.1 hread⟩
    case h_10 => cases h
  · rintro ⟨rfl, hsaid⟩
    cases c with
    | register a | address a =>
      match args, hsaid with
      | [_, _, _, _, _, _, _], hsaid =>
        simp [keyword, ofArguments, readAnnouncement_eq_ok_iff.2 hsaid, Except.map]
    | broadcast id | unregister id =>
      obtain ⟨word, rfl, hid⟩ := hsaid
      simp [keyword, ofArguments, readNodeId_eq_ok_iff.2 hid, Except.map]
    | subscribe name =>
      cases hsaid
      rfl
    | publish name handle | handle name handle =>
      obtain ⟨word, rfl, hnamed⟩ := hsaid
      simp [keyword, ofArguments, readNamed_eq_ok_iff.2 hnamed, Except.map]
    | handles name list =>
      obtain ⟨word, rfl, hlisted⟩ := hsaid
      simp [keyword, ofArguments, readListed_eq_ok_iff.2 hlisted, Except.map]
    | heartbeat =>
      cases hsaid
      rfl

theorem ofArguments_of_length_ne (h : args.length ≠ k.arity) :
    ofArguments k args = .error (.arity k.text k.arity args.length) := by
  unfold ofArguments
  split
  case h_10 => rfl
  all_goals exact absurd rfl h

theorem outcome_ofArguments (h : args.length = k.arity) :
    Outcome (k.fields args) (ofArguments k args) := by
  cases k with
  | reg | addr =>
    match args, h with
    | [id, nodeHost, nodePort, gateHost, gatePort, wanHost, node], _ =>
      simp only [Keyword.fields, ofArguments]
      exact (outcome_readAnnouncement id nodeHost nodePort gateHost gatePort wanHost node).map _
  | broadcast | unreg =>
    match args, h with
    | [id], _ =>
      simp only [Keyword.fields, ofArguments]
      exact (outcome_readNodeId id).map _
  | sub =>
    match args, h with
    | [name], _ => exact outcome_nil _
  | pub | handle =>
    match args, h with
    | [named], _ =>
      simp only [Keyword.fields, ofArguments]
      exact (outcome_readNamed named).map _
  | handles =>
    match args, h with
    | [listed], _ =>
      simp only [Keyword.fields, ofArguments]
      exact (outcome_readListed listed).map _
  | hb =>
    match args, h with
    | [], _ => exact outcome_nil _

/-- How a payload is judged that has these words. -/
structure Judged (words : List String) (result : Except CommandError Command) : Prop where
  isText : result ≠ .error .notText
  empty : result = .error .empty ↔ words = []
  unknown : ∀ word, result = .error (.unknown word) ↔
    ∃ args, words = word :: args ∧ ∀ k : Keyword, k.text ≠ word
  arity : ∀ subject expected found, result = .error (.arity subject expected found) ↔
    ∃ k args, words = Keyword.text k :: args ∧ args.length ≠ k.arity ∧
      subject = k.text ∧ expected = k.arity ∧ found = args.length
  accepted : (∃ c, result = .ok c) ↔
    ∃ k args, words = Keyword.text k :: args ∧ args.length = k.arity ∧
    ∀ x ∈ k.fields args, x.1.Accepts x.2
  said : ∀ c, result = .ok c ↔ ∃ args, words = c.keyword.text :: args ∧ c.SaidBy args
  fault : ∀ field value, result = .error (.invalidField field value) ↔
    ∃ k args, words = Keyword.text k :: args ∧ args.length = k.arity ∧
      FirstFault (k.fields args) (field, value)

theorem exists_words_iff {P : Keyword → List String → Prop} :
    (∃ k' args', k.text :: args = Keyword.text k' :: args' ∧ P k' args') ↔ P k args := by
  constructor
  · rintro ⟨k', args', heq, h⟩
    obtain ⟨htext, rfl⟩ := List.cons.inj heq
    exact Keyword.text_inj.1 htext ▸ h
  · exact fun h => ⟨k, args, rfl, h⟩

theorem exists_said_iff : (∃ args', k.text :: args = c.keyword.text :: args' ∧ c.SaidBy args') ↔
    ofArguments k args = .ok c := by
  rw [ofArguments_eq_ok_iff]
  constructor
  · rintro ⟨args', heq, h⟩
    obtain ⟨htext, rfl⟩ := List.cons.inj heq
    exact ⟨(Keyword.text_inj.1 htext).symm, h⟩
  · rintro ⟨rfl, h⟩
    exact ⟨args, rfl, h⟩

theorem not_unknown : ¬ ∃ args', k.text :: args = word :: args' ∧ ∀ k : Keyword, k.text ≠ word := by
  rintro ⟨args', heq, hword⟩
  exact hword k (List.cons.inj heq).1

theorem judged_nil : Judged [] (.error .empty) := by
  constructor <;> simp

theorem judged_of_unknown (hword : ∀ k : Keyword, k.text ≠ word) :
    Judged (word :: args) (.error (.unknown word)) := by
  constructor <;> simp [(hword _).symm, eq_comm]

theorem judged_of_length_ne (h : args.length ≠ k.arity) :
    Judged (k.text :: args) (ofArguments k args) := by
  have herror := ofArguments_of_length_ne h
  refine ⟨?_, ?_, fun word => ?_, fun subject expected found => ?_, ?_,
    fun c => exists_said_iff.symm, fun field value => ?_⟩
  · simp [herror]
  · simp [herror]
  · exact iff_of_false (by simp [herror]) not_unknown
  · rw [exists_words_iff, herror]
    simp [h, eq_comm]
  · rw [exists_words_iff, herror]
    simp [h]
  · rw [exists_words_iff, herror]
    simp [h]

theorem judged_of_length (h : args.length = k.arity) :
    Judged (k.text :: args) (ofArguments k args) := by
  have houtcome := outcome_ofArguments h
  have hfield {e : CommandError} (he : ofArguments k args = .error e) :
      ∃ field word, e = .invalidField field word := by
    rw [he] at houtcome
    cases houtcome with
    | fault => exact ⟨_, _, rfl⟩
  refine ⟨fun he => ?_, iff_of_false (fun he => ?_) (by simp),
    fun word => iff_of_false (fun he => ?_) not_unknown, fun subject expected found => ?_, ?_,
    fun c => exists_said_iff.symm, fun field word => ?_⟩
  · simpa using hfield he
  · simpa using hfield he
  · simpa using hfield he
  · rw [exists_words_iff]
    exact iff_of_false (fun he => by simpa using hfield he) fun hne => hne.1 h
  · rw [exists_words_iff, houtcome.exists_ok_iff, and_iff_right h]
  · rw [exists_words_iff, houtcome.eq_error_iff, and_iff_right h]

theorem judged_ofWords (words : List String) : Judged words (ofWords words) := by
  cases words with
  | nil => exact judged_nil
  | cons word args =>
    rw [ofWords]
    cases hk : Keyword.ofText? word with
    | none =>
      refine judged_of_unknown fun k hword => ?_
      rw [← hword, Keyword.ofText?_text] at hk
      cases hk
    | some k =>
      rw [Keyword.eq_text_of_ofText? hk]
      by_cases hlength : args.length = k.arity
      · exact judged_of_length hlength
      · exact judged_of_length_ne hlength

/-- A payload that is no text is refused for that. Any other is judged by its words alone: it must
begin with a keyword, which must have the right number of words after it, and the first of the
fields that cannot be read is reported. -/
theorem judged_of_payload (payload : List UInt8) :
    (parse payload = .error .notText ↔ ∀ text, utf8 text ≠ payload) ∧
    ∀ text, utf8 text = payload → Judged (pieces isBlank text) (parse payload) ∧
      ∀ other, pieces isBlank other = pieces isBlank text → parse (utf8 other) = parse payload := by
  have hparse (text : String) : parse (utf8 text) = ofWords (pieces isBlank text) := by
    rw [parse, ofUtf8?_utf8, ← words_eq_pieces]
  refine ⟨⟨fun h text htext => ?_, fun h => ?_⟩, ?_⟩
  · rw [← htext, hparse] at h
    exact (judged_ofWords _).isText h
  · cases htext : ofUtf8? payload with
    | none => simp only [parse, htext]
    | some text => exact absurd (utf8_of_ofUtf8? htext) (h text)
  · rintro text rfl
    refine ⟨hparse text ▸ judged_ofWords _, fun other heq => ?_⟩
    rw [hparse, hparse, heq]

example : parse (utf8 "UNREG 0 0") = .error (.arity "UNREG" 1 2) ∧
    parse (utf8 "ADDR +07 a 65536 b 0 0 handle") = .error (.invalidField .port "65536") :=
  ⟨rfl, rfl⟩

end Command

end Meshwork
