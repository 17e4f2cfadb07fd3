import Meshwork.Proofs.Announcement
import Meshwork.Proofs.Grammar
import Meshwork.Proofs.Node.Replay
import Meshwork.Settings.Overrides

/-!
# Settings overridden

Settings are looked at twice before a node starts, as settings and as the profile made of them, and
the address of the center is written and read again. Main statement: `overridden`, nothing is lost
on the way: what is accepted first is accepted again, and host and port of the center are what they
were, whatever the host is.
-/

namespace Meshwork

namespace Numeral

variable {base n : Nat} {text : String}

theorem not_isDigit_colon {d : Nat} (hb : base ≤ 16) : ¬ IsDigit base ':' d := by
  rw [← digit?_eq_some_iff hb]
  simp [digit?]

theorem Spells.colon_not_mem (hb : base ≤ 16) (h : Spells base text n) : ':' ∉ text.toList := by
  obtain ⟨sign, digits, values, htext, hsign, -, hdigits, -⟩ := h
  have hne : ∀ c ∈ digits, c ≠ ':' := by
    refine ((List.forall₂_and_left _ _).1 (hdigits.imp fun c d hd => ⟨?_, hd⟩)).1
    rintro rfl
    exact not_isDigit_colon hb hd
  rw [htext, List.mem_append, not_or]
  refine ⟨?_, fun hmem => hne ':' hmem rfl⟩
  obtain rfl | rfl := hsign <;> decide

end Numeral

theorem Text.eq_append_of_splitLast? {c : Char} {cs a b : List Char}
    (h : splitLast? c cs = some (a, b)) :
    cs = a ++ c :: b := by
  induction cs generalizing a with
  | nil => cases h
  | cons d ds ih =>
    rw [splitLast?] at h
    split at h
    · rename_i p hp
      cases h
      rw [ih hp, List.cons_append]
    · split at h
      · rename_i hd
        cases h
        rw [hd, List.nil_append]
      · cases h

theorem Profile.flaw?_eq_none_iff {p : Profile} : p.flaw? = none ↔
    ¬ (p.maxNodes < 2 ∨ nodeLimit < p.maxNodes) ∧
      ¬ (¬ p.nodeId.Assigned ∨ p.maxNodes ≤ p.nodeId.index) ∧
      p.maxConnections ≠ 0 ∧ ¬ (p.maxPayload = 0 ∨ payloadLimit < p.maxPayload) ∧ p.tickMicros ≠ 0 ∧
      p.center ≠ .remote "" := by
  simp only [flaw?, ite_eq_iff, reduceCtorEq, and_false, false_or, and_true, ne_eq]

theorem Endpoint.text_ne_empty (e : Endpoint) : e.text ≠ "" := by
  intro h
  have hlist : e.text.toList = [] := by rw [h]; rfl
  simp [text] at hlist

namespace Settings

variable {s : Settings}

theorem flaw?_eq_none_iff : s.flaw? = none ↔
    ¬ (s.mesh.maxNodes < 2 ∨ nodeLimit < s.mesh.maxNodes) ∧
      ¬ (¬ s.node.id.Assigned ∨ s.mesh.maxNodes ≤ s.node.id.index) ∧ hasCenter s.center ∧
      ¬ (s.mesh.maxPayload = 0 ∨ payloadLimit < s.mesh.maxPayload) ∧ s.mesh.tickMs ≠ 0 ∧
      ¬ (s.mesh.maxConnections = 0 ∨ s.mesh.writeQueueFrames = 0) ∧
      (∀ m ∈ s.modules.publish, m.flaw? = none) ∧ (∀ name ∈ s.modules.subscribe, ValidName name) ∧
      s.logging.level ∈ logLevels := by
  simp only [flaw?, ite_eq_iff, reduceCtorEq, and_false, false_or, and_true, or_false, ne_eq,
    not_not, Option.or_eq_none_iff, List.findSome?_eq_none_iff, Option.map_eq_none_iff,
    List.find?_eq_none, decide_eq_true_iff]

theorem flaw?_profile (accepted : s.flaw? = none) : s.profile.flaw? = none := by
  obtain ⟨hnodes, hid, -, hpayload, htick, hlimits, -⟩ := flaw?_eq_none_iff.1 accepted
  have hcenter : centerSite s.center ≠ .remote "" := by
    unfold centerSite
    split
    · exact nofun
    · exact fun h => Endpoint.text_ne_empty _ (CenterSite.remote.inj h)
  exact Profile.flaw?_eq_none_iff.2 ⟨hnodes, hid, fun h => hlimits (.inl h), hpayload,
    Nat.mul_ne_zero htick (by decide), hcenter⟩

end Settings

theorem centerAddress_append (host : String) {word : String} {n : Nat} (hcolon : ':' ∉ word.toList)
    (hread : Numeral.readBelow? 10 65536 word = some n) :
    centerAddress (host ++ ":" ++ word) = { nodeHost := host, nodePort := .ofNat n } := by
  have hlist : (host ++ ":" ++ word).toList = host.toList ++ ':' :: word.toList := by simp
  rw [centerAddress, hlist, Text.splitLast?_append hcolon]
  simp [hread]

theorem centerAddress_text (e : Endpoint) :
    centerAddress e.text = { nodeHost := e.host, nodePort := e.port } := by
  have hcolon : ':' ∉ (Numeral.decimal e.port.toNat).toList := by
    rw [Numeral.decimal, String.toList_ofList]
    exact Numeral.not_mem_digits e.port.toNat ':' (by decide)
  rw [Endpoint.text,
    centerAddress_append e.host hcolon (Numeral.readBelow?_decimal e.port.toNat_lt),
    UInt16.ofNat_toNat]

namespace CenterSettings

variable {host word : String} {port : UInt16}

theorem moveTo_of_spells (c : CenterSettings) (h : Numeral.Spells 10 word port.toNat) :
    c.moveTo (host ++ ":" ++ word) = { host, port, isHere := false } := by
  have hread : Numeral.readBelow? 10 UInt16.size word = some port.toNat :=
    (Numeral.readBelow?_eq_some_iff (by decide)).2 ⟨h, port.toNat_lt⟩
  rw [moveTo_append c host (h.colon_not_mem (by decide)) hread, UInt16.ofNat_toNat]

example (c : CenterSettings) :
    c.moveTo "fe80::1:07300" = { host := "fe80::1", port := 7300, isHere := false } := by
  rfl

theorem port_moveTo (c : CenterSettings) {address : String}
    (h : ∀ host word (port : UInt16), address = host ++ ":" ++ word →
      ¬ Numeral.Spells 10 word port.toNat) :
    (c.moveTo address).port = c.port := by
  unfold moveTo
  split
  · rename_i before after hsplit
    cases hread : Numeral.readBelow? 10 UInt16.size (String.ofList after) with
    | none => simp
    | some n =>
      obtain ⟨hspells, hlt⟩ := (Numeral.readBelow?_eq_some_iff (by decide)).1 hread
      refine absurd ?_ (h (String.ofList before) (String.ofList after) (.ofNat n) ?_)
      · rwa [UInt16.toNat_ofNat', Nat.mod_eq_of_lt hlt]
      · rw [← String.toList_inj, Text.eq_append_of_splitLast? hsplit]
        simp
  · rfl

end CenterSettings

namespace Node

variable {n m : Node} {a : Move} {h : Handshake} {id : NodeId} {p : Peer}

theorem Takes.address_eq (ht : n.Takes a m) (ha : ¬ a.Announces id)
    (hp : n.roster.get? id = some p) :
    ∃ q ∈ m.roster.get? id, q.address = p.address := by
  obtain ⟨q, hq, halters⟩ := ht.exists_alters hp
  refine ⟨q, hq, ?_⟩
  cases halters with
  | learn node => exact absurd node ha
  | join node => exact absurd node ha
  | _ => rfl

theorem Via.address_eq {P : Move → Prop} (hvia : n.Via P m) (hP : ∀ a, P a → ¬ a.Announces id)
    (hp : n.roster.get? id = some p) : ∃ q ∈ m.roster.get? id, q.address = p.address := by
  refine hvia.keeps (I := fun k => ∃ q ∈ k.roster.get? id, q.address = p.address)
    (fun k a l hk ha ht => ?_) ⟨p, hp, rfl⟩
  obtain ⟨q, hq, hsame⟩ := hk
  obtain ⟨r, hr, haddress⟩ := ht.address_eq (hP a ha) hq
  exact ⟨r, hr, haddress.trans hsame⟩

/-- The entry of the center has the address that its endpoint gives. -/
def CenterAt (n : Node) (id : NodeId) : Prop :=
  ∃ p ∈ n.roster.get? id, p.address = centerAddress (n.profile.centerEndpoint?.getD "")

theorem CenterAt.via {P : Move → Prop} (hn : n.CenterAt id) (hvia : n.Via P m)
    (hP : ∀ a, P a → ¬ a.Announces id) : m.CenterAt id := by
  obtain ⟨p, hp, haddress⟩ := hn
  obtain ⟨q, hq, hsame⟩ := hvia.address_eq hP hp
  exact ⟨q, hq, by rw [hsame, haddress, hvia.profile_eq]⟩

theorem Ordered.centerAt_join (ho : n.Ordered) (hm : n.registry? = none)
    (hf : n.center? = none ∨ n.Awaits) (hj : n.judge (.ok h) = .ok h) :
    (n.join (.ok h)).1.CenterAt h.greeting.center.node ∧ (n.join (.ok h)).1.Member := by
  obtain ⟨-, hin, -, hroom⟩ := judge_eq_ok hj
  obtain ⟨i, links, hi⟩ := ho.wired.links.kept.nextId.exists_insert hroom
    (n.newLink n.links.nextId.1) (some h.greeting.center.node)
  obtain ⟨p, hp⟩ := Roster.exists_get? hin
  have htakes := Takes.join hm hf hj hi (centerAddress (n.profile.centerEndpoint?.getD ""))
  obtain ⟨m, hm'⟩ : ∃ m, m = { n with
      links
      roster :=
        ((n.roster.update h.greeting.center.node (centerAddress (n.profile.centerEndpoint?.getD ""))
        h.greeting.mesh).attach h.greeting.center.node n.links.nextId.1 .established).noteSent
          h.greeting.center.node n.now
      role := .member (some ⟨h.greeting.center.node, h.greeting.center⟩)
      effects := n.effects ++ [Effect.adopt n.links.nextId.1 h.pending] } := ⟨_, rfl⟩
  have hcenter : m.CenterAt h.greeting.center.node := by
    rw [hm']
    exact ⟨_, by rw [Roster.get?_noteSent_attach_update, if_pos rfl, hp]; rfl, rfl⟩
  rw [← hm'] at htakes
  have hmember := htakes.member ⟨ho, hm⟩
  have hregister := hmember.askIfPossible_requests receive (.register m.announcement)
  have hjoin : (n.join (.ok h)).1 = m.askIfPossible receive (.register m.announcement) := by
    have hask : m.ask receive (.register m.announcement) =
        m.command receive h.greeting.center (.register m.announcement) := by
      rw [hm', ask]
    rw [askIfPossible, hask]
    simp only [join, hj, hi, hm', emit]
    split <;> simp [*]
  rw [hjoin]
  exact ⟨hcenter.via hregister fun _ => Move.Requests.not_announces, hregister.member hmember⟩

theorem centerAt_finishHandshake (ho : n.Ordered) (hw : n.Awaits) (hj : n.judge (.ok h) = .ok h) :
    (n.finishHandshake (.ok h)).CenterAt h.greeting.center.node := by
  have ho' : Ordered { n with handshakes := n.handshakes - 1 } := Takes.answered.ordered ho
  have hwait : ¬ ¬ Awaits { n with handshakes := n.handshakes - 1 } := not_not_intro hw
  obtain ⟨hcenter, hmember⟩ := ho'.centerAt_join hw.not_center (.inr hw) hj
  cases hjoin : join { n with handshakes := n.handshakes - 1 } (.ok h) with
  | mk m result =>
    rw [hjoin] at hcenter hmember
    cases result with
    | error e =>
      have hfinish : n.finishHandshake (.ok h) = m := (if_neg hwait).trans (by rw [hjoin])
      rwa [hfinish]
    | ok _ =>
      have hfinish : n.finishHandshake (.ok h) = m.interests.requests.foldl repeatRequest m :=
        (if_neg hwait).trans (by rw [hjoin])
      have hreplay :
          m.Via (fun a => ∀ id, ¬ a.Announces id) (m.interests.requests.foldl repeatRequest m) :=
        Via.foldl_of (fun _ _ _ hk _ ht => ht.member hk) hmember fun k hk c _ =>
          (hk.repeatRequest_requests c).mono fun _ ha _ => ha.not_announces
      rw [hfinish]
      exact hcenter.via hreplay fun a ha => ha _

theorem Completes.centerAt {profile : Profile} {catalog : Catalog} {port : UInt16} {now : Nat}
    {calls : List Command} {conn : ConnId} {directory : Handle}
    (hc : Completes profile catalog port now calls n conn directory) :
    n.CenterAt directory.node ∧ n.profile = profile := by
  cases hc with
  | @first _ h started member =>
    have hprofile : n.profile = profile := profile_of_run started []
    obtain ⟨hflaw, ⟨hcenter, rfl⟩ | ⟨hmember, hjoin⟩⟩ := start_cases started
    · simp [member] at hcenter
    obtain ⟨e, -, he⟩ | ⟨h', hj, -⟩ := join_cases (n := idle profile catalog port now) (.ok h)
    · rw [hjoin] at he
      cases he
    · obtain ⟨heq, -⟩ := judge_eq_ok hj
      cases heq
      obtain ⟨hat, -⟩ :=
        (ordered_idle hflaw catalog port now).centerAt_join hmember (.inl center?_idle) hj
      rw [hjoin] at hat
      exact ⟨hat, hprofile⟩
  | @again result n₀ h started before t awaited judged =>
    have htend : Takes (n₀.run before) .tend { n₀.run before with now := t } := .tend t _
    refine ⟨centerAt_finishHandshake (htend.ordered (ordered_of_run started before)) awaited judged,
      ?_⟩
    rw [← profile_of_run started before]
    exact (stepAt_via ..).profile_eq

end Node

/-- What the settings `s` come to when `o` goes before them, and what a node makes of them. -/
structure Overridden (s : Settings) (o : Overrides) : Prop where
  accepted : (s.override o).flaw? = none → (s.override o).profile.flaw? = none
  /-- The profile names another node that is the center in a text, and host and port are read off it
  again. -/
  endpoint : (s.override o).center.isHere = false → ∃ endpoint,
    (s.override o).profile.center = .remote endpoint ∧
      centerAddress endpoint =
        { nodeHost := (s.override o).center.host, nodePort := (s.override o).center.port }
  entry : (s.override o).center.isHere = false →
    ∀ catalog port now calls n conn directory,
      Node.Completes (s.override o).profile catalog port now calls n conn directory →
        ∃ p ∈ n.roster.get? directory.node, p.address =
          { nodeHost := (s.override o).center.host, nodePort := (s.override o).center.port }
  /-- A center address with a port gives host and port, and the center is another node unless it is
  said to be this one. -/
  moved : ∀ host word port, o.centerAddress = some (host ++ ":" ++ word) →
    Numeral.Spells 10 word port.toNat → (s.override o).center = { host, port, isHere := o.isCenter }
  centerPort : ∀ address, o.centerAddress = some address →
    (∀ host word (port : UInt16), address = host ++ ":" ++ word →
      ¬ Numeral.Spells 10 word port.toNat) → (s.override o).center.port = s.center.port
  center : o.centerAddress = none →
    (s.override o).center = { s.center with isHere := s.center.isHere || o.isCenter }
  id : o.nodeId = none → (s.override o).node.id = s.node.id
  port : o.port = none → (s.override o).node.address = s.node.address
  address : (s.override o).node.address =
    { s.node.address with nodePort := (s.override o).node.address.nodePort }
  mesh : (s.override o).mesh = s.mesh
  modules : (s.override o).modules = s.modules
  level : o.logLevel = none → (s.override o).logging.level = s.logging.level
  asJson : o.jsonLogs = false → (s.override o).logging.asJson = s.logging.asJson

theorem Settings.center_override (s : Settings) (o : Overrides) (address : String)
    (h : o.centerAddress = some address) : (s.override o).center =
      { s.center.moveTo address with
        isHere := (s.center.moveTo address).isHere || o.isCenter } := by
  cases hcenter : o.isCenter <;> simp [Settings.override, h, hcenter]

/-- Settings are overridden where something is given, the address of the center is read as it was
written, and settings that are accepted make a profile that is accepted. -/
theorem overridden (s : Settings) (o : Overrides) : Overridden s o := by
  have hsite (h : (s.override o).center.isHere = false) : (s.override o).profile.center =
      .remote (Endpoint.text ⟨(s.override o).center.host, (s.override o).center.port⟩) := by
    simp [Settings.profile, Settings.centerSite, h]
  refine
    { accepted := Settings.flaw?_profile
      endpoint := fun h => ⟨_, hsite h, centerAddress_text _⟩
      entry := fun h catalog port now calls n conn directory hcompleted => ?_
      moved := fun host word port haddress hspells => ?_
      centerPort := fun address haddress hnone => ?_
      center := fun h => ?_
      id := fun h => by simp [Settings.override, h]
      port := fun h => by simp [Settings.override, h]
      address := rfl
      mesh := rfl
      modules := rfl
      level := fun h => by simp [Settings.override, h]
      asJson := fun h => by simp [Settings.override, h] }
  · obtain ⟨⟨p, hp, haddress⟩, hprofile⟩ := hcompleted.centerAt
    refine ⟨p, hp, haddress.trans ?_⟩
    rw [hprofile, Profile.centerEndpoint?, hsite h]
    exact centerAddress_text _
  · rw [s.center_override o _ haddress, CenterSettings.moveTo_of_spells _ hspells]
    simp
  · rw [s.center_override o _ haddress]
    exact CenterSettings.port_moveTo _ hnone
  · cases hcenter : o.isCenter <;> simp [Settings.override, h, hcenter]

end Meshwork
