import Meshwork.Proofs.Node.Handlers

/-!
# The roster and the links agree

`Node.Wired` is what every move keeps of the roster and the table of links: an entry has a link
exactly if its state says so, and the link has a record that names the entry. `Takes.treats` is what
a move makes of a record.
-/

namespace Meshwork

def Effect.conn? : Effect → Option ConnId
  | .connect conn _ | .adopt conn _ | .queued conn _ => some conn
  | .deliver _ | .report _ | .shakeHands _ => none

def LinkState.Live (s : LinkState) : Prop := s = .connecting ∨ s = .established

namespace Node

variable {n m : Node} {a : Move}

@[simp] theorem id_newLink (n : Node) (conn : ConnId) : (n.newLink conn).id = conn := rfl

/-- Every link of an entry has a record with the entry as its owner. -/
structure Wired (n : Node) : Prop where
  links : n.links.Numbered n.profile.maxConnections
  link_iff : ∀ id p, n.roster.get? id = some p → (p.link.isSome ↔ p.state.Live)
  owner : ∀ id p c, n.roster.get? id = some p → p.link = some c →
    ∃ r, n.links.get? c = some r ∧ r.owner = some id

namespace Wired

theorem link_ne_nextId (h : n.Wired) {id : NodeId} {p : Peer} (hp : n.roster.get? id = some p) :
    p.link ≠ some n.links.nextId.1 := by
  intro hl
  obtain ⟨r, hr, -⟩ := h.owner id p _ hp hl
  rw [h.links.get?_nextId_eq_none] at hr
  cases hr

theorem linked_iff (h : n.Wired) {id : NodeId} {p : Peer} (hp : n.roster.get? id = some p) :
    p.Linked ↔ p.link.isSome := by
  rw [Peer.linked_iff, ← LinkState.Live, ← h.link_iff id p hp, and_self]

theorem link_eq_none (h : n.Wired) {id : NodeId} {p : Peer} (hp : n.roster.get? id = some p)
    (hs : ¬ p.state.Live) : p.link = none := by
  rw [← h.link_iff id p hp] at hs
  simpa using hs

theorem state_eq_empty (h : n.Wired) {id : NodeId} {p : Peer} (hp : n.roster.get? id = some p)
    (hl : ¬ p.Linked) (hs : p.state ≠ .handshaking) : p.state = .empty := by
  rw [h.linked_iff hp, h.link_iff id p hp] at hl
  cases hstate : p.state with
  | empty => rfl
  | handshaking => exact absurd hstate hs
  | connecting => exact absurd (.inl hstate) hl
  | established => exact absurd (.inr hstate) hl

theorem of_roster (h : n.Wired) (hprofile : m.profile = n.profile) (hlinks : m.links = n.links)
    (hr : ∀ id p, m.roster.get? id = some p → ∃ q, n.roster.get? id = some q ∧
      (p.link = q.link ∧ (p.state.Live ↔ q.state.Live) ∨ p.link = none ∧ ¬ p.state.Live)) :
    m.Wired := by
  refine ⟨by rw [hlinks, hprofile]; exact h.links, fun id p hp => ?_, fun id p c hp hl => ?_⟩
  · obtain ⟨q, hq, ⟨hlink, hlive⟩ | ⟨hlink, hlive⟩⟩ := hr id p hp
    · rw [hlink, hlive]
      exact h.link_iff id q hq
    · simp [hlink, hlive]
  · obtain ⟨q, hq, ⟨hlink, -⟩ | ⟨hlink, -⟩⟩ := hr id p hp
    · rw [hlinks]
      exact h.owner id q c hq (hlink ▸ hl)
    · rw [hlink] at hl
      cases hl

theorem of_modify (h : n.Wired) (hprofile : m.profile = n.profile) (hlinks : m.links = n.links)
    {id : NodeId} {f : Peer → Peer}
    (hr : ∀ id', m.roster.get? id' = if id' = id then (n.roster.get? id).map f
      else n.roster.get? id')
    (hf : ∀ p, n.roster.get? id = some p →
      (f p).link = p.link ∧ ((f p).state.Live ↔ p.state.Live) ∨
      (f p).link = none ∧ ¬ (f p).state.Live) : m.Wired := by
  refine h.of_roster hprofile hlinks fun id' p hp => ?_
  rw [hr] at hp
  split at hp
  · rename_i hid
    obtain ⟨q, hq, rfl⟩ := Option.map_eq_some_iff.1 hp
    exact ⟨q, hid ▸ hq, hf q hq⟩
  · exact ⟨p, hp, .inl ⟨rfl, .rfl⟩⟩

theorem of_links (h : n.Wired) (hprofile : m.profile = n.profile) (hroster : m.roster = n.roster)
    (hn : m.links.Numbered n.profile.maxConnections)
    (hl : ∀ id p c r, n.roster.get? id = some p → p.link = some c → n.links.get? c = some r →
      r.owner = some id → ∃ r', m.links.get? c = some r' ∧ r'.owner = some id) : m.Wired := by
  refine ⟨hprofile ▸ hn, hroster ▸ h.link_iff, fun id p c hp hlink => ?_⟩
  rw [hroster] at hp
  obtain ⟨r, hr, ho⟩ := h.owner id p c hp hlink
  exact hl id p c r hp hlink hr ho

theorem of_link (h : n.Wired) (hprofile : m.profile = n.profile) (hroster : m.roster = n.roster)
    {c : ConnId} {f : Link → Link} (hlinks : m.links = n.links.modify c f)
    (hf : ∀ r ∈ n.links.get? c, (f r.link).id = r.link.id) : m.Wired := by
  refine h.of_links hprofile hroster (hlinks ▸ h.links.modify hf) fun id p c' r _ _ hr ho => ?_
  rw [hlinks, h.links.kept.get?_modify]
  split
  · rename_i hc
    exact ⟨{ r with link := f r.link }, by rw [← hc, hr, Option.map_some], ho⟩
  · exact ⟨r, hr, ho⟩

/-- A new link is given to an entry; what the entry had before is overwritten. -/
theorem of_attach (h : n.Wired) (hprofile : m.profile = n.profile) {id : NodeId} {i : Nat}
    (hi : n.links.nextId.2.insert (n.newLink n.links.nextId.1) (some id) = .ok (i, m.links))
    {f : Peer → Peer}
    (hr : ∀ id', m.roster.get? id' = if id' = id then (n.roster.get? id).map f
      else n.roster.get? id')
    (hf : ∀ p, (f p).link = some n.links.nextId.1 ∧ (f p).state.Live) : m.Wired := by
  have hget := h.links.kept.nextId.get?_insert hi
  have hid : (n.newLink n.links.nextId.1).id = n.links.nextId.1 := rfl
  refine ⟨hprofile ▸ h.links.insert_nextId hid hi, fun id' p hp => ?_, fun id' p c hp hl => ?_⟩
  · rw [hr] at hp
    split at hp
    · obtain ⟨q, -, rfl⟩ := Option.map_eq_some_iff.1 hp
      simp [hf q]
    · exact h.link_iff id' p hp
  · rw [hr] at hp
    rw [hget, hid]
    split at hp
    · rename_i hid'
      obtain ⟨q, -, rfl⟩ := Option.map_eq_some_iff.1 hp
      rw [(hf q).1, Option.some.injEq] at hl
      rw [if_pos hl.symm]
      exact ⟨_, rfl, by rw [hid']⟩
    · have hne : c ≠ n.links.nextId.1 := fun hc => h.link_ne_nextId hp (hc ▸ hl)
      rw [if_neg hne]
      exact h.owner id' p c hp hl

end Wired

theorem Takes.wired (h : n.Wired) (ht : n.Takes a m) : m.Wired := by
  cases ht with
  | tend | pardon | answered | deliver | bracket | want | offer | enter | forget | refuse =>
    exact ⟨h.links, h.link_iff, h.owner⟩
  | learn =>
    exact h.of_modify rfl rfl (fun id' => Roster.get?_update _ _ _ _ id')
      fun p _ => .inl ⟨rfl, .rfl⟩
  | bind hb =>
    exact h.of_modify rfl rfl (fun id' => Roster.get?_bind hb id') fun p _ => .inl ⟨rfl, .rfl⟩
  | establish hp hs =>
    refine h.of_modify rfl rfl (fun id' => Roster.get?_modify _ _ _ id') fun p hp' => .inl ⟨rfl, ?_⟩
    rw [hp, Option.some.injEq] at hp'
    simp [LinkState.Live, ← hp', hs]
  | seek _ _ hp hs =>
    refine h.of_modify rfl rfl (fun id' => Roster.get?_modify _ _ _ id') fun p hp' => .inl ⟨rfl, ?_⟩
    rw [hp, Option.some.injEq] at hp'
    simp [LinkState.Live, ← hp', hs]
  | release =>
    exact h.of_modify rfl rfl (fun id' => Roster.get?_detach _ _ id')
      fun p _ => .inr ⟨rfl, by simp [LinkState.Live, Peer.detached]⟩
  | mint => exact h.of_links rfl rfl h.links.nextId fun id p c r _ _ hr ho => ⟨r, hr, ho⟩
  | @arrive link _ _ links hroom hid hi =>
    refine h.of_links rfl rfl (h.links.insert_nextId hid hi) fun id p c r hp hl hr ho => ⟨r, ?_, ho⟩
    have hne : c ≠ link.id := by
      rintro rfl
      exact h.link_ne_nextId hp (hid ▸ hl)
    rw [h.links.kept.nextId.get?_insert hi, if_neg hne]
    exact hr
  | write hf => exact h.of_link rfl rfl rfl fun r _ => hf r.link
  | @queue id peer conn record frame bytes link hp hl hr he hs =>
    have hlinks : Wired { n with links := n.links.modify conn fun _ => link } := by
      refine h.of_link rfl rfl (f := fun _ => link) rfl fun r hr' => ?_
      rw [hr, Option.mem_some] at hr'
      rw [← hr', Link.id_send hs]
    exact hlinks.of_modify rfl rfl (fun id' => Roster.get?_noteSent _ _ _ id')
      fun p _ => .inl ⟨rfl, .rfl⟩
  | dial _ _ _ _ _ _ hi =>
    exact h.of_attach rfl hi (fun id' => Roster.get?_noteSent_attach _ _ _ _ _ id')
      fun p => ⟨rfl, .inl rfl⟩
  | join _ _ _ hi =>
    exact h.of_attach rfl hi (fun id' => Roster.get?_noteSent_attach_update _ _ _ _ _ _ _ id')
      fun p => ⟨rfl, .inr rfl⟩
  | drop he ho =>
    obtain ⟨hr, hget⟩ := h.links.kept.get?_erase he
    refine h.of_links rfl rfl (h.links.erase he) fun id p c r hp hl hr' ho' => ⟨r, ?_, ho'⟩
    rw [hget, if_neg, hr']
    rintro rfl
    rw [hr, Option.some.injEq] at hr'
    exact ho id (hr' ▸ ho') p hp hl
  | @lose id conn record links peer he ho hp hl =>
    obtain ⟨hr, hget⟩ := h.links.kept.get?_erase he
    refine ⟨h.links.erase he, fun id' p hp' => ?_, fun id' p c hp' hl' => ?_⟩
    · simp only [Roster.get?_detach] at hp'
      split at hp'
      · obtain ⟨q, -, rfl⟩ := Option.map_eq_some_iff.1 hp'
        simp [LinkState.Live, Peer.detached]
      · exact h.link_iff id' p hp'
    · simp only [Roster.get?_detach] at hp'
      split at hp'
      · obtain ⟨q, -, rfl⟩ := Option.map_eq_some_iff.1 hp'
        cases hl'
      · rename_i hne
        obtain ⟨r, hr', ho'⟩ := h.owner id' p c hp' hl'
        -- the record names the entry that loses the link, so no other entry has it
        refine ⟨r, ?_, ho'⟩
        rw [hget, if_neg, hr']
        rintro rfl
        rw [hr, Option.some.injEq] at hr'
        rw [← hr', ho, Option.some.injEq] at ho'
        exact hne ho'.symm

/-- What a move makes of the record of a link, if there is one. -/
inductive Treats (n : Node)
    (conn : ConnId) : Move → Option LinkRecord → Option LinkRecord → Prop where
  | same {a : Move} {r : Option LinkRecord} (silent : ∀ id frame, a ≠ .queue id conn frame) :
      Treats n conn a r r
  | queue {id : NodeId} {frame : Frame} {r : LinkRecord} (running : r.link.running = true)
      (room : r.link.queue.length < r.link.bound) :
      Treats n conn (.queue id conn frame) (some r)
        (some { r with link := { r.link with queue := r.link.queue ++ [frame.bytes] } })
  | write {f : Link → Link} {r : LinkRecord} :
      Treats n conn (.write conn) (some r) (some { r with link := f r.link })
  | insert {a : Move} {r : LinkRecord} (silent : ∀ id frame, a ≠ .queue id conn frame)
      (number : conn = n.links.nextId.1) (made : r.owner.isSome → r.link = n.newLink conn) :
      Treats n conn a none (some r)
  | erase {a : Move} {r : LinkRecord} (ends : a = .drop conn ∨ ∃ id, a = .lose id conn) :
      Treats n conn a (some r) none

theorem Takes.treats (hw : n.Wired) (ht : n.Takes a m) (conn : ConnId) :
    n.Treats conn a (n.links.get? conn) (m.links.get? conn) := by
  have hkept := hw.links.kept
  have hmodify {c : ConnId} {f : Link → Link} (hm : m.links = n.links.modify c f)
      (hne : conn ≠ c → ∀ id frame, a ≠ .queue id conn frame)
      (hf : conn = c → ∀ r, n.links.get? conn = some r →
        n.Treats conn a (some r) (some { r with link := f r.link }))
      (hnone : n.links.get? conn = none → ∀ id frame, a ≠ .queue id conn frame) :
      n.Treats conn a (n.links.get? conn) (m.links.get? conn) := by
    rw [hm, hkept.get?_modify]
    split
    · rename_i hc
      rw [← hc]
      cases hr : n.links.get? conn with
      | none => exact .same (hnone hr)
      | some r => exact hf hc r hr
    · rename_i hc
      exact .same (hne hc)
  have hinsert {link : Link} {owner : Option NodeId} {i : Nat} (hid : link.id = n.links.nextId.1)
      (hi : n.links.nextId.2.insert link owner = .ok (i, m.links))
      (hmade : owner.isSome → link = n.newLink n.links.nextId.1)
      (hne : ∀ id frame, a ≠ .queue id conn frame) :
      n.Treats conn a (n.links.get? conn) (m.links.get? conn) := by
    rw [hkept.nextId.get?_insert hi, hid]
    split
    · rename_i hc
      have hnone : n.links.get? conn = none := hc ▸ hw.links.get?_nextId_eq_none
      rw [hnone]
      exact .insert hne hc (hc ▸ hmade)
    · exact .same hne
  have herase {c : ConnId} {record : LinkRecord} (he : n.links.erase c = some (record, m.links))
      (hends : conn = c → a = .drop conn ∨ ∃ id, a = .lose id conn)
      (hne : ∀ id frame, a ≠ .queue id conn frame) :
      n.Treats conn a (n.links.get? conn) (m.links.get? conn) := by
    obtain ⟨hr, hget⟩ := hkept.get?_erase he
    rw [hget]
    split
    · rename_i hc
      rw [hc, hr, ← hc]
      exact .erase (hends hc)
    · exact .same hne
  cases ht with
  | @queue id peer c record frame bytes link _ _ hr he hs =>
    obtain ⟨hrun, hroom, rfl⟩ := Link.send_eq_ok hs
    obtain ⟨-, rfl⟩ := Wire.encode_eq_ok_iff.1 he
    refine hmodify (f := fun _ => _) rfl (fun hne id' frame' heq => ?_) (fun hc r hr' => ?_)
      fun hnone id' frame' heq => ?_
    · cases heq
      exact hne rfl
    · subst hc
      rw [hr, Option.some.injEq] at hr'
      subst hr'
      exact .queue hrun hroom
    · cases heq
      rw [hr] at hnone
      cases hnone
  | write =>
    refine hmodify rfl (fun _ => nofun) (fun hc r _ => ?_) fun _ => nofun
    subst hc
    exact .write
  | arrive _ hid hi => exact hinsert hid hi (fun h => absurd h (by simp)) nofun
  | dial _ _ _ _ _ _ hi => exact hinsert rfl hi (fun _ => rfl) nofun
  | join _ _ _ hi => exact hinsert rfl hi (fun _ => rfl) nofun
  | drop he => exact herase he (fun hc => .inl (by rw [hc])) nofun
  | lose he => exact herase he (fun hc => .inr ⟨_, by rw [hc]⟩) nofun
  | _ => exact .same nofun

theorem Takes.nextNumber_le (h : n.Takes a m) : n.links.nextNumber ≤ m.links.nextNumber := by
  cases h with
  | queue | write => simp
  | drop he => simp [Links.nextNumber_erase he]
  | lose he => simp [Links.nextNumber_erase he]
  | dial _ _ _ _ _ _ hi => simp [Links.nextNumber_insert hi]
  | join _ _ _ hi => simp [Links.nextNumber_insert hi]
  | arrive _ _ hi => simp [Links.nextNumber_insert hi]
  | mint => exact Nat.le_succ _
  | _ => exact Nat.le_refl _

theorem Via.nextNumber_le {P : Move → Prop} (h : n.Via P m) :
    n.links.nextNumber ≤ m.links.nextNumber :=
  h.keeps (I := fun k => n.links.nextNumber ≤ k.links.nextNumber)
    (fun _ _ _ hk _ ht => Nat.le_trans hk ht.nextNumber_le) (Nat.le_refl _)

/-- Every link that an effect names has a number that was given out. -/
def Dated (n : Node) : Prop := ∀ e ∈ n.effects, ∀ c ∈ e.conn?, c.number < n.links.nextNumber

theorem Takes.dated (hw : n.Wired) (h : n.Dated) (ht : n.Takes a m) : m.Dated := by
  have hle := ht.nextNumber_le
  have hadd {es : List Effect} (he : m.effects = n.effects ++ es)
      (hes : ∀ e ∈ es, ∀ c ∈ e.conn?, c.number < m.links.nextNumber) : m.Dated := by
    intro e hmem c hc
    rw [he, List.mem_append] at hmem
    rcases hmem with hold | hnew
    · exact Nat.lt_of_lt_of_le (h e hold c hc) hle
    · exact hes e hnew c hc
  cases ht with
  | deliver | bracket | bind | seek => exact hadd rfl (by simp [Effect.conn?])
  | lose => exact hadd rfl (by simp [Effect.conn?])
  | dial _ _ _ _ _ _ hi => exact hadd rfl (by simp [Effect.conn?, Links.nextNumber_insert hi])
  | join _ _ _ hi => exact hadd rfl (by simp [Effect.conn?, Links.nextNumber_insert hi])
  | arrive _ _ hi hg =>
    obtain rfl | ⟨-, rfl⟩ := hg
    · exact hadd rfl (by simp [Effect.conn?, Links.nextNumber_insert hi])
    · exact hadd rfl (by simp [Effect.conn?, Links.nextNumber_insert hi])
  | queue _ _ hr => exact hadd rfl (by simpa [Effect.conn?] using hw.links.fresh _ _ hr)
  | _ => exact fun e he c hc => Nat.lt_of_lt_of_le (h e he c hc) hle

theorem get?_links_idle (profile : Profile) (catalog : Catalog) (port : UInt16) (now : Nat)
    (conn : ConnId) : (idle profile catalog port now).links.get? conn = none :=
  Links.get?_ofCapacity ..

theorem wired_idle (profile : Profile) (catalog : Catalog) (port : UInt16) (now : Nat) :
    (idle profile catalog port now).Wired where
  links := .ofCapacity _
  link_iff id p hp := by
    obtain ⟨hs, hl, -⟩ := get?_idle hp
    simp [hs, hl, LinkState.Live]
  owner id p c hp hl := by
    rw [(get?_idle hp).2.1] at hl
    cases hl

section Start

variable {profile : Profile} {catalog : Catalog} {port : UInt16} {now : Nat}
  {result : Except Fault Handshake} {n₀ : Node}

theorem wired_of_run (h : start profile catalog port now result = .ok n₀)
    (events : List (Nat × Event)) : (n₀.run events).Wired :=
  run_keeps (fun _ _ _ => Takes.wired) (start_keeps (fun _ _ _ => Takes.wired) (wired_idle ..) h)
    events

theorem profile_of_run (h : start profile catalog port now result = .ok n₀)
    (events : List (Nat × Event)) : (n₀.run events).profile = profile :=
  run_keeps (I := fun k => k.profile = profile) (fun _ _ _ hk ht => ht.profile_eq.trans hk)
    (start_keeps (I := fun k => k.profile = profile) (fun _ _ _ hk ht => ht.profile_eq.trans hk) rfl
      h)
    events

end Start

theorem Wired.exists_record (h : n.Wired) {id : NodeId} {p : Peer} {c : ConnId}
    (hp : n.roster.get? id = some p) (hl : p.liveLink? = some c) :
    ∃ r, n.links.get? c = some r ∧ r.owner = some id :=
  h.owner id p c hp (Peer.liveLink?_eq_some_iff.1 hl).1

theorem Wired.not_linked_of_sendOver (h : n.Wired) {id : NodeId} {p : Peer} {frame : Frame}
    (hp : n.roster.get? id = some p) (hs : n.sendOver id frame = .error (.notConnected id)) :
    ¬ p.Linked := by
  intro hlinked
  obtain ⟨c, hl⟩ := hlinked.exists_link
  obtain ⟨r, hr, -⟩ := h.exists_record hp hl
  simp only [sendOver, hp, hl, hr] at hs
  split at hs
  · cases hs
  · split at hs
    · cases hs
    · cases hs

theorem Wired.exists_sendOver (h : n.Wired) {id : NodeId} {p : Peer} {c : ConnId} {frame : Frame}
    (hp : n.roster.get? id = some p) (hl : p.liveLink? = some c)
    (hfit : frame.payload.length ≤ n.wire.maxPayload) :
    ∃ m, n.sendOver id frame = .ok m ∧
      (n.Takes (.queue id c frame) m ∨ n.Takes (.refuse id c) m) := by
  obtain ⟨r, hr, -⟩ := h.exists_record hp hl
  have hencode : n.wire.encode frame = .ok frame.bytes := Wire.encode_eq_ok_iff.2 ⟨hfit, rfl⟩
  cases hs : r.link.send frame.bytes with
  | error reason =>
    exact ⟨_, by simp only [sendOver, hp, hl, hr, hencode, hs], .inr (.refuse hp hl hr hs)⟩
  | ok link =>
    exact ⟨_, by simp only [sendOver, hp, hl, hr, hencode, hs]; rfl,
      .inl (.queue hp hl hr hencode hs)⟩

end Node

end Meshwork
