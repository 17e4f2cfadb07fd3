import Meshwork.Proofs.Node.Linkage

/-!
# The node itself and its center

`Node.Seated` is what a node knows of itself and of its center: the own entry is never linked, and
the center is another node of the roster whose directory is on it. Main statement:
`announcement_of_run`, a node says the same about itself for as long as it runs.
-/

namespace Meshwork.Node

variable {n m : Node} {a : Move}

structure Seated (n : Node) : Prop where
  own : n.roster.Contains n.self
  own_state : ∀ p ∈ n.roster.get? n.self, p.state = .empty
  center : ∀ c ∈ n.center?, n.roster.Contains c.node ∧ c.node ≠ n.self ∧ c.directory.node = c.node

namespace Seated

theorem of_same (h : n.Seated) (hself : m.self = n.self) (hcenter : m.center? = n.center?)
    (hc : ∀ id, m.roster.Contains id ↔ n.roster.Contains id)
    (hs : ∀ p, m.roster.get? n.self = some p → ∃ q, n.roster.get? n.self = some q ∧
      (p.state = q.state ∨ p.state = .empty)) : m.Seated := by
  refine ⟨?_, fun p hp => ?_, fun c hmem => ?_⟩
  · rw [hself, hc]
    exact h.own
  · rw [hself] at hp
    obtain ⟨q, hq, hstate | hstate⟩ := hs p hp
    · rw [hstate]
      exact h.own_state q hq
    · exact hstate
  · rw [hself, hc]
    exact h.center c (hcenter ▸ hmem)

theorem of_modify (h : n.Seated) (hself : m.self = n.self) (hcenter : m.center? = n.center?)
    (hc : ∀ id, m.roster.Contains id ↔ n.roster.Contains id) {id : NodeId} {f : Peer → Peer}
    (hr : ∀ id', m.roster.get? id' = if id' = id then (n.roster.get? id).map f
      else n.roster.get? id')
    (hf : id = n.self → ∀ p ∈ n.roster.get? n.self, (f p).state = p.state ∨ (f p).state = .empty) :
    m.Seated := by
  refine h.of_same hself hcenter hc fun p hp => ?_
  rw [hr] at hp
  split at hp
  · rename_i hid
    obtain ⟨q, hq, rfl⟩ := Option.map_eq_some_iff.1 hp
    rw [← hid] at hq
    exact ⟨q, hq, hf hid.symm q hq⟩
  · exact ⟨p, hp, .inl rfl⟩

end Seated

theorem Takes.seated (h : n.Seated) (ht : n.Takes a m) : m.Seated := by
  cases ht with
  | tend | pardon | answered | deliver | bracket | want | offer | refuse | mint | arrive | drop
  | write =>
    exact ⟨h.own, h.own_state, h.center⟩
  | enter hr => exact ⟨h.own, h.own_state, by simp [center?]⟩
  | forget hr => exact ⟨h.own, h.own_state, by simp [center?]⟩
  | learn =>
    exact h.of_modify (by simp [self]) rfl (by simp) (fun id' => Roster.get?_update _ _ _ _ id')
      fun _ p _ => .inl rfl
  | bind hb =>
    exact h.of_modify (by simp [self]) rfl (by simp) (fun id' => Roster.get?_bind hb id')
      fun _ p _ => .inl rfl
  | queue =>
    exact h.of_modify (by simp [self]) rfl (by simp) (fun id' => Roster.get?_noteSent _ _ _ id')
      fun _ p _ => .inl rfl
  | release =>
    exact h.of_modify (by simp [self]) rfl (by simp) (fun id' => Roster.get?_detach _ _ id')
      fun _ p _ => .inr rfl
  | lose =>
    exact h.of_modify (by simp [self]) rfl (by simp) (fun id' => Roster.get?_detach _ _ id')
      fun _ p _ => .inr rfl
  | @establish id peer hp hs =>
    refine h.of_modify (by simp [self]) rfl (by simp) (fun id' => Roster.get?_modify _ _ _ id')
      fun hid p hp' => ?_
    -- the own entry is never being connected
    have hown := h.own_state peer (hid ▸ hp)
    rw [hs] at hown
    cases hown
  | @seek center peer endpoint hc he hp hs =>
    exact h.of_modify (by simp [self]) rfl (by simp) (fun id' => Roster.get?_modify _ _ _ id')
      fun hid => absurd hid (h.center center hc).2.1
  | dial hid =>
    exact h.of_modify (by simp [self]) rfl (by simp)
      (fun id' => Roster.get?_noteSent_attach _ _ _ _ _ id') fun hid' => absurd hid' hid
  | @join hs i links hm hf hj hi address =>
    obtain ⟨-, hin, hne, -⟩ := judge_eq_ok hj
    refine ⟨by simpa [self] using h.own, fun p hp => ?_, fun c hc => ?_⟩
    · have hself : ¬ n.roster.self = hs.greeting.center.node := fun h => hne h.symm
      simp only [Roster.get?_noteSent_attach_update, self, Roster.self_noteSent, Roster.self_attach,
        Roster.self_update, hself, if_false] at hp
      exact h.own_state p hp
    · simp only [center?, Option.mem_some] at hc
      subst hc
      simpa [self] using And.intro hin hne

theorem seated_idle {profile : Profile} (hflaw : profile.flaw? = none) (catalog : Catalog)
    (port : UInt16) (now : Nat) : (idle profile catalog port now).Seated where
  own := by
    unfold Profile.flaw? at hflaw
    split at hflaw
    · cases hflaw
    rename_i hsize
    split at hflaw
    · cases hflaw
    rename_i hid
    simp only [not_or, Decidable.not_not, Nat.not_le] at hid
    simp only [not_or, Nat.not_lt, nodeLimit] at hsize
    refine ⟨hid.1, ?_⟩
    simp only [idle, self, Roster.setOwnHandle, Roster.ofSize, Array.size_modify,
      Array.size_replicate]
    omega
  own_state p hp := (get?_idle hp).1
  center c hc := by
    rw [center?_idle] at hc
    cases hc

theorem Takes.announcement_eq (h : n.Seated) (ht : n.Takes a m) :
    m.announcement = n.announcement := by
  have hm := ht.seated h
  have hself := ht.self_eq
  suffices haddr :
      (m.roster.get? n.self).map (·.address) = (n.roster.get? n.self).map (·.address) by
    have hme : m.roster.me? = m.roster.get? m.self := Roster.me?_eq_get? hm.own
    have hme' : n.roster.me? = n.roster.get? n.self := Roster.me?_eq_get? h.own
    simp only [announcement, meshHandle, hme, hme', hself, haddr]
  have hmodify {id : NodeId} {f : Peer → Peer} (hf : id ≠ n.self ∨ ∀ p, (f p).address = p.address) :
      (if n.self = id then (n.roster.get? id).map f else n.roster.get? n.self).map (·.address) =
        (n.roster.get? n.self).map (·.address) := by
    split
    · rename_i hid
      rcases hf with hne | hf
      · exact absurd hid.symm hne
      · rw [← hid, Option.map_map]
        congr 1
        funext p
        exact hf p
    · rfl
  cases ht with
  | learn ha => exact (congrArg _ (Roster.get?_update ..)).trans (hmodify (.inl ha))
  | bind hb => exact (congrArg _ (Roster.get?_bind hb _)).trans (hmodify (.inr fun _ => rfl))
  | queue => exact (congrArg _ (Roster.get?_noteSent ..)).trans (hmodify (.inr fun _ => rfl))
  | release => exact (congrArg _ (Roster.get?_detach ..)).trans (hmodify (.inr fun _ => rfl))
  | lose => exact (congrArg _ (Roster.get?_detach ..)).trans (hmodify (.inr fun _ => rfl))
  | establish => exact (congrArg _ (Roster.get?_modify ..)).trans (hmodify (.inr fun _ => rfl))
  | seek => exact (congrArg _ (Roster.get?_modify ..)).trans (hmodify (.inr fun _ => rfl))
  | @dial id peer endpoint i links hid =>
    have hne : ¬ n.self = id := fun h => hid h.symm
    simp [Roster.get?_noteSent_attach, hne]
  | @join hs i links hm hf hj =>
    have hne : ¬ n.self = hs.greeting.center.node := fun h => (judge_eq_ok hj).2.2.1 h.symm
    simp [Roster.get?_noteSent_attach_update, hne]
  | _ => rfl

section Start

variable {profile : Profile} {catalog : Catalog} {port : UInt16} {now : Nat}
  {result : Except Fault Handshake} {n₀ : Node}

theorem seated_of_run (h : start profile catalog port now result = .ok n₀)
    (events : List (Nat × Event)) : (n₀.run events).Seated :=
  run_keeps (fun _ _ _ => Takes.seated)
    (start_keeps (fun _ _ _ => Takes.seated) (seated_idle (start_cases h).1 ..) h) events

theorem announcement_of_run (h : start profile catalog port now result = .ok n₀)
    (events : List (Nat × Event)) : (n₀.run events).announcement = n₀.announcement :=
  (run_keeps (I := fun k => k.Seated ∧ k.announcement = n₀.announcement)
    (fun _ _ _ hk ht => ⟨ht.seated hk.1, (ht.announcement_eq hk.1).trans hk.2⟩)
    ⟨seated_of_run h [], rfl⟩ events).2

end Start

end Meshwork.Node
