import Meshwork.Roster

/-!
# The roster as a map

`Roster.get?` is the view of a roster: every change is a change of one entry, and says nothing about
the entries of other nodes.
-/

namespace Meshwork

namespace Peer

variable {p : Peer} {c : ConnId}

theorem liveLink?_eq_some_iff :
    p.liveLink? = some c ↔ p.link = some c ∧ (p.state = .connecting ∨ p.state = .established) := by
  unfold liveLink?
  cases p.state <;> simp

theorem linked_iff :
    p.Linked ↔ p.link.isSome ∧ (p.state = .connecting ∨ p.state = .established) := by
  unfold Linked liveLink?
  cases p.state <;> simp

theorem linked_of_liveLink? (h : p.liveLink? = some c) : p.Linked :=
  Option.isSome_iff_exists.2 ⟨c, h⟩

theorem Linked.exists_link (h : p.Linked) : ∃ c, p.liveLink? = some c :=
  Option.isSome_iff_exists.1 h

@[simp] theorem not_linked_detached : ¬ p.detached.Linked := by simp [linked_iff, detached]

end Peer

namespace Roster

variable {r : Roster} {id : NodeId} {p : Peer}

theorem contains_of_get? (h : r.get? id = some p) : r.Contains id := by
  unfold get? at h
  split at h
  · assumption
  · cases h

theorem exists_get? (h : r.Contains id) : ∃ p, r.get? id = some p := by
  have hlt := h.2
  exact ⟨r.peers[id.index], by simp [get?, h, hlt]⟩

@[simp] theorem self_modify (r : Roster) (id : NodeId) (f : Peer → Peer) :
    (r.modify id f).self = r.self := by
  unfold modify
  split <;> rfl

@[simp] theorem contains_modify (r : Roster) (id : NodeId) (f : Peer → Peer) (id' : NodeId) :
    (r.modify id f).Contains id' ↔ r.Contains id' := by
  unfold modify
  split <;> simp [Contains]

theorem get?_modify (r : Roster) (id : NodeId) (f : Peer → Peer) (id' : NodeId) :
    (r.modify id f).get? id' = if id' = id then (r.get? id).map f else r.get? id' := by
  by_cases hid' : r.Contains id'
  · simp only [get?, contains_modify, hid', if_true]
    by_cases hid : r.Contains id
    · simp only [modify, hid, if_true, Array.getElem?_modify, NodeId.index_inj]
      by_cases h : id' = id
      · simp [h]
      · have h' : ¬ id = id' := fun heq => h heq.symm
        simp [h, h']
    · have hne : id' ≠ id := fun h => hid (h ▸ hid')
      simp [modify, hid, hne]
  · simp only [get?, contains_modify, hid', if_false]
    split
    · rename_i h
      rw [← h, if_neg hid', Option.map_none]
    · rfl

@[simp] theorem self_update (r : Roster) (id : NodeId) (a : Address) (h : Handle) :
    (r.update id a h).self = r.self := self_modify ..

@[simp] theorem self_attach (r : Roster) (id : NodeId) (c : ConnId) (s : LinkState) :
    (r.attach id c s).self = r.self := self_modify ..

@[simp] theorem self_detach (r : Roster) (id : NodeId) : (r.detach id).self = r.self :=
  self_modify ..

@[simp] theorem self_noteSent (r : Roster) (id : NodeId) (now : Nat) :
    (r.noteSent id now).self = r.self := self_modify ..

@[simp] theorem self_bind (r : Roster) (id : NodeId) (h : Handle) :
    (r.bind id h).self = r.self := by
  unfold bind
  split
  · exact self_modify ..
  · rfl

@[simp] theorem contains_update (r : Roster) (id : NodeId) (a : Address) (h : Handle)
    (id' : NodeId) : (r.update id a h).Contains id' ↔ r.Contains id' := contains_modify ..

@[simp] theorem contains_attach (r : Roster) (id : NodeId) (c : ConnId) (s : LinkState)
    (id' : NodeId) : (r.attach id c s).Contains id' ↔ r.Contains id' := contains_modify ..

@[simp] theorem contains_detach (r : Roster) (id id' : NodeId) :
    (r.detach id).Contains id' ↔ r.Contains id' := contains_modify ..

@[simp] theorem contains_noteSent (r : Roster) (id : NodeId) (now : Nat) (id' : NodeId) :
    (r.noteSent id now).Contains id' ↔ r.Contains id' := contains_modify ..

@[simp] theorem contains_bind (r : Roster) (id : NodeId) (h : Handle) (id' : NodeId) :
    (r.bind id h).Contains id' ↔ r.Contains id' := by
  unfold bind
  split
  · exact contains_modify ..
  · rfl

@[simp] theorem size_modify (r : Roster) (id : NodeId) (f : Peer → Peer) :
    (r.modify id f).size = r.size := by
  unfold modify
  split
  · simp [size]
  · rfl

@[simp] theorem size_update (r : Roster) (id : NodeId) (a : Address) (h : Handle) :
    (r.update id a h).size = r.size := size_modify ..

@[simp] theorem size_attach (r : Roster) (id : NodeId) (c : ConnId) (s : LinkState) :
    (r.attach id c s).size = r.size := size_modify ..

@[simp] theorem size_detach (r : Roster) (id : NodeId) : (r.detach id).size = r.size :=
  size_modify ..

@[simp] theorem size_noteSent (r : Roster) (id : NodeId) (now : Nat) :
    (r.noteSent id now).size = r.size :=
  size_modify ..

@[simp] theorem size_bind (r : Roster) (id : NodeId) (h : Handle) :
    (r.bind id h).size = r.size := by
  unfold bind
  split
  · exact size_modify ..
  · rfl

theorem get?_update (r : Roster) (id : NodeId) (a : Address) (h : Handle) (id' : NodeId) :
    (r.update id a h).get? id' =
      if id' = id then (r.get? id).map fun p => { p with address := a, handle := some h }
      else r.get? id' := get?_modify ..

theorem get?_attach (r : Roster) (id : NodeId) (c : ConnId) (s : LinkState) (id' : NodeId) :
    (r.attach id c s).get? id' =
      if id' = id then (r.get? id).map fun p => { p with link := some c, state := s }
      else r.get? id' := get?_modify ..

theorem get?_detach (r : Roster) (id id' : NodeId) :
    (r.detach id).get? id' = if id' = id then (r.get? id).map Peer.detached else r.get? id' :=
  get?_modify ..

theorem get?_noteSent (r : Roster) (id : NodeId) (now : Nat) (id' : NodeId) :
    (r.noteSent id now).get? id' =
      if id' = id then (r.get? id).map fun p => { p with lastSent := some now } else r.get? id' :=
  get?_modify ..

theorem get?_noteSent_attach (r : Roster) (id : NodeId) (c : ConnId) (s : LinkState) (now : Nat)
    (id' : NodeId) :
    ((r.attach id c s).noteSent id now).get? id' =
      if id' = id then
        (r.get? id).map fun p => { p with link := some c, state := s, lastSent := some now }
      else r.get? id' := by
  simp only [get?_noteSent, get?_attach]
  split
  · simp [Option.map_map, Function.comp_def]
  · rfl

theorem get?_noteSent_attach_update (r : Roster) (id : NodeId) (a : Address) (h : Handle)
    (c : ConnId) (s : LinkState) (now : Nat) (id' : NodeId) :
    (((r.update id a h).attach id c s).noteSent id now).get? id' =
      if id' = id then
        (r.get? id).map fun p =>
          { p with address := a, handle := some h, link := some c, state := s,
                   lastSent := some now }
      else r.get? id' := by
  simp only [get?_noteSent_attach, get?_update]
  split
  · simp [Option.map_map, Function.comp_def]
  · rfl

theorem get?_bind {h : Handle} (hb : r.CanBind id h) (id' : NodeId) :
    (r.bind id h).get? id' =
      if id' = id then (r.get? id).map fun p => { p with bound := p.bound ++ [h] }
        else r.get? id' := by
  rw [bind, if_pos hb]
  exact get?_modify ..

theorem me?_eq_get? (h : r.Contains r.self) : r.me? = r.get? r.self := by simp [me?, get?, h]

theorem pairwise_places (r : Roster) :
    (r.peers.toList.zipIdx.drop 1).Pairwise fun x y => x.2 < y.2 := by
  have hrange : (r.peers.toList.zipIdx.map Prod.snd).Pairwise (· < ·) := by
    rw [List.zipIdx_map_snd]
    exact List.pairwise_lt_range'
  exact (List.pairwise_map.1 hrange).drop

theorem mem_places_iff {i : Nat} :
    (p, i) ∈ r.peers.toList.zipIdx.drop 1 ↔ 1 ≤ i ∧ r.peers[i]? = some p := by
  rw [← Array.getElem?_toList]
  cases r.peers.toList with
  | nil => simp
  | cons q rest =>
    rw [List.zipIdx_cons, List.drop_one, List.tail_cons, List.mk_mem_zipIdx_iff_le_and_getElem?_sub]
    cases i with
    | zero => simp
    | succ i => simp

theorem index_of_mem_places (hsize : r.size ≤ 256) {i : Nat}
    (h : (p, i) ∈ r.peers.toList.zipIdx.drop 1) : (NodeId.ofNat i).index = i := by
  obtain ⟨hlt, -⟩ := Array.getElem?_eq_some_iff.1 (mem_places_iff.1 h).2
  rw [NodeId.index_ofNat, Nat.mod_eq_of_lt (Nat.lt_of_lt_of_le hlt hsize)]

theorem mem_others_iff (hsize : r.size ≤ 256) :
    (id, p) ∈ r.others ↔ id ≠ r.self ∧ r.get? id = some p := by
  simp only [others, List.mem_filterMap, Prod.exists]
  constructor
  · rintro ⟨q, i, hmem, hentry⟩
    obtain ⟨hpos, hq⟩ := mem_places_iff.1 hmem
    have hindex := index_of_mem_places hsize hmem
    split at hentry
    · cases hentry
    · rename_i hself
      cases hentry
      have hin : r.Contains (.ofNat i) := by
        refine ⟨NodeId.assigned_iff.2 (by rwa [hindex]), ?_⟩
        rw [hindex]
        exact (Array.getElem?_eq_some_iff.1 hq).1
      exact ⟨hself, by rw [get?, if_pos hin, hindex, hq]⟩
  · rintro ⟨hself, hget⟩
    have hin := contains_of_get? hget
    rw [get?, if_pos hin] at hget
    refine ⟨p, id.index, mem_places_iff.2 ⟨NodeId.assigned_iff.1 hin.1, hget⟩, ?_⟩
    rw [NodeId.ofNat_index, if_neg hself]

theorem pairwise_others (hsize : r.size ≤ 256) : r.others.Pairwise fun x y => x.1 ≠ y.1 := by
  refine List.pairwise_filterMap.2 (r.pairwise_places.imp_of_mem ?_)
  rintro ⟨p, i⟩ ⟨q, j⟩ hi hj hlt x hx y hy heq
  have hplace {p : Peer} {i : Nat} {x : NodeId × Peer}
      (hx : (if NodeId.ofNat i = r.self then none else some (NodeId.ofNat i, p)) = some x) :
      NodeId.ofNat i = x.1 := by
    split at hx
    · cases hx
    · rw [← Option.some.inj hx]
  have hindex := congrArg NodeId.index ((hplace hx).trans (heq.trans (hplace hy).symm))
  rw [index_of_mem_places hsize hi, index_of_mem_places hsize hj] at hindex
  exact Nat.ne_of_lt hlt hindex

end Roster

end Meshwork
