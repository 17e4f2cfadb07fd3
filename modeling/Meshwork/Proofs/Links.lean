import Meshwork.Links
import Meshwork.Proofs.Slots

/-!
# The table of links as a map

`Links.get?` is the view of the table: `get?_insert`, `get?_erase` and `get?_modify` say what an
operation does to it. A table with room takes every link, and never has more links than places.
-/

namespace Meshwork

namespace Link

variable {l l' : Link} {bytes : List UInt8}

theorem send_eq_ok (h : l.send bytes = .ok l') :
    l.running = true ∧ l.queue.length < l.bound ∧ l' = { l with queue := l.queue ++ [bytes] } := by
  unfold send at h
  split at h
  · cases h
  rename_i hrun
  split at h
  · cases h
  rename_i hlen
  cases h
  exact ⟨by simpa using hrun, by omega, rfl⟩

theorem id_send (h : l.send bytes = .ok l') : l'.id = l.id := by
  obtain ⟨-, -, rfl⟩ := send_eq_ok h
  rfl

theorem send_eq_error {reason : CloseReason} (h : l.send bytes = .error reason)
    (bytes' : List UInt8) :
    l.send bytes' = .error reason := by
  unfold send at h ⊢
  split
  · rename_i hrun
    rwa [if_pos hrun] at h
  · rename_i hrun
    rw [if_neg hrun] at h
    split
    · rename_i hfull
      rwa [if_pos hfull] at h
    · rename_i hfull
      rw [if_neg hfull] at h
      cases h

theorem full_of_send {reason : CloseReason} (h : l.send bytes = .error reason) :
    l.running = false ∨ l.bound ≤ l.queue.length := by
  unfold send at h
  split at h
  · rename_i hrun
    exact .inl (by simpa using hrun)
  split at h
  · rename_i hfull
    exact .inr hfull
  · cases h

theorem send_ofBound (id : ConnId) (bound : Nat) (bytes : List UInt8) :
    (ofBound id bound).send bytes = .ok { ofBound id bound with queue := [bytes] } := by
  have hbound : ¬ max 1 bound ≤ 0 := by omega
  simp [send, ofBound, hbound]

end Link

namespace Links

variable {t u : Links} {c : ConnId} {i : Nat} {link : Link} {owner : Option NodeId}
  {record : LinkRecord}

/-- The slots are sound, and the record at a slot is that of the link whose number has the slot. -/
structure Kept (t : Links) : Prop where
  slots : t.slots.Kept
  ids : t.records.map (Option.map (·.link.id)) = t.slots.keys

theorem get?_of_index (h : t.slots.index[c]? = some i) : t.get? c = (t.records[i]?).join := by
  simp only [get?, Slots.find?, h]

theorem get?_of_not_index (h : t.slots.index[c]? = none) : t.get? c = none := by
  simp only [get?, Slots.find?, h]

theorem insert_cases (h : t.insert link owner = .ok (i, u)) :
    ∃ slots, t.slots.allocate link.id = .ok (i, slots) ∧
      u = { t with slots, records := t.records.setIfInBounds i (some { link, owner }) } := by
  unfold insert at h
  cases ha : t.slots.allocate link.id with
  | error e => simp [ha, Except.map] at h
  | ok p =>
    simp only [ha, Except.map, Except.ok.injEq, Prod.mk.injEq] at h
    obtain ⟨rfl, rfl⟩ := h
    exact ⟨p.2, rfl, rfl⟩

theorem erase_cases (h : t.erase c = some (record, u)) :
    ∃ i slots, t.slots.release c = .ok (i, slots) ∧ (t.records[i]?).join = some record ∧
      u = { t with slots, records := t.records.setIfInBounds i none } := by
  unfold erase at h
  split at h
  · rename_i i slots hrel
    obtain ⟨r, hr, heq⟩ := Option.map_eq_some_iff.1 h
    simp only [Prod.mk.injEq] at heq
    obtain ⟨rfl, rfl⟩ := heq
    exact ⟨i, slots, hrel, hr, rfl⟩
  · cases h

@[simp] theorem nextNumber_nextId (t : Links) : t.nextId.2.nextNumber = t.nextNumber + 1 := rfl

@[simp] theorem number_nextId (t : Links) : t.nextId.1.number = t.nextNumber := rfl

theorem nextNumber_insert (h : t.insert link owner = .ok (i, u)) : u.nextNumber = t.nextNumber := by
  obtain ⟨slots, -, rfl⟩ := insert_cases h
  rfl

theorem nextNumber_erase (h : t.erase c = some (record, u)) : u.nextNumber = t.nextNumber := by
  obtain ⟨i, slots, -, -, rfl⟩ := erase_cases h
  rfl

@[simp] theorem nextNumber_modify (t : Links) (c : ConnId) (f : Link → Link) :
    (t.modify c f).nextNumber = t.nextNumber := by
  unfold modify
  split <;> rfl

theorem size_insert_le (h : t.insert link owner = .ok (i, u)) : u.size ≤ t.size + 1 := by
  obtain ⟨slots, ha, rfl⟩ := insert_cases h
  exact Slots.size_allocate_le ha

theorem capacity_insert (h : t.insert link owner = .ok (i, u)) :
    u.slots.capacity = t.slots.capacity := by
  obtain ⟨slots, ha, rfl⟩ := insert_cases h
  exact Slots.capacity_allocate ha

theorem capacity_erase (h : t.erase c = some (record, u)) :
    u.slots.capacity = t.slots.capacity := by
  obtain ⟨i, slots, hr, -, rfl⟩ := erase_cases h
  exact Slots.capacity_release hr

@[simp] theorem slots_modify (t : Links) (c : ConnId) (f : Link → Link) :
    (t.modify c f).slots = t.slots := by
  unfold modify
  split <;> rfl

theorem records_modify {f : Link → Link} (h : t.slots.index[c]? = some i) :
    (t.modify c f).records =
      t.records.modify i fun r => r.map fun r => { r with link := f r.link } := by
  simp only [modify, Slots.find?, h]

theorem kept_ofCapacity (n : Nat) : (ofCapacity n).Kept where
  slots := Slots.kept_ofCapacity n
  ids := by simp [ofCapacity, Slots.ofCapacity]

theorem get?_ofCapacity (n : Nat) (c : ConnId) : (ofCapacity n).get? c = none :=
  get?_of_not_index (by simp [ofCapacity, Slots.ofCapacity])

namespace Kept

theorem nextId (ht : t.Kept) : t.nextId.2.Kept := ⟨ht.slots, ht.ids⟩

theorem size_records (ht : t.Kept) : t.records.size = t.slots.capacity := by
  rw [Slots.capacity, ← ht.ids, Array.size_map]

theorem record_of_index (ht : t.Kept) (h : t.slots.index[c]? = some i) :
    ∃ r, t.records[i]? = some (some r) ∧ r.link.id = c := by
  have hk := (ht.slots.index_iff c i).1 h
  rw [← ht.ids, Array.getElem?_map, Option.map_eq_some_iff] at hk
  obtain ⟨o, ho, hc⟩ := hk
  obtain ⟨r, rfl, hr⟩ := Option.map_eq_some_iff.1 hc
  exact ⟨r, ho, hr⟩

theorem get?_eq_none_iff (ht : t.Kept) : t.get? c = none ↔ t.slots.index[c]? = none := by
  constructor
  · intro h
    cases hi : t.slots.index[c]? with
    | none => rfl
    | some i =>
      obtain ⟨r, hr, -⟩ := ht.record_of_index hi
      simp [get?_of_index hi, hr] at h
  · exact get?_of_not_index

theorem id_of_get? (ht : t.Kept) (h : t.get? c = some record) : record.link.id = c := by
  cases hi : t.slots.index[c]? with
  | none => simp [get?_of_not_index hi] at h
  | some i =>
    obtain ⟨r, hr, hc⟩ := ht.record_of_index hi
    simp only [get?_of_index hi, hr, Option.join_some, Option.some.injEq] at h
    rwa [← h]

theorem size_insert (ht : t.Kept) (hnone : t.get? link.id = none)
    (h : t.insert link owner = .ok (i, u)) :
    u.size = t.size + 1 := by
  obtain ⟨slots, ha, rfl⟩ := insert_cases h
  exact Slots.size_allocate (ht.get?_eq_none_iff.1 hnone) ha

theorem nodup_ids (ht : t.Kept) : t.ids.Nodup := ht.slots.nodup_keys

theorem mem_ids_iff (ht : t.Kept) : c ∈ t.ids ↔ (t.get? c).isSome := by
  rw [Links.ids, ht.slots.mem_keys_iff]
  have hnone := ht.get?_eq_none_iff (c := c)
  cases hi : t.slots.index[c]? <;> cases hg : t.get? c <;> simp_all

theorem length_ids (ht : t.Kept) : t.ids.length = t.size := by
  rw [Links.ids, List.length_map, ht.slots.length_toList, Links.size]

theorem size_le (ht : t.Kept) : t.size ≤ t.slots.capacity := by
  have h := ht.slots.size_add
  simp only [Links.size]
  omega

theorem exists_insert (ht : t.Kept) (h : t.hasRoom = true) (link : Link) (owner : Option NodeId) :
    ∃ i u, t.insert link owner = .ok (i, u) := by
  obtain ⟨i, slots, ha⟩ := ht.slots.exists_allocate (of_decide_eq_true h) link.id
  refine ⟨i, { t with slots, records := t.records.setIfInBounds i (some { link, owner }) }, ?_⟩
  simp only [Links.insert, ha, Except.map]

theorem insert (ht : t.Kept) (h : t.insert link owner = .ok (i, u)) : u.Kept := by
  obtain ⟨slots, ha, rfl⟩ := insert_cases h
  refine ⟨ht.slots.allocate ha, ?_⟩
  apply Array.ext_getElem?
  intro j
  have hj : (t.records[j]?).map (Option.map (·.link.id)) = t.slots.keys[j]? := by
    rw [← ht.ids, Array.getElem?_map]
  simp only [Array.getElem?_map, Array.getElem?_setIfInBounds, ht.size_records]
  obtain ⟨hidx, rfl⟩ | ⟨-, rest, hfree, rfl⟩ := Slots.allocate_cases ha
  · have hlt := ht.slots.lt_capacity hidx
    have hkey := (ht.slots.index_iff _ _).1 hidx
    by_cases hij : i = j
    · subst hij
      simp [hlt, hkey]
    · simpa [hij] using hj
  · have hlt := ht.slots.lt_of_free hfree
    by_cases hij : i = j
    · subst hij
      rw [Slots.capacity] at hlt
      simp [hlt, Slots.capacity]
    · simpa [hij] using hj

theorem erase (ht : t.Kept) (h : t.erase c = some (record, u)) : u.Kept := by
  obtain ⟨i, slots, hr, -, rfl⟩ := erase_cases h
  refine ⟨ht.slots.release hr, ?_⟩
  obtain ⟨hidx, rfl⟩ := Slots.release_cases hr
  apply Array.ext_getElem?
  intro j
  have hj : (t.records[j]?).map (Option.map (·.link.id)) = t.slots.keys[j]? := by
    rw [← ht.ids, Array.getElem?_map]
  have hlt := ht.slots.lt_capacity hidx
  rw [Slots.capacity] at hlt
  simp only [Array.getElem?_map, Array.getElem?_setIfInBounds, ht.size_records]
  by_cases hij : i = j
  · subst hij
    simp [hlt, Slots.capacity]
  · simpa [hij] using hj

theorem modify (ht : t.Kept) {f : Link → Link} (hf : ∀ r ∈ t.get? c, (f r.link).id = r.link.id) :
    (t.modify c f).Kept := by
  cases hi : t.slots.index[c]? with
  | none =>
    have hsame : t.modify c f = t := by simp only [Links.modify, Slots.find?, hi]
    rwa [hsame]
  | some i =>
    obtain ⟨r, hr, -⟩ := ht.record_of_index hi
    have hid := hf r (by simp [get?_of_index hi, hr])
    refine ⟨by simpa using ht.slots, ?_⟩
    rw [slots_modify, ← ht.ids, records_modify hi]
    apply Array.ext_getElem?
    intro j
    simp only [Array.getElem?_map, Array.getElem?_modify]
    by_cases hij : i = j
    · subst hij
      simp [hr, hid]
    · simp [hij]

theorem get?_insert (ht : t.Kept) (h : t.insert link owner = .ok (i, u)) (c : ConnId) :
    u.get? c = if c = link.id then some { link, owner } else t.get? c := by
  obtain ⟨slots, ha, rfl⟩ := insert_cases h
  have hidx := Slots.index_allocate ha
  have hown := (hidx link.id).trans (if_pos (beq_self_eq_true _))
  have hu := ht.slots.allocate ha
  have hlt : i < t.records.size := by
    have hcap := hu.lt_capacity hown
    rwa [Slots.capacity_allocate ha, ← ht.size_records] at hcap
  by_cases hc : c = link.id
  · rw [if_pos hc, hc, get?_of_index hown]
    simp [hlt]
  · have hc' : (link.id == c) = false := by simpa using fun h => hc h.symm
    have hi := hidx c
    rw [if_neg (by simp [hc'])] at hi
    rw [if_neg hc]
    cases hci : t.slots.index[c]? with
    | none => rw [get?_of_not_index hci, get?_of_not_index (hi.trans hci)]
    | some j =>
      have hij : i ≠ j := by
        rintro rfl
        exact hc (hu.eq_of_index (hi.trans hci) hown)
      rw [get?_of_index hci, get?_of_index (hi.trans hci)]
      simp [hij]

theorem get?_erase (ht : t.Kept) (h : t.erase c = some (record, u)) :
    t.get? c = some record ∧ ∀ c', u.get? c' = if c' = c then none else t.get? c' := by
  obtain ⟨i, slots, hr, hrec, rfl⟩ := erase_cases h
  obtain ⟨hown, -⟩ := Slots.release_cases hr
  have hidx := Slots.index_release hr
  refine ⟨by rw [get?_of_index hown, hrec], fun c' => ?_⟩
  by_cases hc : c' = c
  · subst hc
    rw [if_pos rfl, get?_of_not_index (by simp [hidx])]
  · have hi : slots.index[c']? = t.slots.index[c']? := by
      rw [hidx, if_neg (by simpa using fun h => hc h.symm)]
    rw [if_neg hc]
    cases hci : t.slots.index[c']? with
    | none => rw [get?_of_not_index hci, get?_of_not_index (hi.trans hci)]
    | some j =>
      have hij : i ≠ j := by
        rintro rfl
        exact hc (ht.slots.eq_of_index hci hown)
      rw [get?_of_index hci, get?_of_index (hi.trans hci)]
      simp [hij]

theorem hasRoom_erase (ht : t.Kept) (h : t.erase c = some (record, u)) : u.hasRoom = true := by
  have hadd := (ht.erase h).slots.size_add
  obtain ⟨i, slots, hr, -, rfl⟩ := erase_cases h
  obtain ⟨-, rfl⟩ := Slots.release_cases hr
  rw [List.length_cons] at hadd
  exact decide_eq_true (by omega)

theorem erase_eq_none_iff (ht : t.Kept) : t.erase c = none ↔ t.get? c = none := by
  rw [ht.get?_eq_none_iff]
  constructor
  · intro h
    cases hi : t.slots.index[c]? with
    | none => rfl
    | some i =>
      obtain ⟨slots, hr⟩ := Slots.release_of_index hi
      obtain ⟨r, hrec, -⟩ := ht.record_of_index hi
      simp [Links.erase, hr, hrec] at h
  · intro h
    simp [Links.erase, Slots.release, h]

theorem get?_modify (ht : t.Kept) (c : ConnId) (f : Link → Link) (c' : ConnId) :
    (t.modify c f).get? c' =
      if c' = c then (t.get? c).map fun r => { r with link := f r.link } else t.get? c' := by
  have hslots := slots_modify t c f
  cases hi : t.slots.index[c]? with
  | none =>
    have hsame : t.modify c f = t := by simp only [Links.modify, Slots.find?, hi]
    rw [hsame, get?_of_not_index hi]
    split
    · rename_i hc
      rw [hc, get?_of_not_index hi, Option.map_none]
    · rfl
  | some i =>
    by_cases hc : c' = c
    · subst hc
      obtain ⟨r, hr, -⟩ := ht.record_of_index hi
      rw [if_pos rfl, get?_of_index hi, get?_of_index (by rw [hslots, hi]), records_modify hi]
      simp [Array.getElem?_modify, hr]
    · rw [if_neg hc]
      cases hci : t.slots.index[c']? with
      | none => rw [get?_of_not_index hci, get?_of_not_index (by rw [hslots, hci])]
      | some j =>
        have hij : i ≠ j := by
          rintro rfl
          exact hc (ht.slots.eq_of_index hci hi)
        rw [get?_of_index hci, get?_of_index (by rw [hslots, hci]), records_modify hi]
        simp [Array.getElem?_modify, hij]

theorem owner?_insert (ht : t.Kept) (h : t.insert link owner = .ok (i, u)) (c : ConnId) :
    u.owner? c = if c = link.id then owner else t.owner? c := by
  rw [owner?, ht.get?_insert h]
  split <;> rfl

theorem owner?_erase (ht : t.Kept) (h : t.erase c = some (record, u)) (c' : ConnId) :
    u.owner? c' = if c' = c then none else t.owner? c' := by
  rw [owner?, (ht.get?_erase h).2]
  split <;> rfl

theorem owner?_modify (ht : t.Kept) (c : ConnId) (f : Link → Link) (c' : ConnId) :
    (t.modify c f).owner? c' = t.owner? c' := by
  rw [owner?, owner?, ht.get?_modify]
  split
  · rename_i hc
    rw [hc]
    cases t.get? c <;> rfl
  · rfl

end Kept

/-- The table is sound, has a fixed number of places, and no link in it has a number still to be
given out. -/
structure Numbered (t : Links) (limit : Nat) : Prop where
  kept : t.Kept
  capacity : t.slots.capacity = limit
  fresh : ∀ c r, t.get? c = some r → c.number < t.nextNumber

namespace Numbered

variable {limit : Nat}

theorem ofCapacity (n : Nat) : (ofCapacity n).Numbered n where
  kept := kept_ofCapacity n
  capacity := by simp [Links.ofCapacity, Slots.ofCapacity, Slots.capacity]
  fresh c r h := by simp [get?_ofCapacity] at h

theorem get?_nextId_eq_none (ht : t.Numbered limit) : t.get? t.nextId.1 = none := by
  cases hr : t.get? t.nextId.1 with
  | none => rfl
  | some r => exact absurd (ht.fresh _ r hr) (Nat.lt_irrefl _)

theorem nextId (ht : t.Numbered limit) : t.nextId.2.Numbered limit where
  kept := ht.kept.nextId
  capacity := ht.capacity
  fresh c r h := Nat.lt_succ_of_lt (ht.fresh c r h)

theorem insert (ht : t.Numbered limit) (hl : link.id.number < t.nextNumber)
    (h : t.insert link owner = .ok (i, u)) : u.Numbered limit where
  kept := ht.kept.insert h
  capacity := (capacity_insert h).trans ht.capacity
  fresh c r hr := by
    rw [nextNumber_insert h]
    rw [ht.kept.get?_insert h] at hr
    split at hr
    · rename_i hc
      rwa [hc]
    · exact ht.fresh c r hr

theorem insert_nextId (ht : t.Numbered limit) (hl : link.id = t.nextId.1)
    (h : t.nextId.2.insert link owner = .ok (i, u)) : u.Numbered limit :=
  ht.nextId.insert (by rw [hl]; exact Nat.lt_succ_self _) h

theorem erase (ht : t.Numbered limit) (h : t.erase c = some (record, u)) : u.Numbered limit where
  kept := ht.kept.erase h
  capacity := (capacity_erase h).trans ht.capacity
  fresh c' r hr := by
    rw [nextNumber_erase h]
    rw [(ht.kept.get?_erase h).2] at hr
    split at hr
    · cases hr
    · exact ht.fresh c' r hr

theorem modify (ht : t.Numbered limit) {f : Link → Link}
    (hf : ∀ r ∈ t.get? c, (f r.link).id = r.link.id) : (t.modify c f).Numbered limit where
  kept := ht.kept.modify hf
  capacity := by rw [slots_modify, ht.capacity]
  fresh c' r hr := by
    rw [nextNumber_modify]
    rw [ht.kept.get?_modify] at hr
    split at hr
    · rename_i hc
      obtain ⟨r', hr', -⟩ := Option.map_eq_some_iff.1 hr
      exact hc ▸ ht.fresh c r' hr'
    · exact ht.fresh c' r hr

end Numbered

end Links

end Meshwork
