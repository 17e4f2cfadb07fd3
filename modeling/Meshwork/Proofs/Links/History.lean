import Meshwork.Proofs.Links
import Meshwork.Proofs.Slots.History

/-!
# Links by their history

What a table of links answers is decided by the calls before and their answers alone: under a number
stands the link that was added last with that number and has not been dropped since, whatever slots
were reused in between. Main statement: `mapped_run`, for every capacity and all calls. The
invariant is `Links.Told`, each number has the record that the history says.
-/

namespace Meshwork.Links

inductive Call where
  | nextId
  | insert (link : Link) (owner : Option NodeId)
  | get (c : ConnId)
  | owner (c : ConnId)
  | erase (c : ConnId)
  | clear

inductive Answer where
  | id (c : ConnId)
  | slot (place : Except SlotError Nat)
  | record (r : Option LinkRecord)
  | owner (node : Option NodeId)
  | done

abbrev History := List (Call × Answer)

def Ends (c : ConnId) : Call × Answer → Prop
  | (.insert link _, .slot (.ok _)) => link.id = c
  | (.erase c', _) => c' = c
  | (.clear, _) => True
  | _ => False

namespace History

variable (past : History) (c : ConnId) (r : LinkRecord)

/-- The link was added with the number and the owner, and since then no other was and none was
dropped. -/
def Holds : Prop :=
  r.link.id = c ∧ ∃ i since before,
    past = since ++ (.insert r.link r.owner, .slot (.ok i)) :: before ∧ ∀ e ∈ since, ¬ Ends c e

def Live : Prop := ∃ r, past.Holds c r

def numbers : List ConnId := past.filterMap fun e => match e.2 with | .id c => some c | _ => none

variable {past c r} {e : Call × Answer}

@[simp] theorem not_holds_nil : ¬ Holds [] c r := by simp [Holds]

theorem holds_cons : Holds (e :: past) c r ↔
    r.link.id = c ∧ (∃ i, e = (.insert r.link r.owner, .slot (.ok i))) ∨ past.Holds c r ∧
      ¬ Ends c e := by
  simp only [Holds, Calls.cons_eq_append_cons_iff]
  grind

end History

def call (t : Links) : Call → Answer × Links
  | .nextId => (.id t.nextId.1, t.nextId.2)
  | .insert link owner =>
    match t.insert link owner with
    | .ok (i, u) => (.slot (.ok i), u)
    | .error e => (.slot (.error e), t)
  | .get c => (.record (t.get? c), t)
  | .owner c => (.owner (t.owner? c), t)
  | .erase c =>
    match t.erase c with
    | some (r, u) => (.record (some r), u)
    | none => (.record none, t)
  | .clear => (.done, t.clear)

/-- What a table of `n` links is and does after all that is past. -/
structure Mapped (n : Nat) (past : History) (t : Links) : Prop where
  kept : t.Kept
  capacity : t.slots.capacity = n
  get_iff : ∀ c r, t.get? c = some r ↔ past.Holds c r
  get_none : ∀ c, t.get? c = none ↔ ¬ past.Live c
  id_eq : ∀ c r, t.get? c = some r → r.link.id = c
  owner_iff : ∀ c node, t.owner? c = some node ↔ ∃ r, past.Holds c r ∧ r.owner = some node
  size : {c | past.Live c}.encard = t.size
  hasRoom_iff : t.hasRoom = true ↔ {c | past.Live c}.encard < n
  insert_error : ∀ link owner e, (t.call (.insert link owner)).1 = .slot (.error e) ↔
    e = .full ∧ ¬ past.Live link.id ∧ {c | past.Live c}.encard = n
  insert_failed : ∀ link owner e, (t.call (.insert link owner)).1 = .slot (.error e) →
    (t.call (.insert link owner)).2 = t
  /-- A link whose number another has takes the slot of the other, and all else stays. -/
  insert_live : ∀ link owner, past.Live link.id → ∃ i old, t.slots.index[link.id]? = some i ∧
    t.records[i]? = some (some old) ∧ t.call (.insert link owner) =
      (.slot (.ok i), { t with records := t.records.setIfInBounds i (some { link, owner }) })
  erase_iff : ∀ c r, (t.call (.erase c)).1 = .record (some r) ↔ past.Holds c r
  erase_none : ∀ c, (t.call (.erase c)).1 = .record none ↔ ¬ past.Live c
  erase_failed : ∀ c, ¬ past.Live c → (t.call (.erase c)).2 = t
  /-- Clearing drops one link after the other, and leaves none and each slot free. -/
  clear_eq : t.clear = Calls.run call t (t.ids.map .erase)
  clear_empty : t.clear.isEmpty = true ∧ ∀ c, t.clear.get? c = none
  clear_free : t.clear.slots.free.Perm (List.range n)
  numbers_nodup : past.numbers.Nodup
  next_new : t.nextId.1 ∉ past.numbers
  size_records : t.records.size = n
  index_lt : ∀ (c : ConnId) (i : Nat), t.slots.index[c]? = some i → i < t.records.size
  free_lt : ∀ i ∈ t.slots.free, i < t.records.size

variable {t u : Links} {past : History} {c : ConnId} {r : LinkRecord} {link : Link}
  {owner : Option NodeId}
  {n : Nat}

def drop (t : Links) (c : ConnId) : Links :=
  match t.erase c with
  | some (_, u) => u
  | none => t

theorem clear_eq (t : Links) : t.clear = t.ids.foldl drop t := rfl

theorem drop_cases (t : Links) (c : ConnId) :
    t.erase c = none ∧ t.drop c = t ∨ ∃ r, t.erase c = some (r, t.drop c) := by
  unfold drop
  cases h : t.erase c with
  | none => exact .inl ⟨rfl, rfl⟩
  | some p => exact .inr ⟨p.1, rfl⟩

theorem capacity_drop (t : Links) (c : ConnId) : (t.drop c).slots.capacity = t.slots.capacity := by
  obtain ⟨-, heq⟩ | ⟨r, h⟩ := t.drop_cases c
  · rw [heq]
  · exact capacity_erase h

theorem nextNumber_drop (t : Links) (c : ConnId) : (t.drop c).nextNumber = t.nextNumber := by
  obtain ⟨-, heq⟩ | ⟨r, h⟩ := t.drop_cases c
  · rw [heq]
  · exact nextNumber_erase h

theorem apply_clear {α : Type} {f : Links → α} (hf : ∀ t c, f (t.drop c) = f t) (t : Links) :
    f t.clear = f t := by
  rw [clear_eq]
  generalize t.ids = ids
  induction ids generalizing t with
  | nil => rfl
  | cons c ids ih => rw [List.foldl_cons, ih, hf]

theorem capacity_clear (t : Links) : t.clear.slots.capacity = t.slots.capacity :=
  apply_clear (f := fun t => t.slots.capacity) capacity_drop t

theorem nextNumber_clear (t : Links) : t.clear.nextNumber = t.nextNumber :=
  apply_clear (f := nextNumber) nextNumber_drop t

namespace Kept

theorem drop (ht : t.Kept) (c : ConnId) : (t.drop c).Kept := by
  obtain ⟨-, heq⟩ | ⟨r, h⟩ := t.drop_cases c
  · rwa [heq]
  · exact ht.erase h

theorem get?_drop (ht : t.Kept) (c c' : ConnId) :
    (t.drop c).get? c' = if c' = c then none else t.get? c' := by
  obtain ⟨hnone, heq⟩ | ⟨r, h⟩ := t.drop_cases c
  · rw [heq]
    split
    · rename_i hc
      rw [hc, ht.erase_eq_none_iff.1 hnone]
    · rfl
  · exact (ht.get?_erase h).2 c'

theorem foldl_drop (ht : t.Kept) (ids : List ConnId) :
    (ids.foldl Links.drop t).Kept ∧
      ∀ c, (ids.foldl Links.drop t).get? c = if c ∈ ids then none else t.get? c := by
  induction ids generalizing t with
  | nil => simp [ht]
  | cons c ids ih =>
    obtain ⟨hkept, hget⟩ := ih (ht.drop c)
    refine ⟨hkept, fun c' => ?_⟩
    rw [List.foldl_cons, hget, ht.get?_drop]
    by_cases hc : c' = c <;> simp [hc]

theorem clear (ht : t.Kept) : t.clear.Kept := (ht.foldl_drop t.ids).1

theorem get?_clear (ht : t.Kept) (c : ConnId) : t.clear.get? c = none := by
  rw [clear_eq, (ht.foldl_drop t.ids).2]
  split
  · rfl
  · rename_i hmem
    rwa [ht.mem_ids_iff, Option.not_isSome_iff_eq_none] at hmem

theorem isEmpty_of_get? (ht : t.Kept) (h : ∀ c, t.get? c = none) : t.isEmpty = true := by
  refine Std.HashMap.isEmpty_iff_forall_not_mem.2 fun c hmem => ?_
  rw [← Std.HashMap.isSome_getElem?_iff_mem, ht.get?_eq_none_iff.1 (h c)] at hmem
  cases hmem

theorem free_of_get? (ht : t.Kept) (h : ∀ c, t.get? c = none) :
    t.slots.free.Perm (List.range t.slots.capacity) := by
  refine (List.perm_ext_iff_of_nodup ht.slots.nodup_free List.nodup_range).2 fun i => ?_
  rw [List.mem_range]
  refine ⟨ht.slots.lt_of_mem_free, fun hlt => (ht.slots.mem_free_iff i).2 ?_⟩
  cases hkey : t.slots.keys[i]? with
  | none =>
    exact absurd hlt (Nat.not_lt.2 (Array.getElem?_eq_none_iff.1 hkey))
  | some key =>
    cases key with
    | none => rfl
    | some c =>
      have hidx := (ht.slots.index_iff c i).2 hkey
      rw [ht.get?_eq_none_iff.1 (h c)] at hidx
      cases hidx

end Kept

theorem call_insert_of_ok {i : Nat} (h : t.insert link owner = .ok (i, u)) :
    t.call (.insert link owner) = (.slot (.ok i), u) := by
  simp only [call, h]

theorem call_insert_of_error {e : SlotError} (h : t.insert link owner = .error e) :
    t.call (.insert link owner) = (.slot (.error e), t) := by
  simp only [call, h]

theorem Kept.call_erase (ht : t.Kept) (c : ConnId) :
    t.call (.erase c) = (.record (t.get? c), t.drop c) := by
  obtain ⟨hnone, heq⟩ | ⟨r, h⟩ := t.drop_cases c
  · simp only [call, hnone, heq, ht.erase_eq_none_iff.1 hnone]
  · simp only [call, h, (ht.get?_erase h).1]

theorem clear_eq_run (t : Links) : t.clear = Calls.run call t (t.ids.map .erase) := by
  have hdrop : drop = fun t c => (t.call (.erase c)).2 := by
    funext t c
    cases h : t.erase c <;> simp [drop, call, h]
  rw [clear_eq, hdrop, Calls.run, List.foldl_map]

theorem insert_eq_error_iff {e : SlotError} (owner : Option NodeId) :
    t.insert link owner = .error e ↔ t.slots.allocate link.id = .error e := by
  cases h : t.slots.allocate link.id <;> simp [insert, Except.map, h]

/-- Under each number stands the link that the history says. -/
def Told (past : History) (t : Links) : Prop := ∀ c r, t.get? c = some r ↔ past.Holds c r

namespace Told

theorem get?_eq_none_iff (h : t.Told past) : t.get? c = none ↔ ¬ past.Live c := by
  simp only [Option.eq_none_iff_forall_ne_some, ne_eq, h c, History.Live, not_exists]

theorem same (h : t.Told past) {e : Call × Answer} (hget : ∀ c, u.get? c = t.get? c)
    (hinsert : ∀ link owner i, e ≠ (.insert link owner, .slot (.ok i))) (hends : ∀ c, ¬ Ends c e) :
    u.Told (e :: past) := by
  intro c r
  simp [History.holds_cons, hinsert, hends, hget, h c r]

theorem call (h : t.Told past) (ht : t.Kept) (c : Call) :
    (t.call c).2.Told ((c, (t.call c).1) :: past) := by
  cases c with
  | nextId => exact h.same (fun _ => rfl) nofun (by simp [Ends])
  | get c => exact h.same (fun _ => rfl) nofun (by simp [Ends])
  | owner c => exact h.same (fun _ => rfl) nofun (by simp [Ends])
  | insert link owner =>
    cases hi : t.insert link owner with
    | error e =>
      rw [call_insert_of_error hi]
      exact h.same (fun _ => rfl) (by simp) (by simp [Ends])
    | ok p =>
      rw [call_insert_of_ok hi]
      intro c r
      rw [ht.get?_insert hi, History.holds_cons]
      by_cases hc : c = link.id
      · subst hc
        have heq : r.link.id = link.id ∧ link = r.link ∧ owner = r.owner ↔
            { link, owner : LinkRecord } = r := by
          constructor
          · rintro ⟨-, rfl, rfl⟩
            rfl
          · rintro rfl
            exact ⟨rfl, rfl, rfl⟩
        simp [Ends, heq]
      · have hne : ¬ (r.link.id = c ∧ link = r.link ∧ owner = r.owner) := by
          rintro ⟨rfl, rfl, -⟩
          exact hc rfl
        simp [hc, Ne.symm hc, Ends, hne, h c r]
  | erase c =>
    rw [ht.call_erase]
    intro c' r
    rw [ht.get?_drop, History.holds_cons]
    by_cases hc : c' = c
    · simp [hc, Ends]
    · simp [hc, Ne.symm hc, Ends, h c' r]
  | clear =>
    intro c r
    simp [Links.call, ht.get?_clear, History.holds_cons, Ends]

end Told

/-- The numbers that the history has are given out once each, and the next one is higher. -/
structure Rising (past : History) (t : Links) : Prop where
  nodup : past.numbers.Nodup
  lt : ∀ c ∈ past.numbers, c.number < t.nextNumber

namespace Rising

theorem same (h : t.Rising past) {e : Call × Answer} (he : ∀ c, e.2 ≠ .id c)
    (hnext : u.nextNumber = t.nextNumber) : u.Rising (e :: past) := by
  have heq : History.numbers (e :: past) = past.numbers := by
    obtain ⟨c, a⟩ := e
    cases a with
    | id c => exact absurd rfl (he c)
    | _ => rfl
  exact ⟨heq ▸ h.nodup, by rw [heq, hnext]; exact h.lt⟩

theorem next_new (h : t.Rising past) : t.nextId.1 ∉ past.numbers :=
  fun hmem => Nat.lt_irrefl _ (h.lt _ hmem)

theorem call (h : t.Rising past) (ht : t.Kept) (c : Call) :
    (t.call c).2.Rising ((c, (t.call c).1) :: past) := by
  cases c with
  | nextId =>
    refine ⟨List.nodup_cons.2 ⟨h.next_new, h.nodup⟩, fun c hmem => ?_⟩
    obtain rfl | hmem := List.mem_cons.1 hmem
    · exact Nat.lt_succ_self _
    · exact Nat.lt_succ_of_lt (h.lt c hmem)
  | insert link owner =>
    cases hi : t.insert link owner with
    | error e =>
      rw [call_insert_of_error hi]
      exact h.same nofun rfl
    | ok p =>
      rw [call_insert_of_ok hi]
      exact h.same nofun (nextNumber_insert hi)
  | erase c =>
    rw [ht.call_erase]
    exact h.same nofun (nextNumber_drop t c)
  | get c => exact h.same nofun rfl
  | owner c => exact h.same nofun rfl
  | clear => exact h.same nofun (nextNumber_clear t)

end Rising

theorem Kept.call (ht : t.Kept) (c : Call) : (t.call c).2.Kept := by
  cases c with
  | insert link owner =>
    cases hi : t.insert link owner with
    | error e => rwa [call_insert_of_error hi]
    | ok p =>
      rw [call_insert_of_ok hi]
      exact ht.insert hi
  | erase c =>
    rw [ht.call_erase]
    exact ht.drop c
  | nextId => exact ht.nextId
  | clear => exact ht.clear
  | _ => exact ht

theorem Kept.capacity_call (ht : t.Kept) (c : Call) :
    (t.call c).2.slots.capacity = t.slots.capacity := by
  cases c with
  | insert link owner =>
    cases hi : t.insert link owner with
    | error e => rw [call_insert_of_error hi]
    | ok p =>
      rw [call_insert_of_ok hi]
      exact capacity_insert hi
  | erase c =>
    rw [ht.call_erase]
    exact capacity_drop t c
  | clear => exact capacity_clear t
  | _ => rfl

structure Follows (n : Nat) (past : History) (t : Links) : Prop where
  kept : t.Kept
  capacity : t.slots.capacity = n
  told : t.Told past
  rising : t.Rising past

theorem follows_ofCapacity (n : Nat) : (ofCapacity n).Follows n [] where
  kept := kept_ofCapacity n
  capacity := (Numbered.ofCapacity n).capacity
  told c r := by simp [get?_ofCapacity]
  rising := ⟨.nil, nofun⟩

namespace Follows

theorem call (h : t.Follows n past) (c : Call) :
    (t.call c).2.Follows n ((c, (t.call c).1) :: past) :=
  ⟨h.kept.call c, (h.kept.capacity_call c).trans h.capacity, h.told.call h.kept c,
    h.rising.call h.kept c⟩

theorem run (n : Nat) (calls : List Call) :
    (Calls.run Links.call (ofCapacity n) calls).Follows n
      (Calls.history Links.call (ofCapacity n) calls) :=
  Calls.history_induction (follows_ofCapacity n) (fun _ _ c h => h.call c) calls

theorem encard_live (h : t.Follows n past) : {c | past.Live c}.encard = t.size := by
  rw [← h.kept.length_ids]
  refine encard_eq_length h.kept.nodup_ids fun c => ?_
  rw [h.kept.mem_ids_iff, Option.isSome_iff_exists]
  exact exists_congr (h.told c)

theorem insert_error (h : t.Follows n past) {e : SlotError} :
    (t.call (.insert link owner)).1 = .slot (.error e) ↔
      e = .full ∧ ¬ past.Live link.id ∧ {c | past.Live c}.encard = n := by
  have hfull : {c | past.Live c}.encard = n ↔ t.slots.free = [] := by
    rw [h.encard_live, Nat.cast_inj, h.kept.slots.free_eq_nil_iff, h.capacity, size]
  rw [hfull, ← h.told.get?_eq_none_iff, h.kept.get?_eq_none_iff, ← Slots.allocate_eq_error_iff,
    ← insert_eq_error_iff owner]
  cases hi : t.insert link owner <;> simp [Links.call, hi]

theorem insert_live (h : t.Follows n past) (hlive : past.Live link.id) :
    ∃ i old, t.slots.index[link.id]? = some i ∧ t.records[i]? = some (some old) ∧
      t.call (.insert link owner) =
        (.slot (.ok i),
          { t with records := t.records.setIfInBounds i (some { link, owner }) }) := by
  cases hidx : t.slots.index[link.id]? with
  | none =>
    have hnone := h.kept.get?_eq_none_iff.2 hidx
    exact absurd hlive (h.told.get?_eq_none_iff.1 hnone)
  | some i =>
    obtain ⟨old, hold, -⟩ := h.kept.record_of_index hidx
    exact ⟨i, old, rfl, hold,
      call_insert_of_ok (by simp [insert, Slots.allocate, hidx, Except.map])⟩

theorem mapped (h : t.Follows n past) : Mapped n past t where
  kept := h.kept
  capacity := h.capacity
  get_iff := h.told
  get_none _ := h.told.get?_eq_none_iff
  id_eq _ _ := h.kept.id_of_get?
  owner_iff c node := by
    simp only [owner?, Option.bind_eq_some_iff, h.told c]
  size := h.encard_live
  hasRoom_iff := by rw [h.encard_live, Nat.cast_lt, ← h.capacity, hasRoom, decide_eq_true_iff, size]
  insert_error _ _ _ := h.insert_error
  insert_failed link owner e he := by
    cases hi : t.insert link owner with
    | error e => rw [call_insert_of_error hi]
    | ok p => simp [Links.call, hi] at he
  insert_live _ _ := h.insert_live
  erase_iff c r := by rw [h.kept.call_erase, ← h.told c r, Answer.record.injEq]
  erase_none c := by rw [h.kept.call_erase, ← h.told.get?_eq_none_iff, Answer.record.injEq]
  erase_failed c hdead := by
    obtain ⟨-, heq⟩ | ⟨r, hr⟩ := t.drop_cases c
    · rw [h.kept.call_erase, heq]
    · exact absurd ⟨r, (h.told c r).1 (h.kept.get?_erase hr).1⟩ hdead
  clear_eq := t.clear_eq_run
  clear_empty := ⟨h.kept.clear.isEmpty_of_get? h.kept.get?_clear, h.kept.get?_clear⟩
  clear_free := by
    have hfree := h.kept.clear.free_of_get? h.kept.get?_clear
    rwa [capacity_clear, h.capacity] at hfree
  numbers_nodup := h.rising.nodup
  next_new := h.rising.next_new
  size_records := h.kept.size_records.trans h.capacity
  index_lt c i hidx := by
    rw [h.kept.size_records]
    exact h.kept.slots.lt_capacity hidx
  free_lt i hfree := by
    rw [h.kept.size_records]
    exact h.kept.slots.lt_of_mem_free hfree

end Follows

/-- A table of any capacity is and does after any calls what the calls and their answers say. -/
theorem mapped_run (n : Nat) (calls : List Call) :
    Mapped n (Calls.history call (ofCapacity n) calls) (Calls.run call (ofCapacity n) calls) :=
  (Follows.run n calls).mapped

end Meshwork.Links
