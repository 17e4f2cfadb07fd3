import Meshwork.Proofs.History
import Meshwork.Proofs.Slots

/-!
# Slots by their history

What a table of slots answers is decided by the calls before and their answers alone: a key has the
slot that it was given last and has not released since. Main statement: `managed_run`, for every
capacity and all calls. Two invariants carry it, each kept by every turn of the table: `Slots.Told`,
the index holds what the history says, and `Slots.Stacked`, the free slots are those given back, the
last one first, before those never used.
-/

namespace Meshwork.Slots

variable {κ : Type}

inductive Call (κ : Type) where
  | allocate (k : κ)
  | release (k : κ)
  | find (k : κ)

abbrev History (κ : Type) := List (Call κ × Except SlotError Nat)

namespace History

variable (past : History κ) (k : κ) (i : Nat)

/-- The key was given the slot and has not been released since. -/
def Holds : Prop :=
  ∃ since before,
    past = since ++ (.allocate k, .ok i) :: before ∧ ∀ e ∈ since, ∀ a, e ≠ (.release k, a)

def Live : Prop := ∃ i, past.Holds k i

def GivenOut : Prop := ∃ k, (.allocate k, .ok i) ∈ past

/-- The slot was given back, and `since` is all that came after: it was neither given out nor given
back again. -/
def FreedSince (since : History κ) : Prop :=
  ∃ k before, past = since ++ (.release k, .ok i) :: before ∧
    ∀ e ∈ since, ∀ k, e ≠ (.allocate k, .ok i) ∧ e ≠ (.release k, .ok i)

/-- Of all slots that were given back and not given out again, this one was given back last. -/
def LastFreed : Prop :=
  ∃ since, past.FreedSince i since ∧ ∀ j since', past.FreedSince j since' →
    since.length ≤ since'.length

/-- The slot a new key gets: the one given back last, and if none waits to be given out again, the
lowest that no key ever had. -/
def Next (n : Nat) : Prop :=
  past.LastFreed i ∨
    (∀ j since, ¬ past.FreedSince j since) ∧ i < n ∧ ¬ past.GivenOut i ∧ ∀ j < i, past.GivenOut j

def pending : History κ → List Nat
  | [] => []
  | (.allocate _, .ok i) :: past => (pending past).filter (· ≠ i)
  | (.release _, .ok i) :: past => i :: (pending past).filter (· ≠ i)
  | _ :: past => pending past

variable {past k i} {e : Call κ × Except SlotError Nat} {since : History κ}

@[simp] theorem not_holds_nil : ¬ Holds [] k i := by simp [Holds]

theorem holds_cons :
    Holds (e :: past) k i ↔
      e = (.allocate k, .ok i) ∨ past.Holds k i ∧ ∀ a, e ≠ (.release k, a) := by
  simp only [Holds, Calls.cons_eq_append_cons_iff]
  grind

theorem holds_allocate {k' : κ} {i' : Nat} :
    Holds ((.allocate k, .ok i) :: past) k' i' ↔ k = k' ∧ i = i' ∨ past.Holds k' i' := by
  simp [holds_cons]

theorem Holds.givenOut (h : past.Holds k i) : past.GivenOut i := by
  obtain ⟨since, before, rfl, -⟩ := h
  exact ⟨k, by simp⟩

theorem givenOut_cons :
    GivenOut (e :: past) i ↔ (∃ k, e = (.allocate k, .ok i)) ∨ past.GivenOut i := by
  simp only [GivenOut, List.mem_cons, exists_or, eq_comm]

theorem givenOut_allocate {j : Nat} :
    GivenOut ((.allocate k, .ok i) :: past) j ↔ j = i ∨ past.GivenOut j := by
  simp [givenOut_cons, eq_comm]

@[simp] theorem not_freedSince_nil : ¬ FreedSince [] i since := by simp [FreedSince]

theorem freedSince_cons : FreedSince (e :: past) i since ↔
    since = [] ∧ (∃ k, e = (.release k, .ok i)) ∨
      ∃ since', since = e :: since' ∧ past.FreedSince i since' ∧
        ∀ k, e ≠ (.allocate k, .ok i) ∧ e ≠ (.release k, .ok i) := by
  simp only [FreedSince, Calls.cons_eq_append_cons_iff]
  grind

theorem FreedSince.eq {since' : History κ} (h : past.FreedSince i since)
    (h' : past.FreedSince i since') :
    since = since' := by
  induction past generalizing since since' with
  | nil => simp at h
  | cons e past ih =>
    rw [freedSince_cons] at h h'
    obtain ⟨rfl, k, rfl⟩ | ⟨since, rfl, h, he⟩ := h
    · obtain ⟨rfl, -⟩ | ⟨-, -, -, he'⟩ := h'
      · rfl
      · exact absurd rfl (he' k).2
    · obtain ⟨-, k, rfl⟩ | ⟨since', rfl, h', -⟩ := h'
      · exact absurd rfl (he k).2
      · rw [ih h h']

theorem FreedSince.of_cons (h : FreedSince (e :: past) i since)
    (he : ∀ k, e ≠ (.release k, .ok i)) :
    ∃ since', since = e :: since' ∧ past.FreedSince i since' := by
  obtain ⟨-, k, rfl⟩ | ⟨since', rfl, h, -⟩ := freedSince_cons.1 h
  · exact absurd rfl (he k)
  · exact ⟨since', rfl, h⟩

theorem mem_pending : i ∈ past.pending ↔ ∃ since, past.FreedSince i since := by
  fun_induction pending past with
  | case1 => simp
  | case2 k j past ih => simp [freedSince_cons, ih, @eq_comm _ i]
  | case3 k j past ih =>
    by_cases hij : i = j
    · simp [hij, freedSince_cons]
    · simp [hij, Ne.symm hij, freedSince_cons, ih]
  | case4 e past hgiven hback ih =>
    have he (k : κ) : e ≠ (.allocate k, .ok i) ∧ e ≠ (.release k, .ok i) := ⟨hgiven k i, hback k i⟩
    simp [freedSince_cons, ih, he]

def FreedAfter (past : History κ) (i j : Nat) : Prop :=
  ∀ since since', past.FreedSince i since → past.FreedSince j since' → since.length < since'.length

theorem pairwise_freedAfter_cons {l : List Nat} (h : l.Pairwise past.FreedAfter)
    (he : ∀ i ∈ l, ∀ k, e ≠ (.release k, .ok i)) : l.Pairwise (FreedAfter (e :: past)) := by
  refine h.imp_of_mem fun hi hj hafter _ _ hfreed hfreed' => ?_
  obtain ⟨since, rfl, hbefore⟩ := hfreed.of_cons (he _ hi)
  obtain ⟨since', rfl, hbefore'⟩ := hfreed'.of_cons (he _ hj)
  simpa using hafter since since' hbefore hbefore'

theorem pairwise_pending (past : History κ) : past.pending.Pairwise past.FreedAfter := by
  fun_induction pending past with
  | case1 => exact .nil
  | case2 k i past ih => exact pairwise_freedAfter_cons (ih.filter _) (by simp)
  | case3 k i past ih =>
    have hne : ∀ j ∈ (pending past).filter (· ≠ i), ∀ k' : κ,
        ((.release k, .ok i) : Call κ × Except SlotError Nat) ≠ (.release k', .ok j) := by
      simp [@eq_comm _ i]
    refine List.pairwise_cons.2
      ⟨fun j hj _ _ hfreed hfreed' => ?_, pairwise_freedAfter_cons (ih.filter _) hne⟩
    -- nothing came after the release of the one, and the release itself after that of the other
    obtain rfl := hfreed.eq (freedSince_cons.2 (.inl ⟨rfl, k, rfl⟩))
    obtain ⟨since', rfl, -⟩ := hfreed'.of_cons (hne j hj)
    simp
  | case4 e past hgiven hback ih => exact pairwise_freedAfter_cons ih fun i _ k => hback k i

theorem lastFreed_iff_of_pending {r : Nat} {rest : List Nat} (h : past.pending = r :: rest) :
    past.LastFreed i ↔ i = r := by
  have hsorted := pairwise_pending past
  rw [h, List.pairwise_cons] at hsorted
  obtain ⟨since, hr⟩ := mem_pending.1 (h ▸ List.mem_cons_self : r ∈ past.pending)
  have hlast {j : Nat} {since' : History κ} (hj : past.FreedSince j since') :
      j = r ∨ since.length < since'.length := by
    obtain rfl | hmem := List.mem_cons.1 (h ▸ mem_pending.2 ⟨since', hj⟩)
    · exact .inl rfl
    · exact .inr (hsorted.1 j hmem since since' hr hj)
  constructor
  · rintro ⟨since', hi, hmin⟩
    refine (hlast hi).resolve_right fun hlt => ?_
    exact absurd (hmin r since hr) (by omega)
  · rintro rfl
    refine ⟨since, hr, fun j since' hj => ?_⟩
    obtain rfl | hlt := hlast hj
    · rw [hr.eq hj]
    · exact hlt.le

end History

variable [BEq κ] [Hashable κ]

def call (s : Slots κ) : Call κ → Except SlotError Nat × Slots κ
  | .allocate k =>
    match s.allocate k with
    | .ok (i, t) => (.ok i, t)
    | .error e => (.error e, s)
  | .release k =>
    match s.release k with
    | .ok (i, t) => (.ok i, t)
    | .error e => (.error e, s)
  | .find k => (s.find? k, s)

/-- What a table of `n` slots is and does after all that is past. -/
structure Managed (n : Nat) (past : History κ) (s : Slots κ) : Prop where
  kept : s.Kept
  capacity : s.capacity = n
  /-- A key has the slot it was given until it is released. -/
  find_iff : ∀ (k : κ) (i : Nat), s.find? k = .ok i ↔ past.Holds k i
  lt : ∀ (k : κ) (i : Nat), past.Holds k i → i < n
  injective : ∀ (k k' : κ) (i : Nat), past.Holds k i → past.Holds k' i → k = k'
  size : {k | past.Live k}.encard = s.size
  allocate_live : ∀ (k : κ) (i : Nat), past.Holds k i → s.call (.allocate k) = (.ok i, s)
  allocate_new :
    ∀ (k : κ) (i : Nat), ¬ past.Live k → ((s.call (.allocate k)).1 = .ok i ↔ past.Next i n)
  allocate_error : ∀ (k : κ) (e : SlotError), (s.call (.allocate k)).1 = .error e ↔
    e = .full ∧ ¬ past.Live k ∧ {k | past.Live k}.encard = n
  release_iff : ∀ (k : κ) (i : Nat), (s.call (.release k)).1 = .ok i ↔ past.Holds k i
  release_error :
    ∀ (k : κ) (e : SlotError), (s.call (.release k)).1 = .error e ↔ e = .notFound ∧ ¬ past.Live k
  find_error :
    ∀ (k : κ) (e : SlotError), (s.call (.find k)).1 = .error e ↔ e = .notFound ∧ ¬ past.Live k
  failed : ∀ (c : Call κ) (e : SlotError), (s.call c).1 = .error e → (s.call c).2 = s
  index_lt : ∀ (k : κ) (i : Nat), s.index[k]? = some i → i < s.keys.size
  free_lt : ∀ i ∈ s.free, i < s.keys.size

variable {s t : Slots κ} {c : Call κ} {a : Except SlotError Nat} {past : History κ} {k : κ}
  {i n : Nat}

theorem allocate_eq_error_iff {e : SlotError} :
    s.allocate k = .error e ↔ e = .full ∧ s.index[k]? = none ∧ s.free = [] := by
  cases hk : s.index[k]? <;> cases hfree : s.free <;> simp [allocate, hk, hfree, eq_comm]

/-- All that a call can answer and do. -/
inductive Turn (s : Slots κ) : Call κ → Except SlotError Nat → Slots κ → Prop
  | again {k : κ} {i : Nat} (hk : s.index[k]? = some i) : Turn s (.allocate k) (.ok i) s
  | given {k : κ} {i : Nat} {rest : List Nat} {t : Slots κ} (hk : s.index[k]? = none)
      (hfree : s.free = i :: rest) (h : s.allocate k = .ok (i, t)) (ht : t.free = rest) :
      Turn s (.allocate k) (.ok i) t
  | full {k : κ} (hk : s.index[k]? = none) (hfree : s.free = []) :
      Turn s (.allocate k) (.error .full) s
  | released {k : κ} {i : Nat} {t : Slots κ} (hk : s.index[k]? = some i)
      (h : s.release k = .ok (i, t)) (ht : t.free = i :: s.free) : Turn s (.release k) (.ok i) t
  | unknown {k : κ} (hk : s.index[k]? = none) : Turn s (.release k) (.error .notFound) s
  | found {k : κ} {i : Nat} (hk : s.index[k]? = some i) : Turn s (.find k) (.ok i) s
  | missing {k : κ} (hk : s.index[k]? = none) : Turn s (.find k) (.error .notFound) s

theorem turn_call (s : Slots κ) (c : Call κ) : s.Turn c (s.call c).1 (s.call c).2 := by
  cases c with
  | allocate k =>
    cases ha : s.allocate k with
    | ok p =>
      simp only [call, ha]
      obtain ⟨hk, heq⟩ | ⟨hk, rest, hfree, heq⟩ := allocate_cases ha
      · subst heq
        exact .again hk
      · exact .given hk hfree ha (by rw [heq])
    | error e =>
      obtain ⟨rfl, hk, hfree⟩ := allocate_eq_error_iff.1 ha
      simpa only [call, ha] using .full hk hfree
  | release k =>
    cases hk : s.index[k]? with
    | some i =>
      obtain ⟨t, hr⟩ := release_of_index hk
      simp only [call, hr]
      exact .released hk hr (by rw [(release_cases hr).2])
    | none => simpa only [call, release, hk] using .unknown hk
  | find k =>
    cases hk : s.index[k]? with
    | some i => simpa only [call, find?, hk] using .found hk
    | none => simpa only [call, find?, hk] using .missing hk

theorem Turn.eq_of_error {e : SlotError} (h : Turn s c (.error e) t) : t = s := by
  cases h <;> rfl

theorem Turn.capacity (h : Turn s c a t) : t.capacity = s.capacity := by
  cases h with
  | given _ _ h _ => exact capacity_allocate h
  | released _ h _ => exact capacity_release h
  | _ => rfl

def Told (past : History κ) (s : Slots κ) : Prop :=
  ∀ (k : κ) (i : Nat), s.index[k]? = some i ↔ past.Holds k i

namespace Told

theorem index_eq_none_iff (h : s.Told past) : s.index[k]? = none ↔ ¬ past.Live k := by
  simp only [Option.eq_none_iff_forall_ne_some, ne_eq, h k, History.Live, not_exists]

theorem allocate_live (h : s.Told past) (hk : past.Holds k i) :
    s.call (.allocate k) = (.ok i, s) := by
  simp only [call, allocate, (h k i).2 hk]

theorem release_ok (h : s.Told past) : (s.call (.release k)).1 = .ok i ↔ past.Holds k i := by
  rw [← h k i]
  cases hk : s.index[k]? <;> simp [call, release, hk]

theorem release_error (h : s.Told past) {e : SlotError} :
    (s.call (.release k)).1 = .error e ↔ e = .notFound ∧ ¬ past.Live k := by
  rw [← h.index_eq_none_iff]
  cases hk : s.index[k]? <;> simp [call, release, hk, eq_comm]

theorem find_ok (h : s.Told past) : (s.call (.find k)).1 = .ok i ↔ past.Holds k i := by
  rw [← h k i]
  cases hk : s.index[k]? <;> simp [call, find?, hk]

theorem find_error (h : s.Told past) {e : SlotError} :
    (s.call (.find k)).1 = .error e ↔ e = .notFound ∧ ¬ past.Live k := by
  rw [← h.index_eq_none_iff]
  cases hk : s.index[k]? <;> simp [call, find?, hk, eq_comm]

theorem turn [LawfulBEq κ] (h : s.Told past) (hturn : s.Turn c a t) : t.Told ((c, a) :: past) := by
  intro k' i'
  cases hturn with
  | @again k i hk =>
    rw [History.holds_allocate, h k' i', or_iff_right_of_imp]
    rintro ⟨rfl, rfl⟩
    exact (h k i).1 hk
  | @given k i rest t hk hfree ha ht =>
    rw [History.holds_allocate, index_allocate ha k']
    by_cases hkk : k = k'
    · subst hkk
      have hnot : ¬ past.Holds k i' := by simp [← h k i', hk]
      simp [hnot]
    · simp [hkk, h k' i']
  | @released k i t hk hr ht =>
    rw [History.holds_cons, index_release hr k']
    by_cases hkk : k = k'
    · simp [hkk]
    · simp [hkk, h k' i']
  | @unknown k hk =>
    have hdead := h.index_eq_none_iff.1 hk
    have hkept (hk' : past.Holds k' i') : k ≠ k' := by
      rintro rfl
      exact hdead ⟨i', hk'⟩
    simpa [History.holds_cons, h k' i'] using hkept
  | _ => simp [History.holds_cons, h k' i']

end Told

/-- The free slots are those that wait to be given out again, and then those that no key ever had,
in order. -/
structure Stacked (n : Nat) (past : History κ) (s : Slots κ) (used : Nat) : Prop where
  free_eq : s.free = past.pending ++ List.range' used (n - used)
  used_le : used ≤ n
  pending_lt : ∀ i ∈ past.pending, i < used
  givenOut : ∀ i, past.GivenOut i ↔ i < used

theorem stacked_ofCapacity (n : Nat) : (ofCapacity n : Slots κ).Stacked n [] 0 where
  free_eq := by simp [ofCapacity, History.pending, List.range_eq_range']
  used_le := Nat.zero_le n
  pending_lt := nofun
  givenOut := by simp [History.GivenOut]

theorem Kept.lt_of_mem_free (hs : s.Kept) (hi : i ∈ s.free) : i < s.capacity :=
  (Array.getElem?_eq_some_iff.1 ((hs.mem_free_iff i).1 hi)).1

theorem Kept.free_eq_nil_iff (hs : s.Kept) : s.free = [] ↔ s.size = s.capacity := by
  have hadd := hs.size_add
  rw [← List.length_eq_zero_iff]
  omega

theorem Kept.not_mem_free (hs : s.Kept) (hk : s.index[k]? = some i) : i ∉ s.free := by
  rw [hs.mem_free_iff, (hs.index_iff k i).1 hk]
  simp

namespace Stacked

variable {used : Nat}

theorem quiet (h : s.Stacked n past used)
    (hpending : History.pending ((c, a) :: past) = past.pending)
    (hgiven : ∀ k i, c = .allocate k → a = .ok i → past.GivenOut i) :
    s.Stacked n ((c, a) :: past) used where
  free_eq := hpending ▸ h.free_eq
  used_le := h.used_le
  pending_lt := hpending ▸ h.pending_lt
  givenOut i := by
    rw [History.givenOut_cons, ← h.givenOut, or_iff_right_of_imp]
    rintro ⟨k, heq⟩
    cases heq
    exact hgiven k i rfl rfl

theorem turn [LawfulBEq κ] (h : s.Stacked n past used) (hs : s.Kept) (htold : s.Told past)
    (hturn : s.Turn c a t) : ∃ used', t.Stacked n ((c, a) :: past) used' := by
  have hstays {k : κ} {i : Nat} (hk : s.index[k]? = some i) :
      past.pending.filter (· ≠ i) = past.pending := by
    have hi := hs.not_mem_free hk
    rw [h.free_eq, List.mem_append, not_or] at hi
    simpa using fun j hj => ne_of_mem_of_not_mem hj hi.1
  have hheld {k : κ} {i : Nat} (hk : s.index[k]? = some i) : past.GivenOut i :=
    ((htold k i).1 hk).givenOut
  cases hturn with
  | @again k i hk =>
    refine ⟨used, h.quiet (hstays hk) ?_⟩
    rintro _ _ ⟨⟩ ⟨⟩
    exact hheld hk
  | @given k i rest t hk hfree ha ht =>
    have hnodup := hs.nodup_free
    rw [h.free_eq] at hfree hnodup
    cases hwait : past.pending with
    | nil =>
      -- no slot waits, so this is the lowest that no key ever had
      rw [hwait, List.nil_append, List.range'_eq_cons_iff] at hfree
      obtain ⟨rfl, hlt, hrest⟩ := hfree
      refine ⟨used + 1, ?_, by omega, ?_, fun j => ?_⟩
      · rw [ht, hrest, History.pending, hwait]
        simp [Nat.sub_sub]
      · simp [History.pending, hwait]
      · rw [History.givenOut_allocate, h.givenOut]
        omega
    | cons r waiting =>
      rw [hwait, List.cons_append] at hfree hnodup
      obtain ⟨rfl, hrest⟩ := List.cons.inj hfree
      have hlt := h.pending_lt
      rw [hwait, List.forall_mem_cons] at hlt
      have hpending : History.pending ((.allocate k, .ok r) :: past) = waiting := by
        have hr : r ∉ waiting :=
          fun hmem => (List.nodup_cons.1 hnodup).1 (List.mem_append_left _ hmem)
        rw [History.pending, hwait, List.filter_cons_of_neg (by simp), List.filter_eq_self]
        simpa using fun j hj => ne_of_mem_of_not_mem hj hr
      refine ⟨used, ?_, h.used_le, hpending ▸ hlt.2, fun j => ?_⟩
      · rw [ht, ← hrest, hpending]
      · rw [History.givenOut_allocate, h.givenOut, or_iff_right_of_imp]
        rintro rfl
        exact hlt.1
  | @released k i t hk hr ht =>
    refine ⟨used, ?_, h.used_le, ?_, ?_⟩
    · rw [ht, h.free_eq, History.pending, hstays hk, List.cons_append]
    · rw [History.pending, hstays hk, List.forall_mem_cons]
      exact ⟨(h.givenOut i).1 (hheld hk), h.pending_lt⟩
    · simp [History.givenOut_cons, h.givenOut]
  | _ => exact ⟨used, h.quiet rfl nofun⟩

theorem next_iff (h : s.Stacked n past used) : past.Next i n ↔ ∃ rest, s.free = i :: rest := by
  rw [h.free_eq]
  cases hwait : past.pending with
  | nil =>
    have hnone (j : Nat) (since : History κ) : ¬ past.FreedSince j since := by
      intro hfreed
      have hmem := History.mem_pending.2 ⟨since, hfreed⟩
      rw [hwait] at hmem
      cases hmem
    simp only [History.Next, History.LastFreed, hnone, h.givenOut, List.nil_append,
      List.range'_eq_cons_iff, false_and, exists_false, false_or, not_false_eq_true, implies_true,
      true_and, Nat.sub_pos_iff_lt]
    constructor
    · rintro ⟨hlt, hnew, hlow⟩
      have husd := h.used_le
      obtain rfl : used = i := by
        by_contra hne
        have := hlow used (by omega)
        omega
      exact ⟨_, rfl, hlt, rfl⟩
    · rintro ⟨_, rfl, hlt, -⟩
      exact ⟨hlt, Nat.lt_irrefl _, fun j hj => hj⟩
  | cons r waiting =>
    obtain ⟨since, hr⟩ := History.mem_pending.1 (hwait ▸ List.mem_cons_self : r ∈ past.pending)
    rw [History.Next, History.lastFreed_iff_of_pending hwait, or_iff_left fun h => h.1 r since hr]
    simp [eq_comm]

theorem allocate_new (h : s.Stacked n past used) (htold : s.Told past) (hk : ¬ past.Live k) :
    (s.call (.allocate k)).1 = .ok i ↔ past.Next i n := by
  rw [h.next_iff]
  cases hfree : s.free <;> simp [call, allocate, htold.index_eq_none_iff.2 hk, hfree]

end Stacked

variable [LawfulBEq κ]

theorem Turn.kept (hs : s.Kept) (h : s.Turn c a t) : t.Kept := by
  cases h with
  | given _ _ h _ => exact hs.allocate h
  | released _ h _ => exact hs.release h
  | _ => exact hs

structure Follows (n : Nat) (past : History κ) (s : Slots κ) : Prop where
  kept : s.Kept
  capacity : s.capacity = n
  told : s.Told past
  stacked : ∃ used, s.Stacked n past used

theorem follows_ofCapacity (n : Nat) : (ofCapacity n : Slots κ).Follows n [] where
  kept := kept_ofCapacity n
  capacity := by simp [ofCapacity, Slots.capacity]
  told k i := by simp [ofCapacity]
  stacked := ⟨0, stacked_ofCapacity n⟩

namespace Follows

theorem turn (h : s.Follows n past) (hturn : s.Turn c a t) : t.Follows n ((c, a) :: past) where
  kept := hturn.kept h.kept
  capacity := hturn.capacity.trans h.capacity
  told := h.told.turn hturn
  stacked := h.stacked.elim fun _ hstack => hstack.turn h.kept h.told hturn

theorem run (n : Nat) (calls : List (Call κ)) :
    (Calls.run call (ofCapacity n) calls).Follows n (Calls.history call (ofCapacity n) calls) :=
  Calls.history_induction (follows_ofCapacity n) (fun _ _ c h => h.turn (turn_call _ c)) calls

theorem encard_live (h : s.Follows n past) : {k | past.Live k}.encard = s.size := by
  rw [← h.kept.length_toList, ← List.length_map]
  refine encard_eq_length h.kept.nodup_keys fun k => ?_
  rw [h.kept.mem_keys_iff, Option.isSome_iff_exists]
  exact exists_congr (h.told k)

theorem allocate_error (h : s.Follows n past) {e : SlotError} :
    (s.call (.allocate k)).1 = .error e ↔
    e = .full ∧ ¬ past.Live k ∧ {k | past.Live k}.encard = n := by
  have hfull : {k | past.Live k}.encard = n ↔ s.free = [] := by
    rw [h.encard_live, Nat.cast_inj, h.kept.free_eq_nil_iff, h.capacity]
  rw [← h.told.index_eq_none_iff, hfull, ← allocate_eq_error_iff]
  cases ha : s.allocate k <;> simp [call, ha]

theorem managed (h : s.Follows n past) : Managed n past s where
  kept := h.kept
  capacity := h.capacity
  find_iff _ _ := h.told.find_ok
  lt k i hk := h.capacity ▸ h.kept.lt_capacity ((h.told k i).2 hk)
  injective k k' i hk hk' := h.kept.eq_of_index ((h.told k i).2 hk) ((h.told k' i).2 hk')
  size := h.encard_live
  allocate_live _ _ := h.told.allocate_live
  allocate_new _ _ hk := h.stacked.elim fun _ hstack => hstack.allocate_new h.told hk
  allocate_error _ _ := h.allocate_error
  release_iff _ _ := h.told.release_ok
  release_error _ _ := h.told.release_error
  find_error _ _ := h.told.find_error
  failed c _ he := (he ▸ turn_call s c).eq_of_error
  index_lt _ _ := h.kept.lt_capacity
  free_lt _ := h.kept.lt_of_mem_free

end Follows

/-- A table of any capacity is and does after any calls what the calls and their answers say. -/
theorem managed_run (n : Nat) (calls : List (Call κ)) :
    Managed n (Calls.history call (ofCapacity n) calls) (Calls.run call (ofCapacity n) calls) :=
  (Follows.run n calls).managed

/-- Of three slots the second is given back and goes to the next new key. -/
theorem managed_after_release :
    Managed 3
      (Calls.history call (ofCapacity 3) [.allocate 10, .allocate 11, .allocate 12, .release 11])
        (Calls.run call (ofCapacity 3 : Slots Nat)
        [.allocate 10, .allocate 11, .allocate 12, .release 11]) ∧
    ((Calls.run call (ofCapacity 3 : Slots Nat)
      [.allocate 10, .allocate 11, .allocate 12, .release 11]).call (.allocate 13)).1 = .ok 1 := by
  refine ⟨managed_run 3 _, ?_⟩
  have hfree : List.range 3 = [0, 1, 2] := rfl
  simp [Calls.run, call, allocate, release, ofCapacity, hfree, Std.HashMap.getElem_insert]

end Meshwork.Slots
