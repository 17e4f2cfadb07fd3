import Meshwork.Slots

/-!
# Slots stay sound

Allocation and release keep the index, the slots and the free list in step with each other, and
every slot is either free or in use. The index is the view: what it says after an operation is said
by `index_allocate` and `index_release`.
-/

namespace Meshwork.Slots

variable {κ : Type} [BEq κ] [Hashable κ] {s t : Slots κ} {k : κ} {i : Nat}

/-- The index, the slots and the free list agree, and no slot is lost: each is free or has a key. -/
structure Kept (s : Slots κ) : Prop extends Sound s where
  size_add : s.size + s.free.length = s.capacity

theorem allocate_cases (h : s.allocate k = .ok (i, t)) :
    (s.index[k]? = some i ∧ t = s) ∨
      (s.index[k]? = none ∧ ∃ rest, s.free = i :: rest ∧
        t = { keys := s.keys.setIfInBounds i (some k), free := rest,
              index := s.index.insert k i }) := by
  unfold allocate at h
  split at h
  · rename_i j hj
    cases h
    exact .inl ⟨hj, rfl⟩
  · rename_i hnone
    split at h
    · cases h
    · rename_i j rest hfree
      cases h
      exact .inr ⟨hnone, rest, hfree, rfl⟩

theorem release_cases (h : s.release k = .ok (i, t)) :
    s.index[k]? = some i ∧
      t =
        { keys := s.keys.setIfInBounds i none, free := i :: s.free, index := s.index.erase k } := by
  unfold release at h
  split at h
  · cases h
  · rename_i j hj
    cases h
    exact ⟨hj, rfl⟩

theorem release_of_index (h : s.index[k]? = some i) : ∃ t, s.release k = .ok (i, t) := by
  simp only [release, h]
  exact ⟨_, rfl⟩

theorem capacity_allocate (h : s.allocate k = .ok (i, t)) : t.capacity = s.capacity := by
  obtain ⟨-, rfl⟩ | ⟨-, rest, -, rfl⟩ := allocate_cases h
  · rfl
  · simp [capacity]

theorem capacity_release (h : s.release k = .ok (i, t)) : t.capacity = s.capacity := by
  obtain ⟨-, rfl⟩ := release_cases h
  simp [capacity]

theorem size_allocate_le [EquivBEq κ] [LawfulHashable κ] (h : s.allocate k = .ok (i, t)) :
    t.size ≤ s.size + 1 := by
  obtain ⟨-, rfl⟩ | ⟨-, rest, -, rfl⟩ := allocate_cases h
  · exact Nat.le_succ _
  · exact Std.HashMap.size_insert_le

theorem size_allocate [EquivBEq κ] [LawfulHashable κ] (hnone : s.index[k]? = none)
    (h : s.allocate k = .ok (i, t)) : t.size = s.size + 1 := by
  obtain ⟨hsome, -⟩ | ⟨-, rest, -, rfl⟩ := allocate_cases h
  · rw [hnone] at hsome
    cases hsome
  · have hmem : k ∉ s.index := by
      rw [← Std.HashMap.isSome_getElem?_iff_mem, hnone]
      exact Bool.false_ne_true
    simp [size, Std.HashMap.size_insert, hmem]

theorem kept_ofCapacity (n : Nat) : (ofCapacity n : Slots κ).Kept where
  index_iff k i := by
    have hk : (Array.replicate n (none : Option κ))[i]? ≠ some (some k) := by
      simp [Array.getElem?_replicate]
    simp [ofCapacity, hk]
  mem_free_iff i := by
    simp [ofCapacity, Array.getElem?_replicate]
  nodup_free := List.nodup_range
  size_add := by simp [ofCapacity, size, capacity]

namespace Kept

theorem lt_capacity (hs : s.Kept) (h : s.index[k]? = some i) : i < s.capacity := by
  have hk := (hs.index_iff k i).1 h
  exact (Array.getElem?_eq_some_iff.1 hk).1

theorem eq_of_index (hs : s.Kept) {k' : κ} (h : s.index[k]? = some i) (h' : s.index[k']? = some i) :
    k = k' := by
  have hk := (hs.index_iff k i).1 h
  have hk' := (hs.index_iff k' i).1 h'
  simpa using hk.symm.trans hk'

theorem lt_of_free (hs : s.Kept) {rest : List Nat} (h : s.free = i :: rest) : i < s.capacity := by
  have hi := (hs.mem_free_iff i).1 (by simp [h])
  exact (Array.getElem?_eq_some_iff.1 hi).1

theorem index_ne_of_free (hs : s.Kept) {rest : List Nat} (h : s.free = i :: rest) (k : κ) :
    s.index[k]? ≠ some i := by
  intro hk
  have hfree := (hs.mem_free_iff i).1 (by simp [h])
  rw [(hs.index_iff k i).1 hk] at hfree
  cases hfree

theorem exists_allocate (hs : s.Kept) (h : s.size < s.capacity) (k : κ) :
    ∃ i t, s.allocate k = .ok (i, t) := by
  unfold allocate
  split
  · exact ⟨_, _, rfl⟩
  · cases hfree : s.free with
    | nil =>
      have hadd := hs.size_add
      simp [hfree] at hadd
      omega
    | cons i rest => exact ⟨_, _, rfl⟩

variable [LawfulBEq κ]

theorem allocate (hs : s.Kept) (h : s.allocate k = .ok (i, t)) : t.Kept := by
  obtain ⟨-, rfl⟩ | ⟨hnone, rest, hfree, rfl⟩ := allocate_cases h
  · exact hs
  have hi : i < s.keys.size := hs.lt_of_free hfree
  have hnd : i ∉ rest ∧ rest.Nodup := List.nodup_cons.1 (hfree ▸ hs.nodup_free)
  refine { index_iff := ?_, mem_free_iff := ?_, nodup_free := hnd.2, size_add := ?_ }
  · intro k' j
    simp only [Std.HashMap.getElem?_insert, beq_iff_eq, Array.getElem?_setIfInBounds]
    by_cases hk : k = k'
    · subst hk
      have hkj : s.keys[j]? ≠ some (some k) := by
        rw [ne_eq, ← hs.index_iff, hnone]
        simp
      by_cases hij : i = j
      · simp [hij, hij ▸ hi]
      · simp [hij, hkj]
    · by_cases hij : i = j
      · subst hij
        have hfr := hs.index_ne_of_free hfree k'
        simp [hk, hi, hfr]
      · simp [hk, hij, hs.index_iff k' j]
  · intro j
    have hj := hs.mem_free_iff j
    rw [hfree, List.mem_cons] at hj
    simp only [Array.getElem?_setIfInBounds]
    by_cases hij : i = j
    · subst hij
      simp [hi, hnd.1]
    · have hji : j ≠ i := fun h => hij h.symm
      simp only [hij, if_false]
      exact (or_iff_right hji).symm.trans hj
  · have hadd := hs.size_add
    have hnk : k ∉ s.index := by rw [Std.HashMap.mem_iff_isSome_getElem?, hnone]; simp
    simp only [size, capacity, hfree, List.length_cons, Std.HashMap.size_insert, hnk,
      if_false, Array.size_setIfInBounds] at hadd ⊢
    omega

theorem release (hs : s.Kept) (h : s.release k = .ok (i, t)) : t.Kept := by
  obtain ⟨hk, rfl⟩ := release_cases h
  have hi : i < s.keys.size := hs.lt_capacity hk
  have hslot := (hs.index_iff k i).1 hk
  have hnotfree : i ∉ s.free := by simp [hs.mem_free_iff, hslot]
  refine { index_iff := ?_, mem_free_iff := ?_, nodup_free := ?_, size_add := ?_ }
  · intro k' j
    simp only [Std.HashMap.getElem?_erase, beq_iff_eq, Array.getElem?_setIfInBounds]
    by_cases hkk : k = k'
    · subst hkk
      by_cases hij : i = j
      · simp [hij, hij ▸ hi]
      · have hkj : s.keys[j]? ≠ some (some k) := by
          rw [ne_eq, ← hs.index_iff, hk]
          simpa using hij
        simp [hij, hkj]
    · by_cases hij : i = j
      · subst hij
        have hki : s.index[k']? ≠ some i := fun h' => hkk (hs.eq_of_index hk h')
        simp [hkk, hi, hki]
      · simp [hkk, hij, hs.index_iff k' j]
  · intro j
    simp only [Array.getElem?_setIfInBounds, List.mem_cons]
    by_cases hij : i = j
    · simp [hij, hij ▸ hi]
    · have hji : j ≠ i := fun h => hij h.symm
      simp [hij, hji, hs.mem_free_iff j]
  · exact List.nodup_cons.2 ⟨hnotfree, hs.nodup_free⟩
  · have hadd := hs.size_add
    have hmem : k ∈ s.index := by rw [Std.HashMap.mem_iff_isSome_getElem?, hk]; rfl
    have hpos : 0 < s.index.size := by
      have hne : s.index.isEmpty = false := Std.HashMap.isEmpty_eq_false_iff_exists_mem.2 ⟨k, hmem⟩
      simpa [Std.HashMap.isEmpty_eq_size_eq_zero, Nat.pos_iff_ne_zero] using hne
    simp only [size, capacity, List.length_cons, Std.HashMap.size_erase, hmem, if_true,
      Array.size_setIfInBounds] at hadd ⊢
    omega

end Kept

theorem toList_map_snd (s : Slots κ) : s.toList.map (·.2) = s.keys.toList.filterMap id := by
  have hfst : s.keys.toList = s.keys.toList.zipIdx.map Prod.fst := (List.zipIdx_map_fst ..).symm
  rw [toList, List.map_filterMap]
  conv => rhs; rw [hfst, List.filterMap_map]
  congr 1
  funext p
  cases h : p.1 <;> simp [h]

namespace Kept

theorem nodup_keys (hs : s.Kept) : (s.toList.map (·.2)).Nodup := by
  rw [toList_map_snd, List.Nodup, List.pairwise_filterMap, List.pairwise_iff_getElem]
  intro i j hi hj hij a ha b hb heq
  have hki : s.index[a]? = some i := (hs.index_iff a i).2 (by simp [← ha])
  have hkj : s.index[b]? = some j := (hs.index_iff b j).2 (by simp [← hb])
  rw [heq, hkj] at hki
  simp only [Option.some.injEq] at hki
  omega

theorem mem_keys_iff (hs : s.Kept) : k ∈ s.toList.map (·.2) ↔ (s.index[k]?).isSome := by
  simp only [toList_map_snd, List.mem_filterMap, id_eq, exists_eq_right, Array.mem_toList_iff,
    Array.mem_iff_getElem?, Option.isSome_iff_exists, hs.index_iff]

theorem length_toList [LawfulBEq κ] (hs : s.Kept) : s.toList.length = s.size := by
  have hmem (k : κ) : k ∈ s.toList.map (·.2) ↔ k ∈ s.index.keys := by
    rw [hs.mem_keys_iff, Std.HashMap.mem_keys, Std.HashMap.mem_iff_isSome_getElem?]
  have hperm := (List.perm_ext_iff_of_nodup hs.nodup_keys Std.HashMap.nodup_keys).2 hmem
  simpa [size] using hperm.length_eq

end Kept

variable [LawfulBEq κ]

theorem index_allocate (h : s.allocate k = .ok (i, t)) (k' : κ) :
    t.index[k']? = if k == k' then some i else s.index[k']? := by
  obtain ⟨hk, rfl⟩ | ⟨-, rest, -, rfl⟩ := allocate_cases h
  · by_cases hkk : k = k'
    · simp [← hkk, hk]
    · simp [hkk]
  · exact Std.HashMap.getElem?_insert

theorem index_release (h : s.release k = .ok (i, t)) (k' : κ) :
    t.index[k']? = if k == k' then none else s.index[k']? := by
  obtain ⟨-, rfl⟩ := release_cases h
  exact Std.HashMap.getElem?_erase

end Meshwork.Slots
