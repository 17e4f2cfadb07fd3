import Meshwork.Interests

/-!
# What is new to a node

The calls of a node and the requests that they lead to: `Interests.novel` gives one request for each
name that was new when it was called for, in the order of the calls. Main statement:
`perm_requests_after`, that what is remembered after some calls is what was remembered before and
what was new.
-/

namespace Meshwork

def Command.topic? : Command → Option (Keyword × String)
  | .subscribe name => some (.sub, name)
  | .publish name _ => some (.pub, name)
  | _ => none

namespace Interests

variable {i : Interests} {self : NodeId} {c d : Command} {name : String} {handle : Handle}

structure Distinct (i : Interests) : Prop where
  wanted : i.wanted.Nodup
  offered : (i.offered.map (·.1)).Nodup

/-- The request that a call leads to: none if the name cannot travel or is remembered already. A
handle is passed on with the own node. -/
def news? (i : Interests) (self : NodeId) : Command → Option Command
  | .subscribe name => if ValidName name ∧ ¬ i.Wants name then some (.subscribe name) else none
  | .publish name handle =>
    if ValidName name ∧ i.offered? name = none then some (.publish name (handle.withNode self))
      else none
  | _ => none

def remember (i : Interests) : Command → Interests
  | .subscribe name => i.want name
  | .publish name handle => i.offer name handle
  | _ => i

def novel (self : NodeId) : Interests → List Command → List Command
  | _, [] => []
  | i, c :: rest =>
    match i.news? self c with
    | some c => c :: novel self (i.remember c) rest
    | none => novel self i rest

def after (self : NodeId) (i : Interests) (calls : List Command) : Interests :=
  (novel self i calls).foldl remember i

theorem offered?_eq_none_iff : i.offered? name = none ↔ name ∉ i.offered.map (·.1) := by
  simp only [offered?, List.lookup_eq_none_iff, List.mem_map, not_exists, not_and, bne_iff_ne]
  exact ⟨fun h p hp heq => h p hp heq.symm, fun h p hp heq => h p hp heq.symm⟩

theorem news?_cases (h : i.news? self c = some d) :
    (∃ name, c = .subscribe name ∧ d = .subscribe name ∧ ValidName name ∧ ¬ i.Wants name) ∨
      ∃ name handle, c = .publish name handle ∧ d = .publish name (handle.withNode self) ∧
        ValidName name ∧ i.offered? name = none := by
  unfold news? at h
  split at h
  · rename_i name
    split at h
    · rename_i hnew
      cases h
      exact .inl ⟨name, rfl, rfl, hnew⟩
    · cases h
  · rename_i name handle
    split at h
    · rename_i hnew
      cases h
      exact .inr ⟨name, handle, rfl, rfl, hnew⟩
    · cases h
  · cases h

theorem remember_subscribe (hw : ¬ i.Wants name) :
    i.remember (.subscribe name) = { i with wanted := i.wanted ++ [name] } := by
  rw [remember, want, if_neg hw]

theorem remember_publish (ho : i.offered? name = none) :
    i.remember (.publish name handle) = { i with offered := i.offered ++ [(name, handle)] } := by
  rw [remember, offer, ho]
  rfl

theorem perm_requests_remember (h : i.news? self c = some d) :
    (i.remember d).requests.Perm (i.requests ++ [d]) := by
  obtain ⟨name, -, rfl, -, hw⟩ | ⟨name, handle, -, rfl, -, ho⟩ := news?_cases h
  · simp only [remember_subscribe hw, requests, List.map_append, List.map_singleton,
      List.append_assoc]
    exact List.perm_append_comm.append_left _
  · simp only [remember_publish ho, requests, List.map_append, List.map_singleton,
      List.append_assoc]
    exact .refl _

theorem Distinct.remember (hi : i.Distinct) (h : i.news? self c = some d) :
    (i.remember d).Distinct := by
  obtain ⟨name, -, rfl, -, hw⟩ | ⟨name, handle, -, rfl, -, ho⟩ := news?_cases h
  · rw [remember_subscribe hw]
    refine ⟨List.nodup_append.2 ⟨hi.wanted, by simp, ?_⟩, hi.offered⟩
    rintro x hx y hy rfl
    rw [List.mem_singleton] at hy
    exact hw (hy ▸ hx)
  · rw [remember_publish ho]
    refine ⟨hi.wanted, ?_⟩
    rw [List.map_append, List.map_singleton]
    refine List.nodup_append.2 ⟨hi.offered, by simp, ?_⟩
    rintro x hx y hy rfl
    rw [List.mem_singleton] at hy
    subst hy
    exact offered?_eq_none_iff.1 ho hx

theorem Distinct.nodup_topics (hi : i.Distinct) : (i.requests.map Command.topic?).Nodup := by
  have hoffered := hi.offered
  simp only [requests, List.map_append, List.map_map, List.nodup_append]
  refine ⟨?_, ?_, ?_⟩
  · rw [List.Nodup, List.pairwise_map]
    exact hi.wanted.imp fun hne heq => hne (by simpa [Command.topic?] using heq)
  · rw [List.Nodup, List.pairwise_map] at hoffered ⊢
    exact hoffered.imp fun hne heq => hne (by simpa [Command.topic?] using heq)
  · intro x hx y hy heq
    obtain ⟨name, -, rfl⟩ := List.mem_map.1 hx
    obtain ⟨p, -, rfl⟩ := List.mem_map.1 hy
    simp [Command.topic?] at heq

theorem after_cons (i : Interests) (self : NodeId) (c : Command) (rest : List Command) :
    i.after self (c :: rest) =
      match i.news? self c with
      | some d => (i.remember d).after self rest
      | none => i.after self rest := by
  simp only [after, novel]
  cases i.news? self c <;> rfl

theorem novel_append (i : Interests) (self : NodeId) (calls more : List Command) :
    novel self i (calls ++ more) = novel self i calls ++ novel self (i.after self calls) more := by
  induction calls generalizing i with
  | nil => rfl
  | cons c rest ih =>
    rw [List.cons_append, novel, novel, after_cons]
    cases i.news? self c with
    | none => exact ih i
    | some d => simp only [ih, List.cons_append]

theorem after_append (i : Interests) (self : NodeId) (calls more : List Command) :
    i.after self (calls ++ more) = (i.after self calls).after self more := by
  rw [after, novel_append, List.foldl_append]
  rfl

/-- What is remembered after some calls is what was remembered before and what was new. -/
theorem perm_requests_after (i : Interests) (self : NodeId) (calls : List Command) :
    (i.after self calls).requests.Perm (i.requests ++ novel self i calls) := by
  induction calls generalizing i with
  | nil => simp [after, novel]
  | cons c rest ih =>
    rw [after_cons, novel]
    cases hd : i.news? self c with
    | none => exact ih i
    | some d =>
      refine (ih (i.remember d)).trans ?_
      have hremember := (perm_requests_remember hd).append_right (novel self (i.remember d) rest)
      simpa using hremember

theorem Distinct.after (hi : i.Distinct) (self : NodeId) (calls : List Command) :
    (i.after self calls).Distinct := by
  induction calls generalizing i with
  | nil => exact hi
  | cons c rest ih =>
    rw [after_cons]
    cases hd : i.news? self c with
    | none => exact ih hi
    | some d => exact ih (hi.remember hd)

end Interests

end Meshwork
