import Meshwork.Fault
import Meshwork.Proofs.Interests

/-!
# Calls to publish

Main statements: `Interests.exists_firstOf_of_mem`, all calls to publish a name are answered with
the handle of the first one, and `Interests.exists_firstOf_of_offered?`, this is what the name is
offered with.
-/

namespace Meshwork

structure Publication where
  name : String
  handle : Handle
  answer : Except Fault (Option Handle)

namespace Interests

variable {i : Interests} {self : NodeId} {c : Command} {calls : List Command} {name : String}
  {handle : Handle}

def answer (i : Interests) (self : NodeId) (name : String) (handle : Handle) :
    Except Fault (Option Handle) :=
  if ValidName name then .ok (some ((i.offered? name).getD (handle.withNode self)))
    else .error (.invalidName name)

def publications (self : NodeId) : Interests → List Command → List Publication
  | _, [] => []
  | i, .publish name handle :: rest =>
    ⟨name, handle, i.answer self name handle⟩ ::
      publications self (i.after self [.publish name handle]) rest
  | i, c :: rest => publications self (i.after self [c]) rest

def firstOf (name : String) (ps : List Publication) : Option Publication := ps.find? (·.name = name)

theorem offered?_remember_publish (ho : i.offered? name = none) (name' : String) :
    (i.remember (.publish name handle)).offered? name' = if name' = name then some handle
      else i.offered? name' := by
  rw [remember_publish ho, offered?, List.lookup_append, List.lookup_cons]
  by_cases hname : name' = name
  · subst hname
    rw [offered?] at ho
    simp [ho]
  · have hne : (name' == name) = false := by simpa using hname
    simp [hname, hne, offered?]

theorem offered?_after_publish (i : Interests) (self : NodeId) (name : String) (handle : Handle)
    (name' : String) : (i.after self [.publish name handle]).offered? name' =
      if name' = name ∧ ValidName name then some ((i.offered? name).getD (handle.withNode self))
      else i.offered? name' := by
  have hold (h : ¬ (ValidName name ∧ i.offered? name = none)) :
      i.after self [.publish name handle] = i := by
    rw [after_cons, news?, if_neg h]
    rfl
  by_cases hv : ValidName name
  · cases ho : i.offered? name with
    | none =>
      have hnew : i.after self [.publish name handle] =
          i.remember (.publish name (handle.withNode self)) := by
        rw [after_cons, news?, if_pos ⟨hv, ho⟩]
        rfl
      rw [hnew, offered?_remember_publish ho]
      simp [hv]
    | some first =>
      rw [hold (by simp [ho])]
      by_cases hname : name' = name
      · simp [hname, hv, ho]
      · simp [hname]
  · rw [hold fun h => hv h.1]
    simp [hv]

theorem offered?_after_of_ne (hc : ∀ name handle, c ≠ .publish name handle) (name : String) :
    (i.after self [c]).offered? name = i.offered? name := by
  rw [after_cons]
  cases hnews : i.news? self c with
  | none => rfl
  | some d =>
    obtain ⟨name, rfl, rfl, -, hw⟩ | ⟨name, handle, rfl, -⟩ := news?_cases hnews
    · simp only [remember_subscribe hw]
      rfl
    · exact absurd rfl (hc name handle)

theorem offered?_of_news? (h : i.news? self c = some (.publish name handle)) :
    (i.after self [c]).offered? name = some handle := by
  obtain ⟨_, -, heq, -⟩ | ⟨_, handle', rfl, heq, hv, ho⟩ := news?_cases h
  · cases heq
  · cases heq
    simp [offered?_after_publish, hv, ho]

theorem publish_or_ne (c : Command) :
    (∃ name handle, c = .publish name handle) ∨ ∀ name handle, c ≠ .publish name handle := by
  cases c with
  | publish name handle => exact .inl ⟨name, handle, rfl⟩
  | _ => exact .inr nofun

theorem after_cons' (i : Interests) (self : NodeId) (c : Command) (rest : List Command) :
    i.after self (c :: rest) = (i.after self [c]).after self rest :=
  after_append i self [c] rest

theorem publications_of_ne (hc : ∀ name handle, c ≠ .publish name handle) (rest : List Command) :
    publications self i (c :: rest) = publications self (i.after self [c]) rest := by
  cases c with
  | publish name handle => exact absurd rfl (hc name handle)
  | _ => rfl

theorem publications_append (i : Interests) (self : NodeId) (calls more : List Command) :
    publications self i (calls ++ more) =
      publications self i calls ++ publications self (i.after self calls) more := by
  induction calls generalizing i with
  | nil => rfl
  | cons c rest ih =>
    rw [List.cons_append, after_cons']
    obtain ⟨name, handle, rfl⟩ | hne := publish_or_ne c
    · rw [publications, publications, ih, List.cons_append]
    · rw [publications_of_ne hne, publications_of_ne hne, ih]

theorem offered?_after_of_some (self : NodeId) (calls : List Command)
    (h : i.offered? name = some handle) : (i.after self calls).offered? name = some handle := by
  induction calls generalizing i with
  | nil => exact h
  | cons c rest ih =>
    rw [after_cons']
    refine ih ?_
    obtain ⟨name', handle', rfl⟩ | hne := publish_or_ne c
    · rw [offered?_after_publish]
      by_cases hname : name = name'
      · subst hname
        simp [h]
      · simp [hname, h]
    · rw [offered?_after_of_ne hne, h]

/-- What a name is offered with after some calls: what it was offered with before, or else the
handle of the first publication. -/
theorem offered?_after (i : Interests) (self : NodeId) (calls : List Command) (name : String) :
    (i.after self calls).offered? name = (i.offered? name).or
      (if ValidName name then (firstOf name (publications self i calls)).map
        (·.handle.withNode self) else none) := by
  induction calls generalizing i with
  | nil => simp [after, novel, publications, firstOf]
  | cons c rest ih =>
    rw [after_cons', ih]
    obtain ⟨name', handle, rfl⟩ | hne := publish_or_ne c
    · rw [offered?_after_publish, publications, firstOf, firstOf, List.find?_cons]
      by_cases hname : name = name'
      · subst hname
        by_cases hv : ValidName name
        · cases ho : i.offered? name <;> simp [hv]
        · simp [hv]
      · simp [hname, Ne.symm hname]
    · rw [offered?_after_of_ne hne, publications_of_ne hne]

theorem answer_of_mem {p : Publication} (hp : p ∈ publications self i calls) :
    p.answer = (i.after self calls).answer self p.name p.handle := by
  induction calls generalizing i with
  | nil => cases hp
  | cons c rest ih =>
    rw [after_cons']
    obtain ⟨name, handle, rfl⟩ | hne := publish_or_ne c
    · obtain rfl | hrest := List.mem_cons.1 hp
      · by_cases hv : ValidName name
        · have hoffered : (i.after self [.publish name handle]).offered? name =
              some ((i.offered? name).getD (handle.withNode self)) := by
            rw [offered?_after_publish, if_pos ⟨rfl, hv⟩]
          simp [answer, hv, offered?_after_of_some self rest hoffered]
        · simp [answer, hv]
      · exact ih hrest
    · rw [publications_of_ne hne] at hp
      exact ih hp

theorem exists_firstOf_of_offered?
    (h : (({} : Interests).after self calls).offered? name = some handle) :
    ∃ first, firstOf name (publications self {} calls) = some first ∧
      handle = first.handle.withNode self := by
  rw [offered?_after] at h
  have hnone : ({} : Interests).offered? name = none := rfl
  rw [hnone, Option.none_or] at h
  split at h
  · obtain ⟨first, hfirst, rfl⟩ := Option.map_eq_some_iff.1 h
    exact ⟨first, hfirst, rfl⟩
  · cases h

/-- So all publications of a name are answered with this handle. -/
theorem exists_firstOf_of_mem {p : Publication} (hp : p ∈ publications self {} calls)
    (hv : ValidName p.name) :
    ∃ first, firstOf p.name (publications self {} calls) = some first ∧
      p.answer = .ok (some (first.handle.withNode self)) := by
  obtain ⟨first, hfirst⟩ : ∃ first, firstOf p.name (publications self {} calls) = some first := by
    rw [← Option.isSome_iff_exists, firstOf, List.find?_isSome]
    exact ⟨p, hp, by simp⟩
  refine ⟨first, hfirst, ?_⟩
  rw [answer_of_mem hp, answer, if_pos hv, offered?_after, if_pos hv, hfirst]
  rfl

end Interests

end Meshwork
