import Mathlib.Data.List.Induction
import Meshwork.Registry

/-!
# What subscribers are told

A subscriber learns of publishers in two ways: from the answer to its request, and from each
publication that comes later. Main statement: `informs_of_calls`, after any calls every subscriber
has been told every handle of its name since it was last entered, and without removals nobody is
told anything else.
-/

namespace Meshwork

namespace Listing

variable {α : Type} {lists : Listing α} {name : String} {a b : α}

structure Neat (lists : Listing α) : Prop where
  names : (lists.map (·.1)).Nodup
  entries : ∀ entry ∈ lists, entry.2 ≠ [] ∧ entry.2.Nodup

theorem under_of_not_mem (h : name ∉ lists.map (·.1)) : lists.under name = [] := by
  induction lists with
  | nil => rfl
  | cons entry rest ih =>
    simp only [List.map_cons, List.mem_cons, not_or] at h
    rw [under, if_neg fun heq => h.1 heq.symm, ih h.2]

theorem under_enter [DecidableEq α] (lists : Listing α) (name : String) (a : α) (name' : String) :
    (lists.enter name a).under name' =
      if name' = name then if a ∈ lists.under name then lists.under name
        else lists.under name ++ [a]
      else lists.under name' := by
  induction lists with
  | nil =>
    by_cases h : name' = name
    · simp [enter, under, h]
    · simp [enter, under, h, Ne.symm h]
  | cons entry rest ih =>
    rw [enter]
    by_cases hkey : entry.1 = name
    · by_cases h : name' = name <;> grind [under]
    · by_cases h : name' = name <;> grind [under]

theorem mem_under_enter [DecidableEq α] {name' : String} :
    b ∈ (lists.enter name a).under name' ↔ b ∈ lists.under name' ∨ name' = name ∧ b = a := by
  rw [under_enter]
  by_cases h : name' = name
  · subst h
    by_cases ha : a ∈ lists.under name' <;> simp [ha]
    rintro rfl
    exact ha
  · simp [h]

theorem names_enter [DecidableEq α] (lists : Listing α) (name : String) (a : α) :
    (lists.enter name a).map (·.1) =
      if name ∈ lists.map (·.1) then lists.map (·.1) else lists.map (·.1) ++ [name] := by
  induction lists with
  | nil => rfl
  | cons entry rest ih =>
    rw [enter]
    by_cases hkey : entry.1 = name
    · simp [hkey]
    · by_cases hrest : name ∈ rest.map (·.1) <;> simp_all [Ne.symm hkey]

theorem names_keep (lists : Listing α) (p : α → Bool) :
    ((lists.keep p).map (·.1)).Sublist (lists.map (·.1)) := by
  have hsub :
      ((lists.keep p).map (·.1)).Sublist ((lists.map fun x => (x.1, x.2.filter p)).map (·.1)) :=
    List.filter_sublist.map _
  simpa only [List.map_map, Function.comp_def] using hsub

theorem under_keep (h : (lists.map (·.1)).Nodup) (p : α → Bool) (name : String) :
    (lists.keep p).under name = (lists.under name).filter p := by
  induction lists with
  | nil => rfl
  | cons entry rest ih =>
    obtain ⟨key, list⟩ := entry
    simp only [List.map_cons, List.nodup_cons] at h
    have ih := ih h.2
    have hkeep : Listing.keep ((key, list) :: rest) p =
        if list.filter p = [] then Listing.keep rest p
        else (key, list.filter p) :: Listing.keep rest p := by
      by_cases hempty : list.filter p = [] <;> simp [keep, hempty]
    rw [hkeep]
    by_cases hkey : key = name
    · subst hkey
      rw [under_of_not_mem h.1] at ih
      by_cases hempty : list.filter p = [] <;> simp [under, hempty, ih]
    · by_cases hempty : list.filter p = [] <;> simp [under, hempty, hkey, ih]

namespace Neat

theorem enter [DecidableEq α] (h : lists.Neat) (name : String) (a : α) :
    (lists.enter name a).Neat := by
  refine ⟨?_, ?_⟩
  · rw [names_enter]
    split
    · exact h.names
    · rename_i hnew
      refine List.nodup_append.2 ⟨h.names, by simp, ?_⟩
      rintro x hx y hy rfl
      exact hnew (List.mem_singleton.1 hy ▸ hx)
  · have hentries := h.entries
    clear h
    induction lists with
    | nil => simp [Listing.enter]
    | cons entry rest ih =>
      rw [List.forall_mem_cons] at hentries
      rw [Listing.enter]
      split
      · refine List.forall_mem_cons.2 ⟨?_, hentries.2⟩
        split
        · exact hentries.1
        · rename_i hnew
          refine ⟨by simp, List.nodup_append.2 ⟨hentries.1.2, by simp, ?_⟩⟩
          rintro x hx y hy rfl
          exact hnew (List.mem_singleton.1 hy ▸ hx)
      · exact List.forall_mem_cons.2 ⟨hentries.1, ih hentries.2⟩

theorem keep (h : lists.Neat) (p : α → Bool) : (lists.keep p).Neat := by
  refine ⟨(names_keep lists p).nodup h.names, fun entry hmem => ?_⟩
  obtain ⟨hmem, hne⟩ := List.mem_filter.1 hmem
  obtain ⟨old, hold, rfl⟩ := List.mem_map.1 hmem
  exact ⟨by simpa using hne, (h.entries old hold).2.filter p⟩

end Neat

end Listing

def RegistryEffect.Tells (node : NodeId) (name : String) (handle : Handle) (e : RegistryEffect) :
    Prop :=
  e = .send node (.handle name handle) ∨ ∃ handles, handle ∈ handles ∧
    e = .send node (.handles name handles)

namespace Registry

inductive Call where
  | request (source : NodeId) (command : Command)
  | forget (id : NodeId)

def call (r : Registry) : Call → Registry × List RegistryEffect
  | .request source c => r.request source c
  | .forget id => (r.forget id, [])

def run (r : Registry) (calls : List Call) : Registry := calls.foldl (fun r c => (r.call c).1) r

def answers : Registry → List Call → List RegistryEffect
  | _, [] => []
  | r, c :: rest => (r.call c).2 ++ answers (r.call c).1 rest

/-- The call that last entered a node in the list of a name, with the calls before it and since. -/
structure Entered (calls : List Call) (name : String) (id : NodeId)
    (before since : List Call) : Prop where
  calls_eq : calls = before ++ .request id (.subscribe name) :: since
  absent : id ∉ (run {} before).subscribersOf name
  present : ∀ part, part <+: since →
    id ∈ (run {} (before ++ .request id (.subscribe name) :: part)).subscribersOf name

structure Neat (r : Registry) : Prop where
  publishers : r.publishers.Neat
  subscribers : r.subscribers.Neat

variable {r : Registry} {c : Call} {calls before since : List Call} {name : String} {id : NodeId}
  {handle : Handle}

theorem tells_tell {node : NodeId} {key : String} {handles : List Handle} :
    RegistryEffect.Tells id name handle (.send node (tell key handles)) ↔
      node = id ∧ key = name ∧ handle ∈ handles := by
  unfold RegistryEffect.Tells tell
  split
  · simp [and_comm, eq_comm]
  · simp only [RegistryEffect.send.injEq, reduceCtorEq, and_false, Command.handles.injEq, false_or]
    exact ⟨by rintro ⟨_, hmem, rfl, rfl, rfl⟩; exact ⟨rfl, rfl, hmem⟩,
      by rintro ⟨rfl, rfl, hmem⟩; exact ⟨_, hmem, rfl, rfl, rfl⟩⟩

theorem Neat.call (h : r.Neat) (c : Call) : (r.call c).1.Neat := by
  cases c with
  | forget id => exact ⟨h.publishers.keep _, h.subscribers.keep _⟩
  | request source c =>
    cases c with
    | subscribe name => exact ⟨h.publishers, h.subscribers.enter name source⟩
    | publish name handle =>
      simp only [Registry.call, request, publish]
      split
      · exact h
      · exact ⟨h.publishers.enter name handle, h.subscribers⟩
    | _ => exact h

theorem subscribersOf_call (h : r.Neat) (c : Call) (name : String) :
    ((r.call c).1.subscribersOf name).Sublist (r.subscribersOf name) ∨
      ∃ id, c = .request id (.subscribe name) ∧ id ∉ r.subscribersOf name ∧
        (r.call c).1.subscribersOf name = r.subscribersOf name ++ [id] := by
  cases c with
  | forget id =>
    refine .inl ?_
    rw [call, forget, subscribersOf, Listing.under_keep h.subscribers.names]
    exact List.filter_sublist
  | request source c =>
    cases c with
    | subscribe key =>
      rw [call, request, subscribe, subscribersOf, Listing.under_enter]
      by_cases hkey : name = key
      · subst hkey
        by_cases hnew : source ∈ r.subscribers.under name
        · simp [hnew, subscribersOf]
        · exact .inr ⟨source, rfl, hnew, by simp [hnew, subscribersOf]⟩
      · simp [hkey, subscribersOf]
    | publish key handle =>
      refine .inl ?_
      simp only [call, request, publish]
      split <;> exact .refl _
    | _ => exact .inl (.refl _)

theorem mem_subscribersOf_call (h : r.Neat) : id ∈ (r.call c).1.subscribersOf name ↔
    id ∈ r.subscribersOf name ∧ c ≠ .forget id ∨ c = .request id (.subscribe name) := by
  cases c with
  | forget node =>
    rw [call, forget, subscribersOf, Listing.under_keep h.subscribers.names]
    simp [subscribersOf, @eq_comm _ node]
  | request source c =>
    cases c with
    | subscribe key =>
      rw [call, request, subscribe, subscribersOf, Listing.mem_under_enter]
      simp [subscribersOf, and_comm, eq_comm]
    | publish key handle =>
      simp only [call, request, publish]
      split <;> simp [subscribersOf]
    | _ => simp [call, request]

theorem mem_publishersOf_call (h : r.Neat) : handle ∈ (r.call c).1.publishersOf name ↔
    handle ∈ r.publishersOf name ∧ c ≠ .forget handle.node ∨
      ∃ source, c = .request source (.publish name handle) := by
  cases c with
  | forget node =>
    rw [call, forget, publishersOf, Listing.under_keep h.publishers.names]
    simp [publishersOf, @eq_comm _ node]
  | request source c =>
    cases c with
    | publish key new =>
      simp only [call, request, publish]
      split
      · rename_i hmem
        suffices hsame : key = name ∧ new = handle → handle ∈ r.publishersOf name by
            simpa using hsame
        rintro ⟨rfl, rfl⟩
        exact hmem
      · rw [publishersOf, Listing.mem_under_enter]
        simp [publishersOf, eq_comm]
    | _ => simp [call, request, subscribe, publishersOf]

theorem tells_call : (∃ e ∈ (r.call c).2, e.Tells id name handle) ↔
    c = .request id (.subscribe name) ∧ handle ∈ r.publishersOf name ∨
      (∃ source, c = .request source (.publish name handle)) ∧ handle ∉ r.publishersOf name ∧
        id ∈ r.subscribersOf name := by
  cases c with
  | forget node => simp [call]
  | request source c =>
    cases c with
    | subscribe key =>
      simp only [call, request, subscribe, List.mem_singleton, exists_eq_left, tells_tell,
        Call.request.injEq, Command.subscribe.injEq, reduceCtorEq, and_false, exists_false,
        false_and, or_false]
      grind
    | publish key new =>
      simp only [call, request, publish, Call.request.injEq, reduceCtorEq, and_false, false_and,
        false_or]
      split
      · grind
      · simp only [List.mem_map, RegistryEffect.Tells]
        grind
    | _ => simp [call, request, RegistryEffect.Tells]

theorem run_concat (r : Registry) (calls : List Call) (c : Call) :
    r.run (calls ++ [c]) = ((r.run calls).call c).1 := by
  simp [run]

theorem answers_append (r : Registry) (calls more : List Call) :
    r.answers (calls ++ more) = r.answers calls ++ (r.run calls).answers more := by
  induction calls generalizing r with
  | nil => rfl
  | cons c rest ih => simp [answers, ih, run]

theorem neat_run (calls : List Call) : (run {} calls).Neat := by
  induction calls using List.reverseRecOn with
  | nil => exact ⟨⟨.nil, nofun⟩, ⟨.nil, nofun⟩⟩
  | append_singleton calls c ih =>
    rw [run_concat]
    exact ih.call c

namespace Entered

theorem mem_run (he : Entered calls name id before since) :
    id ∈ (run {} calls).subscribersOf name := by
  rw [he.calls_eq]
  exact he.present since (List.prefix_refl since)

theorem concat (he : Entered calls name id before since)
    (h : id ∈ (run {} (calls ++ [c])).subscribersOf name) :
    Entered (calls ++ [c]) name id before (since ++ [c]) := by
  refine ⟨by rw [he.calls_eq, List.append_assoc, List.cons_append], he.absent, fun part hpart => ?_⟩
  obtain rfl | hpart := List.prefix_concat_iff.1 hpart
  · rw [he.calls_eq, List.append_assoc, List.cons_append] at h
    exact h
  · exact he.present part hpart

theorem concat_cases (he : Entered (calls ++ [c]) name id before since) :
    before = calls ∧ id ∉ (run {} calls).subscribersOf name ∨
      ∃ since', since = since' ++ [c] ∧ Entered calls name id before since' := by
  obtain ⟨heq, habsent, hpresent⟩ := he
  obtain rfl | ⟨since', last, rfl⟩ := List.eq_nil_or_concat since
  · obtain ⟨rfl, -⟩ := List.append_inj' heq rfl
    exact .inl ⟨rfl, habsent⟩
  · rw [List.concat_eq_append, ← List.cons_append, ← List.append_assoc] at heq
    obtain ⟨rfl, hlast⟩ := List.append_inj' heq rfl
    cases hlast
    rw [List.concat_eq_append] at hpresent ⊢
    exact .inr ⟨since', rfl, rfl, habsent,
      fun part hpart => hpresent part (hpart.trans (List.prefix_append ..))⟩

theorem of_concat (he : Entered (calls ++ [c]) name id before since)
    (h : id ∈ (run {} calls).subscribersOf name) :
    ∃ since', Entered calls name id before since' := by
  obtain ⟨-, hnew⟩ | ⟨since', -, he⟩ := he.concat_cases
  · exact absurd h hnew
  · exact ⟨since', he⟩

theorem length_lt (he : Entered calls name id before since) : before.length < calls.length := by
  simp [he.calls_eq]

/-- A node in the list of a name has been told every handle of the name since it was entered. -/
theorem told (he : Entered calls name id before since)
    (h : handle ∈ (run {} calls).publishersOf name) :
    ∃ e ∈ (run {} before).answers (.request id (.subscribe name) :: since),
      e.Tells id name handle := by
  induction since using List.reverseRecOn generalizing calls with
  | nil =>
    rw [he.calls_eq, run_concat, mem_publishersOf_call (neat_run _)] at h
    have hbefore : handle ∈ (run {} before).publishersOf name := by simpa using h
    obtain ⟨e, he, htells⟩ := tells_call.2 (.inl ⟨rfl, hbefore⟩)
    exact ⟨e, List.mem_append_left _ he, htells⟩
  | append_singleton since c ih =>
    have hcalls : calls = (before ++ .request id (.subscribe name) :: since) ++ [c] := by
      rw [he.calls_eq, List.append_assoc, List.cons_append]
    obtain ⟨hcut, -⟩ | ⟨since', heq, hprev⟩ := concat_cases (hcalls ▸ he)
    · simpa using congrArg List.length hcut
    obtain ⟨rfl, -⟩ := List.append_inj' heq rfl
    rw [← List.cons_append, answers_append]
    -- a handle that is listed was told earlier, and one that the last call entered is told by it
    by_cases hold :
      handle ∈ (run {} (before ++ .request id (.subscribe name) :: since)).publishersOf name
    · obtain ⟨e, hmem, htells⟩ := ih hprev hold
      exact ⟨e, List.mem_append_left _ hmem, htells⟩
    · rw [hcalls, run_concat, mem_publishersOf_call (neat_run _)] at h
      obtain ⟨e, hmem, htells⟩ := tells_call.2
        (.inr ⟨h.resolve_left fun hmem => hold hmem.1, hold, hprev.mem_run⟩)
      refine ⟨e, List.mem_append_right _ ?_, htells⟩
      simpa [answers, run] using hmem

end Entered

theorem exists_entered (h : id ∈ (run {} calls).subscribersOf name) :
    ∃ before since, Entered calls name id before since := by
  induction calls using List.reverseRecOn with
  | nil => cases h
  | append_singleton calls c ih =>
    by_cases hold : id ∈ (run {} calls).subscribersOf name
    · obtain ⟨before, since, he⟩ := ih hold
      exact ⟨before, since ++ [c], he.concat h⟩
    · have hcall := h
      rw [run_concat, mem_subscribersOf_call (neat_run _)] at hcall
      obtain rfl : c = .request id (.subscribe name) := hcall.resolve_left fun hmem => hold hmem.1
      refine ⟨calls, [], rfl, hold, fun part hpart => ?_⟩
      rw [List.prefix_nil.1 hpart]
      exact h

theorem pairwise_entered (calls : List Call) (name : String) :
    ((run {} calls).subscribersOf name).Pairwise fun a b => ∀ before since before' since',
      Entered calls name a before since → Entered calls name b before' since' →
        before.length < before'.length := by
  induction calls using List.reverseRecOn with
  | nil => exact .nil
  | append_singleton calls c ih =>
    have hold :
        ((run {} calls).subscribersOf name).Pairwise fun a b => ∀ before since before' since',
        Entered (calls ++ [c]) name a before since → Entered (calls ++ [c]) name b before' since' →
          before.length < before'.length := by
      refine ih.imp_of_mem fun ha hb h before since before' since' hea heb => ?_
      obtain ⟨_, hea⟩ := hea.of_concat ha
      obtain ⟨_, heb⟩ := heb.of_concat hb
      exact h _ _ _ _ hea heb
    rw [run_concat]
    obtain hsub | ⟨id, -, hnew, heq⟩ := subscribersOf_call (neat_run calls) c name
    · exact hold.sublist hsub
    · rw [heq, List.pairwise_append]
      refine ⟨hold, List.pairwise_singleton ..,
        fun a ha b hb before since before' since' hea heb => ?_⟩
      obtain rfl := List.mem_singleton.1 hb
      obtain ⟨_, hea⟩ := hea.of_concat ha
      obtain ⟨rfl, -⟩ | ⟨_, -, heb⟩ := heb.concat_cases
      · exact hea.length_lt
      · exact absurd heb.mem_run hnew

theorem mem_subscribersOf_run (hkept : ∀ id, .forget id ∉ calls) :
    id ∈ (run {} calls).subscribersOf name ↔ .request id (.subscribe name) ∈ calls := by
  induction calls using List.reverseRecOn with
  | nil => simp [run, subscribersOf, Listing.under]
  | append_singleton calls c ih =>
    simp only [List.mem_append, List.mem_singleton, not_or] at hkept
    rw [run_concat, mem_subscribersOf_call (neat_run calls), ih fun id => (hkept id).1,
      List.mem_append, List.mem_singleton, @eq_comm _ _ c]
    exact or_congr_left (and_iff_left fun heq => (hkept id).2 heq.symm)

theorem mem_publishersOf_run (hkept : ∀ id, .forget id ∉ calls) :
    handle ∈ (run {} calls).publishersOf name ↔
      ∃ source, .request source (.publish name handle) ∈ calls := by
  induction calls using List.reverseRecOn with
  | nil => simp [run, publishersOf, Listing.under]
  | append_singleton calls c ih =>
    simp only [List.mem_append, List.mem_singleton, not_or] at hkept
    rw [run_concat, mem_publishersOf_call (neat_run calls), ih fun id => (hkept id).1]
    simp only [List.mem_append, List.mem_singleton, exists_or, @eq_comm _ c]
    exact or_congr_left (and_iff_left fun heq => (hkept handle.node).2 heq.symm)

theorem mem_of_tells (hkept : ∀ id, .forget id ∉ calls)
    (h : ∃ e ∈ (answers {} calls), e.Tells id name handle) :
    id ∈ (run {} calls).subscribersOf name ∧ handle ∈ (run {} calls).publishersOf name := by
  rw [mem_subscribersOf_run hkept, mem_publishersOf_run hkept]
  induction calls using List.reverseRecOn with
  | nil => simp [answers] at h
  | append_singleton calls c ih =>
    simp only [List.mem_append, List.mem_singleton, not_or] at hkept
    have hbefore : ∀ id, .forget id ∉ calls := fun id => (hkept id).1
    obtain ⟨e, hmem, htells⟩ := h
    rw [answers_append, List.mem_append] at hmem
    rcases hmem with hold | hnew
    · obtain ⟨hid, source, hhandle⟩ := ih hbefore ⟨e, hold, htells⟩
      exact ⟨List.mem_append_left _ hid, source, List.mem_append_left _ hhandle⟩
    · have hcall : ∃ e ∈ ((run {} calls).call c).2, e.Tells id name handle :=
        ⟨e, by simpa [answers] using hnew, htells⟩
      obtain ⟨rfl, hhandle⟩ | ⟨⟨source, rfl⟩, -, hid⟩ := tells_call.1 hcall
      · obtain ⟨source, hhandle⟩ := (mem_publishersOf_run hbefore).1 hhandle
        exact ⟨by simp, source, List.mem_append_left _ hhandle⟩
      · exact ⟨List.mem_append_left _ ((mem_subscribersOf_run hbefore).1 hid), source, by simp⟩

/-- What the calls lead to, as the subscribers see it. -/
structure Informs (calls : List Call) : Prop where
  entered : ∀ name id, id ∈ (run {} calls).subscribersOf name →
    ∃ before since, Entered calls name id before since
  /-- Every subscriber was told every handle of the name since it was last entered. -/
  told : ∀ name id before since, Entered calls name id before since →
    ∀ handle ∈ (run {} calls).publishersOf name,
      ∃ e ∈ (run {} before).answers (.request id (.subscribe name) :: since), e.Tells id name handle
  order : ∀ name,
    ((run {} calls).subscribersOf name).Pairwise fun a b => ∀ before since before' since',
    Entered calls name a before since → Entered calls name b before' since' →
    before.length < before'.length
  /-- A handle that is not listed is told to each subscriber in a frame of its own. -/
  fresh : ∀ source name handle, handle ∉ (run {} calls).publishersOf name →
    ((run {} calls).request source (.publish name handle)).2 =
      ((run {} calls).subscribersOf name).map fun id => .send id (.handle name handle)
  again : ∀ source name handle, handle ∈ (run {} calls).publishersOf name →
    (run {} calls).request source (.publish name handle) = (run {} calls, [])
  /-- As long as nobody is forgotten, the pairs of a request to subscribe and a publication of the
  same name are what was told. -/
  join : (∀ id, .forget id ∉ calls) → ∀ id name handle,
    (∃ e ∈ answers {} calls, e.Tells id name handle) ↔
      .request id (.subscribe name) ∈ calls ∧ ∃ source,
        .request source (.publish name handle) ∈ calls
  neat : (run {} calls).Neat

/-- Whatever nodes ask of a registry and whichever nodes it forgets, and in whatever order:
subscribers are told all there is to know, in their order, and no list is empty or has anything
twice. -/
theorem informs_of_calls (calls : List Call) : Informs calls where
  entered _ _ h := exists_entered h
  told _ _ _ _ he _ h := he.told h
  order := pairwise_entered calls
  fresh source name handle h := by rw [request, publish, if_neg h]
  again source name handle h := by rw [request, publish, if_pos h]
  join hkept id name handle := by
    refine ⟨fun h => ?_, fun ⟨hid, hhandle⟩ => ?_⟩
    · obtain ⟨hid, hhandle⟩ := mem_of_tells hkept h
      exact ⟨(mem_subscribersOf_run hkept).1 hid, (mem_publishersOf_run hkept).1 hhandle⟩
    · obtain ⟨before, since, he⟩ := exists_entered ((mem_subscribersOf_run hkept).2 hid)
      obtain ⟨e, hmem, htells⟩ := he.told ((mem_publishersOf_run hkept).2 hhandle)
      refine ⟨e, ?_, htells⟩
      rw [he.calls_eq, answers_append]
      exact List.mem_append_right _ hmem
  neat := neat_run calls

end Registry

end Meshwork
