import Meshwork.Proofs.Registry
import Meshwork.Proofs.RoundTrip

/-!
# What subscribers understand

A registry tells nodes about the names that other nodes gave it, and it takes a name as it comes.
Main statement: `relays_of_received`, what a registry sends is read as it was meant unless it
answers a node that subscribed to a name with a colon; such a node reads another name, and the
handles that its own name spells.
-/

namespace Meshwork

namespace Command

open Text

variable {name : String} {first rest : List Char}

/-- What stands before the first colon of a name is taken for the name, and what stands behind it
for handles. -/
theorem parse_handles_of_colon (hname : name.toList = first ++ ':' :: rest) (hfirst : ':' ∉ first)
    (hunbroken : Unbroken name) :
    parse (Command.handles name []).payload =
      ((runs (· == ',') rest).mapM fun h => readHandle 16 (String.ofList h)).map
        (Command.handles (String.ofList first)) := by
  have hne : name ≠ "" := by
    rintro rfl
    simp at hname
  rw [parse_payload_of_word rfl (isWord_listedWord hunbroken fun _ => hne)]
  simp only [keyword, ofArguments, listedWord, readListed, hname, splitFirst?_append hfirst,
    Option.getD_some]
  cases (runs (· == ',') rest).mapM fun h => readHandle 16 (String.ofList h) <;> rfl

end Command

namespace Registry

/-- The request was read from a frame. -/
def Call.Received : Call → Prop
  | .request _ c => ∃ payload, Command.parse payload = .ok c
  | .forget _ => True

/-- How the effects of the calls are understood by the nodes to which they are sent. -/
structure Relays (calls : List Call) : Prop where
  meant : ∀ id c, .send id c ∈ answers {} calls → Command.parse c.payload = .ok c ∨
    ∃ name, .request id (.subscribe name) ∈ calls ∧ ':' ∈ name.toList ∧ c = .handles name []
  /-- A name with a colon is answered in any case. The answer is read as the part before the colon,
  with the handles that are spelled behind it. -/
  misread : ∀ id name, .request id (.subscribe name) ∈ calls → ':' ∈ name.toList →
    .send id (.handles name []) ∈ answers {} calls ∧ ∃ first rest,
      name.toList = first ++ ':' :: rest ∧
      ':' ∉ first ∧ Command.parse (Command.handles name []).payload =
        ((Text.runs (· == ',') rest).mapM fun h => Command.readHandle 16 (String.ofList h)).map
          (Command.handles (String.ofList first))
  meant_iff : (∀ id c, .send id c ∈ answers {} calls → Command.parse c.payload = .ok c) ↔
    ∀ id name, .request id (.subscribe name) ∈ calls → ':' ∉ name.toList

variable {call : Call} {calls : List Call} {c : Command} {e : RegistryEffect} {name : String}
  {handle : Handle}
  {id source : NodeId}

theorem exists_publish (h : handle ∈ (run {} calls).publishersOf name) :
    ∃ source, .request source (.publish name handle) ∈ calls := by
  induction calls using List.reverseRecOn with
  | nil => cases h
  | append_singleton calls call ih =>
    rw [run_concat, mem_publishersOf_call (neat_run calls)] at h
    obtain ⟨hold, -⟩ | ⟨source, rfl⟩ := h
    · obtain ⟨source, hmem⟩ := ih hold
      exact ⟨source, List.mem_append_left _ hmem⟩
    · exact ⟨source, by simp⟩

theorem mem_answers_iff : e ∈ answers {} calls ↔
    ∃ before call since, calls = before ++ call :: since ∧ e ∈ ((run {} before).call call).2 := by
  constructor
  · intro h
    induction calls using List.reverseRecOn with
    | nil => cases h
    | append_singleton calls call ih =>
      rw [answers_append, List.mem_append] at h
      obtain h | h := h
      · obtain ⟨before, call', since, rfl, hmem⟩ := ih h
        exact ⟨before, call', since ++ [call], by simp, hmem⟩
      · exact ⟨calls, call, [], rfl, by simpa [answers] using h⟩
  · rintro ⟨before, call, since, rfl, hmem⟩
    rw [answers_append]
    exact List.mem_append_right _ (List.mem_append_left _ hmem)

theorem Call.Received.subscribe (h : (Call.request source (.subscribe name)).Received) :
    name ≠ "" ∧ Text.Unbroken name := by
  obtain ⟨payload, hparse⟩ := h
  exact (Command.representable_of_parse hparse).resolve_right nofun

theorem Call.Received.publish (h : (Call.request source (.publish name handle)).Received) :
    Text.Unbroken name ∧ ':' ∉ name.toList := by
  obtain ⟨payload, hparse⟩ := h
  exact (Command.representable_of_parse hparse).resolve_right nofun

theorem representable_tell (hname : name ≠ "" ∧ Text.Unbroken name) (hcolon : ':' ∉ name.toList)
    (handles : List Handle) : (tell name handles).Representable := by
  unfold tell
  split
  · exact ⟨hname.2, hcolon⟩
  · exact ⟨hname.2, hcolon, fun _ => hname.1⟩

section

variable (received : ∀ call ∈ calls, call.Received)
include received

theorem publishersOf_of_colon (h : ':' ∈ name.toList) : (run {} calls).publishersOf name = [] := by
  refine List.eq_nil_iff_forall_not_mem.2 fun handle hmem => ?_
  obtain ⟨source, hcall⟩ := exists_publish hmem
  exact (received _ hcall).publish.2 h

theorem sent_by_call (hcall : call.Received) (h : .send id c ∈ ((run {} calls).call call).2) :
    c.Representable ∨
      ∃ name, call = .request id (.subscribe name) ∧ ':' ∈ name.toList ∧ c = .handles name [] := by
  cases call with
  | forget node => cases h
  | request source asked =>
    cases asked with
    | subscribe name =>
      obtain ⟨rfl, rfl⟩ := RegistryEffect.send.inj (List.mem_singleton.1 h)
      by_cases hcolon : ':' ∈ name.toList
      · exact .inr
          ⟨name, rfl, hcolon, by rw [publishersOf_of_colon received hcolon, tell]; exact nofun⟩
      · exact .inl (representable_tell hcall.subscribe hcolon _)
    | publish name handle =>
      simp only [Registry.call, request, publish] at h
      split at h
      · cases h
      · obtain ⟨node, -, heq⟩ := List.mem_map.1 h
        obtain ⟨-, rfl⟩ := RegistryEffect.send.inj heq
        exact .inl hcall.publish
    | _ => simp [Registry.call, request] at h

theorem sent_by_calls (h : .send id c ∈ answers {} calls) : Command.parse c.payload = .ok c ∨
    ∃ name, .request id (.subscribe name) ∈ calls ∧ ':' ∈ name.toList ∧ c = .handles name [] := by
  obtain ⟨before, call, since, rfl, hmem⟩ := mem_answers_iff.1 h
  have hbefore : ∀ call ∈ before, call.Received :=
    fun call hcall => received call (List.mem_append_left _ hcall)
  obtain hc | ⟨name, rfl, hcolon, rfl⟩ := sent_by_call hbefore (received call (by simp)) hmem
  · exact .inl hc.parse_payload
  · exact .inr ⟨name, by simp, hcolon, rfl⟩

theorem answered_of_colon (h : .request id (.subscribe name) ∈ calls) (hcolon : ':' ∈ name.toList) :
    .send id (.handles name []) ∈ answers {} calls := by
  obtain ⟨before, since, rfl⟩ := List.append_of_mem h
  have hbefore : ∀ call ∈ before, call.Received :=
    fun call hcall => received call (List.mem_append_left _ hcall)
  refine mem_answers_iff.2 ⟨before, _, since, rfl, ?_⟩
  simp [Registry.call, request, subscribe, publishersOf_of_colon hbefore hcolon, tell]

/-- Whatever nodes send to a registry, and whichever nodes it forgets: what it sends is read as it
was meant if and only if nobody subscribed to a name with a colon. -/
theorem relays_of_received : Relays calls where
  meant _ _ h := sent_by_calls received h
  misread id name h hcolon := by
    refine ⟨answered_of_colon received h hcolon, ?_⟩
    cases hsplit : Text.splitFirst? ':' name.toList with
    | none => exact absurd hcolon (Text.not_mem_of_splitFirst? hsplit)
    | some parts =>
      obtain ⟨hname, hfirst⟩ := Text.eq_append_of_splitFirst? hsplit
      exact ⟨parts.1, parts.2, hname, hfirst,
        Command.parse_handles_of_colon hname hfirst (received _ h).subscribe.2⟩
  meant_iff := by
    refine ⟨fun h id name hmem hcolon => ?_, fun h id c hmem => ?_⟩
    · have hread := h id _ (answered_of_colon received hmem hcolon)
      exact (Command.representable_of_parse_payload hread).2.1 hcolon
    · refine (sent_by_calls received hmem).resolve_right ?_
      rintro ⟨name, hasked, hcolon, -⟩
      exact h id name hasked hcolon

end

/-- Another name is read, and a handle that nobody published. -/
theorem relays_of_received_colon :
    (∀ call ∈ [Call.request (.ofNat 3) (.subscribe "lamp:0307")], call.Received) ∧
      .send (.ofNat 3) (.handles "lamp:0307" []) ∈
        answers {} [.request (.ofNat 3) (.subscribe "lamp:0307")] ∧
      Command.parse (Command.handles "lamp:0307" []).payload =
        .ok (.handles "lamp" [.ofNumber 0x0307]) := by
  have received : ∀ call ∈ [Call.request (.ofNat 3) (.subscribe "lamp:0307")], call.Received := by
    have hword : Text.IsWord "lamp:0307" := Text.isWord_of_all (by decide) (by decide)
    refine List.forall_mem_singleton.2 ⟨(Command.subscribe "lamp:0307").payload, ?_⟩
    exact Command.Representable.parse_payload (Text.isWord_iff.1 hword)
  obtain ⟨hsent, first, rest, hname, hfirst, hread⟩ :=
    (relays_of_received received).misread _ _ (List.mem_singleton_self _) (by decide)
  have hsplit : Text.splitFirst? ':' "lamp:0307".toList = some (first, rest) := by
    rw [hname, Text.splitFirst?_append hfirst]
  obtain ⟨rfl, rfl⟩ := Prod.mk.inj (Option.some.inj hsplit)
  exact ⟨received, hsent, hread⟩

end Registry

end Meshwork
