import Meshwork.Proofs.Node.Overtaken
import Meshwork.Proofs.Node.OwnNames

/-!
# The short cut to a module of the node

A frame for a module of the node skips the wire. Main statement: `alike_of_run`, in every state the
short cut refuses what a link would refuse, with the same error, and hands on the very frame that a
peer reads from the bytes on the link.
-/

namespace Meshwork

theorem Wire.encode_eq_error_iff {w : Wire} {f : Frame} {e : WireError} :
    w.encode f = .error e ↔
      w.maxPayload < f.payload.length ∧ e = .payloadTooLarge f.payload.length w.maxPayload := by
  unfold Wire.encode
  by_cases h : f.payload.length ≤ w.maxPayload
  · simp [Wire.encodeInto_of_le h, Nat.not_lt.2 h]
  · simp [Wire.encodeInto_of_lt (Nat.not_le.1 h), Nat.not_le.1 h, eq_comm]

namespace Node

def backlog (n : Node) (conn : ConnId) : List (List UInt8) :=
  (n.links.get? conn).elim [] (·.link.queue)

def IsOwn (n : Node) (home : NodeId) : Prop := home = n.self ∨ ¬ home.Assigned

/-- What a node with a frame for a linked node leaves behind: the frame waits on the link as
`bytes`, or the link takes nothing and will be closed. -/
inductive HandsOver (n : Node) (conn : ConnId) (bytes : List UInt8) (k : Node) : Prop
  | queued (own : k.backlog conn = n.backlog conn ++ [bytes])
      (others : ∀ c, c ≠ conn → k.backlog c = n.backlog c)
  | refused (reason : CloseReason)
      (full : ∀ r, n.links.get? conn = some r →
        r.link.running = false ∨ r.link.bound ≤ r.link.queue.length)
      (node : k = { n with refused := n.refused ++ [(conn, reason)] })

/-- What becomes of a payload that a module sends to module `dest` of its own node and of other
nodes. -/
structure Alike (n : Node) (source : Handle) (dest kind : UInt8) (payload : List UInt8) : Prop where
  unforged : ∀ loop node handle,
    n.post loop (source.withNode node) handle kind payload = n.post loop source handle kind payload
  /-- Only a payload that is too long is refused by a module of the node. -/
  own_error :
    ∀ loop home e, n.IsOwn home → (n.post loop source ⟨home, dest⟩ kind payload = .error e ↔
    n.wire.maxPayload < payload.length ∧
      e = .wire (.payloadTooLarge payload.length n.wire.maxPayload))
  /-- A link refuses the same payloads with the same error. -/
  error_alike : ∀ loop home id p e, n.IsOwn home → n.roster.get? id = some p → p.Linked →
    (n.post loop source ⟨id, dest⟩ kind payload = .error e ↔
      n.post loop source ⟨home, dest⟩ kind payload = .error e)
  /-- A payload that is not refused becomes one frame, which the short cut hands on and every peer
  that takes as long payloads reads from the bytes on the link. -/
  frame_alike : payload.length ≤ n.wire.maxPayload → ∃ frame : Frame,
    frame.source = ⟨n.self, source.moduleId⟩ ∧ frame.dest = dest ∧ frame.kind = kind ∧
    frame.payload = payload ∧ (∀ loop home, n.IsOwn home →
      n.post loop source ⟨home, dest⟩ kind payload = .ok (loop n frame)) ∧
    ∀ loop id p, n.roster.get? id = some p → p.Linked → ∃ conn k bytes,
      p.liveLink? = some conn ∧ n.post loop source ⟨id, dest⟩ kind payload = .ok k ∧
      n.HandsOver conn bytes k ∧ ∀ w : Wire, w.maxPayload = n.wire.maxPayload →
        ∀ rest, w.decode (bytes ++ rest) = .ok (some (frame, rest))
  invalid_iff : ∀ loop id, ¬ n.IsOwn id →
    (n.post loop source ⟨id, dest⟩ kind payload = .error (.invalidNode id) ↔
      n.roster.get? id = none)
  not_connected_iff : ∀ loop id, ¬ n.IsOwn id →
    (n.post loop source ⟨id, dest⟩ kind payload = .error (.notConnected id) ↔
      ∃ p, n.roster.get? id = some p ∧ ¬ p.Linked)
  error_cases : ∀ loop handle e, n.post loop source handle kind payload = .error e →
    e = .invalidNode handle.node ∨ e = .notConnected handle.node ∨
      e = .wire (.payloadTooLarge payload.length n.wire.maxPayload)
  unchanged : ∀ handle e, (n.call (.send source handle kind payload)).2 = .error e →
    (n.call (.send source handle kind payload)).1 = n

variable {n k : Node} {loop : Loopback} {source : Handle} {home id : NodeId} {dest kind : UInt8}
  {payload : List UInt8} {frame : Frame} {p : Peer} {conn : ConnId} {e : Fault}

theorem post_own (h : n.IsOwn home) : n.post loop source ⟨home, dest⟩ kind payload =
    if n.wire.maxPayload < payload.length then
      .error (.wire (.payloadTooLarge payload.length n.wire.maxPayload))
    else .ok (loop n ⟨source.withNode n.self, dest, kind, payload⟩) := by
  have hhere : n.routing.destination ⟨home, dest⟩ = .here dest := by
    refine if_neg fun hother => ?_
    exact h.elim hother.2 fun h => h hother.1
  simp only [post, hhere]

theorem post_own_eq_error_iff (h : n.IsOwn home) :
    n.post loop source ⟨home, dest⟩ kind payload = .error e ↔
    n.wire.maxPayload < payload.length ∧
      e = .wire (.payloadTooLarge payload.length n.wire.maxPayload) := by
  rw [post_own h]
  split
  · rename_i hlong
    simp [hlong, eq_comm]
  · rename_i hfit
    simp [hfit]

theorem post_other (h : ¬ n.IsOwn id) : n.post loop source ⟨id, dest⟩ kind payload =
    n.sendOver id ⟨source.withNode n.self, dest, kind, payload⟩ := by
  have hthere : n.routing.destination ⟨id, dest⟩ = .node id := by
    rw [IsOwn, not_or, not_not] at h
    exact if_pos ⟨h.2, h.1⟩
  simp only [post, hthere]

theorem Ordered.not_isOwn (ho : n.Ordered) (hp : n.roster.get? id = some p) (hl : p.Linked) :
    ¬ n.IsOwn id := by
  rintro (rfl | hid)
  · exact ho.self_not_linked ⟨p, hp, hl⟩
  · exact hid (Roster.contains_of_get? hp).1

theorem sendOver_eq_error (h : n.sendOver id frame = .error e) :
    e = .invalidNode id ∧ n.roster.get? id = none ∨
      e = .notConnected id ∧ (∃ p, n.roster.get? id = some p) ∨
        e = .wire (.payloadTooLarge frame.payload.length n.wire.maxPayload) ∧
          n.wire.maxPayload < frame.payload.length := by
  unfold sendOver at h
  split at h
  · rename_i hnone
    cases h
    exact .inl ⟨rfl, hnone⟩
  rename_i p hp
  split at h
  · cases h
    exact .inr (.inl ⟨rfl, p, hp⟩)
  split at h
  · cases h
    exact .inr (.inl ⟨rfl, p, hp⟩)
  split at h
  · rename_i hencode
    cases h
    obtain ⟨hlong, rfl⟩ := Wire.encode_eq_error_iff.1 hencode
    exact .inr (.inr ⟨rfl, hlong⟩)
  · split at h <;> cases h

theorem Wired.sendOver_eq_error_iff (hw : n.Wired) (hp : n.roster.get? id = some p)
    (hl : p.Linked) :
    n.sendOver id frame = .error e ↔
      n.wire.maxPayload < frame.payload.length ∧
        e = .wire (.payloadTooLarge frame.payload.length n.wire.maxPayload) := by
  obtain ⟨conn, hlive⟩ := hl.exists_link
  obtain ⟨r, hr, -⟩ := hw.exists_record hp hlive
  cases hencode : n.wire.encode frame with
  | error x =>
    obtain ⟨hlong, rfl⟩ := Wire.encode_eq_error_iff.1 hencode
    simp [sendOver, hp, hlive, hr, hencode, hlong, eq_comm]
  | ok bytes =>
    have hfit := (Wire.encode_eq_ok_iff.1 hencode).1
    simp only [sendOver, hp, hlive, hr, hencode, Nat.not_lt.2 hfit, false_and, iff_false]
    split <;> simp

theorem sendOver_eq_invalidNode_iff :
    n.sendOver id frame = .error (.invalidNode id) ↔ n.roster.get? id = none := by
  constructor
  · intro h
    obtain ⟨-, hnone⟩ | ⟨heq, -⟩ | ⟨heq, -⟩ := sendOver_eq_error h
    · exact hnone
    · cases heq
    · cases heq
  · intro h
    simp only [sendOver, h]

theorem Wired.sendOver_eq_notConnected_iff (hw : n.Wired) :
    n.sendOver id frame = .error (.notConnected id) ↔
      ∃ p, n.roster.get? id = some p ∧ ¬ p.Linked := by
  constructor
  · intro h
    obtain ⟨heq, -⟩ | ⟨-, p, hp⟩ | ⟨heq, -⟩ := sendOver_eq_error h
    · cases heq
    · exact ⟨p, hp, hw.not_linked_of_sendOver hp h⟩
    · cases heq
  · rintro ⟨p, hp, hl⟩
    rw [Peer.Linked, Option.not_isSome_iff_eq_none] at hl
    simp only [sendOver, hp, hl]

theorem Wired.handsOver (hw : n.Wired) (hp : n.roster.get? id = some p)
    (hlive : p.liveLink? = some conn) (hfit : frame.payload.length ≤ n.wire.maxPayload) :
    ∃ k, n.sendOver id frame = .ok k ∧ n.HandsOver conn frame.bytes k := by
  obtain ⟨k, hover, hqueue | hrefuse⟩ := hw.exists_sendOver hp hlive hfit
  · refine ⟨k, hover, ?_⟩
    cases hqueue with
    | queue _ _ hr hencode hs =>
      obtain ⟨-, rfl⟩ := Wire.encode_eq_ok_iff.1 hencode
      obtain ⟨-, -, rfl⟩ := Link.send_eq_ok hs
      refine .queued ?_ fun c hc => ?_
      · simp [backlog, hw.links.kept.get?_modify, hr]
      · simp [backlog, hw.links.kept.get?_modify, hc]
  · refine ⟨k, hover, ?_⟩
    cases hrefuse with
    | refuse _ _ hr hs =>
      refine .refused _ (fun r hr' => ?_) rfl
      rw [hr, Option.some.injEq] at hr'
      exact hr' ▸ Link.full_of_send hs

theorem Ordered.alike (ho : n.Ordered) (source : Handle) (dest kind : UInt8)
    (payload : List UInt8) :
    n.Alike source dest kind payload where
  unforged _ _ _ := rfl
  own_error _ _ _ := post_own_eq_error_iff
  error_alike _ _ _ _ _ hown hp hl := by
    rw [post_other (ho.not_isOwn hp hl), ho.wired.sendOver_eq_error_iff hp hl,
      post_own_eq_error_iff hown]
  frame_alike hfit := by
    refine ⟨⟨source.withNode n.self, dest, kind, payload⟩, rfl, rfl, rfl, rfl,
      fun loop home hown => ?_, fun loop id p hp hl => ?_⟩
    · rw [post_own hown, if_neg (Nat.not_lt.2 hfit)]
    · have hlen : (Frame.mk (source.withNode n.self) dest kind payload).payload.length ≤
          n.wire.maxPayload := hfit
      obtain ⟨conn, hlive⟩ := hl.exists_link
      obtain ⟨k, hk, hover⟩ := ho.wired.handsOver hp hlive hlen
      refine ⟨conn, k, _, hlive, ?_, hover,
        fun w hw rest => Wire.decode_bytes_append (hw ▸ hfit) rest⟩
      rw [post_other (ho.not_isOwn hp hl), hk]
  invalid_iff _ _ hother := by rw [post_other hother, sendOver_eq_invalidNode_iff]
  not_connected_iff _ _ hother := by rw [post_other hother, ho.wired.sendOver_eq_notConnected_iff]
  error_cases loop handle e h := by
    obtain ⟨id, dest⟩ := handle
    by_cases hown : n.IsOwn id
    · exact .inr (.inr ((post_own_eq_error_iff hown).1 h).2)
    · rw [post_other hown] at h
      exact (sendOver_eq_error h).imp And.left (Or.imp And.left And.left)
  unchanged handle e h := by
    cases hpost : n.post receive source handle kind payload with
    | ok k => simp [call, hpost] at h
    | error e => simp only [call, hpost]

/-- In every state that a handler of a started node passes through, after any run, a payload is
refused alike or arrives alike, whether it is sent to a module of the node or to the same module of
a linked one. -/
theorem alike_of_run {profile : Profile} {catalog : Catalog} {port : UInt16} {now : Nat}
    {result : Except Fault Handshake} {n₀ : Node} {moves : List Move}
    (started : start profile catalog port now result = .ok n₀) (events : List (Nat × Event))
    (passed : (n₀.run events).Path moves n) (source : Handle) (dest kind : UInt8)
    (payload : List UInt8) :
    n.Alike source dest kind payload :=
  (passed.ordered (ordered_of_run started events)).alike source dest kind payload

/-- A center that node 3 is linked to, and a module that gives out node 9 as its own. -/
theorem alike_of_run_forged :
    ∃ n₀ events p, start {} {} 7100 0 (.error .closed) = .ok n₀ ∧
      (n₀.run events).roster.get? ⟨3⟩ = some p ∧ p.Linked ∧
        (n₀.run events).Path [] (n₀.run events) ∧
      (n₀.run events).Alike ⟨⟨9⟩, 4⟩ 8 3 [104, 105] := by
  have started : start {} {} 7100 0 (.error .closed) = .ok (idle {} {} 7100 0) := rfl
  obtain ⟨events, p, conn, hp, hlive, -⟩ :=
    exists_run_linked started rfl (by decide +kernel) (by decide) (by decide)
  exact ⟨_, events, p, started, hp, Peer.linked_of_liveLink? hlive, .nil _,
    alike_of_run started events (.nil _) ⟨⟨9⟩, 4⟩ 8 3 [104, 105]⟩

end Node

end Meshwork
