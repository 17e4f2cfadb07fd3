import Meshwork.Proofs.Frame.Chunks
import Meshwork.Proofs.Greeting
import Meshwork.Proofs.Node.Handshake

/-!
# From the handshake to the link

The bytes of a center are read by two readers: one takes the greeting, and the link to the center
takes the rest, beginning with what was read along with the greeting. Main statement:
`handover_of_run`, the two of them read what one reader of the whole stream does, however it is cut.
-/

namespace Meshwork

namespace Wire

variable {w : Wire} {buf : List UInt8} {f : Frame} {frames : List Frame}

theorem exists_decode_of_cons (h : (w.decodeAll buf).frames = f :: frames) :
    ∃ rest, w.decode buf = .ok (some (f, rest)) ∧ (w.decodeAll rest).frames = frames ∧
      (w.decodeAll rest).error = (w.decodeAll buf).error := by
  match hd : w.decode buf with
  | .error e => simp [decodeAll_of_error hd] at h
  | .ok none => simp [decodeAll_of_none hd] at h
  | .ok (some (g, rest)) =>
    rw [decodeAll_of_frame hd] at h ⊢
    obtain ⟨rfl, hframes⟩ := List.cons.inj h
    exact ⟨rest, rfl, hframes, rfl⟩

theorem decode_of_nil (h : (w.decodeAll buf).frames = []) :
    w.decode buf = match (w.decodeAll buf).error with
      | none => .ok none
      | some e => .error e := by
  obtain ⟨hbuf, -⟩ := flatMap_bytes_append_rest w buf
  rw [h, List.flatMap_nil, List.nil_append] at hbuf
  have hstop := decode_rest w buf
  rwa [hbuf] at hstop

end Wire

namespace LinkEvent

/-- What a link reports of lists of frames, and of a fault that ends it if there is one. -/
def reports (conn : ConnId) (lists : List (List Frame)) (fault : Option WireError) :
    List LinkEvent :=
  lists.map (.frames conn) ++ (fault.map fun e => .closed conn (.malformed e)).toList

def reported (frames : List Frame) : List (List Frame) := if frames = [] then [] else [frames]

@[simp] theorem flatten_reported (frames : List Frame) : (reported frames).flatten = frames := by
  by_cases h : frames = [] <;> simp [reported, h]

theorem nil_not_mem_reported (frames : List Frame) : [] ∉ reported frames := by
  by_cases h : frames = []
  · simp [reported, h]
  · simp [reported, h, Ne.symm h]

theorem ofBatch_eq (conn : ConnId) (b : Wire.Batch) :
    ofBatch conn b = reports conn (reported b.frames) b.error := by
  by_cases h : b.frames = [] <;> simp [ofBatch, reports, reported, h]

theorem ofChunks_cons (w : Wire) (conn : ConnId) (buffer chunk : List UInt8)
    (chunks : List (List UInt8)) :
    ∃ lists, ofChunks w conn buffer (chunk :: chunks) =
        reports conn lists (w.decodeAll (buffer ++ (chunk :: chunks).flatten)).error ∧
      lists.flatten = (w.decodeAll (buffer ++ (chunk :: chunks).flatten)).frames ∧ [] ∉ lists := by
  induction chunks generalizing buffer chunk with
  | nil =>
    refine ⟨reported (w.decodeAll (buffer ++ chunk)).frames, ?_, ?_, nil_not_mem_reported _⟩
    · simp [ofChunks, ofBatch_eq]
    · simp
  | cons next chunks ih =>
    have hstop := Wire.decode_rest w (buffer ++ chunk)
    rw [List.flatten_cons, ← List.append_assoc, Wire.decodeAll_append w (buffer ++ chunk), ofChunks,
      ofBatch_eq]
    cases herror : (w.decodeAll (buffer ++ chunk)).error with
    | some e =>
      -- what is left is refused, and so it is with the chunks that follow
      rw [herror] at hstop
      rw [Wire.decodeAll_of_error (Wire.decode_append_of_error hstop _)]
      exact ⟨reported (w.decodeAll (buffer ++ chunk)).frames, by simp [reports], by simp,
        nil_not_mem_reported _⟩
    | none =>
      obtain ⟨lists, hevents, hframes, hne⟩ := ih (w.decodeAll (buffer ++ chunk)).rest next
      refine ⟨reported (w.decodeAll (buffer ++ chunk)).frames ++ lists, ?_, ?_, ?_⟩
      · simp [reports, hevents]
      · simp [hframes]
      · exact fun hmem => (List.mem_append.1 hmem).elim (nil_not_mem_reported _) hne

end LinkEvent

def Effect.adopted? : Effect → Option (ConnId × List UInt8)
  | .adopt conn pending => some (conn, pending)
  | _ => none

namespace Node

variable {n m : Node} {a : Move} {h : Handshake}

/-- The connections that became links, oldest first. -/
def adoptions (n : Node) : List (ConnId × List UInt8) := n.effects.filterMap Effect.adopted?

theorem Takes.adoptions_eq (ht : n.Takes a m) (hj : ¬ a.Joins) (ha : ∀ conn, a ≠ .arrive conn) :
    m.adoptions = n.adoptions := by
  cases ht with
  | join => exact absurd trivial hj
  | arrive => exact absurd rfl (ha _)
  | lose => simp [adoptions, Effect.adopted?]
  | _ => simp [adoptions, Effect.adopted?]

theorem Via.adoptions_eq (hv : n.Via Move.Inner m) : m.adoptions = n.adoptions := by
  refine hv.keeps (I := fun k => k.adoptions = n.adoptions) (fun k a l hk ha ht => ?_) rfl
  refine (ht.adoptions_eq ha.not_joins ?_).trans hk
  rintro conn rfl
  exact ha

theorem Takes.adoptions_of_join {conn : ConnId} (ht : n.Takes (.join conn h) m) :
    m.adoptions = n.adoptions ++ [(conn, h.pending)] := by
  cases ht
  simp [adoptions, Effect.adopted?]

/-- How a node, started as `n₀` and now `n`, reads what its center sends in chunks. -/
structure Handover (n₀ n : Node) (first : Except Fault Handshake)
    (chunks : List (List UInt8)) : Prop where
  /-- A stream that begins with a greeting: the greeting and the frames of the link are all its
  frames, and the link ends with the fault of the stream. -/
  greeted : ∀ f frames g, (n.wire.decodeAll chunks.flatten).frames = f :: frames →
    Greeting.parse f.payload = .ok g →
    ∃ pending later, Greeting.readChunks n.wire [] chunks = .ok (some (g, pending, later)) ∧
      f.bytes ++ (pending ++ later.flatten) = chunks.flatten ∧
      ∀ conn, ∃ lists, LinkEvent.ofChunks n.wire conn [] (pending :: later) =
          LinkEvent.reports conn lists (n.wire.decodeAll chunks.flatten).error ∧
        lists.flatten = frames ∧ [] ∉ lists
  misgreeted : ∀ f frames e, (n.wire.decodeAll chunks.flatten).frames = f :: frames →
    Greeting.parse f.payload = .error e → Greeting.readChunks n.wire [] chunks = .error (.command e)
  malformed : ∀ e, (n.wire.decodeAll chunks.flatten).frames = [] →
    (n.wire.decodeAll chunks.flatten).error = some e →
      Greeting.readChunks n.wire [] chunks = .error (.wire e)
  awaited : (n.wire.decodeAll chunks.flatten).frames = [] →
    (n.wire.decodeAll chunks.flatten).error = none → Greeting.readChunks n.wire [] chunks = .ok none
  /-- The link begins with what the handshake left, at the start of a member and with every later
  handshake. -/
  starts : n₀.registry? = none → ∃ h, first = .ok h ∧ n₀.adoptions = [(⟨1⟩, h.pending)]
  adopts : ∀ t h, n.Accepts h →
    (n.stepAt t (.handshake (.ok h))).adoptions = n.adoptions ++ [(n.links.nextId.1, h.pending)]
  fails : ∀ t e, (n.stepAt t (.handshake (.error e))).adoptions = n.adoptions

theorem adopts_of_accepts (ho : n.Ordered) (ha : n.Accepts h) (t : Nat) :
    (n.stepAt t (.handshake (.ok h))).adoptions =
      n.adoptions ++ [(n.links.nextId.1, h.pending)] := by
  obtain ⟨m, hjoin, hinner⟩ := ha.exists_join ho t
  rw [hinner.adoptions_eq, hjoin.adoptions_of_join]
  rfl

theorem adoptions_of_error (ho : n.Ordered) (t : Nat) (e : Fault) :
    (n.stepAt t (.handshake (.error e))).adoptions = n.adoptions := by
  obtain ⟨-, hsame⟩ | ⟨-, -, hrelease⟩ | ⟨h, m, heq, -⟩ :=
    (ho.tend t).finishHandshake_cases (.error e)
  · exact (congrArg adoptions hsame :)
  · exact hrelease.adoptions_eq id nofun
  · cases heq

section Start

variable {profile : Profile} {catalog : Catalog} {port : UInt16} {now : Nat}
  {result : Except Fault Handshake}
  {n₀ : Node}

theorem adoptions_of_start (started : start profile catalog port now result = .ok n₀)
    (hm : n₀.registry? = none) :
    ∃ h, result = .ok h ∧ n₀.adoptions = [(⟨1⟩, h.pending)] := by
  obtain ⟨h, m, rfl, -, hjoin, hask⟩ := join_of_start started hm
  refine ⟨h, rfl, ?_⟩
  rw [(ask_via receive_tame hask).adoptions_eq, hjoin.adoptions_of_join]
  rfl

/-- However the stream of a center is cut: what the handshake and the link read of it are together
the frames of the stream, and a stream that does not begin with a greeting makes no link. -/
theorem handover_of_run (started : start profile catalog port now result = .ok n₀)
    (events : List (Nat × Event)) (chunks : List (List UInt8)) :
    Handover n₀ (n₀.run events) result chunks := by
  have ho := ordered_of_run started events
  generalize n₀.run events = n at ho ⊢
  have hread := Greeting.readChunks_eq n.wire [] chunks
  rw [List.nil_append] at hread
  constructor
  case greeted =>
    intro f frames g hframes hparse
    obtain ⟨rest, hdecode, hrest, herror⟩ := Wire.exists_decode_of_cons hframes
    obtain ⟨hstream, -⟩ := Wire.eq_bytes_append_of_decode hdecode
    simp only [hdecode, hparse] at hread
    obtain ⟨pending, later, hread, rfl⟩ := hread
    refine ⟨pending, later, hread, hstream.symm, fun conn => ?_⟩
    obtain ⟨lists, hevents, hlists, hne⟩ := LinkEvent.ofChunks_cons n.wire conn [] pending later
    rw [List.nil_append, List.flatten_cons] at hevents hlists
    exact ⟨lists, herror ▸ hevents, hlists.trans hrest, hne⟩
  case misgreeted =>
    intro f frames e hframes hparse
    obtain ⟨rest, hdecode, -⟩ := Wire.exists_decode_of_cons hframes
    simpa only [hdecode, hparse] using hread
  case malformed =>
    intro e hframes herror
    have hdecode := Wire.decode_of_nil hframes
    rw [herror] at hdecode
    simpa only [hdecode] using hread
  case awaited =>
    intro hframes herror
    have hdecode := Wire.decode_of_nil hframes
    rw [herror] at hdecode
    simpa only [hdecode] using hread
  case starts => exact adoptions_of_start started
  case adopts => exact fun t h ha => adopts_of_accepts ho ha t
  case fails => exact adoptions_of_error ho

/-- A greeting is cut in two, and a sign of life comes with the second piece: node 2 takes the
greeting for a handshake with node 1, and the link reports the sign of life. -/
theorem handover_of_run_heartbeat :
    let greeting := Greeting.frame ⟨1⟩
    let sign := Command.heartbeat.frame ⟨1⟩ ⟨⟨2⟩, meshModule⟩
    ∃ n pending later,
      start { nodeId := ⟨2⟩, center := .remote "hub:7100" } {} 7101 0 (.ok ⟨.ofCenter ⟨1⟩, []⟩) =
      .ok n ∧
        Greeting.readChunks n.wire [] [greeting.bytes.take 3, greeting.bytes.drop 3 ++ sign.bytes] =
        .ok (some (.ofCenter ⟨1⟩, pending, later)) ∧
      ∃ lists,
        LinkEvent.ofChunks n.wire ⟨1⟩ [] (pending :: later) = LinkEvent.reports ⟨1⟩ lists none ∧
        lists.flatten = [sign] := by
  intro greeting sign
  obtain ⟨n, started, -, -⟩ := exists_start_of_second
  have hwire : n.wire = .ofRequest 65531 := Via.wire_eq (start_via started)
  have hfit : ∀ f ∈ [greeting, sign], f.payload.length ≤ n.wire.maxPayload := by
    rw [hwire]
    decide +kernel
  have hstream : [greeting.bytes.take 3, greeting.bytes.drop 3 ++ sign.bytes].flatten =
      [greeting, sign].flatMap Frame.bytes ++ [] := by
    simp only [List.flatten_cons, List.flatten_nil, List.flatMap_cons, List.flatMap_nil,
      List.append_nil, ← List.append_assoc, List.take_append_drop]
  have hbatch :
      n.wire.decodeAll [greeting.bytes.take 3, greeting.bytes.drop 3 ++ sign.bytes].flatten =
      ⟨[greeting, sign], [], none⟩ := by
    rw [hstream, Wire.decodeAll_flatMap_append hfit, Wire.decodeAll_of_none rfl, List.append_nil]
  obtain ⟨pending, later, hread, -, hevents⟩ :=
    (handover_of_run started [] _).greeted greeting [sign] (.ofCenter ⟨1⟩)
      (congrArg Wire.Batch.frames hbatch) (Greeting.parse_text _)
  obtain ⟨lists, hreports, hlists, -⟩ := hevents ⟨1⟩
  have hwhole : Wire.Batch.error _ = none := congrArg Wire.Batch.error hbatch
  exact ⟨n, pending, later, started, hread, lists, hwhole ▸ hreports, hlists⟩

end Start

end Node

end Meshwork
