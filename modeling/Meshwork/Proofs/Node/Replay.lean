import Meshwork.Proofs.Node.Handshake

/-!
# What a session asks for

Main statements: `Session.exists_perm`, what is asked for in a session is what is remembered at its
end, and `Completes.opened`, a handshake that is completed opens a session with what was asked for
before.
-/

namespace Meshwork.Node

variable {n m k : Node} {c : Command} {conn : ConnId} {directory : Handle} {h : Handshake}

theorem Member.interests_finishHandshake (hm : n.Member) (hw : n.Awaits)
    (result : Except Fault Handshake) : (n.finishHandshake result).interests = n.interests := by
  cases hj : n.judge result with
  | ok h =>
    obtain ⟨rfl, -⟩ := judge_eq_ok hj
    exact (opened_of_handshake hm.ordered hw hj).2
  | error e =>
    exact (finishHandshake_via_of_error hm.ordered hw hj).interests_eq fun _ ha =>
      ha.1.not_remembers

theorem Member.interests_stepAt (hm : n.Member) (t : Nat) (e : Event) :
    (n.stepAt t e).interests = n.interests.after n.self (n.calls e) := by
  have htend : Takes n .tend { n with now := t } := .tend t n.catalog
  have hm' := htend.member hm
  by_cases hcall : e.MayCall
  · by_cases hpass : n.Passes e
    · obtain ⟨hvia, -, hnil⟩ := via_of_passes (n := { n with now := t }) hpass
      have hnil : n.calls e = [] := hnil
      rw [hnil]
      exact hvia.interests_eq fun _ ha => ha.2.1
    · exact (hm'.answers_step hcall hpass).interests
  · rw [(calls_eq_nil hcall).2]
    by_cases hw : (∃ result, e = .handshake result) ∧ n.Awaits
    · obtain ⟨⟨result, rfl⟩, hw⟩ := hw
      exact hm'.interests_finishHandshake hw result
    · have hquiet := hm'.step_via hcall fun result he hawaits => hw ⟨⟨result, he⟩, hawaits⟩
      exact hquiet.interests_eq fun _ ha => ha.1.not_remembers

theorem Session.requestsOn_stepAt (hs : n.Session conn directory) {t : Nat} {e : Event}
    (hpass : ¬ n.Passes e) (hfit : ∀ c ∈ n.interests.novel n.self (n.calls e), n.Fits c)
    (hr : ¬ (n.stepAt t e).Refuses conn) :
    (n.stepAt t e).requestsOn conn =
      n.requestsOn conn ++
        (n.interests.novel n.self (n.calls e)).map (·.frame n.self directory) := by
  have hs' := hs.tend t
  by_cases hcall : e.MayCall
  · exact (hs'.member.answers_step hcall hpass).asks.log conn directory hs' hfit hr
  · rw [(calls_eq_nil hcall).2]
    have hquiet := hs'.member.step_via hcall fun _ _ => hs'.not_awaits
    exact ((hquiet.mono fun _ ha => ha.1).requestsOn_eq hs'.not_center conn).trans
      (by simp [Interests.novel]; rfl)

theorem Session.stepAt (hs : n.Session conn directory) (t : Nat) (e : Event) :
    (n.stepAt t e).Session conn directory ∨ (n.stepAt t e).Gone conn := by
  refine (stepAt_via n t e).keeps (I := fun k => k.Session conn directory ∨ k.Gone conn)
    (fun k a l hk _ ht => ?_) (.inl hs)
  obtain hsession | hgone := hk
  · exact (ht.session hsession).imp_right (·.2)
  · exact .inr (ht.gone hgone)

theorem Gone.stepAt (hg : n.Gone conn) (t : Nat) (e : Event) : (n.stepAt t e).Gone conn :=
  (stepAt_via n t e).keeps (fun _ _ _ hk _ ht => ht.gone hk) hg

theorem Gone.requestsOn_stepAt (hg : n.Gone conn) (t : Nat) (e : Event) :
    (n.stepAt t e).requestsOn conn = n.requestsOn conn := by
  have hkeep := (stepAt_via n t e).keeps
    (I := fun k => k.Gone conn ∧ k.queuedOn conn = n.queuedOn conn)
    (fun k a l hk _ ht => ⟨ht.gone hk.1, (hk.1.queuedOn_eq ht).trans hk.2⟩) ⟨hg, rfl⟩
  rw [requestsOn, hkeep.2]
  rfl

def callsIn : Node → List (Nat × Event) → List Command
  | _, [] => []
  | n, (t, e) :: rest => n.calls e ++ callsIn (n.stepAt t e) rest

/-- What is new to a node in a run while a link is that of its center, in the order of the calls. -/
def newRequests (conn : ConnId) : Node → List (Nat × Event) → List Command
  | _, [] => []
  | n, (t, e) :: rest =>
    (if n.centerLink? = some conn then n.interests.novel n.self (n.calls e) else []) ++
      newRequests conn (n.stepAt t e) rest

/-- The requests that a node queues on a link in a run, besides frames that its owner sends through
it. -/
def ownRequests (conn : ConnId) : Node → List (Nat × Event) → List Frame
  | _, [] => []
  | n, (t, e) :: rest =>
    (if n.Passes e then []
      else ((n.stepAt t e).requestsOn conn).drop (n.requestsOn conn).length) ++
      ownRequests conn (n.stepAt t e) rest

variable {events : List (Nat × Event)}

theorem run_nil (n : Node) : n.run [] = n := rfl

theorem run_cons (n : Node) (t : Nat) (e : Event) (rest : List (Nat × Event)) :
    n.run ((t, e) :: rest) = (n.stepAt t e).run rest := rfl

theorem run_concat (n : Node) (before : List (Nat × Event)) (t : Nat) (e : Event) :
    n.run (before ++ [(t, e)]) = (n.run before).stepAt t e := run_append ..

theorem Member.stepAt (hm : n.Member) (t : Nat) (e : Event) : (n.stepAt t e).Member :=
  (stepAt_via n t e).member hm

theorem Member.interests_run (hm : n.Member) (events : List (Nat × Event)) :
    (n.run events).interests = n.interests.after n.self (n.callsIn events) := by
  induction events generalizing n with
  | nil => rfl
  | cons x rest ih =>
    obtain ⟨t, e⟩ := x
    rw [run_cons, ih (hm.stepAt t e), hm.interests_stepAt, (stepAt_via n t e).self_eq, callsIn,
      Interests.after_append]

theorem Member.mem_requests_run (hm : n.Member) (hc : c ∈ n.interests.requests) :
    c ∈ (n.run events).interests.requests := by
  rw [hm.interests_run]
  exact (Interests.perm_requests_after ..).mem_iff.2 (List.mem_append_left _ hc)

namespace Gone

theorem newRequests_eq_nil (hg : n.Gone conn) (events : List (Nat × Event)) :
    n.newRequests conn events = [] := by
  induction events generalizing n with
  | nil => rfl
  | cons x rest ih =>
    obtain ⟨t, e⟩ := x
    rw [newRequests, if_neg hg.centerLink?, ih (hg.stepAt t e)]
    rfl

theorem ownRequests_eq_nil (hg : n.Gone conn) (events : List (Nat × Event)) :
    n.ownRequests conn events = [] := by
  induction events generalizing n with
  | nil => rfl
  | cons x rest ih =>
    obtain ⟨t, e⟩ := x
    rw [ownRequests, hg.requestsOn_stepAt, List.drop_length, ite_self, ih (hg.stepAt t e)]
    rfl

end Gone

namespace Session

theorem ownRequests_eq (hs : n.Session conn directory)
    (hfit : ∀ c ∈ (n.run events).interests.requests, n.Fits c)
    (hr : ∀ k, ¬ (n.run (events.take k)).Refuses conn) :
    n.ownRequests conn events = (n.newRequests conn events).map (·.frame n.self directory) := by
  induction events generalizing n with
  | nil => rfl
  | cons x rest ih =>
    obtain ⟨t, e⟩ := x
    have hm := hs.member
    have hvia := stepAt_via n t e
    have hrefuse : ¬ (n.stepAt t e).Refuses conn := hr 1
    have hrest : (n.stepAt t e).ownRequests conn rest =
        ((n.stepAt t e).newRequests conn rest).map (·.frame n.self directory) := by
      obtain hsession | hgone := hs.stepAt t e
      · have hnext := ih hsession (fun c hc => hvia.fits_iff.2 (hfit c hc)) fun k => hr (k + 1)
        rw [hnext, hvia.self_eq]
      · rw [hgone.ownRequests_eq_nil, hgone.newRequests_eq_nil, List.map_nil]
    rw [ownRequests, newRequests, if_pos hs.centerLink?, List.map_append, hrest]
    congr 1
    by_cases hpass : n.Passes e
    · rw [if_pos hpass, (via_of_passes hpass).2.2]
      rfl
    · have hnovel : ∀ c ∈ n.interests.novel n.self (n.calls e), n.Fits c := by
        intro c hc
        refine hfit c ((hm.stepAt t e).mem_requests_run ?_)
        rw [hm.interests_stepAt]
        exact (Interests.perm_requests_after ..).mem_iff.2 (List.mem_append_right _ hc)
      rw [if_neg hpass, hs.requestsOn_stepAt hpass hnovel hrefuse, List.drop_left]

/-- What was remembered and what is new in a session is all that is remembered when the session
ends, and while it lasts that is what the node remembers. -/
theorem exists_perm (hs : n.Session conn directory) (hd : n.interests.Distinct)
    (events : List (Nat × Event)) :
    ∃ i : Interests, i.Distinct ∧
      (n.interests.requests ++ n.newRequests conn events).Perm i.requests ∧
      ((n.run events).centerLink? = some conn → i = (n.run events).interests) := by
  induction events generalizing n with
  | nil => exact ⟨n.interests, hd, by simp [newRequests], fun _ => rfl⟩
  | cons x rest ih =>
    obtain ⟨t, e⟩ := x
    have hm := hs.member
    have hinterests := hm.interests_stepAt t e
    have hd' : (n.stepAt t e).interests.Distinct := hinterests ▸ hd.after n.self (n.calls e)
    have hperm : (n.stepAt t e).interests.requests.Perm
        (n.interests.requests ++ n.interests.novel n.self (n.calls e)) :=
      hinterests ▸ Interests.perm_requests_after ..
    rw [newRequests, if_pos hs.centerLink?, ← List.append_assoc, run_cons]
    obtain hsession | hgone := hs.stepAt t e
    · obtain ⟨i, hi, hrest, hlast⟩ := ih hsession hd'
      exact ⟨i, hi, (hperm.symm.append_right _).trans hrest, hlast⟩
    · refine ⟨(n.stepAt t e).interests, hd', ?_, fun hl => ?_⟩
      · rw [hgone.newRequests_eq_nil, List.append_nil]
        exact hperm.symm
      · have hgone' : ((n.stepAt t e).run rest).Gone conn :=
          run_keeps (fun _ _ _ hk ht => ht.gone hk) hgone rest
        exact absurd hl hgone'.centerLink?

end Session

section Start

variable {profile : Profile} {catalog : Catalog} {port : UInt16} {now : Nat} {calls : List Command}

/-- A handshake is completed, after some calls: the node has a link to the center with a directory.
It is the handshake that the node starts with, or a later one that the entry of the center waits
for. -/
inductive Completes (profile : Profile) (catalog : Catalog) (port : UInt16) (now : Nat) :
    List Command → Node → ConnId → Handle → Prop where
  | first {n : Node} {h : Handshake} (started : start profile catalog port now (.ok h) = .ok n)
      (member : n.registry? = none) :
      Completes profile catalog port now [] n (idle profile catalog port now).links.nextId.1
        h.greeting.center
  | again {result : Except Fault Handshake} {n₀ : Node} {h : Handshake}
      (started : start profile catalog port now result = .ok n₀) (before : List (Nat × Event))
        (t : Nat)
      (awaited : (n₀.run before).Awaits) (judged : (n₀.run before).judge (.ok h) = .ok h) :
      Completes profile catalog port now (n₀.callsIn before)
        ((n₀.run before).stepAt t (.handshake (.ok h))) (n₀.run before).links.nextId.1
          h.greeting.center

/-- When a handshake is completed a session has begun, the registration is not too long, and the
node remembers what it was called for. -/
theorem Completes.opened (hc : Completes profile catalog port now calls n conn directory) :
    n.Opened conn directory ∧ n.Fits (.register n.announcement) ∧
      n.interests = ({} : Interests).after n.self calls := by
  cases hc with
  | first started member =>
    obtain ⟨hopened, hi, hfit⟩ := opened_of_start started member
    exact ⟨hopened, hfit, hi⟩
  | @again result n₀ h started before t awaited judged =>
    have hm : n₀.Member := ⟨ordered_of_run started [], not_center_of_run awaited.not_center⟩
    have htend : Takes (n₀.run before) .tend { n₀.run before with now := t } := .tend t _
    have hvia : n₀.Via (fun _ => True) ((n₀.run before).stepAt t (.handshake (.ok h))) :=
      (run_via n₀ before).trans (stepAt_via _ _ _)
    obtain ⟨hopened, hi⟩ :=
      opened_of_handshake (htend.ordered (ordered_of_run started before)) awaited judged
    have hrun := hm.interests_run before
    obtain ⟨h₀, m₀, rfl, -⟩ := join_of_start started hm.not_center
    obtain ⟨-, hnone, hfit⟩ := opened_of_start started hm.not_center
    refine ⟨hopened, ?_, hi.trans ?_⟩
    · rw [hvia.announcement_eq hm.ordered]
      exact hvia.fits_iff.2 hfit
    · rw [hvia.self_eq, ← hnone]
      exact hrun

end Start

end Meshwork.Node
