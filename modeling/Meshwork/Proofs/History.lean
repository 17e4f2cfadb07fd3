import Mathlib.Data.List.Induction
import Mathlib.Data.Set.Card

/-!
# Histories

Calls to a table and their answers, the latest first. Main statement: `Calls.history_induction`,
what every call keeps of a table and its history holds after all calls.
-/

namespace Meshwork

namespace Calls

variable {σ γ α : Type}

def run (call : σ → γ → α × σ) (s : σ) (calls : List γ) : σ :=
  calls.foldl (fun s c => (call s c).2) s

/-- The calls with their answers, the latest first. -/
def history (call : σ → γ → α × σ) : σ → List γ → List (γ × α)
  | _, [] => []
  | s, c :: rest => history call (call s c).2 rest ++ [(c, (call s c).1)]

theorem run_concat (call : σ → γ → α × σ) (s : σ) (calls : List γ) (c : γ) :
    run call s (calls ++ [c]) = (call (run call s calls) c).2 := by
  simp [run]

theorem history_concat (call : σ → γ → α × σ) (s : σ) (calls : List γ) (c : γ) :
    history call s (calls ++ [c]) = (c, (call (run call s calls) c).1) :: history call s calls := by
  induction calls generalizing s with
  | nil => rfl
  | cons d rest ih => simp [history, ih, run]

theorem history_induction {call : σ → γ → α × σ} {P : List (γ × α) → σ → Prop} {s : σ}
    (hnil : P [] s) (hcall : ∀ past t c, P past t → P ((c, (call t c).1) :: past) (call t c).2)
    (calls : List γ) :
    P (history call s calls) (run call s calls) := by
  induction calls using List.reverseRecOn with
  | nil => exact hnil
  | append_singleton calls c ih =>
    rw [history_concat, run_concat]
    exact hcall _ _ c ih

/-- In a history with a new head, an entry with only entries of one kind since is the head, or was
such an entry and the head is of that kind. -/
theorem cons_eq_append_cons_iff {x y : α} {past since : List α} {p : α → Prop} :
    (∃ before, x :: past = since ++ y :: before ∧ ∀ z ∈ since, p z) ↔
      since = [] ∧ x = y ∨
        ∃ since', since = x :: since' ∧ p x ∧ ∃ before, past = since' ++ y :: before ∧ ∀ z ∈ since',
          p z := by
  constructor
  · rintro ⟨before, heq, hp⟩
    obtain ⟨rfl, hcut⟩ | ⟨since, rfl, rfl⟩ := List.cons_eq_append_iff.1 heq
    · exact .inl ⟨rfl, (List.cons.inj hcut).1.symm⟩
    · rw [List.forall_mem_cons] at hp
      exact .inr ⟨since, rfl, hp.1, before, rfl, hp.2⟩
  · rintro (⟨rfl, rfl⟩ | ⟨since, rfl, hx, before, rfl, hp⟩)
    · exact ⟨past, rfl, nofun⟩
    · exact ⟨before, rfl, List.forall_mem_cons.2 ⟨hx, hp⟩⟩

end Calls

theorem encard_eq_length {α : Type} {p : α → Prop} {l : List α} (hl : l.Nodup)
    (hp : ∀ a, a ∈ l ↔ p a) : {a | p a}.encard = l.length := by
  have hset : {a | p a} = ((⟨l, Multiset.coe_nodup.2 hl⟩ : Finset α) : Set α) := by
    ext a
    exact (hp a).symm
  rw [hset, Set.encard_coe_eq_coe_finsetCard, Finset.card_mk, Multiset.coe_card]

end Meshwork
