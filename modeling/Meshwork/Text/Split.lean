/-!
# Cutting text at separators

`runs` gives the maximal runs of characters that are no separators, so any number of separators may
stand between two runs, before the first and after the last. Main statement: `runs_joined`, runs
with one separator between neighbours are read back.
-/

namespace Meshwork.Text

def startsRun (sep : Char → Bool) : List Char → Bool
  | [] => false
  | c :: _ => !sep c

/-- Puts a character in front of the runs of the text that follows it, as a run of its own or as
part of the first. -/
def consRun (c : Char) (joined : Bool) : List (List Char) → List (List Char)
  | [] => [[c]]
  | w :: ws => if joined then (c :: w) :: ws else [c] :: w :: ws

def runs (sep : Char → Bool) : List Char → List (List Char)
  | [] => []
  | c :: cs => if sep c then runs sep cs else consRun c (startsRun sep cs) (runs sep cs)

def IsRun (sep : Char → Bool) (w : List Char) : Prop := w ≠ [] ∧ ∀ c ∈ w, sep c = false

def joined (c : Char) : List (List Char) → List Char
  | [] => []
  | [w] => w
  | w :: ws => w ++ c :: joined c ws

def splitFirst? (c : Char) : List Char → Option (List Char × List Char)
  | [] => none
  | d :: ds => if d = c then some ([], ds) else (splitFirst? c ds).map fun p => (d :: p.1, p.2)

def splitLast? (c : Char) : List Char → Option (List Char × List Char)
  | [] => none
  | d :: ds =>
    match splitLast? c ds with
    | some p => some (d :: p.1, p.2)
    | none => if d = c then some ([], ds) else none

section

variable {sep : Char → Bool} {c : Char} {w : List Char} {ws : List (List Char)}

theorem runs_sep (h : sep c = true) (cs : List Char) : runs sep (c :: cs) = runs sep cs := by
  rw [runs, if_pos h]

theorem runs_cons (h : sep c = false) (cs : List Char) :
    runs sep (c :: cs) = consRun c (startsRun sep cs) (runs sep cs) := by
  simp only [runs, h, Bool.false_eq_true, if_false]

theorem runs_of_isRun (hw : IsRun sep w) : runs sep w = [w] := by
  obtain ⟨hne, hb⟩ := hw
  induction w with
  | nil => exact absurd rfl hne
  | cons c cs ih =>
    have hc : sep c = false := hb c (by simp)
    rw [runs_cons hc]
    cases cs with
    | nil => rfl
    | cons d ds =>
      have hd : sep d = false := hb d (by simp)
      rw [ih (by simp) (fun x hx => hb x (List.mem_cons_of_mem c hx))]
      simp [startsRun, consRun, hd]

theorem runs_append_sep (hw : IsRun sep w) (hsep : sep c = true) (rest : List Char) :
    runs sep (w ++ c :: rest) = w :: runs sep rest := by
  obtain ⟨hne, hb⟩ := hw
  induction w with
  | nil => exact absurd rfl hne
  | cons a cs ih =>
    have ha : sep a = false := hb a (by simp)
    rw [List.cons_append, runs_cons ha]
    cases cs with
    | nil =>
      rw [List.nil_append, runs_sep hsep]
      cases runs sep rest <;> simp [startsRun, consRun, hsep]
    | cons d ds =>
      have hd : sep d = false := hb d (by simp)
      rw [ih (by simp) (fun x hx => hb x (List.mem_cons_of_mem a hx))]
      simp [startsRun, consRun, hd]

theorem runs_joined (hsep : sep c = true) (h : ∀ w ∈ ws, IsRun sep w) :
    runs sep (joined c ws) = ws := by
  induction ws with
  | nil => rfl
  | cons w ws ih =>
    have hw := h w (by simp)
    have hws := ih (fun v hv => h v (List.mem_cons_of_mem w hv))
    cases ws with
    | nil => exact runs_of_isRun hw
    | cons v vs => rw [joined, runs_append_sep hw hsep, hws]; simp

theorem mem_joined {d : Char} (h : d ∈ joined c ws) : d = c ∨ ∃ w ∈ ws, d ∈ w := by
  induction ws with
  | nil => cases h
  | cons w rest ih =>
    cases rest with
    | nil => exact .inr ⟨w, List.mem_cons_self .., h⟩
    | cons v vs =>
      rw [joined, List.mem_append, List.mem_cons] at h
      · rcases h with h | h | h
        · exact .inr ⟨w, List.mem_cons_self .., h⟩
        · exact .inl h
        · exact (ih h).imp_right fun ⟨u, hu, hd⟩ => ⟨u, List.mem_cons_of_mem w hu, hd⟩
      · simp

theorem isRun_of_mem_runs {cs : List Char} (h : w ∈ runs sep cs) : IsRun sep w := by
  induction cs generalizing w with
  | nil => simp [runs] at h
  | cons c cs ih =>
    by_cases hc : sep c = true
    · rw [runs_sep hc] at h
      exact ih h
    · rw [runs_cons (by simpa using hc)] at h
      have hsingle : IsRun sep [c] := ⟨by simp, by simpa using hc⟩
      cases hr : runs sep cs with
      | nil =>
        rw [hr, consRun, List.mem_singleton] at h
        exact h ▸ hsingle
      | cons v vs =>
        rw [hr] at h ih
        have hv := ih (w := v) (by simp)
        cases hj : startsRun sep cs with
        | false =>
          simp only [consRun, hj, Bool.false_eq_true, if_false, List.mem_cons] at h
          rcases h with rfl | h
          · exact hsingle
          · exact ih (by simpa using h)
        | true =>
          simp only [consRun, hj, if_true, List.mem_cons] at h
          rcases h with rfl | h
          · refine ⟨by simp, ?_⟩
            intro d hd
            rcases List.mem_cons.1 hd with rfl | hd
            · simpa using hc
            · exact hv.2 d hd
          · exact ih (List.mem_cons_of_mem v h)

theorem splitFirst?_append (hw : c ∉ w) (rest : List Char) :
    splitFirst? c (w ++ c :: rest) = some (w, rest) := by
  induction w with
  | nil => simp [splitFirst?]
  | cons d ds ih =>
    simp only [List.mem_cons, not_or] at hw
    rw [List.cons_append, splitFirst?, if_neg (fun e => hw.1 e.symm), ih hw.2]
    rfl

theorem splitFirst?_eq_none (hw : c ∉ w) : splitFirst? c w = none := by
  induction w with
  | nil => rfl
  | cons d ds ih =>
    simp only [List.mem_cons, not_or] at hw
    rw [splitFirst?, if_neg (fun e => hw.1 e.symm), ih hw.2]
    rfl

theorem not_mem_of_splitFirst? {cs : List Char} (h : splitFirst? c cs = none) : c ∉ cs := by
  induction cs with
  | nil => simp
  | cons d ds ih =>
    by_cases hd : d = c
    · simp [splitFirst?, hd] at h
    · simp only [splitFirst?, hd, if_false, Option.map_eq_none_iff] at h
      simp [ih h, Ne.symm hd]

theorem eq_append_of_splitFirst? {cs a b : List Char} (h : splitFirst? c cs = some (a, b)) :
    cs = a ++ c :: b ∧ c ∉ a := by
  induction cs generalizing a with
  | nil => simp [splitFirst?] at h
  | cons d ds ih =>
    by_cases hd : d = c
    · simp only [splitFirst?, hd, if_true, Option.some.injEq, Prod.mk.injEq] at h
      obtain ⟨rfl, rfl⟩ := h
      simp [hd]
    · simp only [splitFirst?, hd, if_false, Option.map_eq_some_iff, Prod.mk.injEq] at h
      obtain ⟨p, hp, rfl, rfl⟩ := h
      obtain ⟨h₁, h₂⟩ := ih hp
      refine ⟨by rw [h₁]; rfl, ?_⟩
      simp only [List.mem_cons, not_or]
      exact ⟨fun e => hd e.symm, h₂⟩

theorem splitLast?_eq_none (hw : c ∉ w) : splitLast? c w = none := by
  induction w with
  | nil => rfl
  | cons d ds ih =>
    simp only [List.mem_cons, not_or] at hw
    simpa [splitLast?, ih hw.2] using fun e : d = c => hw.1 e.symm

theorem splitLast?_append {b : List Char} (hb : c ∉ b) (a : List Char) :
    splitLast? c (a ++ c :: b) = some (a, b) := by
  induction a with
  | nil => simp [splitLast?, splitLast?_eq_none hb]
  | cons d ds ih => rw [List.cons_append, splitLast?, ih]

end

end Meshwork.Text
