/-!
# Numerals

Natural numbers as text. Reading is generous: a plus sign and leading zeros are allowed, and
hexadecimal digits may have either case. Writing has one form. Main statements: `read?_decimal` and
`read?_hex4`, so that what is written reads back.
-/

namespace Meshwork.Numeral

def digit? (base : Nat) (c : Char) : Option Nat :=
  let n := c.toNat
  let d :=
    if 48 ≤ n ∧ n ≤ 57 then n - 48
    else if 97 ≤ n ∧ n ≤ 102 then n - 87
    else if 65 ≤ n ∧ n ≤ 70 then n - 55
    else base
  if d < base then some d else none

def readDigits? (base : Nat) : Nat → List Char → Option Nat
  | acc, [] => some acc
  | acc, c :: cs => (digit? base c).bind fun d => readDigits? base (acc * base + d) cs

def readUnsigned? (base : Nat) : List Char → Option Nat
  | [] => none
  | cs => readDigits? base 0 cs

def read? (base : Nat) : List Char → Option Nat
  | '+' :: cs => readUnsigned? base cs
  | cs => readUnsigned? base cs

def readBelow? (base bound : Nat) (text : String) : Option Nat :=
  (read? base text.toList).filter (· < bound)

def digitChar (d : Nat) : Char :=
  Char.ofNat (if d < 10 then d + 48 else d + 87)

/-- The digits of a number, most significant first. -/
def digits (n : Nat) : List Char :=
  if n < 10 then [digitChar n] else digits (n / 10) ++ [digitChar (n % 10)]

def decimal (n : Nat) : String := String.ofList (digits n)

def hex4 (n : Nat) : String :=
  String.ofList
    [digitChar (n / 4096 % 16), digitChar (n / 256 % 16), digitChar (n / 16 % 16),
      digitChar (n % 16)]

def hexDigits (n : Nat) : List Char :=
  if n < 16 then [digitChar n] else hexDigits (n / 16) ++ [digitChar (n % 16)]

private theorem digit?_digitChar_sixteen : ∀ d < 16, digit? 16 (digitChar d) = some d := by decide

private theorem digit?_digitChar_ten : ∀ d < 10, digit? 10 (digitChar d) = some d := by decide

theorem digit?_digitChar {base d : Nat} (hb : base = 10 ∨ base = 16) (h : d < base) :
    digit? base (digitChar d) = some d := by
  rcases hb with rfl | rfl
  · exact digit?_digitChar_ten d h
  · exact digit?_digitChar_sixteen d h

theorem readDigits?_append (base acc : Nat) (a b : List Char) :
    readDigits? base acc (a ++ b) = (readDigits? base acc a).bind fun n =>
      readDigits? base n b := by
  induction a generalizing acc with
  | nil => rfl
  | cons c cs ih =>
    simp only [List.cons_append, readDigits?]
    cases digit? base c with
    | none => rfl
    | some d => exact ih _

private theorem readDigits?_digits (n : Nat) : readDigits? 10 0 (digits n) = some n := by
  induction n using Nat.strongRecOn with
  | ind n ih =>
    rw [digits]
    by_cases h : n < 10
    · simp [h, readDigits?, digit?_digitChar_ten n h]
    · have hd : n % 10 < 10 := Nat.mod_lt _ (by decide)
      rw [if_neg h, readDigits?_append, ih (n / 10) (by omega)]
      simp only [Option.bind_some, readDigits?, digit?_digitChar_ten _ hd]
      exact congrArg some (by omega)

private theorem digits_ne_nil (n : Nat) : digits n ≠ [] := by
  rw [digits]
  by_cases h : n < 10 <;> simp [h]

private theorem digitChar_ne_plus : ∀ d < 16, digitChar d ≠ '+' := by decide

theorem not_mem_digits (n : Nat) (c : Char) (hc : ∀ d < 16, digitChar d ≠ c) : c ∉ digits n := by
  induction n using Nat.strongRecOn with
  | ind n ih =>
    rw [digits]
    by_cases h : n < 10
    · rw [if_pos h]
      simpa using (hc n (by omega)).symm
    · rw [if_neg h]
      have hd := hc (n % 10) (by omega)
      have hq := ih (n / 10) (by omega)
      simp [hq, hd.symm]

theorem read?_eq_readUnsigned? {base : Nat} {cs : List Char} (h : cs.head? ≠ some '+') :
    read? base cs = readUnsigned? base cs := by
  cases cs with
  | nil => rfl
  | cons c cs =>
    have hc : c ≠ '+' := by simpa using h
    rw [read?]
    rintro r hr
    exact hc (List.cons.inj hr).1

private theorem head?_ne_of_not_mem {cs : List Char} {c : Char} (h : c ∉ cs) :
    cs.head? ≠ some c := by
  cases cs with
  | nil => simp
  | cons d ds => simp at h; simpa using fun e => h.1 e.symm

theorem read?_decimal (n : Nat) : read? 10 (decimal n).toList = some n := by
  have hn := not_mem_digits n '+' digitChar_ne_plus
  rw [decimal, String.toList_ofList, read?_eq_readUnsigned? (head?_ne_of_not_mem hn)]
  have hne := digits_ne_nil n
  cases h : digits n with
  | nil => exact absurd h hne
  | cons c cs =>
    show readDigits? 10 0 (c :: cs) = some n
    rw [← h]
    exact readDigits?_digits n

theorem read?_hex4 {n : Nat} (h : n < 65536) : read? 16 (hex4 n).toList = some n := by
  have h₁ : n / 4096 % 16 < 16 := Nat.mod_lt _ (by decide)
  have h₂ : n / 256 % 16 < 16 := Nat.mod_lt _ (by decide)
  have h₃ : n / 16 % 16 < 16 := Nat.mod_lt _ (by decide)
  have h₄ : n % 16 < 16 := Nat.mod_lt _ (by decide)
  rw [hex4, String.toList_ofList, read?_eq_readUnsigned? (by simpa using digitChar_ne_plus _ h₁)]
  simp only [readUnsigned?, readDigits?, digit?_digitChar (.inr rfl) h₁,
    digit?_digitChar (.inr rfl) h₂, digit?_digitChar (.inr rfl) h₃, digit?_digitChar (.inr rfl) h₄,
    Option.bind_some]
  exact congrArg some (by omega)

end Meshwork.Numeral
