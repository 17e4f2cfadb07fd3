import Meshwork.Toml.Reader

/-!
# Numbers

Integers have 64 bits and a sign. Of a real number only the form is read, and whether it is too
large to be finite.
-/

namespace Meshwork.Toml

open Reader

def digitRun (isDigit : Char → Bool) : Reader (List Char) := do
  let d ← charOf isDigit
  let ds ← many (do
    let _ ← maybe (char '_')
    charOf isDigit)
  return d :: ds

def sign : Reader Bool := do
  return (← maybe (char '-' <|> char '+')) == some '-'

def wholeDigits : Reader (List Char) := do
  match ← rest with
  | '0' :: _ => return [← char '0']
  | _ => digitRun Char.isDigit

def int64Of? (n : Int) : Option Int :=
  if Int64.minValue.toInt ≤ n ∧ n ≤ Int64.maxValue.toInt then some n else none

def basedInteger (mark : Char) (base : Nat) : Reader Int := do
  text ['0', mark]
  let ds ← digitRun fun c => (Numeral.digit? base c).isSome
  StateT.lift ((Numeral.readDigits? base 0 ds).bind fun n => int64Of? n)

def decimalInteger : Reader Int := do
  let negative ← sign
  let ds ← wholeDigits
  StateT.lift ((Numeral.readDigits? 10 0 ds).bind fun n => int64Of? (if negative then -n else n))

def integer : Reader Int :=
  basedInteger 'x' 16 <|> basedInteger 'o' 8 <|> basedInteger 'b' 2 <|> decimalInteger

def fraction : Reader (List Char) := do
  let _ ← char '.'
  digitRun Char.isDigit

def exponent : Reader Int := do
  let _ ← charOf fun c => c == 'e' || c == 'E'
  let negative ← sign
  let ds ← digitRun Char.isDigit
  match Numeral.readDigits? 10 0 ds with
  | some n => return if negative then -n else n
  | none => failure

/-- Half way between the largest double and the next power of two. -/
def doubleLimit : Nat := Nat.pow 2 1024 - Nat.pow 2 970

/-- The number `m * 10 ^ e` is nearer to infinity than to any double. -/
def overflows (m : Nat) (e : Int) : Bool :=
  -- Far from the limit the power need not be computed.
  let size := (Numeral.digits m).length + e
  if m = 0 ∨ size ≤ 308 then false
  else if 310 ≤ size then true
  else if 0 ≤ e then doubleLimit ≤ m * Nat.pow 10 e.toNat
  else doubleLimit * Nat.pow 10 (-e).toNat ≤ m

def finite : Reader Unit := do
  let negative ← sign
  let whole ← wholeDigits
  let frac ← maybe fraction
  let exp ← maybe exponent
  if frac.isNone ∧ exp.isNone then failure
  let places := frac.getD []
  match Numeral.readDigits? 10 0 (whole ++ places) with
  | some m => if !negative && overflows m (exp.getD 0 - places.length) then failure
  | none => failure

def special : Reader Unit := do
  let _ ← sign
  text ['i', 'n', 'f'] <|> text ['n', 'a', 'n']

def real : Reader Unit := finite <|> special

end Meshwork.Toml
