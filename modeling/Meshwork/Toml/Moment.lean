import Meshwork.Toml.Reader

/-!
# Dates and times

Only their form is read.
-/

namespace Meshwork.Toml

open Reader

def isLeapYear (year : Nat) : Bool := year % 4 == 0 && (year % 100 != 0 || year % 400 == 0)

def daysIn (year month : Nat) : Nat :=
  if month = 2 then if isLeapYear year then 29 else 28
  else if month ∈ [4, 6, 9, 11] then 30
  else 31

def date : Reader Unit := do
  let year ← fixedDigits 4 0 9999
  let _ ← char '-'
  let month ← fixedDigits 2 1 12
  let _ ← char '-'
  let _ ← fixedDigits 2 1 (daysIn year month)

def time : Reader Unit := do
  let _ ← fixedDigits 2 0 23
  let _ ← char ':'
  let _ ← fixedDigits 2 0 59
  let _ ← char ':'
  let _ ← fixedDigits 2 0 60
  let _ ← maybe (do
    let _ ← char '.'
    someCharsOf Char.isDigit)

def offset : Reader Unit :=
  (do
    let _ ← charOf fun c => c == 'Z' || c == 'z') <|>
  (do
    let _ ← charOf fun c => c == '+' || c == '-'
    let _ ← fixedDigits 2 0 23
    let _ ← char ':'
    let _ ← fixedDigits 2 0 59)

def moment : Reader Unit :=
  (do
    date
    let _ ← maybe (do
      let _ ← charOf fun c => c == 'T' || c == 't' || c == ' '
      time
      maybe offset)) <|>
  time

end Meshwork.Toml
