import Meshwork.Text.Combining
import Meshwork.Text.Numeral
import Meshwork.Text.Printable

/-!
# Quoted text

Text between double quotes, as it stands in messages. Quotes, backslashes and the common control
characters have two-character forms, and what cannot be read on paper (unprintable and combining
characters) stands as its number: `\u`, then the hexadecimal digits in braces.
-/

namespace Meshwork.Quoted

def byNumber (c : Char) : List Char :=
  ['\\', 'u', '\x7b'] ++ Numeral.hexDigits c.toNat ++ ['\x7d']

def encodeChar (c : Char) : List Char :=
  if c = '"' then ['\\', '"']
  else if c = '\\' then ['\\', '\\']
  else if c = '\n' then ['\\', 'n']
  else if c = '\r' then ['\\', 'r']
  else if c = '\t' then ['\\', 't']
  else if c.toNat = 0 then ['\\', '0']
  else if 0x20 ≤ c.toNat ∧ c.toNat < 0x7f then [c]
  else if isCombining c ∨ !isPrintable c then byNumber c
  else [c]

def encode (text : String) : String :=
  String.ofList (['"'] ++ text.toList.flatMap encodeChar ++ ['"'])

end Meshwork.Quoted
