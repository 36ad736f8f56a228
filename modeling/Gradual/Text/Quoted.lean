import Gradual.Text.CharClass

/-!
# Quoted text: a text between double quotes, on one line and with every character visible

Six characters have short escapes. Every other character that has no visible form, or that would combine with the one before
it, is written as its code point in hexadecimal between braces; all else stands for itself.
-/

namespace Gradual.Text

/-- The hexadecimal digits of a number, lower case and without leading zeros. -/
def hexadecimal (n : Nat) : String := String.ofList (Nat.toDigits 16 n)

/-- The written form of one character inside quotes. -/
def quotedChar (c : Char) : String :=
  if c = '\x00' then "\\0"
  else if c = '\t' then "\\t"
  else if c = '\r' then "\\r"
  else if c = '\n' then "\\n"
  else if c = '"' then "\\\""
  else if c = '\\' then "\\\\"
  else if isExtending c || isUnprintable c then "\\u\x7b" ++ hexadecimal c.toNat ++ "\x7d"
  else c.toString

/-- A text in double quotes. -/
def quoted (s : String) : String := "\"" ++ String.join (s.toList.map quotedChar) ++ "\""

end Gradual.Text
