import DeployManifest.Text.Unprintable

/-!
# Quoted texts

Messages show names and documents between double quotes.  Inside, the quote and the backslash are
escaped, the usual controls have short forms, and a character without a shape of its own is written
by number.  A single quote stays as it is.
-/

namespace DeployManifest.Text

/-- The digits of `n` in base 16, lower case. -/
def hexDigits (n : Nat) : List Char := Nat.toDigits 16 n

/-- One character of a quoted text. -/
def quotedChar (c : Char) : List Char :=
  if c = '\x00' then ['\\', '0']
  else if c = '\t' then ['\\', 't']
  else if c = '\r' then ['\\', 'r']
  else if c = '\n' then ['\\', 'n']
  else if c = '\\' || c = '"' then ['\\', c]
  else if isUnprintable c then
    ['\\', 'u', '\x7b'] ++ hexDigits c.toNat ++ ['\x7d']
  else [c]

/-- The text between double quotes. -/
def quote (s : String) : String :=
  String.ofList ('"' :: s.toList.flatMap quotedChar ++ ['"'])

end DeployManifest.Text
