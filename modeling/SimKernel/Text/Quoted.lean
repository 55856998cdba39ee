import SimKernel.Text.Unprintable

/-!
# Quoted text

Text between double quotes, as error messages show it: a double quote and a backslash are preceded by a backslash, and
a character without a mark of its own is replaced by an escape.
-/

namespace SimKernel.Text

/-- The digits of `n` in base sixteen, in lower case. -/
def hexDigits (n : Nat) : List Char :=
  Nat.toDigits 16 n

/-- A character as it is written between quotes. -/
def quotedChar (c : Char) : List Char :=
  if c = '"' ∨ c = '\\' then ['\\', c]
  else if c = '\t' then ['\\', 't']
  else if c = '\n' then ['\\', 'n']
  else if c = '\r' then ['\\', 'r']
  else if c = Char.ofNat 0 then ['\\', '0']
  else if isUnprintable c then ['\\', 'u', Char.ofNat 0x7b] ++ hexDigits c.toNat ++ [Char.ofNat 0x7d]
  else [c]

/-- The text between double quotes. -/
def quote (s : List Char) : String :=
  String.ofList ('"' :: s.flatMap quotedChar ++ ['"'])

end SimKernel.Text
