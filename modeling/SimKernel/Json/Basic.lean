import SimKernel.Text.Digits

/-!
# JSON values

The values of the JSON data format and their compact text. A number keeps the characters that it is written with. A
string is unknown if it is written with escapes that stand for no character; such strings may occur where nobody looks
at them.
-/

namespace SimKernel

/-- A JSON value. -/
inductive Json where
  | null
  | bool (b : Bool)
  | number (token : List Char)
  | string (s : Option (List Char))
  | array (items : List Json)
  | object (members : List (Option (List Char) × Json))

namespace Json

/-- The value as a text. -/
def text? : Json → Option (List Char)
  | string s => s
  | _ => none

/-- The value as a natural number, written with digits only. -/
def nat? : Json → Option Nat
  | number token => if token.all Char.isDigit && !token.isEmpty then some (Text.ofDigits token) else none
  | _ => none

/-! ## Text -/

/-- A character inside a string. -/
def writeChar (c : Char) : List Char :=
  if c = '"' ∨ c = '\\' then ['\\', c]
  else if c = '\n' then ['\\', 'n']
  else if c = '\r' then ['\\', 'r']
  else if c = '\t' then ['\\', 't']
  else if c.toNat = 8 then ['\\', 'b']
  else if c.toNat = 12 then ['\\', 'f']
  else if c.toNat < 0x20 then
    ['\\', 'u', '0', '0'] ++ (if c.toNat < 0x10 then ['0'] else []) ++ Nat.toDigits 16 c.toNat
  else [c]

def writeString (s : List Char) : List Char :=
  '"' :: s.flatMap writeChar ++ ['"']

mutual

/-- The value without blanks; a string with unknown content is written empty. -/
def write : Json → List Char
  | null => ['n', 'u', 'l', 'l']
  | bool true => ['t', 'r', 'u', 'e']
  | bool false => ['f', 'a', 'l', 's', 'e']
  | number token => token
  | string s => writeString (s.getD [])
  | array items => '[' :: writeItems items
  | object members => Char.ofNat 0x7b :: writeMembers members

/-- The items of an array and the bracket after them. -/
def writeItems : List Json → List Char
  | [] => [']']
  | [v] => write v ++ [']']
  | v :: vs => write v ++ ',' :: writeItems vs

/-- The members of an object and the brace after them. -/
def writeMembers : List (Option (List Char) × Json) → List Char
  | [] => [Char.ofNat 0x7d]
  | [(k, v)] => writeString (k.getD []) ++ ':' :: write v ++ [Char.ofNat 0x7d]
  | (k, v) :: ms => writeString (k.getD []) ++ ':' :: write v ++ ',' :: writeMembers ms

end

end Json

end SimKernel
