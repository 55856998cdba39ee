import SimKernel.Json.Basic

/-!
# Reading JSON

A text is a value with blanks around it and nothing else. Escapes of a string may stand for the two halves of a
character beyond the basic plane; halves that do not pair make the string unknown, not the text wrong.
-/

namespace SimKernel.Json

/-- The four characters that may stand between the parts of a text. -/
def isSpace (c : Char) : Bool :=
  c == ' ' || c == '\n' || c == '\t' || c == '\r'

def skipSpace (s : List Char) : List Char := s.dropWhile isSpace

/-! ## Strings -/

/-- The number that a digit of base sixteen stands for. -/
def hexValue? (c : Char) : Option Nat :=
  if c.isDigit then some (c.toNat - '0'.toNat)
  else if 'a' ≤ c ∧ c ≤ 'f' then some (c.toNat - 'a'.toNat + 10)
  else if 'A' ≤ c ∧ c ≤ 'F' then some (c.toNat - 'A'.toNat + 10)
  else none

/-- The number that four digits of base sixteen stand for. -/
def hex4? (a b c d : Char) : Option Nat := do
  return 4096 * (← hexValue? a) + 256 * (← hexValue? b) + 16 * (← hexValue? c) + (← hexValue? d)

/-- The code point that a letter after a backslash stands for. -/
def escaped? (c : Char) : Option Nat :=
  if c = '"' ∨ c = '\\' ∨ c = '/' then some c.toNat
  else if c = 'b' then some 8
  else if c = 'f' then some 12
  else if c = 'n' then some 10
  else if c = 'r' then some 13
  else if c = 't' then some 9
  else none

/-- The codes of a string after its opening quote, and what follows the closing one. -/
def readCodes : List Char → Option (List Nat × List Char)
  | [] => none
  | '"' :: s => some ([], s)
  | '\\' :: 'u' :: a :: b :: c :: d :: s => do
    let code ← hex4? a b c d
    let (codes, rest) ← readCodes s
    return (code :: codes, rest)
  | '\\' :: c :: s => do
    let code ← escaped? c
    let (codes, rest) ← readCodes s
    return (code :: codes, rest)
  | c :: s => do
    if c.toNat < 0x20 then none
    else
      let (codes, rest) ← readCodes s
      return (c.toNat :: codes, rest)

/-- The first half of a pair. -/
def isHigh (n : Nat) : Bool := 0xd800 ≤ n && n < 0xdc00

/-- The second half of a pair. -/
def isLow (n : Nat) : Bool := 0xdc00 ≤ n && n < 0xe000

/-- The characters that codes stand for, unless some half has no partner. -/
def ofCodes : List Nat → Option (List Char)
  | [] => some []
  | [n] => if isHigh n || isLow n then none else some [Char.ofNat n]
  | n :: m :: ns =>
    if isHigh n then
      if isLow m then (ofCodes ns).map (Char.ofNat (0x10000 + 0x400 * (n - 0xd800) + (m - 0xdc00)) :: ·) else none
    else if isLow n then none
    else (ofCodes (m :: ns)).map (Char.ofNat n :: ·)

/-- The content of a string after its opening quote, and what follows the closing one. -/
def readString (s : List Char) : Option (Option (List Char) × List Char) := do
  let (codes, rest) ← readCodes s
  return (ofCodes codes, rest)

/-! ## Numbers -/

/-- One or more digits. -/
def readDigits (s : List Char) : Option (List Char × List Char) :=
  match s.takeWhile Char.isDigit with
  | [] => none
  | digits => some (digits, s.dropWhile Char.isDigit)

/-- The digits before the point: a zero stands alone. -/
def readWhole (s : List Char) : Option (List Char × List Char) :=
  match s with
  | '0' :: rest => some (['0'], rest)
  | _ => readDigits s

/-- A point and digits, if there is a point. -/
def readFraction (s : List Char) : Option (List Char × List Char) :=
  match s with
  | '.' :: rest => (readDigits rest).map fun (digits, rest) => ('.' :: digits, rest)
  | _ => some ([], s)

/-- A sign, if there is one. -/
def readSign (s : List Char) : List Char × List Char :=
  match s with
  | '+' :: rest => (['+'], rest)
  | '-' :: rest => (['-'], rest)
  | _ => ([], s)

/-- The mark of an exponent, its sign and digits, if there is a mark. -/
def readExponent (s : List Char) : Option (List Char × List Char) :=
  match s with
  | [] => some ([], [])
  | c :: rest =>
    if c = 'e' ∨ c = 'E' then
      let (sign, rest) := readSign rest
      (readDigits rest).map fun (digits, rest) => (c :: sign ++ digits, rest)
    else some ([], s)

/-- The characters of a number. -/
def readNumber (s : List Char) : Option (List Char × List Char) := do
  let (sign, s) := match s with
    | '-' :: rest => (['-'], rest)
    | _ => ([], s)
  let (whole, s) ← readWhole s
  let (fraction, s) ← readFraction s
  let (exponent, s) ← readExponent s
  return (sign ++ whole ++ fraction ++ exponent, s)

/-! ## Values -/

mutual

/-- A value at the start of a text, and what follows it. Every value and every item takes one unit of fuel. -/
def readValue : Nat → List Char → Option (Json × List Char)
  | 0, _ => none
  | fuel + 1, s =>
    match skipSpace s with
    | 'n' :: 'u' :: 'l' :: 'l' :: rest => some (null, rest)
    | 't' :: 'r' :: 'u' :: 'e' :: rest => some (bool true, rest)
    | 'f' :: 'a' :: 'l' :: 's' :: 'e' :: rest => some (bool false, rest)
    | '"' :: rest => (readString rest).map fun (s, rest) => (string s, rest)
    | '[' :: rest =>
      match skipSpace rest with
      | ']' :: rest => some (array [], rest)
      | rest => (readItems fuel rest).map fun (items, rest) => (array items, rest)
    | c :: rest =>
      if c = Char.ofNat 0x7b then
        match skipSpace rest with
        | d :: more =>
          if d = Char.ofNat 0x7d then some (object [], more)
          else (readMembers fuel (d :: more)).map fun (members, rest) => (object members, rest)
        | [] => none
      else (readNumber (c :: rest)).map fun (token, rest) => (number token, rest)
    | [] => none

/-- The items of an array, up to its closing bracket. -/
def readItems : Nat → List Char → Option (List Json × List Char)
  | 0, _ => none
  | fuel + 1, s => do
    let (v, rest) ← readValue fuel s
    match skipSpace rest with
    | ',' :: rest =>
      let (vs, rest) ← readItems fuel rest
      return (v :: vs, rest)
    | ']' :: rest => return ([v], rest)
    | _ => none

/-- The members of an object, up to its closing brace. -/
def readMembers : Nat → List Char → Option (List (Option (List Char) × Json) × List Char)
  | 0, _ => none
  | fuel + 1, s =>
    match skipSpace s with
    | '"' :: rest => do
      let (k, rest) ← readString rest
      match skipSpace rest with
      | ':' :: rest =>
        let (v, rest) ← readValue fuel rest
        match skipSpace rest with
        | ',' :: rest =>
          let (ms, rest) ← readMembers fuel rest
          return ((k, v) :: ms, rest)
        | d :: rest => if d = Char.ofNat 0x7d then return ([(k, v)], rest) else none
        | [] => none
      | _ => none
    | _ => none

end

/-- Reads a text that holds one value. -/
def parse (s : List Char) : Option Json := do
  let (v, rest) ← readValue (2 * s.length + 2) s
  if (skipSpace rest).isEmpty then return v else none

end SimKernel.Json
