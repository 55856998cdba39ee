import SimKernel.Bytes.Basic

/-!
# Bytes as text

A byte string is written with two digits of base sixteen for each byte, in lower case. A long one is summed up by its
length and a digest of 64 bits.
-/

namespace SimKernel.Bytes

/-- A number in base sixteen, with zeros up to the given width. -/
def hexNumber (width n : Nat) : List Char :=
  let digits := Nat.toDigits 16 n
  List.replicate (width - digits.length) '0' ++ digits

/-- Two digits for each byte. -/
def toHex (bytes : Bytes) : String :=
  String.ofList (bytes.flatMap fun b => hexNumber 2 b.toNat)

/-- The number that a digit of base sixteen stands for. -/
def hexDigitValue (c : Char) : Nat :=
  if c.isDigit then c.toNat - '0'.toNat else c.toLower.toNat - 'a'.toNat + 10

/-- The number that digits of base sixteen stand for. -/
def hexValue (s : List Char) : Nat :=
  s.foldl (fun n c => 16 * n + hexDigitValue c) 0

/-- The bytes that pairs of digits stand for; a digit without a partner is left out. -/
def ofHex : List Char → Bytes
  | a :: b :: rest => UInt8.ofNat (hexValue [a, b]) :: ofHex rest
  | _ => []

/-- A digest of 64 bits: each byte is mixed in and the sum multiplied by a prime. -/
def digest (bytes : Bytes) : UInt64 :=
  bytes.foldl (fun h b => (h ^^^ b.toUInt64) * 0x100000001b3) 0xcbf29ce484222325

/-- The bytes up to `limit` of them, and otherwise their number and digest. -/
def summary (limit : Nat) (bytes : Bytes) : String :=
  if limit < bytes.length then
    "len:" ++ toString bytes.length ++ ",fnv1a64:" ++ String.ofList (hexNumber 16 (digest bytes).toNat)
  else toHex bytes

end SimKernel.Bytes
