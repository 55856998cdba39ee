/-!
# Decimal digits

Natural numbers as runs of decimal digits. Each further digit multiplies the number read by ten (`ofDigits_concat`).
-/

namespace SimKernel.Text

/-- The number that a decimal digit stands for. -/
def digitValue (c : Char) : Nat :=
  c.toNat - '0'.toNat

/-- The number that a run of decimal digits stands for; the empty run is zero. -/
def ofDigits (s : List Char) : Nat :=
  s.foldl (fun n c => 10 * n + digitValue c) 0

/-- The run without the zeros at its end. -/
def dropTrailingZeros (s : List Char) : List Char :=
  (s.reverse.dropWhile (· == '0')).reverse

@[simp] theorem ofDigits_nil : ofDigits [] = 0 := rfl

/-- One more digit makes the number ten times as great, and adds its value. -/
@[simp] theorem ofDigits_concat (s : List Char) (c : Char) :
    ofDigits (s ++ [c]) = 10 * ofDigits s + digitValue c := by
  simp [ofDigits]

/-- A whole number in base ten, after a minus sign if it is negative. -/
def showInt (n : Int) : List Char :=
  (if n < 0 then ['-'] else []) ++ Nat.toDigits 10 n.natAbs

end SimKernel.Text
