import SimKernel.Binary64.Basic

/-!
# Decimal text of doubles

A finite double written with a fixed number of decimal places: the exact rational is rounded once, to the even last
digit at a tie.
-/

namespace SimKernel.Binary64

/-- `n` in base ten with at least `width` digits. -/
def paddedDigits (width n : Nat) : List Char :=
  let digits := Nat.toDigits 10 n
  List.replicate (width - digits.length) '0' ++ digits

/-- The number with `places` digits after the point. -/
def toFixed (places : Nat) (x : Binary64) : String :=
  match x.value with
  | .nan => "NaN"
  | .infinite negative => if negative then "-inf" else "inf"
  | .finite negative m e =>
    let unit := Nat.pow 10 places
    let units := Rounding.halfEven (m <<< e.toNat * unit) (1 <<< (-e).toNat)
    let whole := Nat.toDigits 10 (units / unit)
    let fraction := if places = 0 then [] else '.' :: paddedDigits places (units % unit)
    String.ofList ((if negative then ['-'] else []) ++ whole ++ fraction)

end SimKernel.Binary64
