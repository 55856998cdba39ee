/-!
# Buffer errors
-/

namespace SimKernel

/-- The reasons why a buffer refuses an operation. -/
inductive BufferError where
  /-- More bytes were to be removed than there are. -/
  | underflow (requested available : Nat)
  /-- The range does not lie inside the buffer. -/
  | outOfBounds (offset length size : Nat)
deriving DecidableEq, Repr

/-- The text shown for an error. -/
def BufferError.message : BufferError → String
  | underflow requested available =>
    "cannot remove " ++ toString requested ++ " bytes from a buffer of " ++ toString available
  | outOfBounds offset length size =>
    "range " ++ toString offset ++ "+" ++ toString length ++ " is outside a buffer of " ++ toString size ++ " bytes"

end SimKernel
