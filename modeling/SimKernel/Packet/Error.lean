import SimKernel.Buffer.Error

/-!
# Packet errors
-/

namespace SimKernel

/-- The reasons why a packet, or the reading or writing of one of its fields, fails. -/
inductive PacketError where
  | buffer (e : BufferError)
  /-- A field does not fit into what is left of the window. -/
  | truncated (needed available : Nat)
  /-- A format processed another number of bytes than it reported. -/
  | sizeMismatch (name : String) (reported actual : Nat)
  | tagRangeOutOfBounds (start stop size : Nat)
  /-- The bytes are no value of the format. -/
  | malformed (name reason : String)
deriving DecidableEq, Repr

/-- The text shown for an error. -/
def PacketError.message : PacketError → String
  | buffer e => e.message
  | truncated needed available => "truncated: need " ++ toString needed ++ " bytes, have " ++ toString available
  | sizeMismatch name reported actual =>
    name ++ ": serialized size is " ++ toString reported ++ " bytes but " ++ toString actual ++ " were processed"
  | tagRangeOutOfBounds start stop size =>
    "byte tag range " ++ toString start ++ ".." ++ toString stop ++ " is outside a packet of " ++ toString size ++
      " bytes"
  | malformed name reason => name ++ ": malformed: " ++ reason

end SimKernel
