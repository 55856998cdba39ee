import SimKernel.Bytes.Basic

/-!
# Number fields

The fixed-size unsigned numbers of wire formats: one, two, four or eight bytes in either order.
-/

namespace SimKernel

/-- A number field of a wire format. -/
inductive NumberField where
  | u8
  | u16 (order : ByteOrder)
  | u32 (order : ByteOrder)
  | u64 (order : ByteOrder)
deriving DecidableEq, Repr

namespace NumberField

/-- The number of bytes of the field. -/
def width : NumberField → Nat
  | u8 => 1
  | u16 _ => 2
  | u32 _ => 4
  | u64 _ => 8

def all : List NumberField :=
  [u8, u16 .big, u16 .little, u32 .big, u32 .little, u64 .big, u64 .little]

/-- The short name of the field: its number of bits, and the order of its bytes if there is more than one. -/
def name : NumberField → String
  | u8 => "u8"
  | u16 .big => "u16be"
  | u16 .little => "u16le"
  | u32 .big => "u32be"
  | u32 .little => "u32le"
  | u64 .big => "u64be"
  | u64 .little => "u64le"

def ofName? (name : String) : Option NumberField :=
  all.find? fun field => field.name == name

def order : NumberField → ByteOrder
  | u8 => .big
  | u16 order => order
  | u32 order => order
  | u64 order => order

/-- The bytes of a number, which counts modulo the size of the field. -/
def encode (field : NumberField) (n : Nat) : Bytes :=
  field.order.encode field.width n

def decode (field : NumberField) (bytes : Bytes) : Nat :=
  field.order.decode bytes

@[simp] theorem length_encode (field : NumberField) (n : Nat) : (field.encode n).length = field.width := by
  simp [encode]

/-- A number is read back from its field, up to the size of the field. -/
theorem decode_encode (field : NumberField) (n : Nat) : field.decode (field.encode n) = n % (1 <<< (8 * field.width)) :=
  ByteOrder.decode_encode ..

/-- The bytes of a field are written back from the number that they stand for. -/
theorem encode_decode {field : NumberField} {bytes : Bytes} (h : bytes.length = field.width) :
    field.encode (field.decode bytes) = bytes := by
  rw [encode, decode, ← h]
  exact ByteOrder.encode_decode ..

end NumberField

end SimKernel
