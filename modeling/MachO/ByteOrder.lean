namespace MachO

/-- The order in which the bytes of a number stand. -/
inductive ByteOrder where
  | little
  | big
  deriving DecidableEq, Repr

namespace ByteOrder

/-- The number whose base 256 digits are given, least significant first. -/
def ofDigits : List UInt8 → Nat
  | [] => 0
  | b :: bs => b.toNat + 256 * ofDigits bs

/-- The lowest `width` base 256 digits of a number, least significant first. -/
def digits : Nat → Nat → List UInt8
  | 0, _ => []
  | width + 1, n => n.toUInt8 :: digits width (n / 256)

def decode : ByteOrder → List UInt8 → Nat
  | .little, bs => ofDigits bs
  | .big, bs => ofDigits bs.reverse

def encode : ByteOrder → Nat → Nat → List UInt8
  | .little, width, n => digits width n
  | .big, width, n => (digits width n).reverse

def name : ByteOrder → String
  | .little => "little endian"
  | .big => "big endian"

end ByteOrder

end MachO
