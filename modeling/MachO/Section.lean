import MachO.Flags
import MachO.Reader

namespace MachO

def nameSize : Nat := 16

/-- The header of a section. -/
structure Section where
  name : String
  /-- The segment that the section says it goes into. -/
  label : String
  address : UInt64
  size : UInt64
  offset : UInt32
  /-- The alignment, as a power of two. -/
  alignment : UInt32
  relocationOffset : UInt32
  relocationCount : UInt32
  flags : SectionFlags
  reserved1 : UInt32
  reserved2 : UInt32
  /-- Stored for wide addresses only. -/
  reserved3 : UInt32
  deriving DecidableEq, Repr, Inhabited

def Width.sectionSize : Width → Nat
  | .bits32 => 68
  | .bits64 => 80

namespace Section

/-- The section has no bytes in the file. -/
def isZero (s : Section) : Bool := s.size == 0 || s.flags.isZeroFill

def decode (r : Reader) (o : ByteOrder) (w : Width) : Scan Section := do
  let name ← r.name nameSize
  let label ← r.name nameSize
  let address ← r.address o w
  let size ← r.address o w
  let offset ← r.u32 o
  let alignment ← r.u32 o
  let relocationOffset ← r.u32 o
  let relocationCount ← r.u32 o
  let flags ← r.u32 o
  let reserved1 ← r.u32 o
  let reserved2 ← r.u32 o
  let reserved3 ← match w with
    | .bits32 => pure 0
    | .bits64 => r.u32 o
  Scan.tell (.sectionRead label name address)
  return {
    name, label, address, size, offset, alignment, relocationOffset, relocationCount,
    flags := ⟨flags⟩, reserved1, reserved2, reserved3 }

/-- The most zeros that a section without bytes in the file may stand for. -/
def zeroLimit : Nat := objectLimit

/-- The bytes of the section. Where it has none in the file the source is left alone. -/
def read (r : Reader) (s : Section) : Scan (List UInt8) :=
  if s.isZero then
    if s.size.toNat ≤ zeroLimit then return List.replicate s.size.toNat 0
    else throw (.outOfRange s.name s.offset.toNat s.size.toNat r.length)
  else r.region s.name s.offset.toNat s.size.toNat

end Section

end MachO
