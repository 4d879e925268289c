import MachO.Section

namespace MachO

/-- A segment with its sections. -/
structure Segment where
  name : String
  address : UInt64
  memorySize : UInt64
  fileOffset : UInt64
  fileSize : UInt64
  maxProtection : Int32
  initialProtection : Int32
  /-- How many sections the segment announces. -/
  sectionCount : UInt32
  flags : SegmentFlags
  sections : List Section
  deriving DecidableEq, Repr, Inhabited

/-- The bytes of a segment before its first section. -/
def Width.segmentSize : Width → Nat
  | .bits32 => 48
  | .bits64 => 64

namespace Segment

/-- Read `count` section headers out of `left` bytes. -/
def decodeSections (r : Reader) (o : ByteOrder) (w : Width) : Nat → Nat → Scan (List Section)
  | 0, _ => return []
  | count + 1, left => do
      if left < w.sectionSize then throw (.shortSection w.sectionSize left)
      let s ← Section.decode r o w
      let rest ← decodeSections r o w count (left - w.sectionSize)
      return s :: rest

def mislabelled (g : Segment) : List Section := g.sections.filter (·.label != g.name)

/-- Read a segment out of the `left` bytes of a load command. -/
def decode (r : Reader) (o : ByteOrder) (w : Width) (left : Nat) : Scan Segment := do
  if left < w.segmentSize then throw (.shortSegment w.segmentSize left)
  let name ← r.name nameSize
  let address ← r.address o w
  let memorySize ← r.address o w
  let fileOffset ← r.address o w
  let fileSize ← r.address o w
  let maxProtection ← r.i32 o
  let initialProtection ← r.i32 o
  let sectionCount ← r.u32 o
  let flags ← r.u32 o
  let sections ← decodeSections r o w sectionCount.toNat (left - w.segmentSize)
  let segment : Segment := {
    name, address, memorySize, fileOffset, fileSize, maxProtection, initialProtection,
    sectionCount, flags := .ofWord flags, sections }
  Scan.tellAll (segment.mislabelled.map fun s => .mislabelled s.name s.label name)
  return segment

def read (r : Reader) (g : Segment) : Scan (List UInt8) :=
  r.region g.name g.fileOffset.toNat g.fileSize.toNat

end Segment

end MachO
