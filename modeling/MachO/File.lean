import MachO.Command

namespace MachO

namespace Header

def decodeFields (r : Reader) (o : ByteOrder) (w : Width) (magic : UInt32) : Scan Header := do
  let cpuType ← r.i32 o
  let cpuSubtype ← r.i32 o
  let fileType ← r.u32 o
  let commandCount ← r.u32 o
  let commandsSize ← r.u32 o
  let flags ← r.u32 o
  match w with
  | .bits32 => pure ()
  | .bits64 => discard (r.u32 o)
  return { magic, cpuType, cpuSubtype, fileType, commandCount, commandsSize, flags }

def decodeBy (a : Arithmetic) (r : Reader) (o : ByteOrder) (w : Width) (magic : UInt32) :
    Scan Header := do
  r.ensureBy a w.headerSize .shortHeader
  decodeFields r o w magic

def decode (r : Reader) (o : ByteOrder) (w : Width) (magic : UInt32) : Scan Header :=
  decodeBy .exact r o w magic

end Header

/-- A file with one image. -/
structure File where
  header : Header
  format : Format
  commands : List Command
  deriving DecidableEq, Repr

namespace File

def magicSize : Nat := 4

def formatOf (bytes : List UInt8) : Except Error Format :=
  let magic := (ByteOrder.little.decode bytes).toUInt32
  match Format.ofMagic? magic with
  | some format => .ok format
  | none =>
      if isContainerMagic magic then .error (.container magic) else .error (.unknownMagic bytes)

/-- Read what follows the magic of a format, by some arithmetic. -/
def decodeFromBy (a : Arithmetic) (r : Reader) (format : Format) : Scan File := do
  let header ← Header.decodeBy a r format.order format.width format.magic
  Scan.tell (.headerRead format header)
  let commands ← (Command.decodeBy a r format.order).replicate header.commandCount.toNat
  Scan.tell (.commandsRead commands.length)
  return { header, format, commands }

def decodeBy (a : Arithmetic) (r : Reader) : Scan File := do
  r.ensureBy a magicSize .shortHeader
  let magic ← r.bytes magicSize
  let format ← Scan.ofExcept (formatOf magic)
  decodeFromBy a r format

/-- Read a file. -/
def decode (r : Reader) : Scan File := decodeBy .exact r

def segments (f : File) : List Segment := segmentsOf f.commands

def sections (f : File) : List Section := sectionsOf f.commands

def findSegment? (f : File) (name : String) : Option Segment := f.segments.find? (·.name == name)

/-- The first section with the name; where an owner is given, among the segments of that name. -/
def findSection? (f : File) (owner : Option String) (name : String) : Option Section :=
  let held := f.segments.filter fun g => owner.all (g.name == ·)
  (held.flatMap (·.sections)).find? (·.name == name)

end File

end MachO
