import MachO.Segment

namespace MachO

/-- What a load command holds. -/
inductive LoadCommand where
  | segment (width : Width) (segment : Segment)
  | other (id size : UInt32)
  deriving DecidableEq, Repr

namespace LoadCommand

def segmentId : Width → UInt32
  | .bits32 => 0x01
  | .bits64 => 0x19

def segmentWidth? (id : UInt32) : Option Width :=
  if id = segmentId .bits32 then some .bits32
  else if id = segmentId .bits64 then some .bits64
  else none

def id : LoadCommand → UInt32
  | .segment w _ => segmentId w
  | .other id _ => id

def name : LoadCommand → String
  | .segment .bits32 _ => "LC_SEGMENT"
  | .segment .bits64 _ => "LC_SEGMENT_64"
  | .other .. => "LC_COMMAND"

def segment? : LoadCommand → Option Segment
  | .segment _ g => some g
  | .other .. => none

def isWide : LoadCommand → Bool
  | .segment .bits64 _ => true
  | _ => false

end LoadCommand

/-- A load command and the number of bytes it takes in the file. -/
structure Command where
  content : LoadCommand
  size : Nat
  deriving DecidableEq, Repr

namespace Command

/-- The bytes of the identifier and the size. -/
def headSize : Nat := 8

def decodeBody (r : Reader) (o : ByteOrder) (id size : UInt32) : Scan LoadCommand :=
  match LoadCommand.segmentWidth? id with
  | some w => return .segment w (← Segment.decode r o w (size.toNat - headSize))
  | none => return .other id size

/-- Read one load command, by some arithmetic. It ends as many bytes after its start as it declares,
whatever its body holds. -/
def decodeBy (a : Arithmetic) (r : Reader) (o : ByteOrder) : Scan Command := do
  r.ensureBy a headSize .shortCommand
  let start ← Scan.position
  let id ← r.u32 o
  let size ← r.u32 o
  let stop ← Scan.ofExcept (a.sum start size.toNat)
  if r.length < stop then throw (.shortCommand size.toNat start)
  if size.toNat < headSize then throw (.commandSize size)
  Scan.tell (.commandBegun id size start)
  let content ← decodeBody r o id size
  let next ← Scan.ofExcept (a.sum start size.toNat)
  r.seekTo next
  return ⟨content, size.toNat⟩

/-- Read one load command of a file. Its sums are exact, since in a file none leaves its word. -/
def decode (r : Reader) (o : ByteOrder) : Scan Command := decodeBy .exact r o

end Command

def segmentsOf (commands : List Command) : List Segment := commands.filterMap (·.content.segment?)

def sectionsOf (commands : List Command) : List Section :=
  (segmentsOf commands).flatMap (·.sections)

end MachO
