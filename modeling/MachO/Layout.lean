import MachO.File

/-!
Layouts: what the bytes of a file are. A layout gives for each byte the bits that are fixed and
their values; the other bits are free, and nothing that is read depends on them. Free are the
reserved word of a wide header, the body of a command that is not looked into, what follows the last
section of a segment, what follows the end of a name, and the unknown flags of a segment.
-/

namespace MachO

/-- What is known of a byte: the bits of the mask have the values that they have in `value`. -/
structure Cell where
  mask : UInt8
  value : UInt8
  deriving DecidableEq, Repr

namespace Cell

def exact (b : UInt8) : Cell := ⟨0xFF, b⟩

def free : Cell := ⟨0, 0⟩

def admits (c : Cell) (b : UInt8) : Bool := b &&& c.mask == c.value

end Cell

/-- What is known of bytes in a row. -/
abbrev Layout := List Cell

namespace Layout

/-- The bytes are as the layout says, one for each cell. -/
def admits : Layout → List UInt8 → Bool
  | [], [] => true
  | c :: cs, b :: bs => c.admits b && admits cs bs
  | _, _ => false

/-- The bytes of the layout, free bits being zero. -/
def fill (l : Layout) : List UInt8 := l.map (·.value)

def ofBytes (bs : List UInt8) : Layout := bs.map .exact

def free (n : Nat) : Layout := List.replicate n .free

def u32 (o : ByteOrder) (n : UInt32) : Layout := ofBytes (o.encode 4 n.toNat)

def i32 (o : ByteOrder) (n : Int32) : Layout := u32 o n.toUInt32

def address (o : ByteOrder) (w : Width) (n : UInt64) : Layout :=
  ofBytes (o.encode w.addressSize n.toNat)

/-- A name in its field: what follows the zero byte that ends it is free. -/
def name (s : String) : Layout :=
  let text := Text.Utf8.encode s
  if text.length < nameSize then
    ofBytes (text ++ [0]) ++ free (nameSize - text.length - 1)
  else ofBytes text

/-- The flags of a segment: the unknown bits of the word are free. -/
def segmentFlags (o : ByteOrder) (f : SegmentFlags) : Layout :=
  ((o.encode 4 0xF).zip (o.encode 4 f.toWord.toNat)).map fun (mask, value) => ⟨mask, value⟩

end Layout

def Section.layout (o : ByteOrder) (w : Width) (s : Section) : Layout :=
  .name s.name ++ .name s.label ++ .address o w s.address ++ .address o w s.size
    ++ .u32 o s.offset ++ .u32 o s.alignment ++ .u32 o s.relocationOffset
    ++ .u32 o s.relocationCount ++ .u32 o s.flags.bits ++ .u32 o s.reserved1
    ++ .u32 o s.reserved2
    ++ match w with
      | .bits32 => []
      | .bits64 => .u32 o s.reserved3

def Segment.layout (o : ByteOrder) (w : Width) (g : Segment) : Layout :=
  .name g.name ++ .address o w g.address ++ .address o w g.memorySize
    ++ .address o w g.fileOffset ++ .address o w g.fileSize ++ .i32 o g.maxProtection
    ++ .i32 o g.initialProtection ++ .u32 o g.sectionCount ++ .segmentFlags o g.flags
    ++ g.sections.flatMap (·.layout o w)

def LoadCommand.layout (o : ByteOrder) : LoadCommand → Layout
  | .segment w g => g.layout o w
  | .other .. => []

/-- The layout of a load command: what its body leaves of its size is free. -/
def Command.layout (o : ByteOrder) (c : Command) : Layout :=
  let body := c.content.layout o
  .u32 o c.content.id ++ .u32 o c.size.toUInt32 ++ body
    ++ .free (c.size - headSize - body.length)

/-- The layout of a header behind its magic. -/
def Header.layout (o : ByteOrder) (w : Width) (h : Header) : Layout :=
  .i32 o h.cpuType ++ .i32 o h.cpuSubtype ++ .u32 o h.fileType ++ .u32 o h.commandCount
    ++ .u32 o h.commandsSize ++ .u32 o h.flags
    ++ match w with
      | .bits32 => []
      | .bits64 => .free 4

/-- The layout of a file, up to the end of its last load command. -/
def File.layout (f : File) : Layout :=
  .u32 .little f.format.magic ++ f.header.layout f.format.order f.format.width
    ++ f.commands.flatMap (·.layout f.format.order)

end MachO
