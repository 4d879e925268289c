import MachO.ByteOrder
import MachO.Text.Column

namespace MachO

open Text

/-- The width of the addresses of a file or of a segment. -/
inductive Width where
  | bits32
  | bits64
  deriving DecidableEq, Repr

namespace Width

def addressSize : Width → Nat
  | .bits32 => 4
  | .bits64 => 8

/-- The bytes of the header after the magic; the wide form ends in a reserved word. -/
def headerSize : Width → Nat
  | .bits32 => 24
  | .bits64 => 28

def name : Width → String
  | .bits32 => "Bits32"
  | .bits64 => "Bits64"

end Width

/-- The width and byte order that a magic stands for. -/
structure Format where
  width : Width
  order : ByteOrder
  deriving DecidableEq, Repr

namespace Format

/-- The magic of a format, read as a little endian number. -/
def magic : Format → UInt32
  | ⟨.bits32, .little⟩ => 0xFEEDFACE
  | ⟨.bits32, .big⟩ => 0xCEFAEDFE
  | ⟨.bits64, .little⟩ => 0xFEEDFACF
  | ⟨.bits64, .big⟩ => 0xCFFAEDFE

def all : List Format :=
  [⟨.bits32, .little⟩, ⟨.bits32, .big⟩, ⟨.bits64, .little⟩, ⟨.bits64, .big⟩]

def ofMagic? (magic : UInt32) : Option Format := all.find? fun f => f.magic == magic

theorem ofMagic?_magic (f : Format) : ofMagic? f.magic = some f := by
  obtain ⟨w, o⟩ := f
  cases w <;> cases o <;> rfl

end Format

/-- The magics of a container of several images, in either byte order. -/
def isContainerMagic (magic : UInt32) : Bool := magic == 0xCAFEBABE || magic == 0xBEBAFECA

/-- The header of a Mach-O file. -/
structure Header where
  /-- The magic, read as a little endian number. -/
  magic : UInt32
  cpuType : Int32
  cpuSubtype : Int32
  fileType : UInt32
  commandCount : UInt32
  commandsSize : UInt32
  flags : UInt32
  deriving DecidableEq, Repr, Inhabited

namespace Header

/-- The lowest 24 bits of the processor subtype. -/
def subtypeNumber (h : Header) : Int32 := h.cpuSubtype &&& 0x00FFFFFF

/-- The highest 8 bits of the processor subtype, as a signed number. -/
def capabilities (h : Header) : Int32 := h.cpuSubtype >>> 24

def cpuNames : List (Int32 × String) :=
  [(-1, "any"), (7, "i386"), (0x01000007, "x86_64"), (12, "arm"), (0x0100000C, "arm64"),
    (18, "ppc"), (0x01000012, "ppc64")]

def cpuName? (h : Header) : Option String := cpuNames.lookup h.cpuType

def record (h : Header) : String :=
  "MachHeader \x7b magic: " ++ decimal h.magic.toNat ++ ", cputype: " ++ signed h.cpuType.toInt
    ++ ", cpusubtype: " ++ signed h.cpuSubtype.toInt ++ ", filetype: " ++ decimal h.fileType.toNat
    ++ ", ncmds: " ++ decimal h.commandCount.toNat
    ++ ", sizeofcmds: " ++ decimal h.commandsSize.toNat ++ ", flags: " ++ decimal h.flags.toNat
    ++ " \x7d"

end Header

end MachO
