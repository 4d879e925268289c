import MachO.File
import MachO.Placement

namespace MachO

open Text

namespace Listing

/-- One line: a label, a blank, a value. -/
def field (label value : String) : String := label ++ " " ++ value ++ "\n"

def hexField (label : String) (digits n : Nat) : String :=
  field label ("0x" ++ hexPadded digits n)

def decimalField (label : String) (n : Nat) : String := field label (decimal n)

def addressDigits (w : Width) : Nat := 2 * w.addressSize

def headerColumns : String :=
  "      magic cputype cpusubtype  caps    filetype ncmds sizeofcmds      flags\n"

/-- A power of two as a number of 64 bits. -/
def powerOfTwo (exponent : UInt32) : Nat := if exponent < 64 then 1 <<< exponent.toNat else 0

/-- A remark behind a value, where it applies. -/
def remark (applies : Bool) (text : String) : String := if applies then " (" ++ text ++ ")" else ""

end Listing

open Listing

def Header.listing (h : Header) : String :=
  "Mach header\n" ++ headerColumns
    ++ " 0x" ++ hexPadded 8 h.magic.toNat
    ++ " " ++ padLeft ' ' 7 (signed h.cpuType.toInt)
    ++ " " ++ padLeft ' ' 10 (signed h.subtypeNumber.toInt)
    ++ "  0x" ++ hexPadded 2 h.capabilities.toUInt32.toNat
    ++ "  " ++ padLeft ' ' 10 (decimal h.fileType.toNat)
    ++ " " ++ padLeft ' ' 5 (decimal h.commandCount.toNat)
    ++ " " ++ padLeft ' ' 10 (decimal h.commandsSize.toNat)
    ++ " 0x" ++ hexPadded 8 h.flags.toNat ++ "\n"

/-- The header of a section as text, in a segment of the given name. -/
def Section.listing (w : Width) (owner : String) (s : Section) : String :=
  "Section\n"
    ++ field "  sectname" s.name
    ++ field "   segname" (s.label ++ remark (owner != s.label) "does not match segment")
    ++ hexField "      addr" (addressDigits w) s.address.toNat
    ++ hexField "      size" (addressDigits w) s.size.toNat
    ++ decimalField "    offset" s.offset.toNat
    ++ field "     align"
      ("2^" ++ decimal s.alignment.toNat ++ " (" ++ decimal (powerOfTwo s.alignment) ++ ")")
    ++ decimalField "    reloff" s.relocationOffset.toNat
    ++ decimalField "    nreloc" s.relocationCount.toNat
    ++ hexField "     flags" 8 s.flags.bits.toNat
    ++ field " reserved1" (decimal s.reserved1.toNat
      ++ remark s.flags.indexesSymbols "index into indirect symbol table")
    ++ field " reserved2" (decimal s.reserved2.toNat
      ++ remark s.flags.holdsStubs "size of stubs")

def Segment.listing (w : Width) (g : Segment) : String :=
  field "  segname" g.name
    ++ hexField "   vmaddr" (addressDigits w) g.address.toNat
    ++ hexField "   vmsize" (addressDigits w) g.memorySize.toNat
    ++ decimalField "  fileoff" g.fileOffset.toNat
    ++ decimalField " filesize" g.fileSize.toNat
    ++ hexField "  maxprot" 8 g.maxProtection.toUInt32.toNat
    ++ hexField " initprot" 8 g.initialProtection.toUInt32.toNat
    ++ decimalField "   nsects" g.sections.length
    ++ hexField "    flags" 1 g.flags.toWord.toNat
    ++ String.join (g.sections.map (·.listing w g.name))

def Command.listing (c : Command) : String :=
  match c.content with
  | .segment w g =>
      field "      cmd" c.content.name ++ decimalField "  cmdsize" c.size ++ g.listing w
  | .other id _ => hexField "      cmd" 8 id.toNat ++ decimalField "  cmdsize" c.size

def Placement.line (p : Placement) : String :=
  "0x" ++ hexPadded 8 p.offset ++ " " ++ padLeft ' ' 16 p.target.label ++ ","
    ++ padRight 16 p.target.name ++ " addr 0x" ++ hexPadded 16 p.target.address.toNat
    ++ " size 0x" ++ hex p.target.size.toNat

/-- The header and the load commands of a file, each as text. -/
def File.listing (f : File) : List String := f.header.listing :: f.commands.map (·.listing)

end MachO
