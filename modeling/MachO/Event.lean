import MachO.Header
import MachO.Summary

namespace MachO

open Text

/-- Levels of detail, the most severe first. -/
inductive Level where
  | error
  | warn
  | info
  | debug
  | trace
  deriving DecidableEq, Repr

namespace Level

def rank : Level → Nat
  | .error => 0
  | .warn => 1
  | .info => 2
  | .debug => 3
  | .trace => 4

def name : Level → String
  | .error => "ERROR"
  | .warn => "WARN"
  | .info => "INFO"
  | .debug => "DEBUG"
  | .trace => "TRACE"

/-- Events of level `l` are told when `self` is the least severe level asked for. -/
def admits (self l : Level) : Bool := l.rank ≤ self.rank

end Level

/-- Something that happened. -/
inductive Event where
  | headerRead (format : Format) (header : Header)
  | commandsRead (count : Nat)
  | commandBegun (id size : UInt32) (position : Nat)
  | sectionRead (label name : String) (address : UInt64)
  /-- A section is labelled with another segment than the one that holds it. -/
  | mislabelled (name label owner : String)
  | regionBegun (name : String) (offset size : Nat)
  | zeroSkipped (label name : String)
  /-- The first section to be placed fixes the origin of the output. -/
  | originFixed (address : UInt64) (label name : String)
  | planned (count : Nat)
  | writeBegun (label name : String) (length offset : Nat)
  | extracted (summary : Summary)
  | finished (summary : Summary)
  deriving DecidableEq, Repr

namespace Event

def level : Event → Level
  | .headerRead .. | .commandsRead .. | .originFixed .. | .planned .. | .extracted .. => .debug
  | .commandBegun .. | .sectionRead .. | .regionBegun .. | .zeroSkipped .. => .trace
  | .writeBegun .. => .trace
  | .mislabelled .. => .warn
  | .finished .. => .info

def target : Event → String
  | .headerRead .. | .commandsRead .. => "mach_extract::loader"
  | .commandBegun .. | .sectionRead .. | .mislabelled .. => "mach_extract::commands"
  | .regionBegun .. => "mach_extract::cursor"
  | .zeroSkipped .. | .originFixed .. | .planned .. => "mach_extract::extract"
  | .writeBegun .. | .extracted .. => "mach_extract::extract"
  | .finished .. => "machextract"

def message : Event → String
  | .headerRead format header =>
      "parsed mach-o file header (" ++ format.width.name ++ ", " ++ format.order.name ++ "): "
        ++ header.record
  | .commandsRead count => "parsed " ++ decimal count ++ " load commands"
  | .commandBegun id size position =>
      "parsing load command 0x" ++ hex id.toNat ++ " with " ++ decimal size.toNat ++ " bytes at 0x"
        ++ hex position
  | .sectionRead label name address =>
      "parsed section " ++ label ++ "," ++ name ++ " at 0x" ++ hex address.toNat
  | .mislabelled name label owner =>
      "section `" ++ name ++ "` claims segment `" ++ label ++ "` but belongs to `" ++ owner ++ "`"
  | .regionBegun name offset size =>
      "read region `" ++ name ++ "` at 0x" ++ hex offset ++ " with " ++ decimal size ++ " bytes"
  | .zeroSkipped label name => "skip zero section " ++ label ++ "," ++ name
  | .originFixed address label name =>
      "rebase origin 0x" ++ hex address.toNat ++ " from " ++ label ++ "," ++ name
  | .planned count => "selected " ++ decimal count ++ " sections"
  | .writeBegun label name length offset =>
      "write " ++ label ++ "," ++ name ++ " with " ++ decimal length ++ " bytes at 0x" ++ hex offset
  | .extracted summary => "extracted " ++ summary.record
  | .finished summary => summary.line

def record (e : Event) : String := e.level.name ++ " " ++ e.target ++ " " ++ e.message

end Event

end MachO
