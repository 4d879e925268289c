import MachO.Text.Column
import MachO.Text.Extender
import MachO.Text.Unprintable

namespace MachO.Text.Quoted

/-- The character does not show on its own: it leaves nothing on a page, or it extends the character
before it. Between the space and the tilde every character shows. -/
def isHidden (c : Char) : Bool :=
  !(0x20 ≤ c.toNat && c.toNat < 0x7F) && (isUnprintable c || isExtender c)

def escape (c : Char) : String :=
  match c with
  | '\x00' => "\\0"
  | '\t' => "\\t"
  | '\n' => "\\n"
  | '\r' => "\\r"
  | '\x5c' => "\\\\"
  | '\x22' => "\\\""
  | c => if isHidden c then "\\u\x7b" ++ hex c.toNat ++ "\x7d" else c.toString

def quoted (s : String) : String :=
  "\"" ++ String.join (s.toList.map escape) ++ "\""

end MachO.Text.Quoted
