import MachO.Text.Column

namespace MachO.Text.Utf8

/-- Why a list of bytes is not UTF-8. -/
inductive Defect where
  /-- The text ends inside a sequence that starts at `index` and is well formed so far. -/
  | incomplete (index : Nat)
  /-- At `index` the first `length` bytes are the start of no well-formed sequence, or of one that
  the byte after them does not continue. -/
  | invalid (index length : Nat)
  deriving DecidableEq, Repr

def Defect.message : Defect → String
  | .incomplete index => "incomplete utf-8 byte sequence from index " ++ decimal index
  | .invalid index length =>
      "invalid utf-8 sequence of " ++ decimal length ++ " bytes from index " ++ decimal index

/-- A range of bytes, both ends included. -/
structure ByteRange where
  low : UInt8
  high : UInt8
  deriving DecidableEq, Repr

def ByteRange.holds (r : ByteRange) (b : UInt8) : Bool := r.low ≤ b && b ≤ r.high

/-- The bytes that continue a sequence where the lead byte sets no closer bound. -/
def continuation : ByteRange := ⟨0x80, 0xBF⟩

/-- The ranges of the bytes that follow a lead byte; no sequence starts with any other byte. The
closer bounds leave out longer spellings of a character, surrogates, and numbers above 0x10FFFF. -/
def followers (lead : UInt8) : Option (List ByteRange) :=
  if lead < 0x80 then some []
  else if lead < 0xC2 then none
  else if lead < 0xE0 then some [continuation]
  else if lead = 0xE0 then some [⟨0xA0, 0xBF⟩, continuation]
  else if lead = 0xED then some [⟨0x80, 0x9F⟩, continuation]
  else if lead < 0xF0 then some [continuation, continuation]
  else if lead = 0xF0 then some [⟨0x90, 0xBF⟩, continuation, continuation]
  else if lead < 0xF4 then some [continuation, continuation, continuation]
  else if lead = 0xF4 then some [⟨0x80, 0x8F⟩, continuation, continuation]
  else none

/-- How many ranges, from the first one on, hold the byte at their place. -/
def matched : List ByteRange → List UInt8 → Nat
  | r :: rs, b :: bs => if r.holds b then matched rs bs + 1 else 0
  | _, _ => 0

/-- The bits of a lead byte that belong to the character, by the number of bytes that follow. -/
def payload (lead : UInt8) (count : Nat) : Nat :=
  if count = 0 then lead.toNat else lead.toNat % (1 <<< (6 - count))

/-- The character of a well-formed sequence: each byte after the lead adds six bits. -/
def character (lead : UInt8) (rest : List UInt8) : Char :=
  Char.ofNat (rest.foldl (fun n b => 64 * n + b.toNat % 64) (payload lead rest.length))

def decodeFrom (index : Nat) : List UInt8 → Except Defect (List Char)
  | [] => .ok []
  | lead :: rest =>
      match followers lead with
      | none => .error (.invalid index 1)
      | some ranges =>
          let count := matched ranges rest
          if count = ranges.length then
            match decodeFrom (index + 1 + count) (rest.drop count) with
            | .ok cs => .ok (character lead (rest.take count) :: cs)
            | .error d => .error d
          else if rest.length = count then .error (.incomplete index)
          else .error (.invalid index (count + 1))
  termination_by bs => bs.length
  decreasing_by simp only [List.length_drop, List.length_cons]; omega

def decode (bs : List UInt8) : Except Defect String := (decodeFrom 0 bs).map String.ofList

def encode (s : String) : List UInt8 := s.toList.flatMap String.utf8EncodeChar

end MachO.Text.Utf8
