import MachO.Error
import MachO.Image
import MachO.Source

namespace MachO

/-- What an output takes. -/
structure Sink where
  /-- The most that one write call takes. -/
  chunk : Option Nat := none
  /-- Writes at or after this position are refused, and no write reaches across it. -/
  limit : UInt64 := 0xFFFFFFFFFFFFFFFF
  /-- A write that is refused takes no byte, rather than failing. -/
  silentWhenFull : Bool := false
  writeFault : Fault := .outputFull
  /-- Seeks to a position above this one are refused. -/
  seekLimit : Option Nat := none
  seekFault : Fault := .outputSeek
  failsFlush : Bool := false
  deriving DecidableEq, Repr

/-- A call that an output has seen. -/
inductive Call where
  | seek (position : Nat)
  /-- A write that took these bytes at the position. -/
  | write (position : Nat) (bytes : List UInt8)
  /-- A write that was refused. -/
  | full
  | flush
  deriving DecidableEq, Repr

namespace Call

def line : Call → String
  | .seek position => "seek " ++ Text.decimal position
  | .write _ bytes => "write " ++ Text.decimal bytes.length
  | .full => "write full"
  | .flush => "flush"

def run? : Call → Option Run
  | .write position bytes => some ⟨position, bytes⟩
  | _ => none

end Call

/-- An output: where it stands, what it held at first, and the calls it has seen since. -/
structure Output where
  position : Nat
  earlier : Image
  calls : Array Call
  deriving DecidableEq, Repr

namespace Output

def ofImage (image : Image) : Output := ⟨0, image, #[]⟩

def empty : Output := ofImage .empty

def writes (o : Output) : List Run := o.calls.toList.filterMap Call.run?

/-- What the output holds. Calls that continue the one before them are put into it together. -/
def image (o : Output) : Image := o.earlier.writeAll (Image.join o.writes)

def record (o : Output) (call : Call) : Output := { o with calls := o.calls.push call }

def accept (o : Output) (bytes : List UInt8) : Output :=
  { o.record (.write o.position bytes) with position := o.position + bytes.length }

theorem get?_image (o : Output) (x : Nat) :
    o.image.get? x = (o.earlier.writeAll o.writes).get? x :=
  Image.get?_writeAll_join o.earlier o.writes x

theorem image_record {call : Call} (h : call.run? = none) (o : Output) :
    (o.record call).image = o.image := by
  simp [image, writes, record, h]

theorem get?_image_accept (o : Output) (bytes : List UInt8) (x : Nat) :
    (o.accept bytes).image.get? x =
      if o.position ≤ x ∧ x < o.position + bytes.length then bytes[x - o.position]?
      else o.image.get? x := by
  have writes : (o.accept bytes).writes = o.writes ++ [⟨o.position, bytes⟩] := by
    simp [Output.writes, accept, record, Call.run?]
  rw [get?_image, get?_image, writes, Image.writeAll, List.foldl_append]
  exact Image.get?_write _ o.position bytes x

end Output

/-- An operation on an output that may fail; the output keeps what was done before. -/
abbrev Writing := EStateM Fault Output

namespace Sink

/-- The most bytes that a regular file holds: sixteen tebibytes less a block. -/
def fileLimit : Nat := 0x100000000000 - 0x1000

/-- The sink of a regular file, which has no position past its largest size. -/
def file : Sink := { seekLimit := some fileLimit, seekFault := .filePosition }

def fullDevice : Sink := { limit := 0, writeFault := .noSpace }

def allowance (k : Sink) (position : Nat) : Nat := atMost k.chunk (k.limit.toNat - position)

def allowsSeek (k : Sink) (position : Nat) : Bool :=
  match k.seekLimit with
  | some limit => position ≤ limit
  | none => true

def seekTo (k : Sink) (position : Nat) : Writing Unit := do
  modify (·.record (.seek position))
  if k.allowsSeek position then modify fun o => { o with position }
  else throw k.seekFault

/-- Offer bytes until all are taken. -/
def writeAll (k : Sink) : List UInt8 → Writing Unit
  | [] => fun o => .ok () o
  | b :: bs => fun o =>
      if k.limit.toNat ≤ o.position then
        .error (if k.silentWhenFull then .nothingTaken else k.writeFault) (o.record .full)
      else
        let count := k.allowance o.position
        let taken := o.accept ((b :: bs).take count)
        if count = 0 then .error .nothingTaken taken
        else k.writeAll ((b :: bs).drop count) taken
  termination_by bytes => bytes.length
  decreasing_by simp only [List.length_drop, List.length_cons]; omega

def flush (k : Sink) : Writing Unit := do
  modify (·.record .flush)
  if k.failsFlush then throw .outputFlush

end Sink

end MachO
