import MachO.Extraction
import MachO.Listing

/-!
Sessions. A session is a sequence of steps on one open file, one reader and one output; every step
gives an answer and leaves a state from which the next one goes on, also when it fails.
-/

namespace MachO

/-- A question to a reader. -/
inductive Probe where
  | length
  | isEmpty
  | position
  | remaining
  /-- Are `n` bytes left? The failure speaks of a load command or of a header. -/
  | ensure (n : UInt64) (ofCommand : Bool)
  | seekTo (target : UInt64)
  | skip (n : UInt64)
  | text (size : UInt64)
  | bytes (n : UInt64)
  | region (name : String) (offset size : UInt64)
  | sectionBytes (s : Section)
  | segmentBytes (g : Segment)
  | u32 (order : ByteOrder)
  | i32 (order : ByteOrder)
  | u64 (order : ByteOrder)
  | command (order : ByteOrder)
  | header (order : ByteOrder) (width : Width) (magic : UInt32)
  deriving DecidableEq, Repr

inductive Answer where
  | done
  | absent
  | truth (value : Bool)
  | number (value : Int)
  /-- A number that may need 64 bits. -/
  | wide (value : Nat)
  | text (value : String)
  | bytes (value : List UInt8)
  | lines (value : List String)
  | header (value : Header)
  | command (value : Command)
  | foundSegment (value : Segment)
  | foundSection (value : Section)
  | contents (value : List (Except Error (List UInt8)))
  | placements (value : List Placement)
  | summary (value : Summary)
  | file (value : File) (position : Nat)
  deriving DecidableEq

namespace Probe

def ask (r : Reader) : Probe → Scan Answer
  | .length => return .wide r.length
  | .isEmpty => return .truth (r.length == 0)
  | .position => return .wide (← Scan.position)
  | .remaining => return .wide (← r.remaining)
  | .ensure n ofCommand => do
      r.ensure n.toNat (if ofCommand then .shortCommand else .shortHeader)
      return .done
  | .seekTo target => do
      r.seekTo target.toNat
      return .done
  | .skip n => do
      Reader.skip n
      return .done
  | .text size => return .text (← r.name size.toNat)
  | .bytes n => return .bytes (← r.bytes n.toNat)
  | .region name offset size => return .bytes (← r.region name offset.toNat size.toNat)
  | .sectionBytes s => return .bytes (← s.read r)
  | .segmentBytes g => return .bytes (← g.read r)
  | .u32 o => return .number (← r.u32 o).toNat
  | .i32 o => return .number (← r.i32 o).toInt
  | .u64 o => return .wide (← r.u64 o).toNat
  | .command o => return .command (← Command.decodeBy .checked r o)
  | .header o w magic => return .header (← Header.decodeBy .checked r o w magic)

end Probe

/-- A step of a session. -/
inductive Step where
  | describe
  | list
  | findSegment (name : String)
  | findSection (owner : Option String) (name : String)
  /-- The bytes of the segment that would be found. -/
  | readSegment (name : String)
  | readSection (owner : Option String) (name : String)
  /-- The bytes of every section, whatever becomes of the others. -/
  | readSections
  | plan (selection : Selection)
  | extract (selection : Selection)
  /-- Go on with other load commands. -/
  | replace (commands : List Command)
  | probe (probe : Probe)

/-- An open file, its reader's state, and the output. -/
structure Session where
  file : File
  transfer : Transfer

namespace Session

def readSections (r : Reader) : List Section → Scan (List (Except Error (List UInt8)))
  | [] => return []
  | s :: rest => do
      let bytes ← (s.read r).attempt
      let others ← readSections r rest
      return bytes :: others

def work (r : Reader) (k : Sink) (file : File) : Step → Copying Answer
  | .describe => return .file file (← Copying.scan Scan.position)
  | .list => return .lines file.listing
  | .findSegment name => return ((file.findSegment? name).map .foundSegment).getD .absent
  | .findSection owner name =>
      return ((file.findSection? owner name).map .foundSection).getD .absent
  | .readSegment name =>
      match file.findSegment? name with
      | some g => return .bytes (← Copying.scan (g.read r))
      | none => return .absent
  | .readSection owner name =>
      match file.findSection? owner name with
      | some s => return .bytes (← Copying.scan (s.read r))
      | none => return .absent
  | .readSections => return .contents (← Copying.scan (readSections r file.sections))
  | .plan selection => do
      Copying.scan (Scan.tellAll (planEvents file.commands selection))
      return .placements (← Copying.scan (Scan.ofExcept (MachO.plan file.commands selection)))
  | .extract selection => return .summary (← MachO.extract r k file.commands selection)
  | .replace commands => return .number commands.length
  | .probe p => Copying.scan (p.ask r)

def fileAfter (file : File) : Step → File
  | .replace commands => { file with commands }
  | _ => file

def perform (r : Reader) (k : Sink) (s : Session) (step : Step) : Except Error Answer × Session :=
  let file := fileAfter s.file step
  match work r k s.file step s.transfer with
  | .ok answer transfer => (.ok answer, ⟨file, transfer⟩)
  | .error e transfer => (.error e, ⟨file, transfer⟩)

/-- What a step gave, and where the reader stood after it. -/
structure Outcome where
  result : Except Error Answer
  position : Nat
  deriving DecidableEq

/-- The step was the last one, since the program broke off in it. -/
def Outcome.isPanic (o : Outcome) : Bool :=
  match o.result with
  | .ok _ => false
  | .error e => e.isPanic

def performOne (r : Reader) (k : Sink) (s : Session) (step : Step) : Outcome × Session :=
  let (result, next) := s.perform r k step
  (⟨result, next.transfer.cursor.position⟩, next)

/-- Do steps one after the other. -/
def performAll (r : Reader) (k : Sink) (s : Session) : List Step → List Outcome × Session
  | [] => ([], s)
  | step :: rest =>
      let (outcome, next) := s.performOne r k step
      if outcome.isPanic then ([outcome], next)
      else
        let (others, last) := next.performAll r k rest
        (outcome :: others, last)

end Session

namespace Probe

def askOne (r : Reader) (c : Cursor) (p : Probe) : Session.Outcome × Cursor :=
  match p.ask r c with
  | .ok answer next => (⟨.ok answer, next.position⟩, next)
  | .error e next => (⟨.error e, next.position⟩, next)

def askAll (r : Reader) (c : Cursor) : List Probe → List Session.Outcome × Cursor
  | [] => ([], c)
  | p :: rest =>
      let (outcome, next) := p.askOne r c
      if outcome.isPanic then ([outcome], next)
      else
        let (others, last) := askAll r next rest
        (outcome :: others, last)

end Probe

end MachO
