import MachO.File
import MachO.Placement
import MachO.Sink

/-!
Extractions. The placed sections are copied from a reader to an output one after the other, each by
a read of its region, a seek and a write. The output is not touched before all sections are placed.
-/

namespace MachO

/-- The state of an extraction: the scan of the file and the output. -/
structure Transfer where
  cursor : Cursor
  output : Output
  deriving DecidableEq, Repr

/-- An operation that reads a file and writes an output. -/
abbrev Copying := EStateM Error Transfer

namespace Copying

def scan {α : Type} (x : Scan α) : Copying α := fun t =>
  match x t.cursor with
  | .ok a cursor => .ok a { t with cursor }
  | .error e cursor => .error e { t with cursor }

def writing {α : Type} (x : Writing α) : Copying α := fun t =>
  match x t.output with
  | .ok a output => .ok a { t with output }
  | .error f output => .error (.io f) { t with output }

end Copying

/-- Copy a placed section to the output: how many bytes it has. -/
def Placement.copy (r : Reader) (k : Sink) (p : Placement) : Copying Nat := do
  let bytes ← Copying.scan (p.target.read r)
  Copying.scan (Scan.tell (.writeBegun p.target.label p.target.name bytes.length p.offset))
  Copying.writing (k.seekTo p.offset)
  Copying.writing (k.writeAll bytes)
  return bytes.length

/-- The account after one more section, which ends at a position. -/
def Summary.reaching (s : Summary) (stop : Nat) : Summary :=
  { s with written := s.written + 1, extent := max s.extent stop }

/-- Copy placed sections, going on with an account. -/
def copyAllBy (a : Arithmetic) (r : Reader) (k : Sink) :
    List Placement → Summary → Copying Summary
  | [], summary => return summary
  | p :: rest, summary => do
      let length ← p.copy r k
      let stop ← Copying.scan (Scan.ofExcept (a.sum p.offset length))
      copyAllBy a r k rest (summary.reaching stop)

def Summary.begin (placements : List Placement) (skipped : Nat) : Summary where
  origin := placements.head?.map (·.target.address)
  written := 0
  skipped
  extent := 0

/-- Copy the selected sections of the commands to the output, by some arithmetic. -/
def extractBy (a : Arithmetic) (r : Reader) (k : Sink) (commands : List Command)
    (selection : Selection) : Copying Summary := do
  if selection.isEmpty then throw .emptySelection
  Copying.scan (Scan.tellAll (planEvents commands selection))
  let placements ← Copying.scan (Scan.ofExcept (planBy a commands selection))
  let skipped := (selection.sectionsIn commands).countP (·.isZero)
  let summary ← copyAllBy a r k placements (.begin placements skipped)
  Copying.writing k.flush
  Copying.scan (Scan.tell (.extracted summary))
  return summary

def extract (r : Reader) (k : Sink) (commands : List Command) (selection : Selection) :
    Copying Summary :=
  extractBy .exact r k commands selection

/-- Read a file and copy its selected sections to the output. The selection is looked at first. -/
def extractFile (r : Reader) (k : Sink) (selection : Selection) : Copying Summary := do
  if selection.isEmpty then throw .emptySelection
  let file ← Copying.scan (File.decode r)
  extract r k file.commands selection

end MachO
