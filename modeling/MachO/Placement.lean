import MachO.Arithmetic
import MachO.Selection

namespace MachO

/-- A section and where its bytes go in the output. -/
structure Placement where
  offset : Nat
  target : Section
  deriving DecidableEq, Repr

namespace Placement

/-- Place a section in an output that starts at the origin, by some arithmetic. -/
def ofOriginBy (a : Arithmetic) (origin : UInt64) (s : Section) : Except Error Placement :=
  if s.address < origin then .error (.belowOrigin s.name s.address origin)
  else do
    let offset ← a.difference s.address origin
    return ⟨offset, s⟩

/-- Place sections that have bytes in the file, the first of them at the start. -/
def ofSectionsBy (a : Arithmetic) : List Section → Except Error (List Placement)
  | [] => .ok []
  | s :: rest => (s :: rest).mapM (ofOriginBy a s.address)

def ofOrigin (origin : UInt64) (s : Section) : Except Error Placement := ofOriginBy .exact origin s

def ofSections (sections : List Section) : Except Error (List Placement) :=
  ofSectionsBy .exact sections

/-- Tell how the sections are placed, in an output that starts at the origin if one is known. This
ends at the first section that cannot be placed. -/
def eventsOf (origin : Option UInt64) : List Section → List Event
  | [] => []
  | s :: rest =>
      if s.isZero then .zeroSkipped s.label s.name :: eventsOf origin rest
      else
        match origin with
        | none => .originFixed s.address s.label s.name :: eventsOf (some s.address) rest
        | some o => if s.address < o then [] else eventsOf origin rest

end Placement

def planBy (a : Arithmetic) (commands : List Command) (selection : Selection) :
    Except Error (List Placement) :=
  Placement.ofSectionsBy a ((selection.sectionsIn commands).filter (!·.isZero))

/-- The placements of the sections of the commands that are selected. -/
def plan (commands : List Command) (selection : Selection) : Except Error (List Placement) :=
  planBy .exact commands selection

/-- What is told while the placements are made. -/
def planEvents (commands : List Command) (selection : Selection) : List Event :=
  Placement.eventsOf none (selection.sectionsIn commands) ++
    match plan commands selection with
    | .ok placements => [.planned placements.length]
    | .error _ => []

end MachO
