import MachO.Command

namespace MachO

/-- A set of names. Order and repetitions in the list carry no meaning. -/
structure NameSet where
  names : List String
  deriving Repr

namespace NameSet

def empty : NameSet := ⟨[]⟩

def ofList (names : List String) : NameSet := ⟨names⟩

def insert (s : NameSet) (name : String) : NameSet := ⟨name :: s.names⟩

def contains (s : NameSet) (name : String) : Bool := s.names.contains name

def isEmpty (s : NameSet) : Bool := s.names.isEmpty

def subset (s t : NameSet) : Bool := s.names.all t.contains

instance : BEq NameSet := ⟨fun s t => s.subset t && t.subset s⟩

end NameSet

/-- The names that are asked for. -/
structure Selection where
  segments : NameSet
  sections : NameSet
  deriving Repr

namespace Selection

def empty : Selection := ⟨.empty, .empty⟩

def ofNames (segments sections : List String) : Selection := ⟨.ofList segments, .ofList sections⟩

/-- Ask for the sections labelled with a segment, too. -/
def withSegment (s : Selection) (name : String) : Selection :=
  { s with segments := s.segments.insert name }

def withSection (s : Selection) (name : String) : Selection :=
  { s with sections := s.sections.insert name }

def isEmpty (s : Selection) : Bool := s.segments.isEmpty && s.sections.isEmpty

/-- The section is asked for. -/
def selects (s : Selection) (x : Section) : Bool :=
  s.sections.contains x.name || s.segments.contains x.label

instance : BEq Selection := ⟨fun s t => s.segments == t.segments && s.sections == t.sections⟩

/-- The sections of a list of commands that are asked for, in the order of the file. -/
def sectionsIn (s : Selection) (commands : List Command) : List Section :=
  (sectionsOf commands).filter s.selects

end Selection

end MachO
