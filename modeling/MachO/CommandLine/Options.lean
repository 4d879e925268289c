namespace MachO.CommandLine

/-- The two kinds of names that can be asked for. -/
inductive Criterion where
  | segmentName
  | sectionName
  deriving DecidableEq, Repr

def Criterion.all : List Criterion := [.segmentName, .sectionName]

def Criterion.usage : Criterion → String
  | .segmentName => "--segment <segments>..."
  | .sectionName => "--section <sections>..."

inductive Task where
  | list
  | extract (output : String)
  deriving DecidableEq, Repr

/-- What the arguments ask for. -/
structure Request where
  verbosity : Nat
  task : Task
  segments : List String
  sections : List String
  input : String
  deriving DecidableEq, Repr

/-- Why the arguments ask for nothing that can be done. -/
inductive UsageError where
  | unexpected (argument : String)
  | missingArguments
  | missingValue (criterion : Criterion)
  | repeatedList
  deriving DecidableEq, Repr

def UsageError.message : UsageError → String
  | .unexpected argument =>
      "Found argument '" ++ argument ++ "' which wasn't expected, or isn't valid in this context"
  | .missingArguments => "The following required arguments were not provided:"
  | .missingValue criterion =>
      "The argument '" ++ criterion.usage ++ "' requires a value but none was supplied"
  | .repeatedList =>
      "The argument '--list' was provided more than once, but cannot be used multiple times"

/-- An answer that needs no look at any file. -/
inductive Reply where
  | refused (error : UsageError)
  | version
  | help
  deriving DecidableEq, Repr

/-- The arguments that have been taken so far. -/
structure Taken where
  verbosity : Nat := 0
  lists : Nat := 0
  /-- The criteria that an option was given for, with or without a name. -/
  criteria : List Criterion := []
  segments : List String := []
  sections : List String := []
  positionals : List String := []
  /-- The criterion whose name the next argument gives, unless it is an option or options ended. -/
  awaiting : Option Criterion := none
  /-- All further arguments are positional. -/
  optionsEnded : Bool := false
  deriving DecidableEq, Repr

namespace Taken

def names (t : Taken) : Criterion → List String
  | .segmentName => t.segments
  | .sectionName => t.sections

def takeName (t : Taken) (c : Criterion) (name : String) : Taken :=
  match c with
  | .segmentName => { t with segments := t.segments ++ [name], awaiting := none }
  | .sectionName => { t with sections := t.sections ++ [name], awaiting := none }

/-- Take an option for a criterion; where its own argument has no name, the next one may have it. -/
def takeOption (t : Taken) (c : Criterion) (value : Option (List Char)) : Taken :=
  let t := { t with criteria := c :: t.criteria, awaiting := some c }
  match value with
  | some cs => t.takeName c (String.ofList (cs.dropWhile (· == '=')))
  | none => t

def takePositional (t : Taken) (argument : String) : Except Reply Taken :=
  if t.positionals.length < 2 then .ok { t with positionals := t.positionals ++ [argument] }
  else .error (.refused (.unexpected argument))

def takeLong (t : Taken) (name : List Char) (value : Option (List Char)) : Except Reply Taken :=
  match String.ofList name with
  | "verbose" => .ok { t with verbosity := t.verbosity + 1 }
  | "list" => .ok { t with lists := t.lists + 1 }
  | "segment" => .ok (t.takeOption .segmentName value)
  | "section" => .ok (t.takeOption .sectionName value)
  | "help" => .error .help
  | "version" => .error .version
  | name => .error (.refused (.unexpected ("--" ++ name)))

/-- Take short options that stand in one argument. The first one that has a value takes the rest. -/
def takeShort (t : Taken) : List Char → Except Reply Taken
  | [] => .ok t
  | 'v' :: rest => takeShort { t with verbosity := t.verbosity + 1 } rest
  | 'l' :: rest => takeShort { t with lists := t.lists + 1 } rest
  | 's' :: rest => .ok (t.takeOption .segmentName (if rest.isEmpty then none else some rest))
  | 'S' :: rest => .ok (t.takeOption .sectionName (if rest.isEmpty then none else some rest))
  | 'h' :: _ => .error .help
  | 'V' :: _ => .error .version
  | c :: _ => .error (.refused (.unexpected ("-" ++ c.toString)))

/-- Take an argument that starts with a dash and is more than a dash. Any but the double dash ends
the wait for a name; after the double dash no name can come, but the option that waits for one is
remembered as the last that was given. -/
def takeDashed (t : Taken) (cs : List Char) : Except Reply Taken :=
  match cs with
  | ['-', '-'] => .ok { t with optionsEnded := true }
  | '-' :: '-' :: _ =>
      let body := cs.dropWhile (· == '-')
      let name := body.takeWhile (· != '=')
      takeLong { t with awaiting := none } name ((body.drop name.length).tail?)
  | _ => takeShort { t with awaiting := none } cs.tail

def take (t : Taken) (argument : String) : Except Reply Taken :=
  let cs := argument.toList
  if t.optionsEnded then t.takePositional argument
  else if cs.head? == some '-' && cs.length != 1 then t.takeDashed cs
  else
    match t.awaiting with
    | some c => .ok (t.takeName c argument)
    | none => t.takePositional argument

def lacksName (t : Taken) (c : Criterion) : Bool := t.criteria.contains c && (t.names c).isEmpty

/-- What the positional arguments and the listing option amount to: the input and the task. -/
def task? (t : Taken) : Option (String × Task) :=
  match t.positionals with
  | [] => none
  | input :: rest =>
      if 0 < t.lists then some (input, .list)
      else rest.head?.map fun output => (input, .extract output)

/-- What all arguments ask for. Of two options that lack a name, the one that still waits for it is
reported first. -/
def request (t : Taken) : Except Reply Request :=
  match t.task? with
  | none => .error (.refused .missingArguments)
  | some (input, task) =>
      match (t.awaiting.toList ++ Criterion.all).find? t.lacksName with
      | some c => .error (.refused (.missingValue c))
      | none =>
          if 1 < t.lists then .error (.refused .repeatedList)
          else .ok { verbosity := t.verbosity, task, segments := t.segments,
                     sections := t.sections, input }

end Taken

def Request.ofArguments (arguments : List String) : Except Reply Request := do
  let taken ← arguments.foldlM Taken.take {}
  taken.request

end MachO.CommandLine
