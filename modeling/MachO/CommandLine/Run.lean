import MachO.CommandLine.Options
import MachO.Extraction
import MachO.Listing
import MachO.Text.Quoted

/-!
Runs of the command. A run reads one file and either lists it or extracts sections of it to another;
it is a function of its arguments and of what opening files gives, and its outcome holds the exit
code, both texts, and what was written.
-/

namespace MachO.CommandLine

open Text

/-- An answer of the system to a call that fails. -/
structure SystemError where
  text : String
  code : Nat
  deriving DecidableEq, Repr

namespace SystemError

def message (e : SystemError) : String := e.text ++ " (os error " ++ decimal e.code ++ ")"

def notFound : SystemError := ⟨"No such file or directory", 2⟩

def notDirectory : SystemError := ⟨"Not a directory", 20⟩

def isDirectory : SystemError := ⟨"Is a directory", 21⟩

def nameTooLong : SystemError := ⟨"File name too long", 36⟩

def noDevice : SystemError := ⟨"No such device", 19⟩

end SystemError

/-- Why the bytes of a file are not there. -/
inductive Unreadable where
  | opening (error : SystemError)
  | mapping (error : SystemError)
  deriving DecidableEq, Repr

/-- What opening files gives: the bytes to be read, and what an output that was made empty takes. -/
structure Surroundings where
  contents : String → Except Unreadable (List UInt8)
  creation : String → Except SystemError Sink

/-- What a run has done. -/
structure Report where
  events : List Event
  output : String := ""
  /-- What went wrong, from the outermost context to the cause. -/
  failure : Option (List String) := none
  /-- The output that was written anew, with what it was given. -/
  written : Option (String × Image) := none
  deriving DecidableEq, Repr

structure Outcome where
  code : Nat
  output : String
  errors : String
  written : Option (String × Image)
  deriving DecidableEq, Repr

/-- The level of detail for a number of times that more was asked for; the number is a byte. -/
def levelOf (verbosity : Nat) : Level :=
  match verbosity % 256 with
  | 0 => .warn
  | 1 => .info
  | 2 => .debug
  | _ => .trace

/-- Events as lines, with targets padded to the longest one so far. -/
def eventLines (width : Nat) : List Event → List String
  | [] => []
  | e :: rest =>
      let width := max width e.target.length
      (" " ++ padRight 5 e.level.name ++ " " ++ padRight width e.target ++ " > " ++ e.message)
        :: eventLines width rest

namespace Report

def failed (events : List Event) (chain : List String) : Report :=
  { events, failure := some chain }

def lines (ls : List String) : String := String.join (ls.map (· ++ "\n"))

def outcome (level : Level) (r : Report) : Outcome :=
  let told := eventLines 0 (r.events.filter fun e => level.admits e.level)
  let failure := r.failure.toList.map fun chain => "error: " ++ ": ".intercalate chain
  { code := if r.failure.isSome then 1 else 0
    output := r.output
    errors := lines (told ++ failure)
    written := r.written }

end Report

namespace Request

def selection (q : Request) : Selection := .ofNames q.segments q.sections

def commandListing (index : Nat) : List Command → String
  | [] => ""
  | c :: rest =>
      "Load command " ++ decimal index ++ "\n" ++ c.listing ++ commandListing (index + 1) rest

/-- List a file, and where its selected sections would be placed. -/
def list (q : Request) (events : List Event) (file : File) : Report :=
  let text := file.header.listing ++ commandListing 0 file.commands
  if q.selection.isEmpty then { events, output := text }
  else
    let events := events ++ planEvents file.commands q.selection
    let text := text ++ "Placements\n"
    match plan file.commands q.selection with
    | .ok placements =>
        { events, output := text ++ Report.lines (placements.map (·.line)) }
    | .error e => { events, output := text, failure := some e.chain }

def extract (q : Request) (output : String) (k : Sink) (r : Reader) (start : Cursor)
    (file : File) : Report :=
  match MachO.extract r k file.commands q.selection ⟨start, .empty⟩ with
  | .ok summary t =>
      { events := t.cursor.events.toList ++ [.finished summary]
        written := some (output, t.output.image) }
  | .error e t =>
      { events := t.cursor.events.toList
        failure := some (("extract from " ++ Quoted.quoted q.input) :: e.chain)
        written := some (output, t.output.image) }

/-- Do what is asked for with the bytes of the input. -/
def process (q : Request) (s : Surroundings) (bytes : List UInt8) : Report :=
  let reader := Reader.ofBytes bytes
  match File.decode reader .start with
  | .error e c => .failed c.events.toList (("parse " ++ Quoted.quoted q.input) :: e.chain)
  | .ok file c =>
      match q.task with
      | .list => q.list c.events.toList file
      | .extract output =>
          match s.creation output with
          | .error e =>
              .failed c.events.toList ["create output file " ++ Quoted.quoted output, e.message]
          | .ok sink => q.extract output sink reader c file

def perform (q : Request) (s : Surroundings) : Report :=
  if q.task ≠ .list ∧ q.selection.isEmpty then
    .failed [] ["at least one segment or section must be specified"]
  else
    let mapping := "map input file " ++ Quoted.quoted q.input
    match s.contents q.input with
    | .error (.opening e) => .failed [] ["open input file " ++ Quoted.quoted q.input, e.message]
    | .error (.mapping e) => .failed [] [mapping, e.message]
    | .ok [] => .failed [] [mapping, "memory map must have a non-zero length"]
    | .ok bytes => q.process s bytes

def outcome (q : Request) (s : Surroundings) : Outcome :=
  (q.perform s).outcome (levelOf q.verbosity)

end Request

def usage : String :=
  Report.lines [
    "machextract 0.1.0",
    "Copy Mach-O segments and sections into a raw binary, laid out by their addresses",
    "",
    "USAGE:",
    "    machextract [FLAGS] [OPTIONS] <input> <output>",
    "",
    "FLAGS:",
    "    -h, --help       Print this text",
    "    -l, --list       Print the mach header and load commands instead of extracting",
    "    -V, --version    Print the version",
    "    -v, --verbose    Verbose mode (-v, -vv, -vvv)",
    "",
    "OPTIONS:",
    "    -S, --section <sections>...    Extract the section",
    "    -s, --segment <segments>...    Extract every section of the segment",
    "",
    "ARGS:",
    "    <input>     Mach-O file to read",
    "    <output>    Raw binary to write"]

def Reply.outcome : Reply → Outcome
  | .refused error => ⟨1, "", "error: " ++ error.message ++ "\n", none⟩
  | .version => ⟨0, "machextract 0.1.0\n", "", none⟩
  | .help => ⟨0, usage, "", none⟩

/-- The outcome of a run of the command. -/
def run (arguments : List String) (s : Surroundings) : Outcome :=
  match Request.ofArguments arguments with
  | .ok q => q.outcome s
  | .error reply => reply.outcome

end MachO.CommandLine
