import MachO.CommandLine.Run

namespace MachO.CommandLine

/-- A directory without further directories in it. -/
structure Directory where
  files : List (String × List UInt8)
  deriving DecidableEq, Repr

/-- Where a walk along a path stands. -/
inductive Place where
  | inside
  /-- In another directory of which nothing is known but that it stands in the root. -/
  | unknown
  | root
  | devices
  deriving DecidableEq, Repr

/-- What a path leads to. -/
inductive Destination where
  | directory (place : Place)
  /-- A name in the directory, be there a file of that name or not. -/
  | name (name : String)
  /-- A name in another directory; nothing has it. -/
  | elsewhere
  | device (sink : Sink)
  deriving DecidableEq, Repr

/-- What a path is opened for. -/
inductive Purpose where
  | reading
  | creation
  deriving DecidableEq, Repr

def partLimit : Nat := 255

def pathLimit : Nat := 4095

/-- Names of directories that stand in every root. -/
def rootDirectories : List String :=
  ["bin", "boot", "etc", "home", "lib", "media", "mnt", "opt", "root", "run", "sbin", "srv", "tmp",
   "usr", "var"]

def device? : String → Option Sink
  | "null" | "zero" | "random" | "urandom" => some {}
  | "full" => some .fullDevice
  | _ => none

namespace Place

/-- The directory above. The root is above itself. -/
def parent : Place → Place
  | .inside => .unknown
  | _ => .root

/-- What a part of a path that is neither one dot nor two leads to. -/
def named (place : Place) (part : String) : Destination :=
  match place with
  | .inside => .name part
  | .unknown => .elsewhere
  | .root =>
      if part == "dev" then .directory .devices
      else if rootDirectories.contains part then .directory .unknown
      else .elsewhere
  | .devices => ((device? part).map .device).getD .elsewhere

def look (place : Place) (part : String) : Except SystemError Destination :=
  if part == "." then .ok (.directory place)
  else if part == ".." then .ok (.directory place.parent)
  else if partLimit < part.utf8ByteSize then .error .nameTooLong
  else .ok (place.named part)

end Place

namespace Directory

def find? (d : Directory) (name : String) : Option (List UInt8) := d.files.lookup name

def enter (d : Directory) (place : Place) (part : String) : Except SystemError Place := do
  match ← place.look part with
  | .directory place => return place
  | .name name => throw (if (d.find? name).isSome then .notDirectory else .notFound)
  | .elsewhere => throw .notFound
  | .device _ => throw .notDirectory

/-- What the last part of a path leads to. A slash after a name asks for a directory of that name,
which cannot be made by opening it. -/
def arrive (d : Directory) (purpose : Purpose) (place : Place) (part : String) (slash : Bool) :
    Except SystemError Destination :=
  if slash && part != "." && part != ".." then
    match purpose with
    | .reading => (d.enter place part).map .directory
    | .creation => .error .isDirectory
  else place.look part

/-- What a path leads to. Empty parts mean nothing. -/
def resolve (d : Directory) (purpose : Purpose) (path : String) :
    Except SystemError Destination := do
  if path == "" then throw .notFound
  if pathLimit < path.utf8ByteSize then throw .nameTooLong
  let parts := ((path.toList.splitOn '/').filter (!·.isEmpty)).map String.ofList
  let start : Place := if path.toList.head? == some '/' then .root else .inside
  let place ← parts.dropLast.foldlM d.enter start
  match parts.getLast? with
  | none => return .directory place
  | some part => d.arrive purpose place part (path.toList.getLast? == some '/')

theorem resolve_eq_name (d : Directory) (purpose : Purpose) {path : String}
    (slash : '/' ∉ path.toList) (nonempty : path ≠ "") (dot : path ≠ ".") (dots : path ≠ "..")
    (short : path.utf8ByteSize ≤ partLimit) : d.resolve purpose path = .ok (.name path) := by
  have parts : path.toList.splitOn '/' = [path.toList] := List.splitOn_eq_singleton slash
  have limit : ¬ pathLimit < path.utf8ByteSize := by
    simp only [partLimit, pathLimit] at *
    omega
  have first : path.toList.head? ≠ some '/' := fun h => slash (List.mem_of_head? h)
  have last : path.toList.getLast? ≠ some '/' := fun h => slash (List.mem_of_getLast? h)
  have filled : path.toList ≠ [] := by simpa using nonempty
  simp [resolve, arrive, Place.look, Place.named, parts, limit, first, last, filled, nonempty, dot,
    dots, Nat.not_lt.2 short, pure, Except.pure, bind, Except.bind]

/-- What opening files in the directory gives. -/
def surroundings (d : Directory) : Surroundings where
  contents path :=
    match d.resolve .reading path with
    | .error e => .error (.opening e)
    | .ok (.directory _) => .error (.mapping .noDevice)
    | .ok .elsewhere => .error (.opening .notFound)
    | .ok (.device _) => .ok []
    | .ok (.name name) =>
        match d.find? name with
        | some bytes => .ok bytes
        | none => .error (.opening .notFound)
  creation path :=
    match d.resolve .creation path with
    | .error e => .error e
    | .ok (.directory _) => .error .isDirectory
    | .ok (.device sink) => .ok sink
    | .ok _ => .ok .file

def findAfter? (d : Directory) (o : Outcome) (name : String) : Option (List UInt8) :=
  match o.written with
  | none => d.find? name
  | some (path, image) =>
      match d.resolve .creation path with
      | .ok (.name n) => if n = name then some image.flatten else d.find? name
      | _ => d.find? name

end Directory

end MachO.CommandLine
