import MachO.CommandLine.Run

namespace MachO.CommandLine

/-- The answer of the system that a failed call gave. -/
def SystemError.ofFailure : IO.Error → SystemError
  | .noFileOrDirectory _ code text | .interrupted _ code text => ⟨text, code.toNat⟩
  | .alreadyExists _ code text | .invalidArgument _ code text => ⟨text, code.toNat⟩
  | .permissionDenied _ code text | .resourceExhausted _ code text => ⟨text, code.toNat⟩
  | .inappropriateType _ code text | .noSuchThing _ code text => ⟨text, code.toNat⟩
  | .otherError code text | .resourceBusy code text => ⟨text, code.toNat⟩
  | .hardwareFault code text | .illegalOperation code text => ⟨text, code.toNat⟩
  | .unsupportedOperation code text => ⟨text, code.toNat⟩
  | e => ⟨toString e, 0⟩

def readOpened (handle : IO.FS.Handle) : IO (Except Unreadable (List UInt8)) := do
  try
    return .ok (← handle.readBinToEnd).toList
  catch _ => return .error (.mapping .noDevice)

/-- The bytes of a file, or why they are not there. -/
def readContents (path : String) : IO (Except Unreadable (List UInt8)) := do
  try
    readOpened (← IO.FS.Handle.mk path .read)
  catch e => return .error (.opening (.ofFailure e))

def writeFile (o : Outcome) : IO (Except SystemError Unit) := do
  match o.written with
  | none => return .ok ()
  | some (path, image) =>
      try
        IO.FS.writeBinFile path ⟨image.flatten.toArray⟩
        return .ok ()
      catch e => return .error (.ofFailure e)

def execute (q : Request) : IO Outcome := do
  let input ← readContents q.input
  let outcome := q.outcome ⟨fun _ => input, fun _ => .ok .file⟩
  match ← writeFile outcome with
  | .ok () => return outcome
  | .error e => return q.outcome ⟨fun _ => input, fun _ => .error e⟩

end MachO.CommandLine

def main (arguments : List String) : IO UInt32 := do
  let outcome ← match MachO.CommandLine.Request.ofArguments arguments with
    | .ok q => MachO.CommandLine.execute q
    | .error reply => pure reply.outcome
  IO.print outcome.output
  IO.eprint outcome.errors
  return outcome.code.toUInt32
