import MachO.Text.Column
import MachO.Text.Utf8

namespace MachO

open Text

/-- A failure of a source or of an output. -/
inductive Fault where
  | endOfSource
  | sourceRead
  | sourceSeek
  /-- A relative seek leads below zero or above the largest position. -/
  | positionRange
  /-- A write call took no byte. -/
  | nothingTaken
  | outputFull
  | outputSeek
  | outputFlush
  /-- A file does not take the position that was asked for. -/
  | filePosition
  | noSpace
  deriving DecidableEq, Repr

def Fault.message : Fault → String
  | .endOfSource => "failed to fill whole buffer"
  | .sourceRead => "source failure"
  | .sourceSeek => "source seek failure"
  | .positionRange => "invalid seek to a negative or overflowing position"
  | .nothingTaken => "failed to write whole buffer"
  | .outputFull => "sink full"
  | .outputSeek => "sink seek failure"
  | .outputFlush => "sink flush failure"
  | .filePosition => "Invalid argument (os error 22)"
  | .noSpace => "No space left on device (os error 28)"

/-- Why a program breaks off. -/
inductive Panic where
  /-- More bytes were asked for than one object in memory has. -/
  | capacity
  /-- The result of a sum or a difference does not fit into its word. -/
  | overflow
  deriving DecidableEq, Repr

def Panic.message : Panic → String
  | .capacity => "capacity overflow"
  | .overflow => "arithmetic overflow"

/-- Why an operation ended without a result. -/
inductive Error where
  /-- The file is a container of several images. -/
  | container (magic : UInt32)
  | unknownMagic (bytes : List UInt8)
  /-- The file ends before `needed` bytes of the header that start at `position`. -/
  | shortHeader (needed position : Nat)
  /-- The file ends before `needed` bytes of the load command that starts at `position`. -/
  | shortCommand (needed position : Nat)
  /-- The command has `left` bytes where its segment needs `needed`. -/
  | shortSegment (needed left : Nat)
  /-- The command has `left` bytes where its next section needs `needed`. -/
  | shortSection (needed left : Nat)
  | commandSize (declared : UInt32)
  | outOfRange (name : String) (offset size length : Nat)
  | emptySelection
  | belowOrigin (name : String) (address origin : UInt64)
  | badName (defect : Utf8.Defect)
  | io (fault : Fault)
  /-- The program breaks off. No caller is given this as an answer, and nothing is done after it. -/
  | panic (cause : Panic)
  deriving DecidableEq, Repr

instance {α : Type} [DecidableEq α] : DecidableEq (Except Error α)
  | .ok a, .ok b => decidable_of_iff (a = b) ⟨congrArg Except.ok, Except.ok.inj⟩
  | .error e, .error f => decidable_of_iff (e = f) ⟨congrArg Except.error, Except.error.inj⟩
  | .ok _, .error _ => isFalse fun h => by cases h
  | .error _, .ok _ => isFalse fun h => by cases h

namespace Error

def isPanic : Error → Bool
  | .panic _ => true
  | _ => false

def kind : Error → String
  | .container .. => "unsupported-format"
  | .unknownMagic .. => "invalid-magic"
  | .shortHeader .. => "truncated-header"
  | .shortCommand .. => "truncated-load-command"
  | .shortSegment .. => "truncated-segment-header"
  | .shortSection .. => "truncated-section-header"
  | .commandSize .. => "invalid-load-command-size"
  | .outOfRange .. => "out-of-range-region"
  | .emptySelection => "selection-error"
  | .belowOrigin .. => "invalid-placement"
  | .badName .. => "invalid-name"
  | .io .. => "io-error"
  | .panic .. => "panic"

def message : Error → String
  | .container magic =>
      "unsupported format, multi-architecture containers unsupported (magic 0x"
        ++ hexPadded 8 magic.toNat ++ ")."
  | .unknownMagic bytes =>
      "invalid magic, [" ++ ", ".intercalate (bytes.map fun b => hexPadded 2 b.toNat) ++ "]."
  | .shortHeader needed position =>
      "truncated header, " ++ decimal needed ++ " bytes required at offset " ++ decimal position
        ++ "."
  | .shortCommand needed position =>
      "truncated load command, " ++ decimal needed ++ " bytes required at offset "
        ++ decimal position ++ "."
  | .shortSegment needed left =>
      "truncated segment header, " ++ decimal needed ++ " bytes required but only " ++ decimal left
        ++ " bytes left in the command."
  | .shortSection needed left =>
      "truncated section header, " ++ decimal needed ++ " bytes required but only " ++ decimal left
        ++ " bytes left in the command."
  | .commandSize declared =>
      "invalid load command size, " ++ decimal declared.toNat
        ++ " bytes is smaller than the command header."
  | .outOfRange name offset size length =>
      "out of range region `" ++ name ++ "`, offset 0x" ++ hex offset ++ " with size 0x" ++ hex size
        ++ " exceeds " ++ decimal length ++ " bytes."
  | .emptySelection => "no segment or section names were requested."
  | .belowOrigin name address origin =>
      "invalid placement of section `" ++ name ++ "` at 0x" ++ hex address.toNat
        ++ ", below the rebase origin 0x" ++ hex origin.toNat ++ "."
  | .badName defect =>
      "fail to convert a String from a UTF-8 byte vector, " ++ defect.message ++ "."
  | .io fault => "fail to do I/O operations, " ++ fault.message ++ "."
  | .panic cause => cause.message

/-- The wording of the error and of its cause, where it has one. -/
def chain (e : Error) : List String :=
  match e with
  | .badName defect => [e.message, defect.message]
  | .io fault => [e.message, fault.message]
  | _ => [e.message]

end Error

end MachO
