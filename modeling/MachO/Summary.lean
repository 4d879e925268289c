import MachO.Text.Column

namespace MachO

open Text

/-- The account of one extraction. -/
structure Summary where
  /-- The address that the start of the output stands for, if anything was placed. -/
  origin : Option UInt64
  written : Nat
  skipped : Nat
  extent : Nat
  deriving DecidableEq, Repr, Inhabited

namespace Summary

def line (s : Summary) : String :=
  match s.origin with
  | some origin =>
      "wrote " ++ decimal s.written ++ " sections (" ++ decimal s.extent ++ " bytes) rebased at 0x"
        ++ hex origin.toNat ++ ", skipped " ++ decimal s.skipped ++ " zero sections"
  | none => "nothing to write, skipped " ++ decimal s.skipped ++ " zero sections"

def record (s : Summary) : String :=
  let origin := match s.origin with
    | some origin => "Some(" ++ decimal origin.toNat ++ ")"
    | none => "None"
  "ExtractSummary \x7b origin: " ++ origin ++ ", written: " ++ decimal s.written
    ++ ", skipped_zero: " ++ decimal s.skipped ++ ", end: " ++ decimal s.extent ++ " \x7d"

end Summary

end MachO
