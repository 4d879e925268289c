import MachO.Error

namespace MachO

/-- A number, cut down to a limit where there is one. -/
def atMost (limit : Option Nat) (n : Nat) : Nat :=
  match limit with
  | some l => min l n
  | none => n

/-- A source of bytes. -/
structure Source where
  bytes : Array UInt8
  /-- The most that one read call gives. -/
  chunk : Option Nat := none
  /-- Reads at or after this position fail, and no read reaches across it. -/
  failAt : Option Nat := none
  /-- The length that the source reports, where that is not the true one. -/
  claim : Option Nat := none
  /-- Seeks to a position above this one fail. -/
  seekLimit : Option Nat := none
  deriving DecidableEq, Repr

namespace Source

def ofBytes (bytes : List UInt8) : Source := { bytes := bytes.toArray }

def reportedLength (s : Source) : Nat := s.claim.getD s.bytes.size

/-- The bytes from a position on, at most `n` of them. -/
def slice (s : Source) (position n : Nat) : List UInt8 :=
  (s.bytes.extract position (position + n)).toList

theorem slice_eq (s : Source) (position n : Nat) :
    s.slice position n = (s.bytes.toList.drop position).take n := by
  simp [slice, List.extract_eq_take_drop]

def failsAt (s : Source) (position : Nat) : Bool :=
  match s.failAt with
  | some f => f ≤ position
  | none => false

def allowance (s : Source) (position wanted : Nat) : Nat :=
  atMost s.chunk (atMost (s.failAt.map (· - position)) wanted)

/-- One read call. Past the end it gives nothing. -/
def readSome (s : Source) (position wanted : Nat) : Except Fault (List UInt8) :=
  if s.failsAt position then .error .sourceRead
  else .ok (s.slice position (s.allowance position wanted))

/-- Read calls until all bytes are there or one call fails or gives nothing: the bytes that were
got, and the fault if some are missing. -/
def readExact (s : Source) (position wanted : Nat) : List UInt8 × Option Fault :=
  if wanted = 0 then ([], none)
  else
    match s.readSome position wanted with
    | .error fault => ([], some fault)
    | .ok [] => ([], some .endOfSource)
    | .ok (b :: bs) =>
        let rest := s.readExact (position + (bs.length + 1)) (wanted - (bs.length + 1))
        (b :: bs ++ rest.1, rest.2)
  termination_by wanted

def allowsSeek (s : Source) (position : Nat) : Bool :=
  match s.seekLimit with
  | some limit => position ≤ limit
  | none => true

end Source

end MachO
