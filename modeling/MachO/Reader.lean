import MachO.Arithmetic
import MachO.ByteOrder
import MachO.Event
import MachO.Source

/-!
Readers of known length. A reader is a source whose length has been measured; where it stands and
what it has told so far is the state of a scan. Reads of fixed width check nothing by themselves: a
scan first makes sure of the span that it is about to read, under the error that suits it.
-/

namespace MachO

/-- A source with its measured length. -/
structure Reader where
  source : Source
  length : Nat
  deriving DecidableEq, Repr

/-- A call on a source. -/
inductive Access where
  /-- An exact read, however many read calls it takes. -/
  | read (position count : Nat)
  | seek (position : Nat)
  /-- A seek by a distance from where the source stands. By none, it only tells the position. -/
  | move (distance : Int)
  deriving DecidableEq, Repr

/-- Where a scan stands, the events that it has told, and its calls on the source. -/
structure Cursor where
  position : Nat
  events : Array Event
  calls : Array Access
  deriving DecidableEq, Repr

def Cursor.start : Cursor := ⟨0, #[], #[]⟩

/-- An operation that moves over a source and may end in an error; the cursor is kept in either
case. -/
abbrev Scan := EStateM Error Cursor

/-- The bytes before the first zero byte. -/
def untilZero (bs : List UInt8) : List UInt8 := bs.takeWhile (· != 0)

/-- The text that stands in a field of fixed size. -/
def nameOfField (bs : List UInt8) : Except Error String :=
  match Text.Utf8.decode (untilZero bs) with
  | .ok s => .ok s
  | .error defect => .error (.badName defect)

namespace Scan

def tell (e : Event) : Scan Unit := modify fun c => { c with events := c.events.push e }

def tellAll (es : List Event) : Scan Unit := modify fun c => { c with events := c.events ++ es }

def access (a : Access) : Scan Unit := modify fun c => { c with calls := c.calls.push a }

def position : Scan Nat := do
  access (.move 0)
  return (← get).position

def ofExcept {α : Type} : Except Error α → Scan α
  | .ok a => return a
  | .error e => throw e

/-- The outcome of a scan, with which the work goes on also when it has failed. A panic is handed
on. -/
def attempt {α : Type} (x : Scan α) : Scan (Except Error α) := fun c =>
  match x c with
  | .ok a c => .ok (.ok a) c
  | .error e c => if e.isPanic then .error e c else .ok (.error e) c

/-- Run a scan and then another that ends the work, also when the first has failed. A failure of the
last one counts before a failure of the first. -/
def followedBy {α : Type} (x : Scan α) (last : Scan Unit) : Scan α := do
  let outcome ← attempt x
  last
  ofExcept outcome

def replicate {α : Type} (x : Scan α) : Nat → Scan (List α)
  | 0 => return []
  | n + 1 => do
      let a ← x
      let as ← replicate x n
      return a :: as

end Scan

/-- The most bytes that an object in memory has. -/
def objectLimit : Nat := 0x7FFFFFFFFFFFFFFF

namespace Reader

/-- Measure a source. -/
def ofSource (s : Source) : Reader := ⟨s, s.reportedLength⟩

def ofBytes (bytes : List UInt8) : Reader := ofSource (.ofBytes bytes)

/-- The most bytes that a reader makes room for at once. The bytes of a source are an object in
memory themselves, so that there is room for as many as the source has and reports. -/
def capacity (r : Reader) : Nat := max objectLimit (min r.length r.source.bytes.size)

def remaining (r : Reader) : Scan Nat := return r.length - (← Scan.position)

/-- End with an error unless `n` bytes are left, by some arithmetic. -/
def ensureBy (a : Arithmetic) (r : Reader) (n : Nat) (short : Nat → Nat → Error) : Scan Unit := do
  let position ← Scan.position
  let stop ← Scan.ofExcept (a.sum position n)
  if r.length < stop then throw (short n position)

def ensure (r : Reader) (n : Nat) (short : Nat → Nat → Error) : Scan Unit :=
  r.ensureBy .checked n short

def seekTo (r : Reader) (position : Nat) : Scan Unit := do
  Scan.access (.seek position)
  if r.source.allowsSeek position then modify fun c => { c with position }
  else throw (.io .sourceSeek)

def seekBy (distance : Int) : Scan Unit := do
  let target := (← get).position + distance
  Scan.access (.move distance)
  if 0 ≤ target ∧ target < positionBound then modify fun c => { c with position := target.toNat }
  else throw (.io .positionRange)

/-- Move on by `n` bytes, `n` being taken as a signed number. -/
def skip (n : UInt64) : Scan Unit := seekBy n.toInt64.toInt

/-- Exactly `n` bytes. What was got before a failure stays consumed; without room for them nothing
is read. -/
def bytes (r : Reader) (n : Nat) : Scan (List UInt8) := do
  if r.capacity < n then throw (.panic .capacity)
  let start := (← get).position
  Scan.access (.read start n)
  let (got, fault) := r.source.readExact start n
  modify fun c => { c with position := c.position + got.length }
  match fault with
  | none => return got
  | some f => throw (.io f)

def u32 (r : Reader) (o : ByteOrder) : Scan UInt32 := return (o.decode (← r.bytes 4)).toUInt32

def i32 (r : Reader) (o : ByteOrder) : Scan Int32 := return (← r.u32 o).toInt32

def u64 (r : Reader) (o : ByteOrder) : Scan UInt64 := return (o.decode (← r.bytes 8)).toUInt64

def address (r : Reader) (o : ByteOrder) : Width → Scan UInt64
  | .bits32 => return (← r.u32 o).toUInt64
  | .bits64 => r.u64 o

def name (r : Reader) (n : Nat) : Scan String := do
  Scan.ofExcept (nameOfField (← r.bytes n))

/-- The bytes of a region; the scan stands where it stood before. The region has to end before the
last byte of the source. -/
def region (r : Reader) (name : String) (offset size : Nat) : Scan (List UInt8) := do
  if r.length ≤ offset + size then throw (.outOfRange name offset size r.length)
  let home ← Scan.position
  Scan.tell (.regionBegun name offset size)
  r.seekTo offset
  (r.bytes size).followedBy (r.seekTo home)

end Reader

end MachO
