namespace MachO.Text

def decimal (n : Nat) : String := String.ofList (Nat.toDigits 10 n)

def signed : Int → String
  | .ofNat n => decimal n
  | .negSucc n => "-" ++ decimal (n + 1)

def hex (n : Nat) : String := String.ofList (Nat.toDigits 16 n)

/-- Fill on the left up to a least width. -/
def padLeft (fill : Char) (width : Nat) (s : String) : String :=
  String.ofList (List.replicate (width - s.length) fill) ++ s

def padRight (width : Nat) (s : String) : String :=
  s ++ String.ofList (List.replicate (width - s.length) ' ')

def hexPadded (width n : Nat) : String := padLeft '0' width (hex n)

end MachO.Text
