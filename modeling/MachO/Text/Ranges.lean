namespace MachO.Text

/-- The number lies in one of the ranges; their ends belong to them. -/
def inRanges (ranges : List (Nat × Nat)) (n : Nat) : Bool :=
  ranges.any fun r => r.1 ≤ n && n ≤ r.2

end MachO.Text
