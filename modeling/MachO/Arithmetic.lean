import MachO.Error

namespace MachO

/-- The largest position plus one. -/
def positionBound : Nat := UInt64.size

/-- A way to add positions and to subtract addresses. -/
structure Arithmetic where
  sum : Nat → Nat → Except Error Nat
  difference : UInt64 → UInt64 → Except Error Nat

namespace Arithmetic

def exact : Arithmetic where
  sum m n := .ok (m + n)
  difference x y := .ok (x.toNat - y.toNat)

/-- The arithmetic of machine words, with a panic where a word does not hold the result. -/
def checked : Arithmetic where
  sum m n := if m + n < positionBound then .ok (m + n) else .error (.panic .overflow)
  difference x y :=
    if y ≤ x then .ok (x.toNat - y.toNat) else .error (.panic .overflow)

end Arithmetic

end MachO
