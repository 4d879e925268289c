import MachO.ByteOrder
import Mathlib.Algebra.Group.Nat.Defs

namespace MachO.ByteOrder

theorem length_digits (width n : Nat) : (digits width n).length = width := by
  induction width generalizing n with
  | zero => rfl
  | succ width ih => simp [digits, ih]

theorem length_encode (o : ByteOrder) (width n : Nat) : (o.encode width n).length = width := by
  cases o <;> simp [encode, length_digits]

theorem ofDigits_digits (width n : Nat) : ofDigits (digits width n) = n % 256 ^ width := by
  induction width generalizing n with
  | zero => simp [digits, ofDigits, Nat.mod_one]
  | succ width ih =>
      rw [digits, ofDigits, ih, Nat.pow_succ', Nat.mod_mul]
      simp

theorem decode_encode (o : ByteOrder) (width n : Nat) :
    o.decode (o.encode width n) = n % 256 ^ width := by
  cases o <;> simp [encode, decode, ofDigits_digits]

theorem digits_ofDigits (bs : List UInt8) : digits bs.length (ofDigits bs) = bs := by
  induction bs with
  | nil => rfl
  | cons b bs ih =>
      have hb := b.toNat_lt
      have hdiv : (b.toNat + 256 * ofDigits bs) / 256 = ofDigits bs := by omega
      have hlow : (b.toNat + 256 * ofDigits bs).toUInt8 = b := by
        apply UInt8.toNat_inj.mp
        simp only [Nat.toUInt8, UInt8.toNat_ofNat']
        omega
      simp only [List.length_cons, ofDigits, digits, hdiv, hlow, ih]

theorem encode_decode (o : ByteOrder) (bs : List UInt8) :
    o.encode bs.length (o.decode bs) = bs := by
  cases o with
  | little => exact digits_ofDigits bs
  | big =>
      have h := digits_ofDigits bs.reverse
      rw [List.length_reverse] at h
      simp [encode, decode, h]

theorem ofDigits_lt (bs : List UInt8) : ofDigits bs < 256 ^ bs.length := by
  induction bs with
  | nil => simp [ofDigits]
  | cons b bs ih =>
      have hb := b.toNat_lt
      rw [ofDigits, List.length_cons, Nat.pow_succ']
      omega

theorem decode_lt (o : ByteOrder) (bs : List UInt8) : o.decode bs < 256 ^ bs.length := by
  cases o with
  | little => exact ofDigits_lt bs
  | big => simpa [decode] using ofDigits_lt bs.reverse

end MachO.ByteOrder
