import Parlance.Number.Double

/-!
# The parts of a double

* `magnitude_ofParts`   a double that is put together has the magnitude that it is made of;
* `eq_of_parts`         a double is its sign and its magnitude;
* `isNaN_round`         rounding never gives a NaN.
-/

namespace Parlance.Double

variable {x y : Double} {negative : Bool} {magnitude : Nat}

theorem toNat_bits_ofParts (h : magnitude < signWeight) (negative : Bool) :
    (ofParts negative magnitude).bits.toNat = (if negative then signWeight else 0) + magnitude := by
  have hsize : signWeight = 0x8000000000000000 := rfl
  show (UInt64.ofNat (if negative then signWeight + magnitude else magnitude)).toNat = _
  rw [UInt64.toNat_ofNat']
  split <;> omega

theorem magnitude_ofParts (h : magnitude < signWeight) (negative : Bool) :
    (ofParts negative magnitude).magnitude = magnitude := by
  show (ofParts negative magnitude).bits.toNat % signWeight = magnitude
  rw [toNat_bits_ofParts h]
  cases negative with
  | true =>
    show (signWeight + magnitude) % signWeight = magnitude
    rw [Nat.add_mod_left, Nat.mod_eq_of_lt h]
  | false =>
    show (0 + magnitude) % signWeight = magnitude
    rw [Nat.zero_add, Nat.mod_eq_of_lt h]

/-- A double is its sign and its magnitude. -/
theorem eq_of_parts (hnegative : x.negative = y.negative) (h : x.magnitude = y.magnitude) :
    x = y := by
  have hx : x.bits.toNat < 0x10000000000000000 := x.bits.toNat_lt
  have hy : y.bits.toNat < 0x10000000000000000 := y.bits.toNat_lt
  have hsign : 0x8000000000000000 ≤ x.bits.toNat ↔ 0x8000000000000000 ≤ y.bits.toNat :=
    decide_eq_decide.mp hnegative
  have hrest : x.bits.toNat % 0x8000000000000000 = y.bits.toNat % 0x8000000000000000 := h
  have hbits : x.bits = y.bits := UInt64.toNat_inj.mp (by omega)
  cases x
  cases y
  exact congrArg Double.mk hbits

/-- Two doubles stand to each other unless one of them is a NaN. -/
theorem compare?_eq_none_iff : x.compare? y = none ↔ x.isNaN = true ∨ y.isNaN = true := by
  rw [← Bool.or_eq_true, compare?]
  split
  · rename_i h
    exact iff_of_true rfl h
  · rename_i h
    exact iff_of_false (Option.some_ne_none _) h

/-! ## Rounding -/

theorem isNaN_ofParts (h : magnitude ≤ infinityBits) (negative : Bool) :
    (ofParts negative magnitude).isNaN = false := by
  have hsize : infinityBits < signWeight := by decide
  show decide (infinityBits < (ofParts negative magnitude).magnitude) = false
  rw [magnitude_ofParts (Nat.lt_of_le_of_lt h hsize)]
  exact decide_eq_false (Nat.not_lt.mpr h)

/-- Rounding gives a number. -/
theorem isNaN_round (negative : Bool) (n d : Nat) : (round negative n d).isNaN = false :=
  isNaN_ofParts (Nat.min_le_right _ _) negative

end Parlance.Double
