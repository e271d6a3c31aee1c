import Mathlib.Order.Monotone.Basic
import Mathlib.Data.Rat.Cast.Order
import Mathlib.Tactic.Linarith
import Mathlib.Tactic.Ring
import Parlance.Number.Decimal

/-!
# The intervals of numbers that round to a double

The finite doubles of one sign lie one after another by their magnitude bits, and the interval of each
reaches as far as that of the next one starts:

* `unitsAt m`, `stepAt m`   the value of the double with magnitude bits `m`, and how far it is to the next;
* `ceilingAt m`             where its interval ends;
* `interval_low`, `interval_high`, `interval_closed`   an interval ends there and starts where the one
                            before it ends, and its ends belong to it if the magnitude is even;
* `magnitude_of_holds`      so no number is in the intervals of two magnitudes.
-/

namespace Parlance.Double

/-- how far it is, in units, from the double with magnitude bits `m` to the next one -/
def stepAt (m : Nat) : Nat := 2 ^ (m / fractionSize - 1)

/-- the double with magnitude bits `m`, in units -/
def unitsAt (m : Nat) : Nat :=
  if m / fractionSize = 0 then m % fractionSize else (fractionSize + m % fractionSize) * stepAt m

/-- the end of its interval, in quarters of a unit -/
def ceilingAt (m : Nat) : Nat := 4 * unitsAt m + 2 * stepAt m

theorem step_eq (x : Double) : x.step = stepAt x.magnitude := Nat.one_shiftLeft _

theorem units_eq (x : Double) : x.units = unitsAt x.magnitude := by
  rw [units, step_eq]
  rfl

theorem stepAt_pos (m : Nat) : 0 < stepAt m := Nat.two_pow_pos _

/-- The next magnitude has the next fraction, or the first one of the next exponent. -/
theorem succ_fields (m : Nat) :
    ((m + 1) / fractionSize = m / fractionSize ∧ (m + 1) % fractionSize = m % fractionSize + 1) ∨
    ((m + 1) / fractionSize = m / fractionSize + 1 ∧ (m + 1) % fractionSize = 0 ∧
      m % fractionSize + 1 = fractionSize) := by
  have hsize : fractionSize = 4503599627370496 := rfl
  rw [hsize]
  omega

theorem unitsAt_succ (m : Nat) : unitsAt (m + 1) = unitsAt m + stepAt m := by
  obtain ⟨hexponent, hfraction⟩ | ⟨hexponent, hfraction, hlast⟩ := succ_fields m
  · simp only [unitsAt, stepAt, hexponent, hfraction]
    split
    · rename_i hzero
      rw [hzero, Nat.zero_sub, Nat.pow_zero]
    · rw [← Nat.add_assoc, Nat.succ_mul]
  · simp only [unitsAt, stepAt, hexponent, hfraction]
    rw [if_neg (Nat.succ_ne_zero _), Nat.add_sub_cancel, Nat.add_zero]
    cases hm : m / fractionSize with
    | zero => simpa using hlast.symm
    | succ k =>
      have hdouble : fractionSize + m % fractionSize + 1 = 2 * fractionSize := by omega
      rw [if_neg (Nat.succ_ne_zero k), Nat.add_sub_cancel, ← Nat.succ_mul, Nat.succ_eq_add_one, hdouble,
        Nat.pow_succ]
      ring

theorem ceilingAt_lt_succ (m : Nat) : ceilingAt m < ceilingAt (m + 1) := by
  have hstep := stepAt_pos m
  have hnext := stepAt_pos (m + 1)
  rw [ceilingAt, ceilingAt, unitsAt_succ]
  omega

theorem strictMono_ceilingAt : StrictMono ceilingAt := strictMono_nat_of_lt_succ ceilingAt_lt_succ

/-! ## Intervals -/

section
variable {x y : Double} {q : ℚ}

theorem interval_high (x : Double) : x.interval.high = ceilingAt x.magnitude := by
  show 4 * x.units + 2 * x.step = _
  rw [units_eq, step_eq]
  rfl

/-- An interval starts where the one before it ends. -/
theorem interval_low {m : Nat} (h : x.magnitude = m + 1) : x.interval.low = ceilingAt m := by
  have hbelow : (if x.fractionField = 0 ∧ 1 < x.exponentField then x.step else 2 * x.step) =
      2 * stepAt m := by
    rw [step_eq, fractionField, exponentField, h]
    obtain ⟨hexponent, hfraction⟩ | ⟨hexponent, hfraction, hlast⟩ := succ_fields m
    · have hstep : stepAt (m + 1) = stepAt m := by rw [stepAt, hexponent]; rfl
      rw [if_neg (by omega), hstep]
    · simp only [stepAt, hexponent, hfraction, true_and]
      cases m / fractionSize with
      | zero => rfl
      | succ k =>
        rw [if_pos (by omega), Nat.add_sub_cancel, Nat.add_sub_cancel, Nat.pow_succ, Nat.mul_comm]
  show 4 * x.units - _ = _
  rw [hbelow, units_eq, h, unitsAt_succ, ceilingAt]
  omega

/-- The ends of an interval belong to it if the magnitude is even. -/
theorem interval_closed (x : Double) : x.interval.closed = decide (x.magnitude % 2 = 0) := by
  have hsize : fractionSize = 4503599627370496 := rfl
  have hfield : x.magnitude % fractionSize % 2 = x.magnitude % 2 := by rw [hsize]; omega
  show decide (x.units / x.step % 2 = 0) = _
  rw [units_eq, step_eq, unitsAt]
  congr 2
  split
  · rename_i hzero
    rw [stepAt, hzero, Nat.zero_sub, Nat.pow_zero, Nat.div_one, hfield]
  · rw [Nat.mul_div_cancel _ (stepAt_pos _), ← hfield, hsize]
    omega

/-- The number is in the interval. -/
def Interval.Holds (i : Interval) (q : ℚ) : Prop :=
  if i.closed = true then i.low ≤ q ∧ q ≤ i.high else i.low < q ∧ q < i.high

theorem Interval.Holds.le {i : Interval} (h : i.Holds q) : (i.low : ℚ) ≤ q ∧ q ≤ i.high := by
  unfold Holds at h
  split at h
  · exact h
  · exact ⟨h.1.le, h.2.le⟩

theorem Interval.Holds.lt {i : Interval} (h : i.Holds q) (hopen : i.closed = false) :
    (i.low : ℚ) < q ∧ q < i.high := by
  unfold Holds at h
  rw [hopen, if_neg Bool.false_ne_true] at h
  exact h

theorem not_holds_of_lt (hlt : x.magnitude < y.magnitude) (hx : x.interval.Holds q) :
    ¬y.interval.Holds q := by
  intro hy
  obtain ⟨m, hm⟩ : ∃ m, y.magnitude = m + 1 := Nat.exists_eq_succ_of_ne_zero (by omega)
  have hhigh := hx.le.2
  have hlow := hy.le.1
  rw [interval_high] at hhigh
  rw [interval_low hm] at hlow
  obtain hnext | hfar : x.magnitude = m ∨ x.magnitude < m := by omega
  · -- one of the two does not have its ends
    obtain hopen | hopen : x.interval.closed = false ∨ y.interval.closed = false := by
      rw [interval_closed, interval_closed, decide_eq_false_iff_not, decide_eq_false_iff_not]
      omega
    · have hstrict := (hx.lt hopen).2
      rw [interval_high, hnext] at hstrict
      linarith
    · have hstrict := (hy.lt hopen).1
      rw [interval_low hm] at hstrict
      rw [hnext] at hhigh
      linarith
  · have hceiling : (ceilingAt x.magnitude : ℚ) < ceilingAt m :=
      Nat.cast_lt.mpr (strictMono_ceilingAt hfar)
    linarith

/-- No number rounds to two magnitudes. -/
theorem magnitude_of_holds (hx : x.interval.Holds q) (hy : y.interval.Holds q) :
    x.magnitude = y.magnitude := by
  obtain hlt | heq | hgt := Nat.lt_trichotomy x.magnitude y.magnitude
  · exact absurd hy (not_holds_of_lt hlt hx)
  · exact heq
  · exact absurd hx (not_holds_of_lt hgt hy)

end

end Parlance.Double
