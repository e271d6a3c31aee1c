import Mathlib.Algebra.Group.Int.Defs
import Parlance.Number.Integer

/-!
# Results in range and out of range

Integers of 64 bits stand for the integers from `-2 ^ 63` to `2 ^ 63 - 1`:

* `Integer.InRange i`       64 bits hold the integer;
* `Integer.Extreme a b`     the one pair of numbers whose quotient they do not hold;
* `div?_eq_none_iff`, `rem?_of_ne`   this quotient is refused, and the remainder of the pair along
                            with it;
* `pow?_eq`                 the shortcuts of the power do not show: it is the exact power if that is in
                            range, and if the exponent takes no more than 32 bits.
-/

namespace Parlance

namespace Integer

open Numeral (toInt64?)

/-- 64 bits hold the integer -/
def InRange (i : Int) : Prop := -0x8000000000000000 ≤ i ∧ i < 0x8000000000000000

instance (i : Int) : Decidable (InRange i) := inferInstanceAs (Decidable (_ ∧ _))

theorem inRange_toInt (a : Int64) : InRange a.toInt := ⟨a.le_toInt, a.toInt_lt⟩

theorem toInt64?_eq_some_iff {i : Int} {r : Int64} : toInt64? i = some r ↔ i = r.toInt := by
  constructor
  · intro h
    rw [toInt64?] at h
    split at h
    · rename_i hrange
      cases h
      exact (Int64.toInt_ofInt_of_le hrange.1 hrange.2).symm
    · cases h
  · rintro rfl
    exact Numeral.toInt64?_toInt r

theorem toInt64?_eq_none_iff {i : Int} : toInt64? i = none ↔ ¬InRange i := by
  rw [toInt64?, InRange]
  split
  · rename_i hrange
    exact iff_of_false (Option.some_ne_none _) (not_not_intro hrange)
  · rename_i hrange
    exact iff_of_true rfl hrange

/-! ## Division -/

/-- the one pair of numbers whose quotient is out of range -/
def Extreme (a b : Int64) : Prop := a.toInt = -0x8000000000000000 ∧ b.toInt = -1

instance (a b : Int64) : Decidable (Extreme a b) := inferInstanceAs (Decidable (_ ∧ _))

theorem natAbs_le_of_inRange {i : Int} (h : InRange i) : i.natAbs ≤ 0x8000000000000000 := by
  unfold InRange at h
  omega

theorem inRange_tdiv_iff {a b : Int64} (hb : b.toInt ≠ 0) :
    InRange (a.toInt.tdiv b.toInt) ↔ ¬Extreme a b := by
  have ha := inRange_toInt a
  unfold Extreme
  generalize a.toInt = x at ha ⊢
  generalize b.toInt = y at hb ⊢
  unfold InRange at ha ⊢
  by_cases hminus : y = -1
  · subst hminus
    have hneg : x.tdiv (-1) = -x := by rw [Int.tdiv_neg, Int.tdiv_one]
    rw [hneg]
    omega
  · -- the quotient has the magnitude of `x` only if `y` is 1 or `x` is 0
    have hquotient : (x.tdiv y).natAbs = x.natAbs / y.natAbs := Int.natAbs_tdiv x y
    by_cases hone : y = 1
    · subst hone
      rw [Int.tdiv_one]
      omega
    · have hhalf : x.natAbs / y.natAbs ≤ x.natAbs / 2 :=
        Nat.div_le_div_left (by omega) (by decide)
      omega

theorem div?_eq_none_iff {a b : Int64} (hb : b.toInt ≠ 0) : div? a b = none ↔ Extreme a b := by
  rw [div?, toInt64?_eq_none_iff, inRange_tdiv_iff hb, Decidable.not_not]

/-- A remainder is refused for the sake of its quotient. -/
theorem rem?_of_ne {a b : Int64} (hb : b.toInt ≠ 0) :
    rem? a b = if Extreme a b then none else toInt64? (a.toInt.tmod b.toInt) := by
  rw [rem?]
  split
  · rename_i h
    rw [(div?_eq_none_iff hb).mpr h]
    rfl
  · rename_i h
    obtain ⟨q, hq⟩ := Option.ne_none_iff_exists'.mp (mt (div?_eq_none_iff hb).mp h)
    rw [hq]
    rfl

/-! ## Powers -/

/-- a number that is its own power with any larger exponent of the same parity -/
theorem pow_add_two {a : Int} (ha : a.natAbs ≤ 1) (n : Nat) : a ^ (n + 3) = a ^ (n + 1) := by
  have hcube : a * a * a = a := by
    obtain h | h | h : a = -1 ∨ a = 0 ∨ a = 1 := by omega
    all_goals subst h; rfl
  have hstep : a ^ (n + 3) = a ^ n * (a * a * a) := by
    rw [Int.pow_succ, Int.pow_succ, Int.pow_succ, Int.mul_assoc, Int.mul_assoc, Int.mul_assoc]
  rw [hstep, hcube, Int.pow_succ]

theorem pow_parity {a : Int} (ha : a.natAbs ≤ 1) (n : Nat) : a ^ min n (2 + n % 2) = a ^ n := by
  match n with
  | 0 | 1 | 2 => rfl
  | n + 3 =>
    have ih := pow_parity ha (n + 1)
    have hmin : min (n + 3) (2 + (n + 3) % 2) = 2 + (n + 1) % 2 := by omega
    rw [hmin, pow_add_two ha n, ← ih]
    by_cases hn : n = 0
    · -- the first power is the third one
      subst hn
      exact pow_add_two ha 0
    · have hmin : min (n + 1) (2 + (n + 1) % 2) = 2 + (n + 1) % 2 := by omega
      rw [hmin]

/-- From 2 on, powers with large exponents are out of range. -/
theorem not_inRange_pow {a : Int} (ha : 2 ≤ a.natAbs) {n : Nat} (hn : 64 ≤ n) :
    ¬InRange (a ^ n) := by
  intro h
  have hle := natAbs_le_of_inRange h
  rw [Int.natAbs_pow] at hle
  have hpow : 2 ^ 64 ≤ a.natAbs ^ n :=
    Nat.le_trans (Nat.pow_le_pow_right (by decide) hn) (Nat.pow_le_pow_left ha n)
  omega

/-- The power is exact where its exponent takes no more than 32 bits. -/
theorem pow?_eq (a : Int64) (n : Nat) :
    pow? a n = if UInt32.size ≤ n then none else toInt64? (a.toInt ^ n) := by
  rw [pow?]
  split
  · rfl
  split
  · rename_i ha
    exact congrArg toInt64? (pow_parity ha n)
  split
  · rename_i ha hn
    exact (toInt64?_eq_none_iff.mpr (not_inRange_pow (by omega) hn)).symm
  · rfl

end Integer

end Parlance
