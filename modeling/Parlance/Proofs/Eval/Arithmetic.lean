import Parlance.Proofs.Eval.Places
import Parlance.Proofs.Number.Range

/-!
# Arithmetic on integers

* `BinaryOp.Strict`           both operands are evaluated, whatever they come to;
* `BinaryOp.onIntegers?`      the exact result of `+`, `-`, `*`, `/`, `%` or `**`, if there is one;
* `Eval.Unreached op a b`     the machine does not get to the result: a remainder whose quotient is out
                              of range, or a power whose exponent takes more than 32 bits;
* `integerOp_of_some`         all other results are computed exactly and then held against the range;
* `integers_exact`            so an integer is answered, or an overflow or a division by zero reported,
                              exactly in these cases.
-/

namespace Parlance

namespace BinaryOp

/-- both operands are evaluated, whatever they come to -/
def Strict (op : BinaryOp) : Prop := op ≠ .and ∧ op ≠ .or ∧ op ≠ .pipeline

/-- the operators that have a result in the integers -/
def arithmetic : List BinaryOp := [.add, .sub, .mul, .div, .rem, .pow]

/-- The exact result of an arithmetic operator on two integers.  A quotient is rounded toward zero,
and a remainder has the sign of `a`. -/
def onIntegers? (op : BinaryOp) (a b : Int) : Option Int :=
  match op with
  | add => some (a + b)
  | sub => some (a - b)
  | mul => some (a * b)
  | div => if b = 0 then none else some (a.tdiv b)
  | rem => if b = 0 then none else some (a.tmod b)
  | pow => if b < 0 then none else some (a ^ b.toNat)
  | _ => none

theorem strict_of_mem {op : BinaryOp} (h : op ∈ arithmetic) : op.Strict := by
  unfold Strict
  refine ⟨?_, ?_, ?_⟩ <;> (rintro rfl; exact absurd h (by decide))

/-- Only a division by zero has no result. -/
theorem onIntegers?_eq_none_iff {op : BinaryOp} (h : op ∈ arithmetic) {a b : Int}
    (hpow : op = .pow → 0 ≤ b) : op.onIntegers? a b = none ↔ (op = .div ∨ op = .rem) ∧ b = 0 := by
  cases op with
  | div | rem => simp [onIntegers?]
  | pow =>
    have hb : ¬b < 0 := Int.not_lt.mpr (hpow rfl)
    simp [onIntegers?, hb]
  | add | sub | mul => simp [onIntegers?]
  | _ => exact absurd h (by decide)

end BinaryOp

namespace Eval

open Numeral (toInt64?)
open Integer (InRange Extreme)

/-- The machine does not get to the result: the quotient on the way to a remainder is out of range,
or the exponent of a power takes more than 32 bits. -/
def Unreached (op : BinaryOp) (a b : Int64) : Prop :=
  (op = .rem ∧ Extreme a b) ∨ (op = .pow ∧ UInt32.size ≤ b.toInt)

instance (op : BinaryOp) (a b : Int64) : Decidable (Unreached op a b) :=
  inferInstanceAs (Decidable (_ ∨ _))

/-! ## Operators on values -/

section
variable {op : BinaryOp} {a b : Int64}

theorem checked_eq_ok_iff {o : Option Int64} {c : Int64} :
    Value.checked op o = .ok (.int c) ↔ o = some c := by
  cases o with
  | none => exact iff_of_false nofun nofun
  | some d =>
    constructor
    · rintro ⟨⟩
      rfl
    · rintro ⟨⟩
      rfl

theorem checked_eq_overflow_iff {o : Option Int64} :
    Value.checked op o = .error (.overflow op.symbol) ↔ o = none := by
  cases o with
  | none => exact iff_of_true rfl rfl
  | some d => exact iff_of_false nofun nofun

theorem checked_ne_divisionByZero (o : Option Int64) :
    Value.checked op o ≠ .error .divisionByZero := by
  cases o with
  | none => exact nofun
  | some d => exact nofun

theorem not_unreached (hrem : op ≠ .rem) (hpow : op ≠ .pow) : ¬Unreached op a b := by
  rintro (⟨h, -⟩ | ⟨h, -⟩)
  · exact hrem h
  · exact hpow h

theorem unreached_rem_iff : Unreached .rem a b ↔ Extreme a b := by
  simp [Unreached]

theorem unreached_pow_iff (hb : 0 ≤ b.toInt) :
    Unreached .pow a b ↔ UInt32.size ≤ b.toInt.toNat := by
  have hsize : (UInt32.size : Int) ≤ b.toInt ↔ UInt32.size ≤ b.toInt.toNat := by omega
  rw [← hsize]
  simp [Unreached]

theorem integerOp_of_none (hop : op ∈ BinaryOp.arithmetic) (hpow : op = .pow → 0 ≤ b.toInt)
    (h : op.onIntegers? a.toInt b.toInt = none) :
    Value.integerOp op a b = .error .divisionByZero := by
  obtain ⟨hop, hb⟩ := (BinaryOp.onIntegers?_eq_none_iff hop hpow).mp h
  have hzero : b = 0 := Int64.toInt_inj.mp hb
  rcases hop with rfl | rfl <;> exact if_pos hzero

/-- **The result is computed exactly and held against the range**, unless it is refused before. -/
theorem integerOp_of_some {i : Int} (h : op.onIntegers? a.toInt b.toInt = some i) :
    Value.integerOp op a b =
      Value.checked op (if Unreached op a b then none else toInt64? i) := by
  have hzero : b = 0 ↔ b.toInt = 0 := Int64.toInt_inj.symm
  have hreached := @not_unreached op a b
  cases op with
  | add | sub | mul =>
    rw [if_neg (hreached BinaryOp.noConfusion BinaryOp.noConfusion)]
    cases h
    rfl
  | div =>
    rw [if_neg (hreached BinaryOp.noConfusion BinaryOp.noConfusion)]
    rw [BinaryOp.onIntegers?] at h
    split at h
    · cases h
    · rename_i hb
      cases h
      exact if_neg (mt hzero.mp hb)
  | rem =>
    rw [BinaryOp.onIntegers?] at h
    split at h
    · cases h
    · rename_i hb
      cases h
      rw [Value.integerOp, if_neg (mt hzero.mp hb), Integer.rem?_of_ne hb]
      simp only [unreached_rem_iff]
  | pow =>
    rw [BinaryOp.onIntegers?] at h
    split at h
    · cases h
    · rename_i hb
      cases h
      rw [Value.integerOp, if_neg (mt Int64.lt_iff_toInt_lt.mp hb), Integer.pow?_eq]
      simp only [unreached_pow_iff (Int.not_lt.mp hb)]
  | _ => cases h

end

/-! ## Expressions -/

section
variable {r : Registry} {ctx : Context} {call : Command → List Value → EvalM Value}
  {x y : Expr} {m m₁ m₂ : Machine}

theorem eval_strict {op : BinaryOp} (hop : op.Strict) (x y : Expr) :
    eval r ctx call (.binary op x y) = (do
      EvalM.lift (Value.binary op (← eval r ctx call x) (← eval r ctx call y))) := by
  obtain ⟨hand, hor, hpipeline⟩ := hop
  rw [eval]
  · cases op with
    | and => exact absurd rfl hand
    | or => exact absurd rfl hor
    | _ => rfl
  · exact hpipeline

theorem eval_strict_of_ok {op : BinaryOp} (hop : op.Strict) {v w : Value}
    (hx : eval r ctx call x m = (.ok v, m₁)) (hy : eval r ctx call y m₁ = (.ok w, m₂)) :
    eval r ctx call (.binary op x y) m = (Value.binary op v w, m₂) := by
  rw [eval_strict hop, EvalM.bind_eq_of_ok hx, EvalM.bind_eq_of_ok hy, EvalM.lift_apply]

/-- **Arithmetic on integers is exact or refused.**  An integer is answered if it is the exact result,
an overflow is reported if the exact result is out of range, and a division by zero if there is none;
but an overflow is also reported where the machine does not get to a result in range. -/
theorem integers_exact {op : BinaryOp} (hop : op ∈ BinaryOp.arithmetic) {a b : Int64}
    (hpow : op = .pow → 0 ≤ b.toInt) (hx : eval r ctx call x m = (.ok (.int a), m₁))
    (hy : eval r ctx call y m₁ = (.ok (.int b), m₂)) :
    let o := eval r ctx call (.binary op x y) m
    let exactly := op.onIntegers? a.toInt b.toInt
    (∀ c : Int64, o = (.ok (.int c), m₂) ↔ exactly = some c.toInt ∧ ¬Unreached op a b) ∧
    (o = (.error (.overflow op.symbol), m₂) ↔
      ∃ i, exactly = some i ∧ (¬InRange i ∨ Unreached op a b)) ∧
    (o = (.error .divisionByZero, m₂) ↔ (op = .div ∨ op = .rem) ∧ b = 0) := by
  intro o exactly
  have ho : o = (Value.integerOp op a b, m₂) :=
    eval_strict_of_ok (BinaryOp.strict_of_mem hop) hx hy
  have hzero : b = 0 ↔ b.toInt = 0 := Int64.toInt_inj.symm
  rw [ho, hzero, ← BinaryOp.onIntegers?_eq_none_iff hop hpow]
  simp only [Prod.mk.injEq, and_true]
  cases hexactly : op.onIntegers? a.toInt b.toInt with
  | none =>
    rw [show exactly = none from hexactly, integerOp_of_none hop hpow hexactly]
    refine ⟨fun c => iff_of_false nofun nofun, iff_of_false nofun nofun, iff_of_true rfl rfl⟩
  | some i =>
    rw [show exactly = some i from hexactly, integerOp_of_some hexactly]
    refine ⟨fun c => ?_, ?_, iff_of_false (checked_ne_divisionByZero _) nofun⟩
    · rw [checked_eq_ok_iff, Option.some.injEq]
      split
      · rename_i hunreached
        exact iff_of_false nofun fun h => h.2 hunreached
      · rename_i hunreached
        rw [Integer.toInt64?_eq_some_iff, and_iff_left hunreached]
    · rw [checked_eq_overflow_iff]
      simp only [Option.some.injEq, exists_eq_left']
      split
      · rename_i hunreached
        exact iff_of_true rfl (.inr hunreached)
      · rename_i hunreached
        rw [Integer.toInt64?_eq_none_iff, or_iff_left hunreached]

end

/-- `-2 ** 63` is the least of all integers in range, and gets there. -/
theorem least_power_exact :
    BinaryOp.pow ∈ BinaryOp.arithmetic ∧ 0 ≤ (63 : Int64).toInt ∧
    eval .fresh bystander refused (.int (-2)) (.start .empty) = (.ok (.int (-2)), .start .empty) ∧
    eval .fresh bystander refused (.int 63) (.start .empty) = (.ok (.int 63), .start .empty) ∧
    eval .fresh bystander refused (.binary .pow (.int (-2)) (.int 63)) (.start .empty) =
      (.ok (.int Int64.minValue), .start .empty) := by
  have hx : eval .fresh bystander refused (.int (-2)) (.start .empty) =
      (.ok (.int (-2)), .start .empty) := rfl
  have hy : eval .fresh bystander refused (.int 63) (.start .empty) =
      (.ok (.int 63), .start .empty) := rfl
  have hop : BinaryOp.pow ∈ BinaryOp.arithmetic := by decide
  have hexponent : 0 ≤ (63 : Int64).toInt := by decide
  obtain ⟨hexact, -, -⟩ := integers_exact hop (fun _ => hexponent) hx hy
  refine ⟨hop, hexponent, hx, hy, (hexact Int64.minValue).mpr ⟨?_, ?_⟩⟩
  · decide
  · decide

/-- The least integer leaves nothing when divided by -1, and 1 is its own power; but the quotient is
out of range, and the exponent takes 33 bits. -/
theorem unreached_results_overflow :
    (BinaryOp.rem.onIntegers? Int64.minValue.toInt (-1) = some 0 ∧ InRange 0 ∧
      eval .fresh bystander refused (.binary .rem (.int Int64.minValue) (.int (-1)))
        (.start .empty) = (.error (.overflow "%"), .start .empty)) ∧
    (BinaryOp.pow.onIntegers? 1 4294967296 = some 1 ∧ InRange 1 ∧
      eval .fresh bystander refused (.binary .pow (.int 1) (.int 4294967296)) (.start .empty) =
        (.error (.overflow "**"), .start .empty)) := by
  refine ⟨⟨by decide, by decide, rfl⟩, ?_, by decide, rfl⟩
  rw [BinaryOp.onIntegers?, if_neg (by decide), Int.one_pow]

end Eval

end Parlance
