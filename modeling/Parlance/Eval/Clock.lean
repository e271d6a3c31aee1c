import Parlance.Eval.Error

/-!
# Clocks

* `Clock`        how long an invocation has lasted, each time that the clock is read;
* `Clock.late`   the time that an invocation may take is over when the clock is read;
* `Clock.still`  the clock of an invocation that takes no time at all.

Evaluation has no say in what a clock shows.  So the readings of an invocation are given beforehand,
one after another, and what evaluation decides is when to read the next.
-/

namespace Parlance

/-- How long an invocation has lasted, in nanoseconds, each time that the clock is read. -/
structure Clock where
  elapsed : Nat → Nat
  forward : ∀ n, elapsed n ≤ elapsed (n + 1)

namespace Clock

/-- is the time that an invocation may take over at a reading -/
def late (clock : Clock) (n : Nat) : Bool := timeLimit * 1000000 < clock.elapsed n

theorem late_iff {clock : Clock} {n : Nat} :
    clock.late n = true ↔ timeLimit * 1000000 < clock.elapsed n := decide_eq_true_iff

/-- the clock of an invocation that takes no time at all -/
def still : Clock where
  elapsed _ := 0
  forward _ := Nat.le_refl 0

end Clock

end Parlance
