import Parlance.Eval.Basic
import Parlance.Proofs.Value.Places

/-!
# What the writing steps do

Only two steps of evaluation write a global.  Each of them fails and leaves the machine as it is, or
writes exactly one global:

* `Eval.store_of_get?`, `Eval.extend_of_get?`   what each comes to, by what is in the place;
* `Eval.store_cases`    putting a value in a place;
* `Eval.extend_cases`   making the list in a place longer;
* `Eval.account_store`, `Eval.account_extend`   neither runs anything or reads the clock.
-/

namespace Parlance

namespace Eval

def stored (m : Machine) (place : Place) (whole value : Value) : Machine :=
  { m with globals := m.globals.insert place.name (Value.put value place.path whole) }

def extended (m : Machine) (place : Place) (whole longer : Value) : Machine :=
  { stored m place whole longer with growths := ⟨place, whole, longer⟩ :: m.growths }

section
variable {place : Place} {m : Machine}

section
variable (h : m.globals.get? place.name = none)
include h

theorem wholeOf_of_none : wholeOf place m = (.error (.unresolvedVariable place.name), m) := by
  rw [wholeOf, EvalM.bind_eq_of_ok (EvalM.globals_apply m), h]
  rfl

theorem store_of_none (value : Value) :
    store place value m = (.error (.unresolvedVariable place.name), m) :=
  EvalM.bind_eq_of_error (wholeOf_of_none h)

theorem extend_of_none (more : List Value) :
    extend place more m = (.error (.unresolvedVariable place.name), m) :=
  EvalM.bind_eq_of_error (wholeOf_of_none h)

end

variable {whole : Value} (h : m.globals.get? place.name = some whole)
include h

theorem wholeOf_of_get? : wholeOf place m = (.ok whole, m) := by
  rw [wholeOf, EvalM.bind_eq_of_ok (EvalM.globals_apply m), h]
  rfl

theorem store_of_get? (value : Value) :
    store place value m = match whole.slot (some value) place.path with
      | .error e => (.error e, m)
      | .ok old =>
        if old.ty = value.ty then (.ok value, stored m place whole value)
        else (.error (.assignTypeMismatch old.ty value.ty), m) := by
  rw [store, EvalM.bind_eq_of_ok (wholeOf_of_get? h)]
  cases whole.slot (some value) place.path with
  | error e => exact EvalM.bind_eq_of_error (EvalM.lift_apply (.error e) m)
  | ok old =>
    rw [EvalM.bind_eq_of_ok (EvalM.lift_apply (.ok old) m)]
    by_cases hty : old.ty = value.ty
    · rw [if_pos hty]
      exact (if_pos hty).symm
    · rw [if_neg hty]
      exact (if_neg hty).symm

theorem extend_of_get? (more : List Value) :
    extend place more m = match whole.at? place.path with
      | .error e => (.error e, m)
      | .ok (.list elem items) =>
        match Value.append elem items more with
        | .error e => (.error e, m)
        | .ok longer => (.ok longer, extended m place whole longer)
      | .ok v => (.error (.noSuchMethod v.ty "append"), m) := by
  rw [extend, EvalM.bind_eq_of_ok (wholeOf_of_get? h), Value.slot_none]
  cases whole.at? place.path with
  | error e => exact EvalM.bind_eq_of_error (EvalM.lift_apply (.error e) m)
  | ok v =>
    rw [EvalM.bind_eq_of_ok (EvalM.lift_apply (.ok v) m)]
    cases v with
    | list elem items =>
      dsimp only
      cases Value.append elem items more <;> rfl
    | _ => rfl

end

/-- Putting a value in a place fails and changes nothing, or finds something of the value's type
there and writes the global that the place is a part of. -/
theorem store_cases (place : Place) (value : Value) (m : Machine) :
    (∃ e, store place value m = (.error e, m)) ∨
    ∃ whole old, m.globals.get? place.name = some whole ∧
      whole.slot (some value) place.path = .ok old ∧ old.ty = value.ty ∧
      store place value m = (.ok value, stored m place whole value) := by
  cases hwhole : m.globals.get? place.name with
  | none => exact .inl ⟨_, store_of_none hwhole value⟩
  | some whole =>
    rw [store_of_get? hwhole]
    cases hold : whole.slot (some value) place.path with
    | error e => exact .inl ⟨e, rfl⟩
    | ok old =>
      dsimp only
      split
      · rename_i hty
        exact .inr ⟨whole, old, rfl, hold, hty, rfl⟩
      · exact .inl ⟨_, rfl⟩

/-- Making a list longer fails and changes nothing, or finds a list, writes the global that its place
is a part of and takes that down. -/
theorem extend_cases (place : Place) (more : List Value) (m : Machine) :
    (∃ e, extend place more m = (.error e, m)) ∨
    ∃ whole elem items longer, m.globals.get? place.name = some whole ∧
      whole.at? place.path = .ok (.list elem items) ∧
      Value.append elem items more = .ok longer ∧
      extend place more m = (.ok longer, extended m place whole longer) := by
  cases hwhole : m.globals.get? place.name with
  | none => exact .inl ⟨_, extend_of_none hwhole more⟩
  | some whole =>
    rw [extend_of_get? hwhole]
    cases hat : whole.at? place.path with
    | error e => exact .inl ⟨e, rfl⟩
    | ok v =>
      cases v with
      | list elem items =>
        dsimp only
        cases happ : Value.append elem items more with
        | error e => exact .inl ⟨e, rfl⟩
        | ok longer => exact .inr ⟨whole, elem, items, longer, rfl, hat, happ, rfl⟩
      | _ => exact .inl ⟨_, rfl⟩

theorem account_store (place : Place) (value : Value) (m : Machine) :
    (store place value m).2.calls = m.calls ∧ (store place value m).2.readings = m.readings := by
  rcases store_cases place value m with ⟨e, h⟩ | ⟨whole, old, -, -, -, h⟩
  · rw [h]
    exact ⟨rfl, rfl⟩
  · rw [h]
    exact ⟨rfl, rfl⟩

theorem account_extend (place : Place) (more : List Value) (m : Machine) :
    (extend place more m).2.calls = m.calls ∧ (extend place more m).2.readings = m.readings := by
  rcases extend_cases place more m with ⟨e, h⟩ | ⟨whole, elem, items, longer, -, -, -, h⟩
  · rw [h]
    exact ⟨rfl, rfl⟩
  · rw [h]
    exact ⟨rfl, rfl⟩

end Eval

end Parlance
