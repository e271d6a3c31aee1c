import Parlance.Eval.Access
import Parlance.Eval.Operators
import Parlance.Proofs.Number.Range

/-!
# Slices and subscripts

A negative index counts from the end, and so does a negative bound of a slice.  After that an index has
to be in range, and a bound is moved there.

* `Value.fromFront i len`   an index, counted from the front;
* `Value.intoRange i len`   a bound, counted from the front and moved into range;
* `position?_eq_some_iff`, `clamp_eq`   these are what subscripts and slices go by;
* `positionChecked?`, `clampSaturating`   the same in arithmetic of 64 bits, which is checked there and
                            saturating here; `positionChecked?_eq`, `clampSaturating_eq`: neither shows,
                            since no sum with the length of a list is out of range;
* `slice_list`              a slice of a list is a list;
* `slices_fit`              so slices and subscripts tell of the same items.
-/

namespace Parlance

/-- the integer in range that is nearest to the sum -/
def Integer.addSaturating (a b : Int64) : Int64 :=
  (add? a b).getD (if a < 0 then Int64.minValue else Int64.maxValue)

namespace Value

open Integer (InRange add?)
open Numeral (toInt64?)

/-- an index, counted from the front: a negative one counts from the end -/
def fromFront (i : Int64) (len : Nat) : Int := if i.toInt < 0 then i.toInt + len else i.toInt

/-- a bound, counted from the front and moved into the range from 0 to `len` -/
def intoRange (i : Int64) (len : Nat) : Int := max 0 (min (fromFront i len) len)

/-- an index counted from the front with 64 bits, unless the sum is out of range -/
def counted? (i size : Int64) : Option Int64 := if i < 0 then add? i size else some i

/-- the same, where a sum that is out of range becomes the nearest integer that is not -/
def countedSaturating (i size : Int64) : Int64 := if i < 0 then Integer.addSaturating i size else i

/-- the place that an index means, computed with 64 bits -/
def positionChecked? (index : Int64) (len : Nat) : Option Nat := do
  let size ← toInt64? len
  let i ← counted? index size
  if 0 ≤ i ∧ i < size then some i.toInt.toNat else none

/-- a bound moved into range, computed with 64 bits -/
def clampSaturating (bound : Int64) (len : Nat) : Nat :=
  let size := (toInt64? len).getD Int64.maxValue
  let i := countedSaturating bound size
  if i < 0 then 0 else if size < i then size.toInt.toNat else i.toInt.toNat

variable {i : Int64} {len n : Nat}

/-! ## Counting from the end -/

theorem lt_zero_iff : i < 0 ↔ i.toInt < 0 := Int64.lt_iff_toInt_lt

theorem position?_eq_some_iff : position? i len = some n ↔ fromFront i len = n ∧ n < len := by
  simp only [position?, lt_zero_iff]
  show (if 0 ≤ fromFront i len ∧ fromFront i len < len then some (fromFront i len).toNat else none) =
    some n ↔ _
  split
  · rw [Option.some.injEq]
    omega
  · refine iff_of_false nofun ?_
    omega

theorem clamp_eq : (clamp i len : Int) = intoRange i len := by
  simp only [clamp, lt_zero_iff]
  show ((min (fromFront i len).toNat len : Nat) : Int) = max 0 (min (fromFront i len) len)
  omega

theorem clamp_le : clamp i len ≤ len := Nat.min_le_right _ _

/-! ## Counting with 64 bits -/

theorem countedSaturating_eq {size j : Int64} (h : counted? i size = some j) :
    countedSaturating i size = j := by
  unfold counted? at h
  unfold countedSaturating
  split at h
  · rename_i hi
    rw [if_pos hi, Integer.addSaturating, h, Option.getD_some]
  · rename_i hi
    rw [if_neg hi]
    exact Option.some.inj h

section
variable (hlen : InRange len)
include hlen

theorem exists_size : ∃ size : Int64, toInt64? len = some size ∧ size.toInt = len := by
  obtain ⟨size, hsize⟩ := Option.ne_none_iff_exists'.mp
    (mt Integer.toInt64?_eq_none_iff.mp (not_not_intro hlen))
  exact ⟨size, hsize, (Integer.toInt64?_eq_some_iff.mp hsize).symm⟩

/-- A sum of a negative index and a length is in range. -/
theorem exists_counted {size : Int64} (hsize : size.toInt = len) (i : Int64) :
    ∃ j : Int64, counted? i size = some j ∧ j.toInt = fromFront i len := by
  simp only [counted?, fromFront, lt_zero_iff]
  split
  · have hrange : InRange (i.toInt + size.toInt) := by
      have := Integer.inRange_toInt i
      unfold InRange at *
      omega
    obtain ⟨j, hj⟩ := Option.ne_none_iff_exists'.mp
      (mt Integer.toInt64?_eq_none_iff.mp (not_not_intro hrange))
    refine ⟨j, hj, ?_⟩
    rw [← Integer.toInt64?_eq_some_iff.mp hj, hsize]
  · exact ⟨i, rfl, rfl⟩

/-- Checking the sums refuses no index. -/
theorem positionChecked?_eq (i : Int64) : positionChecked? i len = position? i len := by
  obtain ⟨size, hsize, hlen'⟩ := exists_size hlen
  obtain ⟨j, hj, hfront⟩ := exists_counted hlen hlen' i
  have hzero : 0 ≤ j ↔ 0 ≤ j.toInt := Int64.le_iff_toInt_le
  refine Option.ext fun n => ?_
  simp only [positionChecked?, hsize, hj, Option.bind_eq_bind, Option.bind_some, hzero,
    Int64.lt_iff_toInt_lt, hlen', hfront, position?_eq_some_iff]
  split
  · rw [Option.some.injEq]
    omega
  · refine iff_of_false nofun ?_
    omega

/-- Nothing is there to saturate. -/
theorem clampSaturating_eq (i : Int64) : clampSaturating i len = clamp i len := by
  obtain ⟨size, hsize, hlen'⟩ := exists_size hlen
  obtain ⟨j, hj, hfront⟩ := exists_counted hlen hlen' i
  have hclamp : (clamp i len : Int) = max 0 (min j.toInt len) := by
    rw [clamp_eq, intoRange, hfront]
  simp only [clampSaturating, hsize, Option.getD_some, countedSaturating_eq hj,
    Int64.lt_iff_toInt_lt, Int64.toInt_zero, hlen']
  split
  · omega
  split
  · omega
  · omega

end

/-! ## Slices -/

variable {elem : Ty} {items : List Value}

/-- A slice of a list is a list of the items between two places. -/
theorem slice_list (start stop : Option Int64) :
    slice (list elem items) (start.map int) (stop.map int) =
      .ok (list elem ((items.take (stop.elim items.length (clamp · items.length))).drop
        (start.elim 0 (clamp · items.length)))) := by
  cases start <;> cases stop <;> rfl

theorem lower_eq (start : Option Int64) (len : Nat) :
    ((start.elim 0 (clamp · len) : Nat) : Int) = start.elim 0 (intoRange · len) := by
  cases start with
  | none => rfl
  | some i => exact clamp_eq

theorem upper_eq (stop : Option Int64) (len : Nat) :
    ((stop.elim len (clamp · len) : Nat) : Int) = stop.elim (len : Int) (intoRange · len) := by
  cases stop with
  | none => rfl
  | some i => exact clamp_eq

theorem upper_le (stop : Option Int64) (len : Nat) : stop.elim len (clamp · len) ≤ len := by
  cases stop with
  | none => exact Nat.le_refl len
  | some i => exact clamp_le

/-- The slices up to a bound and from it on add up to the list. -/
theorem slice_add_slice (k : Int64) :
    ∃ front back, slice (list elem items) none (some (int k)) = .ok front ∧
      slice (list elem items) (some (int k)) none = .ok back ∧
      binary .add front back = .ok (list elem items) := by
  refine ⟨_, _, slice_list none (some k), slice_list (some k) none, ?_⟩
  show binary .add (list elem (items.take (clamp k items.length)))
    (list elem ((items.take items.length).drop (clamp k items.length))) = _
  rw [List.take_length, binary, if_pos rfl, Ty.unify_self]
  dsimp only
  rw [List.take_append_drop]

/-! ## Subscripts -/

theorem subscript_eq_ok_iff {v : Value} :
    subscript (list elem items) (int i) = .ok v ↔
      ∃ n : Nat, fromFront i items.length = n ∧ items[n]? = some v := by
  have hsubscript : subscript (list elem items) (int i) = .ok v ↔
      (position? i items.length).bind (items[·]?) = some v := by
    rw [subscript]
    cases (position? i items.length).bind (items[·]?) with
    | none => exact iff_of_false nofun nofun
    | some w => rw [Except.ok.injEq, Option.some.injEq]
  rw [hsubscript, Option.bind_eq_some_iff]
  refine exists_congr fun n => ?_
  rw [position?_eq_some_iff, and_assoc]
  refine and_congr_right fun _ => and_iff_right_of_imp fun hv => ?_
  exact (List.getElem?_eq_some_iff.mp hv).1

/-- An index finds an item exactly where it is in range after it was counted. -/
theorem exists_subscript_iff :
    (∃ v, subscript (list elem items) (int i) = .ok v) ↔
      -(items.length : Int) ≤ i.toInt ∧ i.toInt < items.length := by
  have hrange : (∃ v, subscript (list elem items) (int i) = .ok v) ↔
      0 ≤ fromFront i items.length ∧ fromFront i items.length < items.length := by
    simp only [subscript_eq_ok_iff]
    constructor
    · rintro ⟨v, n, hn, hv⟩
      have hlt := (List.getElem?_eq_some_iff.mp hv).1
      omega
    · rintro ⟨hlow, hhigh⟩
      have hlt : (fromFront i items.length).toNat < items.length := by omega
      exact ⟨_, _, (Int.toNat_of_nonneg hlow).symm, List.getElem?_eq_getElem hlt⟩
  rw [hrange, fromFront]
  split <;> omega

theorem subscript_of_outside (h : ¬∃ v, subscript (list elem items) (int i) = .ok v) :
    subscript (list elem items) (int i) = .error (.indexOutOfRange i items.length) := by
  rw [subscript] at h ⊢
  cases hv : (position? i items.length).bind (items[·]?) with
  | none => rfl
  | some v =>
    rw [hv] at h
    exact absurd ⟨v, rfl⟩ h

/-- Two indices mean the same item if they are the same counted from the front. -/
theorem subscript_congr {j : Int64} (h : fromFront i items.length = fromFront j items.length)
    {v : Value} : subscript (list elem items) (int i) = .ok v ↔
      subscript (list elem items) (int j) = .ok v := by
  rw [subscript_eq_ok_iff, subscript_eq_ok_iff, h]

/-- A negative index finds what it finds when counted from the front. -/
theorem subscript_of_negative {j : Int64} (hi : i.toInt < 0) (hlow : -(items.length : Int) ≤ i.toInt)
    (hj : j.toInt = i.toInt + items.length) :
    subscript (list elem items) (int i) = subscript (list elem items) (int j) := by
  obtain ⟨v, hv⟩ := exists_subscript_iff.mpr ⟨hlow, show i.toInt < items.length by omega⟩
  have hfront : fromFront i items.length = fromFront j items.length := by
    rw [fromFront, fromFront, if_pos hi, if_neg (by omega), hj]
  rw [hv, (subscript_congr hfront).mp hv]

/-- What an item of a slice is found by in the list. -/
theorem subscript_of_slice {lo hi t : Nat} {v : Value} (h : ((items.take hi).drop lo)[t]? = some v) :
    items[lo + t]? = some v ∧
      ∀ n : Int64, n.toInt = lo + t → subscript (list elem items) (int n) = .ok v := by
  rw [List.getElem?_drop, List.getElem?_take] at h
  split at h
  · refine ⟨h, fun n hn => subscript_eq_ok_iff.mpr ⟨lo + t, ?_, h⟩⟩
    rw [fromFront, if_neg (by omega), hn, Int.natCast_add]
  · cases h

/-- The items of a slice are those that subscripts find from its lower bound on, as many as there are
up to the upper one. -/
theorem slice_items (start stop : Option Int64) :
    ∃ part, slice (list elem items) (start.map int) (stop.map int) = .ok (list elem part) ∧
      let lo := start.elim 0 (intoRange · items.length)
      let hi := stop.elim (items.length : Int) (intoRange · items.length)
      (part.length : Int) = max 0 (hi - lo) ∧
      ∀ (t : Nat) v, part[t]? = some v → items[lo.toNat + t]? = some v ∧
        ∀ n : Int64, n.toInt = lo + t → subscript (list elem items) (int n) = .ok v := by
  have hle := upper_le stop items.length
  refine ⟨_, slice_list start stop, ?_⟩
  rw [← lower_eq, ← upper_eq]
  refine ⟨?_, fun t v hv => subscript_of_slice hv⟩
  rw [List.length_drop, List.length_take, Nat.min_eq_left hle]
  omega

/-- **Slices and subscripts fit together.**  A slice of a list never fails and keeps the element type.
It has the items that subscripts from the one bound on have, as many as there are up to the other.  The
slices up to a bound and from it on add up to the list.  A subscript finds an item exactly where the
index is in the range of the length or of its negative, and the index is told back otherwise; a negative
index finds what it finds when counted from the front.  No item out of range is looked at, and computed
with 64 bits the places are the same, as no sum gets out of range. -/
theorem slices_fit (elem : Ty) (items : List Value) :
    let xs := list elem items
    let len := items.length
    (∀ start stop : Option Int64, ∃ part,
      slice xs (start.map int) (stop.map int) = .ok (list elem part) ∧
      let lo := start.elim 0 (intoRange · len)
      let hi := stop.elim (len : Int) (intoRange · len)
      (part.length : Int) = max 0 (hi - lo) ∧
      ∀ (t : Nat) v, part[t]? = some v → items[lo.toNat + t]? = some v ∧
        ∀ n : Int64, n.toInt = lo + t → subscript xs (int n) = .ok v) ∧
    (∀ k : Int64, ∃ front back, slice xs none (some (int k)) = .ok front ∧
      slice xs (some (int k)) none = .ok back ∧ binary .add front back = .ok xs) ∧
    (∀ i : Int64, (∃ v, subscript xs (int i) = .ok v) ↔ -(len : Int) ≤ i.toInt ∧ i.toInt < len) ∧
    (∀ i : Int64, (¬∃ v, subscript xs (int i) = .ok v) →
      subscript xs (int i) = .error (.indexOutOfRange i len)) ∧
    (∀ i j : Int64, i.toInt < 0 → -(len : Int) ≤ i.toInt → j.toInt = i.toInt + len →
      subscript xs (int i) = subscript xs (int j)) ∧
    (∀ i n, position? i len = some n → n < len) ∧ (∀ i, clamp i len ≤ len) ∧
    (InRange len → ∀ i : Int64, positionChecked? i len = position? i len ∧
      clampSaturating i len = clamp i len ∧
      ∃ size j : Int64, toInt64? len = some size ∧ counted? i size = some j ∧
        j.toInt = fromFront i len) := by
  intro xs len
  refine ⟨slice_items, slice_add_slice, fun i => exists_subscript_iff,
    fun i => subscript_of_outside, fun i j => subscript_of_negative,
    fun i n h => (position?_eq_some_iff.mp h).2, fun i => clamp_le, ?_⟩
  intro hlen i
  obtain ⟨size, hsize, hsize'⟩ := exists_size hlen
  obtain ⟨j, hj, hfront⟩ := exists_counted hlen hsize' i
  exact ⟨positionChecked?_eq hlen i, clampSaturating_eq hlen i, size, j, hsize, hj, hfront⟩

/-- The last three of four letters, found from either end, and the least of all indices. -/
theorem letters_sliced :
    let items := [char 'a', char 'b', char 'c', char 'd']
    let xs := list .char items
    slice xs (some (int (-3))) (some (int Int64.maxValue)) =
      .ok (list .char [char 'b', char 'c', char 'd']) ∧
    [char 'b', char 'c', char 'd'][1]? = some (char 'c') ∧
    (2 : Int64).toInt = intoRange (-3) 4 + (1 : Nat) ∧ subscript xs (int 2) = .ok (char 'c') ∧
    (-1 : Int64).toInt < 0 ∧ -4 ≤ (-1 : Int64).toInt ∧ (3 : Int64).toInt = (-1 : Int64).toInt + 4 ∧
    subscript xs (int (-1)) = subscript xs (int 3) ∧
    (¬∃ v, subscript xs (int Int64.minValue) = .ok v) ∧
    subscript xs (int Int64.minValue) = .error (.indexOutOfRange Int64.minValue 4) ∧
    position? (-1) 4 = some 3 ∧ 3 < 4 ∧
    InRange 4 ∧ clampSaturating Int64.minValue 4 = clamp Int64.minValue 4 := by
  intro items xs
  obtain ⟨hslice, -, hfound, hlost, hnegative, hplace, -, hchecked⟩ := slices_fit .char items
  have hpart : slice xs (some (int (-3))) (some (int Int64.maxValue)) =
      .ok (list .char [char 'b', char 'c', char 'd']) := rfl
  obtain ⟨part, hpart', -, hitems⟩ := hslice (some (-3)) (some Int64.maxValue)
  obtain rfl : [char 'b', char 'c', char 'd'] = part := by
    cases hpart.symm.trans hpart'
    rfl
  have hsecond : (2 : Int64).toInt = intoRange (-3) 4 + (1 : Nat) := by decide
  have hleast : ¬∃ v, subscript xs (int Int64.minValue) = .ok v := mt (hfound _).mp (by decide)
  have hlength : InRange 4 := by decide
  exact ⟨hpart, rfl, hsecond, (hitems 1 _ rfl).2 2 hsecond, by decide, by decide, by decide,
    hnegative (-1) 3 (by decide) (by decide) (by decide), hleast, hlost _ hleast, by decide,
    hplace (-1) 3 (by decide), hlength, (hchecked hlength _).2.1⟩

end Value

end Parlance
