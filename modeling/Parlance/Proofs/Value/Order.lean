import Mathlib.Order.Compare
import Parlance.Value.Order

/-!
# Equality in the order of values

* `Value.outline v`         the value with nothing left of its functions but their names;
* `compare_eq_iff`          two values have the same place in the order if their outlines are equal;
* `lookup?_congr`           so what entries hold for a key is the same for every key in its place;
* `lookup?_insertEntry`     binding a key changes what the entries hold for it, and for no other key.

None of this asks the entries to be in order.
-/

namespace Parlance

theorem Double.bits_eq_of_totalKey_eq {x y : Double} (h : x.totalKey = y.totalKey) : x = y := by
  have hx := x.bits.toNat_lt
  have hy := y.bits.toNat_lt
  have hbits : x.bits.toNat = y.bits.toNat := by
    unfold totalKey negative magnitude signWeight at h
    simp only [decide_eq_true_eq] at h
    split at h <;> split at h <;> omega
  cases x
  cases y
  exact congrArg Double.mk (UInt64.toNat_inj.mp hbits)

namespace Value

mutual

/-- the value with nothing left of its functions but their names -/
def outline : Value → Value
  | list elem items => list elem (outlineAll items)
  | map key elem entries => map key elem (outlineEntries entries)
  | function c => function ⟨c.name, .words []⟩
  | v => v

def outlineAll : List Value → List Value
  | [] => []
  | v :: vs => outline v :: outlineAll vs

def outlineEntries : List (Value × Value) → List (Value × Value)
  | [] => []
  | (k, v) :: rest => (outline k, outline v) :: outlineEntries rest

end

theorem rank_outline (v : Value) : v.outline.ty.rank = v.ty.rank := by
  cases v <;> simp [outline, ty, Signature.ty, Ty.rank]

/-- values of different kinds have different places -/
theorem rank_eq_of_compare_eq {a b : Value} (h : compare a b = .eq) : a.ty.rank = b.ty.rank := by
  cases a <;> cases b <;>
    first | rfl | simp [compare, ty, Signature.ty, Ty.compare, Ty.rank] at h

theorem compare_eq_iff_of_rank_ne {a b : Value} (h : a.ty.rank ≠ b.ty.rank) :
    compare a b = .eq ↔ a.outline = b.outline := by
  refine iff_of_false (fun hc => h (rank_eq_of_compare_eq hc)) ?_
  intro ho
  rw [← rank_outline a, ho, rank_outline] at h
  exact h rfl

mutual

/-- **Two values have the same place in the order exactly if their outlines are equal.** -/
theorem compare_eq_iff (a b : Value) : compare a b = .eq ↔ a.outline = b.outline := by
  by_cases hrank : a.ty.rank = b.ty.rank
  · cases a <;> cases b <;> try simp [ty, Signature.ty, Ty.rank] at hrank
    case list.list s xs t ys =>
      rw [compare, Ordering.then_eq_eq, Ty.compare_eq_iff, compareItems_eq_iff xs ys, outline,
        outline, list.injEq]
    case map.map k s xs l t ys =>
      rw [compare, Ordering.then_eq_eq, Ordering.then_eq_eq, Ty.compare_eq_iff, Ty.compare_eq_iff,
        compareEntries_eq_iff xs ys, outline, outline, map.injEq, and_assoc]
    case dbl.dbl a b =>
      simp only [compare, outline, Double.totalCompare, Std.LawfulEqOrd.compare_eq_iff_eq, dbl.injEq]
      exact ⟨Double.bits_eq_of_totalKey_eq, congrArg Double.totalKey⟩
    case void.void => simp [compare, outline, ty, Ty.compare_self]
    case char.char a b => simp [compare, outline, Char.toNat_inj]
    case int.int a b => simp [compare, outline, Int64.toInt_inj]
    all_goals simp [compare, outline]
  · exact compare_eq_iff_of_rank_ne hrank
termination_by sizeOf a

theorem compareItems_eq_iff : ∀ xs ys : List Value,
    compareItems xs ys = .eq ↔ outlineAll xs = outlineAll ys
  | [], [] => by simp [compareItems, outlineAll]
  | [], _ :: _ => by simp [compareItems, outlineAll]
  | _ :: _, [] => by simp [compareItems, outlineAll]
  | x :: xs, y :: ys => by
    rw [compareItems, Ordering.then_eq_eq, compare_eq_iff x y, compareItems_eq_iff xs ys,
      outlineAll, outlineAll, List.cons.injEq]
  termination_by xs => sizeOf xs

theorem compareEntries_eq_iff : ∀ xs ys : List (Value × Value),
    compareEntries xs ys = .eq ↔ outlineEntries xs = outlineEntries ys
  | [], [] => by simp [compareEntries, outlineEntries]
  | [], _ :: _ => by simp [compareEntries, outlineEntries]
  | _ :: _, [] => by simp [compareEntries, outlineEntries]
  | (k, x) :: xs, (l, y) :: ys => by
    rw [compareEntries, Ordering.then_eq_eq, Ordering.then_eq_eq, compare_eq_iff k l,
      compare_eq_iff x y, compareEntries_eq_iff xs ys, outlineEntries, outlineEntries,
      List.cons.injEq, Prod.mk.injEq]
  termination_by xs => sizeOf xs

end

theorem compare_self (v : Value) : compare v v = .eq := (compare_eq_iff v v).mpr rfl

theorem compare_eq_comm (a b : Value) : compare a b = .eq ↔ compare b a = .eq := by
  rw [compare_eq_iff, compare_eq_iff, eq_comm]

/-- values in the same place stand alike to any other -/
theorem compare_eq_congr {a b : Value} (h : compare a b = .eq) (c : Value) :
    compare a c = .eq ↔ compare b c = .eq := by
  rw [compare_eq_iff, compare_eq_iff, (compare_eq_iff a b).mp h]

theorem beq_iff (a b : Value) : (a == b) = true ↔ compare a b = .eq :=
  beq_iff_eq (a := compare a b) (b := .eq)

/-! ## Entries -/

/-- what the entries hold for a key is what they hold for any key in its place -/
theorem lookup?_congr {key other : Value} (h : compare key other = .eq)
    (entries : List (Value × Value)) : lookup? key entries = lookup? other entries := by
  induction entries with
  | nil => rfl
  | cons e rest ih =>
    obtain ⟨k, v⟩ := e
    simp only [lookup?, compare_eq_congr h k, ih]

/-- **Binding a key changes what the entries hold for it, and for no other key.** -/
theorem lookup?_insertEntry (key value other : Value) (entries : List (Value × Value)) :
    lookup? other (insertEntry key value entries) =
      if compare key other = .eq then some value else lookup? other entries := by
  induction entries with
  | nil => simp only [insertEntry, lookup?, compare_eq_comm other key]
  | cons e rest ih =>
    obtain ⟨k, v⟩ := e
    rw [insertEntry]
    split
    · simp only [lookup?, compare_eq_comm other key]
    · rename_i hkey
      -- the entry of the key itself: it is in the place of `k`
      simp only [lookup?, compare_eq_comm other k, ← compare_eq_congr hkey other]
      split <;> rfl
    · rename_i hkey
      simp only [lookup?, ih]
      split
      · rename_i hother
        have hne : ¬compare key other = .eq := by
          intro h
          have hk := (compare_eq_congr h k).mpr hother
          rw [hkey] at hk
          cases hk
        rw [if_neg hne]
      · rfl

end Value

end Parlance
