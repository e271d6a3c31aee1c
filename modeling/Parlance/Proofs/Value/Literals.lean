import Parlance.Eval.Operators
import Parlance.Proofs.Ty.Join

/-!
# How lists get their types

* `listOf_eq_ok_iff`   a list literal has the join of the types of its items as its element type;
* `add_lists_eq_ok_iff`   and a sum of two lists that of their element types;
* `list_typing`        so literals do not depend on the order of their items, nor sums on their
                       grouping, and the literal of all items is the sum of the literals of some and
                       of the others.
-/

namespace Parlance.Value

open Ty (Erases Join unify)

theorem bind_eq_ok_iff {α β : Type} {x : Except EvalError α} {f : α → Except EvalError β} {b : β} :
    x.bind f = .ok b ↔ ∃ a, x = .ok a ∧ f a = .ok b := by
  cases x with
  | error e => exact iff_of_false (fun h => by cases h) fun ⟨_, h, _⟩ => by cases h
  | ok a =>
    constructor
    · exact fun h => ⟨a, rfl, h⟩
    · rintro ⟨_, ⟨⟩, h⟩
      exact h

variable {s t u : Ty} {xs ys zs : List Value} {v : Value}

theorem listOf_eq_ok_iff : listOf xs = .ok v ↔ ∃ c, Join (xs.map ty) c ∧ v = list c xs := by
  rw [listOf]
  cases hall : Ty.unifyAll .void (xs.map ty) with
  | ok c =>
    have hjoin : Join (xs.map ty) c := Ty.join_void_cons.mp (Ty.unifyAll_eq_ok_iff.mp hall)
    dsimp only
    constructor
    · intro h
      cases h
      exact ⟨c, hjoin, rfl⟩
    · rintro ⟨d, hd, rfl⟩
      rw [hjoin.unique hd]
  | error e =>
    refine iff_of_false (fun h => by cases h) ?_
    rintro ⟨c, hc, -⟩
    rw [Ty.unifyAll_eq_ok_iff.mpr (Ty.join_void_cons.mpr hc)] at hall
    cases hall

theorem add_lists_eq_ok_iff :
    binary .add (list s xs) (list t ys) = .ok v ↔ ∃ c, Join [s, t] c ∧ v = list c (xs ++ ys) := by
  cases hunify : unify s t with
  | some c =>
    have hjoin := Ty.unify_eq_some_iff.mp hunify
    have hadd : binary .add (list s xs) (list t ys) = .ok (list c (xs ++ ys)) := by
      rw [binary, if_pos rfl, hunify]
    rw [hadd]
    constructor
    · intro h
      cases h
      exact ⟨c, hjoin, rfl⟩
    · rintro ⟨d, hd, rfl⟩
      rw [hjoin.unique hd]
  | none =>
    have hadd : binary .add (list s xs) (list t ys) =
        .error (.invalidBinary .add (.list s) (.list t)) := by
      rw [binary, if_pos rfl, hunify]
    rw [hadd]
    refine iff_of_false (fun h => by cases h) ?_
    rintro ⟨c, hc, -⟩
    rw [Ty.unify_eq_some_iff.mpr hc] at hunify
    cases hunify

/-! ## Several lists -/

theorem add_add_eq_ok_iff :
    ((binary .add (list s xs) (list t ys)).bind fun w => binary .add w (list u zs)) = .ok v ↔
      ∃ c, Join [s, t, u] c ∧ v = list c (xs ++ ys ++ zs) := by
  rw [bind_eq_ok_iff]
  constructor
  · rintro ⟨sum, hsum, h⟩
    obtain ⟨b, hb, rfl⟩ := add_lists_eq_ok_iff.mp hsum
    obtain ⟨c, hc, rfl⟩ := add_lists_eq_ok_iff.mp h
    exact ⟨c, (Ty.join_concat_iff [s, t]).mpr ⟨b, hb, hc⟩, rfl⟩
  · rintro ⟨c, hc, rfl⟩
    obtain ⟨b, hb, hc⟩ := (Ty.join_concat_iff [s, t]).mp hc
    exact ⟨_, add_lists_eq_ok_iff.mpr ⟨b, hb, rfl⟩, add_lists_eq_ok_iff.mpr ⟨c, hc, rfl⟩⟩

theorem add_of_add_eq_ok_iff :
    ((binary .add (list t ys) (list u zs)).bind fun w => binary .add (list s xs) w) = .ok v ↔
      ∃ c, Join [s, t, u] c ∧ v = list c (xs ++ ys ++ zs) := by
  rw [bind_eq_ok_iff, List.append_assoc]
  constructor
  · rintro ⟨sum, hsum, h⟩
    obtain ⟨b, hb, rfl⟩ := add_lists_eq_ok_iff.mp hsum
    obtain ⟨c, hc, rfl⟩ := add_lists_eq_ok_iff.mp h
    exact ⟨c, Ty.join_cons_iff.mpr ⟨b, hb, hc⟩, rfl⟩
  · rintro ⟨c, hc, rfl⟩
    obtain ⟨b, hb, hc⟩ := Ty.join_cons_iff.mp hc
    exact ⟨_, add_lists_eq_ok_iff.mpr ⟨b, hb, rfl⟩, add_lists_eq_ok_iff.mpr ⟨c, hc, rfl⟩⟩

theorem add_empty_left (t : Ty) (xs : List Value) :
    binary .add (list .void []) (list t xs) = .ok (list t xs) :=
  add_lists_eq_ok_iff.mpr ⟨t, Ty.join_void_cons.mpr (Ty.join_singleton.mpr rfl), rfl⟩

theorem add_empty_right (t : Ty) (xs : List Value) :
    binary .add (list t xs) (list .void []) = .ok (list t xs) := by
  have hjoin : Join [t, .void] t := (Ty.join_perm (List.Perm.swap _ _ [])).mp
    (Ty.join_void_cons.mpr (Ty.join_singleton.mpr rfl))
  refine add_lists_eq_ok_iff.mpr ⟨t, hjoin, ?_⟩
  rw [List.append_nil]

theorem listOf_perm (h : xs.Perm ys) (t : Ty) :
    listOf xs = .ok (list t xs) ↔ listOf ys = .ok (list t ys) := by
  have htypes : ∀ c, Join (xs.map ty) c ↔ Join (ys.map ty) c := fun c => Ty.join_perm (h.map ty)
  simp only [listOf_eq_ok_iff, list.injEq, and_true, exists_eq_right', htypes]

theorem listOf_append_iff :
    listOf (xs ++ ys) = .ok v ↔
      ((listOf xs).bind fun x => (listOf ys).bind fun y => binary .add x y) = .ok v := by
  rw [listOf_eq_ok_iff, List.map_append, bind_eq_ok_iff]
  constructor
  · rintro ⟨c, hc, rfl⟩
    obtain ⟨s, t, hs, ht, hc⟩ := Ty.join_append_iff.mp hc
    exact ⟨_, listOf_eq_ok_iff.mpr ⟨s, hs, rfl⟩, bind_eq_ok_iff.mpr
      ⟨_, listOf_eq_ok_iff.mpr ⟨t, ht, rfl⟩, add_lists_eq_ok_iff.mpr ⟨c, hc, rfl⟩⟩⟩
  · rintro ⟨x, hx, h⟩
    obtain ⟨y, hy, h⟩ := bind_eq_ok_iff.mp h
    obtain ⟨s, hs, rfl⟩ := listOf_eq_ok_iff.mp hx
    obtain ⟨t, ht, rfl⟩ := listOf_eq_ok_iff.mp hy
    obtain ⟨c, hc, rfl⟩ := add_lists_eq_ok_iff.mp h
    exact ⟨c, Ty.join_append_iff.mpr ⟨s, t, hs, ht, hc⟩, rfl⟩

/-- **The types of lists depend neither on order nor on grouping.**  Erased types are partially ordered,
and unifying two of them takes their join, if anything is above both.  It is commutative and idempotent,
and associative, failures included.  So a literal has the same element type in any order of its items,
or none in any; sums of lists may be grouped either way, and a list without items that nothing is known
about adds nothing; and the literal of all items is the sum of the literals of the first ones and of the
others. -/
theorem list_typing :
    IsPartialOrder Ty Erases ∧
    (∀ a b c, unify a b = some c ↔
      (Erases a c ∧ Erases b c) ∧ ∀ d, Erases a d → Erases b d → Erases c d) ∧
    (∀ a b, (unify a b).isSome = true ↔ ∃ d, Erases a d ∧ Erases b d) ∧
    (∀ a b, unify a b = unify b a) ∧
    (∀ a, unify a a = some a) ∧
    (∀ a b c, (unify a b).bind (unify · c) = (unify b c).bind (unify a ·)) ∧
    (∀ xs v, listOf xs = .ok v → ∃ t, v = list t xs) ∧
    (∀ xs ys, xs.Perm ys → ∀ t, listOf xs = .ok (list t xs) ↔ listOf ys = .ok (list t ys)) ∧
    (∀ s t u xs ys zs v,
      ((binary .add (list s xs) (list t ys)).bind fun w => binary .add w (list u zs)) = .ok v ↔
      ((binary .add (list t ys) (list u zs)).bind fun w => binary .add (list s xs) w) = .ok v) ∧
    (∀ t xs, binary .add (list .void []) (list t xs) = .ok (list t xs) ∧
      binary .add (list t xs) (list .void []) = .ok (list t xs)) ∧
    ∀ xs ys v, listOf (xs ++ ys) = .ok v ↔
      ((listOf xs).bind fun x => (listOf ys).bind fun y => binary .add x y) = .ok v := by
  refine ⟨Ty.erases_partialOrder, ?_, fun _ _ => Ty.unify_isSome_iff, Ty.unify_comm, Ty.unify_self,
    Ty.unify_assoc, ?_, fun _ _ => listOf_perm, ?_, ?_, fun _ _ _ => listOf_append_iff⟩
  · intro a b c
    rw [Ty.unify_eq_some_iff, ← Ty.above_pair_iff]
    constructor
    · rintro ⟨habove, hleast⟩
      exact ⟨habove, fun d ha hb => hleast d (Ty.above_pair_iff.mpr ⟨ha, hb⟩)⟩
    · rintro ⟨habove, hleast⟩
      exact ⟨habove, fun d hd => (Ty.above_pair_iff.mp hd).elim (hleast d)⟩
  · intro xs v h
    obtain ⟨t, -, rfl⟩ := listOf_eq_ok_iff.mp h
    exact ⟨t, rfl⟩
  · intro s t u xs ys zs v
    rw [add_add_eq_ok_iff, add_of_add_eq_ok_iff]
  · exact fun t xs => ⟨add_empty_left t xs, add_empty_right t xs⟩

/-- a list without items, and one of an integer, in either order -/
theorem nothing_and_one :
    let nothing : Value := list .void []
    let one : Value := list .int [int 1]
    [nothing, one].Perm [one, nothing] ∧
    listOf [nothing, one] = .ok (list (.list .int) [nothing, one]) ∧
    listOf [one, nothing] = .ok (list (.list .int) [one, nothing]) := by
  intro nothing one
  have hperm : [nothing, one].Perm [one, nothing] := .swap one nothing []
  have hfirst : listOf [nothing, one] = .ok (list (.list .int) [nothing, one]) := rfl
  obtain ⟨-, -, -, -, -, -, -, horder, -⟩ := list_typing
  exact ⟨hperm, hfirst, (horder _ _ hperm _).mp hfirst⟩

/-- a list of lists of integers does not go with a string, also where a list of nothing stands between
them -/
example :
    Ty.unify (.list (.list .int)) (.list .void) = some (.list (.list .int)) ∧
    Ty.unify (.list .void) (.list .char) = some (.list .char) ∧
    (Ty.unify (.list (.list .int)) (.list .void)).bind (Ty.unify · (.list .char)) = none ∧
    (Ty.unify (.list .void) (.list .char)).bind (Ty.unify (.list (.list .int)) ·) = none := by
  decide

end Parlance.Value
