import Parlance.Ty.Basic

/-!
# Erased element types

An empty list does not know what it will hold: its items have type `void` until something is put
in.  `void` therefore gives way to every other type, also inside lists.

* `Ty.Erases a b`    `b` is `a` with some `void`s along the list nesting filled in;
* `Ty.unify a b`     the least type that both `a` and `b` give way to, if there is one;
* `Ty.unifyAll a ts` the same for a type and a list of types, from the left.
-/

namespace Parlance.Ty

/-- `a` gives way to `b` -/
inductive Erases : Ty → Ty → Prop
  | refl (a : Ty) : Erases a a
  | void (b : Ty) : Erases .void b
  | list {a b : Ty} : Erases a b → Erases (.list a) (.list b)

/-- the least type that `a` and `b` give way to -/
def unify (a b : Ty) : Option Ty :=
  if a = b then some a
  else match a, b with
    | .void, b => some b
    | a, .void => some a
    | .list a, .list b => (unify a b).map .list
    | _, _ => none

/-- the least type that `a` and all of `ts` give way to, or the first type that does not fit,
with what had been found before it -/
def unifyAll (a : Ty) : List Ty → Except (Ty × Ty) Ty
  | [] => .ok a
  | t :: ts =>
    match unify a t with
    | some b => unifyAll b ts
    | none => .error (a, t)

@[simp] theorem unify_self (a : Ty) : unify a a = some a := by
  unfold unify; simp

theorem unify_void_left (b : Ty) : unify .void b = some b := by
  unfold unify
  split
  · rename_i h; rw [h]
  · rfl

theorem unify_void_right (a : Ty) : unify a .void = some a := by
  unfold unify
  split
  · rfl
  · cases a <;> rfl

end Parlance.Ty
