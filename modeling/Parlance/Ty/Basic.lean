/-!
# Types

* `Ty`            the types of values; a string is a list of characters;
* `Ty.compare`    the order of types: by kind, then component by component from the left;
* `Ty.elem?`, `Ty.key?`, `Ty.params`   the components of lists, maps and functions;
* `Ty.display`    the written form.

`void` inside a list or map type also stands for "any type" in the parameters of functions.
-/

namespace Parlance

/-- the type of a value -/
inductive Ty where
  | void
  | int
  | dbl
  | bool
  | char
  | list (elem : Ty)
  | map (key elem : Ty)
  | fn (params : List Ty) (ret : Ty)

namespace Ty

/-- the type of strings -/
def string : Ty := list char

/-- is it the type of strings -/
def isString : Ty → Bool
  | list char => true
  | _ => false

def isVoid : Ty → Bool
  | void => true
  | _ => false

@[simp] theorem isVoid_void : void.isVoid = true := rfl

theorem isVoid_iff {t : Ty} : t.isVoid = true ↔ t = void := by
  cases t <;> simp [isVoid]

theorem isVoid_eq_false_iff {t : Ty} : t.isVoid = false ↔ t ≠ void := by
  cases t <;> simp [isVoid]

/-- the type of the items of a list, or of what a map holds -/
def elem? : Ty → Option Ty
  | list elem => some elem
  | map _ elem => some elem
  | _ => none

def key? : Ty → Option Ty
  | map key _ => some key
  | _ => none

/-- the types of the parameters of a function, none for any other type -/
def params : Ty → List Ty
  | fn params _ => params
  | _ => []

/-! ## Order and equality -/

/-- the place of a type's kind among the kinds -/
def rank : Ty → Nat
  | void => 0
  | int => 1
  | dbl => 2
  | bool => 3
  | char => 4
  | list _ => 5
  | map _ _ => 6
  | fn _ _ => 7

mutual

/-- the order of types -/
def compare : Ty → Ty → Ordering
  | list a, list b => compare a b
  | map k a, map l b => (compare k l).then (compare a b)
  | fn ps r, fn qs s => (compareAll ps qs).then (compare r s)
  | a, b => Ord.compare a.rank b.rank

/-- the lexicographic order of lists of types -/
def compareAll : List Ty → List Ty → Ordering
  | [], [] => .eq
  | [], _ :: _ => .lt
  | _ :: _, [] => .gt
  | a :: as, b :: bs => (compare a b).then (compareAll as bs)

end

mutual

theorem compare_self : ∀ a : Ty, compare a a = .eq
  | void | int | dbl | bool | char => rfl
  | list a => by rw [compare, compare_self a]
  | map k a => by rw [compare, compare_self k, compare_self a]; rfl
  | fn ps r => by rw [compare, compareAll_self ps, compare_self r]; rfl

theorem compareAll_self : ∀ as : List Ty, compareAll as as = .eq
  | [] => by rw [compareAll]
  | a :: as => by rw [compareAll, compare_self a, compareAll_self as]; rfl

end

theorem rank_eq_of_compare_eq {a b : Ty} (h : compare a b = .eq) : a.rank = b.rank := by
  cases a <;> cases b <;> first | rfl | simp [compare, rank] at h

mutual

theorem eq_of_compare_eq : ∀ a b : Ty, compare a b = .eq → a = b
  | list a, list b, h => by rw [compare] at h; rw [eq_of_compare_eq a b h]
  | map k a, map l b, h => by
    rw [compare, Ordering.then_eq_eq] at h
    rw [eq_of_compare_eq k l h.1, eq_of_compare_eq a b h.2]
  | fn ps r, fn qs s, h => by
    rw [compare, Ordering.then_eq_eq] at h
    rw [eq_of_compareAll_eq ps qs h.1, eq_of_compare_eq r s h.2]
  | void, b, h | int, b, h | dbl, b, h | bool, b, h | char, b, h => by
    have := rank_eq_of_compare_eq h
    cases b <;> simp_all [rank]
  | list _, void, h | list _, int, h | list _, dbl, h | list _, bool, h | list _, char, h
  | list _, map _ _, h | list _, fn _ _, h | map _ _, void, h | map _ _, int, h
  | map _ _, dbl, h | map _ _, bool, h | map _ _, char, h | map _ _, list _, h
  | map _ _, fn _ _, h | fn _ _, void, h | fn _ _, int, h | fn _ _, dbl, h | fn _ _, bool, h
  | fn _ _, char, h | fn _ _, list _, h | fn _ _, map _ _, h =>
    absurd (rank_eq_of_compare_eq h) (by simp [rank])

theorem eq_of_compareAll_eq : ∀ as bs : List Ty, compareAll as bs = .eq → as = bs
  | [], [], _ => rfl
  | [], _ :: _, h => by rw [compareAll] at h; exact absurd h (by decide)
  | _ :: _, [], h => by rw [compareAll] at h; exact absurd h (by decide)
  | a :: as, b :: bs, h => by
    rw [compareAll, Ordering.then_eq_eq] at h
    rw [eq_of_compare_eq a b h.1, eq_of_compareAll_eq as bs h.2]

end

theorem compare_eq_iff {a b : Ty} : compare a b = .eq ↔ a = b :=
  ⟨eq_of_compare_eq a b, fun h => h ▸ compare_self a⟩

instance : DecidableEq Ty := fun _ _ => decidable_of_iff _ compare_eq_iff

instance : Ord Ty := ⟨compare⟩

/-! ## Written form -/

mutual

/-- the written form of a type -/
def display : Ty → String
  | void => "void"
  | int => "int"
  | dbl => "dbl"
  | bool => "bool"
  | char => "char"
  | list char => "str"
  | list elem => "[" ++ elem.display ++ "]"
  | map key elem => "[" ++ key.display ++ ": " ++ elem.display ++ "]"
  | fn params ret => "fn(" ++ displayAll params ++ ") -> " ++ ret.display

/-- the written forms of several types, with commas between them -/
def displayAll : List Ty → String
  | [] => ""
  | [ty] => ty.display
  | ty :: tys => ty.display ++ ", " ++ displayAll tys

end

end Ty

end Parlance
