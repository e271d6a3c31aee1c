import Mathlib.Data.List.Forall2
import Parlance.Proofs.Ty.Join
import Parlance.Proofs.Value.Order
import Parlance.Proofs.Value.WellFormed
import Parlance.Session

/-!
# Comparing lists

Whether two lists can be compared is said by `Ty.unify`, which takes an empty list that nothing is
known about for a list of anything.  How they compare is said by the order of values, which looks at
the element types before it looks at the items.

* `Value.Plain`        no doubles and no functions, at any depth;
* `compare_eq_iff_eq`  plain values have the same place in the order only if they are equal;
* `compares_of_unify`  plain values whose types agree compare as they stand in the order;
* `compares_lists`     so lists compare by their items if their element types are the same, and by
                       their element types otherwise.
-/

namespace Parlance

namespace Value

/-- There are no doubles and no functions in the value, at any depth. -/
inductive Plain : Value → Prop
  | void : Plain void
  | bool (b : Bool) : Plain (bool b)
  | char (c : Char) : Plain (char c)
  | int (i : Int64) : Plain (int i)
  | list {elem : Ty} {items : List Value} (all : ∀ v ∈ items, Plain v) : Plain (list elem items)
  | map {key elem : Ty} {entries : List (Value × Value)} (keys : ∀ e ∈ entries, Plain e.1)
      (all : ∀ e ∈ entries, Plain e.2) : Plain (map key elem entries)

theorem plain_list_iff {elem : Ty} {items : List Value} :
    Plain (list elem items) ↔ ∀ v ∈ items, Plain v := by
  constructor
  · rintro (_ | _ | _ | _ | all)
    exact all
  · exact .list

theorem outlineAll_eq {items : List Value} (h : ∀ v ∈ items, outline v = v) :
    outlineAll items = items := by
  induction items with
  | nil => rfl
  | cons v vs ih =>
    obtain ⟨hv, hvs⟩ := List.forall_mem_cons.mp h
    rw [outlineAll, hv, ih hvs]

theorem outlineEntries_eq {entries : List (Value × Value)} (hk : ∀ e ∈ entries, outline e.1 = e.1)
    (hv : ∀ e ∈ entries, outline e.2 = e.2) : outlineEntries entries = entries := by
  induction entries with
  | nil => rfl
  | cons e rest ih =>
    obtain ⟨hke, hks⟩ := List.forall_mem_cons.mp hk
    obtain ⟨hve, hvs⟩ := List.forall_mem_cons.mp hv
    rw [outlineEntries, hke, hve, ih hks hvs]

theorem Plain.outline_eq {v : Value} (h : v.Plain) : v.outline = v := by
  induction h with
  | list _ ih => rw [outline, outlineAll_eq ih]
  | map _ _ ihk ihv => rw [outline, outlineEntries_eq ihk ihv]
  | _ => rfl

/-- `==` holds -/
def Equal (x y : Value) : Prop := compares .eq x y = .ok true

/-- `<` holds -/
def Less (x y : Value) : Prop := compares .lt x y = .ok true

/-! ## The order of plain values -/

section
variable {x y : Value} (hx : x.Plain) (hy : y.Plain)
include hx hy

theorem compare_eq_iff_eq : compare x y = .eq ↔ x = y := by
  rw [compare_eq_iff, hx.outline_eq, hy.outline_eq]

/-- Plain values whose types can be unified compare as they stand in the order. -/
theorem compares_of_unify (h : (Ty.unify x.ty y.ty).isSome) (op : CompareOp) :
    compares op x y = .ok (holds op (some (compare x y))) := by
  cases hx with
  | char c =>
    cases hy with
    | int i => cases h
    | _ => simp only [compares, order?, h, if_true]
  | int i =>
    cases hy with
    | char c => cases h
    | _ => simp only [compares, order?, h, if_true]
  | _ => cases hy <;> simp only [compares, order?, h, if_true]

theorem equal_iff (h : (Ty.unify x.ty y.ty).isSome) : Equal x y ↔ x = y := by
  rw [Equal, compares_of_unify hx hy h, Except.ok.injEq, ← compare_eq_iff_eq hx hy]
  simp [holds]

theorem less_iff (h : (Ty.unify x.ty y.ty).isSome) : Less x y ↔ compare x y = .lt := by
  rw [Less, compares_of_unify hx hy h, Except.ok.injEq]
  simp [holds]

end

section
variable {xs ys : List Value} (hx : ∀ x ∈ xs, x.Plain) (hy : ∀ y ∈ ys, y.Plain)
include hx hy

theorem compareItems_lt_iff :
    compareItems xs ys = .lt ↔ List.Lex (fun x y => compare x y = .lt) xs ys := by
  induction xs generalizing ys with
  | nil => cases ys <;> simp [compareItems]
  | cons x xs ih =>
    cases ys with
    | nil => simp [compareItems]
    | cons y ys =>
      obtain ⟨hx, hxs⟩ := List.forall_mem_cons.mp hx
      obtain ⟨hy, hys⟩ := List.forall_mem_cons.mp hy
      rw [compareItems, Ordering.then_eq_lt, compare_eq_iff_eq hx hy, ih hxs hys,
        List.cons_lex_cons_iff]

variable (h : ∀ x ∈ xs, ∀ y ∈ ys, (Ty.unify x.ty y.ty).isSome)
include h

theorem forall₂_equal_iff : List.Forall₂ Equal xs ys ↔ xs = ys := by
  induction xs generalizing ys with
  | nil => cases ys <;> simp
  | cons x xs ih =>
    cases ys with
    | nil => simp
    | cons y ys =>
      obtain ⟨hx, hxs⟩ := List.forall_mem_cons.mp hx
      obtain ⟨hy, hys⟩ := List.forall_mem_cons.mp hy
      have hhead : Equal x y ↔ x = y :=
        equal_iff hx hy (h x List.mem_cons_self y List.mem_cons_self)
      have htail : List.Forall₂ Equal xs ys ↔ xs = ys := ih hxs hys fun x hx y hy =>
        h x (List.mem_cons_of_mem _ hx) y (List.mem_cons_of_mem _ hy)
      rw [List.forall₂_cons, hhead, htail, List.cons.injEq]

theorem lex_less_iff :
    List.Lex Less xs ys ↔ List.Lex (fun x y => compare x y = .lt) xs ys := by
  induction xs generalizing ys with
  | nil => cases ys <;> simp
  | cons x xs ih =>
    cases ys with
    | nil => simp
    | cons y ys =>
      obtain ⟨hx, hxs⟩ := List.forall_mem_cons.mp hx
      obtain ⟨hy, hys⟩ := List.forall_mem_cons.mp hy
      have hhead := less_iff hx hy (h x List.mem_cons_self y List.mem_cons_self)
      have htail := ih hxs hys fun x hx y hy =>
        h x (List.mem_cons_of_mem _ hx) y (List.mem_cons_of_mem _ hy)
      rw [List.cons_lex_cons_iff, List.cons_lex_cons_iff, hhead, htail]

end

/-! ## Lists -/

section
variable {s t : Ty} {xs ys : List Value}

/-- Lists can be compared if their element types can be unified. -/
theorem unify_of_compares {op : CompareOp} {b : Bool}
    (h : compares op (list s xs) (list t ys) = .ok b) :
    (Ty.unify (list s xs).ty (list t ys).ty).isSome := by
  by_contra hnone
  simp only [compares, order?, if_neg hnone] at h
  cases h

/-- The items of well-formed lists that can be compared can be compared. -/
theorem unify_items (hx : (list s xs).WellFormed) (hy : (list t ys).WellFormed)
    (h : (Ty.unify (list s xs).ty (list t ys).ty).isSome) :
    ∀ x ∈ xs, ∀ y ∈ ys, (Ty.unify x.ty y.ty).isSome := by
  obtain ⟨c, hc⟩ := Option.isSome_iff_exists.mp h
  obtain ⟨hs, ht⟩ := Ty.unify_inv hc
  obtain ⟨u, rfl, hsu⟩ := hs.of_list
  obtain ⟨_, hu, htu⟩ := ht.of_list
  cases hu
  cases hx with
  | list hxs _ =>
    cases hy with
    | list hys _ =>
      intro x hx y hy
      exact Ty.unify_isSome_of_erases ((hxs x hx).trans hsu) ((hys y hy).trans htu)

variable (hx : (list s xs).Plain) (hy : (list t ys).Plain)
include hx hy

theorem equal_list_iff (h : (Ty.unify (list s xs).ty (list t ys).ty).isSome) :
    Equal (list s xs) (list t ys) ↔ s = t ∧ xs = ys := by
  rw [equal_iff hx hy h, list.injEq]

theorem less_list_iff (h : (Ty.unify (list s xs).ty (list t ys).ty).isSome) :
    Less (list s xs) (list t ys) ↔
      s.compare t = .lt ∨ s = t ∧ List.Lex (fun x y => compare x y = .lt) xs ys := by
  rw [less_iff hx hy h, compare, Ordering.then_eq_lt, Ty.compare_eq_iff,
    compareItems_lt_iff (plain_list_iff.mp hx) (plain_list_iff.mp hy)]

end

/-- **Lists are compared by their element types first.**  Plain lists that can be compared are equal
only if they are the same value.  If they are well-formed, they are equal if their items are equal
and their element types the same, and in lexicographic order if their element types are the same;
lists with different element types are in the order of these. -/
theorem compares_lists {s t : Ty} {xs ys : List Value} {b : Bool} (hx : (list s xs).Plain)
    (hy : (list t ys).Plain) (h : compares .eq (list s xs) (list t ys) = .ok b) :
    (Equal (list s xs) (list t ys) ↔ s = t ∧ xs = ys) ∧
    (Less (list s xs) (list t ys) ↔
      s.compare t = .lt ∨ s = t ∧ List.Lex (fun x y => compare x y = .lt) xs ys) ∧
    ((list s xs).WellFormed → (list t ys).WellFormed →
      (Equal (list s xs) (list t ys) ↔ s = t ∧ List.Forall₂ Equal xs ys) ∧
      (Less (list s xs) (list t ys) ↔ s.compare t = .lt ∨ s = t ∧ List.Lex Less xs ys)) := by
  have hunify := unify_of_compares h
  have hequal := equal_list_iff hx hy hunify
  have hless := less_list_iff hx hy hunify
  refine ⟨hequal, hless, ?_⟩
  intro hxw hyw
  have hitems := unify_items hxw hyw hunify
  have hxs := plain_list_iff.mp hx
  have hys := plain_list_iff.mp hy
  rw [forall₂_equal_iff hxs hys hitems, lex_less_iff hxs hys hitems]
  exact ⟨hequal, hless⟩

def pair (last : Int64) : Value := list .int [int 1, int last]

theorem pair_plain (last : Int64) : (pair last).Plain :=
  .list (List.forall_mem_cons.mpr ⟨.int 1, List.forall_mem_singleton.mpr (.int last)⟩)

theorem pair_wellFormed (last : Int64) : (pair last).WellFormed :=
  wellFormed_list_of_ty (List.forall_mem_cons.mpr ⟨rfl, List.forall_mem_singleton.mpr rfl⟩)
    (List.forall_mem_cons.mpr ⟨.int 1, List.forall_mem_singleton.mpr (.int last)⟩)

/-- two lists of integers whose last items differ -/
theorem pairs_compared :
    (pair 2).Plain ∧ (pair 3).Plain ∧ compares .eq (pair 2) (pair 3) = .ok false ∧
    (pair 2).WellFormed ∧ (pair 3).WellFormed ∧
    (Equal (pair 2) (pair 3) ↔ Ty.int = Ty.int ∧ List.Forall₂ Equal [int 1, int 2] [int 1, int 3]) ∧
    Less (pair 2) (pair 3) := by
  have hcompares : compares .eq (pair 2) (pair 3) = .ok false := rfl
  obtain ⟨-, -, hitems⟩ := compares_lists (pair_plain 2) (pair_plain 3) hcompares
  obtain ⟨hequal, hless⟩ := hitems (pair_wellFormed 2) (pair_wellFormed 3)
  have hlex : List.Lex Less [int 1, int 2] [int 1, int 3] := .cons (.rel rfl)
  exact ⟨pair_plain 2, pair_plain 3, hcompares, pair_wellFormed 2, pair_wellFormed 3, hequal,
    hless.mpr (.inr ⟨rfl, hlex⟩)⟩

def guest : Context := ⟨"alice", "#lounge", "bot", [], 0, false, .still⟩

/-- `[] == [1][1:]`, or with another operator: two lists without items -/
def nothingLeft (op : CompareOp) : Expr :=
  .comparison [.list [], .slice (.list [.int 1]) (some (.int 1)) none] [op]

/-- Of two lists without items, the one that nothing is known about is not equal to the other, but
before it. -/
theorem empty_lists_differ :
    (list .void []).Plain ∧ (list .int []).Plain ∧ List.Forall₂ Equal [] [] ∧ ¬List.Lex Less [] [] ∧
    compares .eq (list .void []) (list .int []) = .ok false ∧
    compares .lt (list .void []) (list .int []) = .ok true ∧
    (Session.fresh.evaluateExpr guest (nothingLeft .eq)).result = .ok (bool false) ∧
    (Session.fresh.evaluateExpr guest (nothingLeft .lt)).result = .ok (bool true) :=
  ⟨.list nofun, .list nofun, .nil, nofun, rfl, rfl, rfl, rfl⟩

end Value

end Parlance
