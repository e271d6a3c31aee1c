import Parlance.Ty.Basic

/-!
# The order of types is total

* `InLine o p q`    `o`, `p` and `q` are how `a` compares with `b`, `b` with `c`, and `a` with `c`, in
                    an order: where neither step goes down, the way does not, and it stays in its place
                    only if both steps do;
* `InLine.then`     comparing by one thing first and by another next keeps to this;
* `inLine_of_ranks` and so does going by ranks that are not all the same;
* `Ty.compare_swap`, `Ty.inLine`   types are compared like that, component by component.

The second half of `InLine` is what an induction over components needs: the components on the right
count only where those on the left are equal.
-/

namespace Parlance

/-- The outcomes of comparing `a` with `b`, `b` with `c` and `a` with `c` in an order. -/
structure InLine (o p q : Ordering) : Prop where
  le : o.isLE = true → p.isLE = true → q.isLE = true
  eq : o.isLE = true → p.isLE = true → q = .eq → o = .eq ∧ p = .eq

theorem inLine_of_cmp {α : Type} (cmp : α → α → Ordering) [Std.TransCmp cmp] (a b c : α) :
    InLine (cmp a b) (cmp b c) (cmp a c) := by
  refine ⟨Std.TransCmp.isLE_trans, ?_⟩
  intro hab hbc hac
  have hcb : (cmp c b).isLE = true := by
    rw [← Std.TransCmp.congr_left hac]
    exact hab
  have hbc : cmp b c = .eq := Std.OrientedCmp.isLE_antisymm hbc hcb
  refine ⟨?_, hbc⟩
  rw [Std.TransCmp.congr_right hbc]
  exact hac

theorem inLine_eq : InLine .eq .eq .eq := ⟨fun _ _ => rfl, fun _ _ _ => ⟨rfl, rfl⟩⟩

theorem InLine.then {o p q o' p' q' : Ordering} (h : InLine o p q) (h' : InLine o' p' q') :
    InLine (o.then o') (p.then p') (q.then q') := by
  constructor
  · intro ho hp
    rw [Ordering.isLE_then_iff_and] at ho hp ⊢
    have hq := h.le ho.1 hp.1
    cases q with
    | lt => exact ⟨hq, .inl rfl⟩
    | gt => cases hq
    | eq =>
      obtain ⟨rfl, rfl⟩ := h.eq ho.1 hp.1 rfl
      exact ⟨hq, .inr (h'.le (by simpa using ho.2) (by simpa using hp.2))⟩
  · intro ho hp hq
    rw [Ordering.isLE_then_iff_and] at ho hp
    obtain ⟨rfl, rfl⟩ := Ordering.then_eq_eq.mp hq
    obtain ⟨rfl, rfl⟩ := h.eq ho.1 hp.1 rfl
    exact h'.eq (by simpa using ho.2) (by simpa using hp.2) rfl

/-- Where the ranks differ they decide, and they are not all the same. -/
theorem inLine_of_ranks {i j k : Nat} {o p q : Ordering} (ho : i ≠ j → o = compare i j)
    (hp : j ≠ k → p = compare j k) (hq : i ≠ k → q = compare i k) (hne : ¬(i = j ∧ j = k)) :
    InLine o p q := by
  have hle {m n : Nat} {r : Ordering} (hr : m ≠ n → r = compare m n) (h : r.isLE = true) :
      m ≤ n := by
    by_cases hmn : m = n
    · omega
    · rw [hr hmn] at h
      exact Nat.isLE_compare.mp h
  have hlt (h : o.isLE = true) (h' : p.isLE = true) : q = .lt := by
    have hij := hle ho h
    have hjk := hle hp h'
    have hik : i < k := by omega
    rw [hq (by omega)]
    exact Nat.compare_eq_lt.mpr hik
  constructor
  · intro h h'
    rw [hlt h h']
    rfl
  · intro h h' heq
    rw [hlt h h'] at heq
    cases heq

namespace Ty

/-- types of different kinds stand in the order of their kinds -/
theorem compare_of_rank_ne {a b : Ty} (h : a.rank ≠ b.rank) :
    compare a b = Ord.compare a.rank b.rank := by
  cases a <;> cases b <;> first | rfl | exact absurd rfl h

mutual

theorem compare_swap (a b : Ty) : compare b a = (compare a b).swap := by
  by_cases hrank : a.rank = b.rank
  · cases a <;> cases b <;> try simp [rank] at hrank
    case list.list a b => rw [compare, compare, compare_swap a b]
    case map.map k a l b =>
      rw [compare, compare, compare_swap k l, compare_swap a b, Ordering.swap_then]
    case fn.fn ps r qs s =>
      rw [compare, compare, compareAll_swap ps qs, compare_swap r s, Ordering.swap_then]
    all_goals rfl
  · rw [compare_of_rank_ne hrank, compare_of_rank_ne (Ne.symm hrank), Nat.compare_swap]
termination_by sizeOf a

theorem compareAll_swap : ∀ as bs : List Ty, compareAll bs as = (compareAll as bs).swap
  | [], [] => rfl
  | [], _ :: _ => rfl
  | _ :: _, [] => rfl
  | a :: as, b :: bs => by
    rw [compareAll, compareAll, compare_swap a b, compareAll_swap as bs, Ordering.swap_then]
  termination_by as => sizeOf as

end

mutual

theorem inLine (a b c : Ty) : InLine (compare a b) (compare b c) (compare a c) := by
  by_cases hrank : a.rank = b.rank ∧ b.rank = c.rank
  · obtain ⟨hab, hbc⟩ := hrank
    cases a <;> cases b <;> (try simp [rank] at hab) <;> cases c <;> try simp [rank] at hbc
    case list.list.list a b c =>
      rw [compare, compare, compare]
      exact inLine a b c
    case map.map.map k a l b m c =>
      rw [compare, compare, compare]
      exact (inLine k l m).then (inLine a b c)
    case fn.fn.fn ps r qs s us t =>
      rw [compare, compare, compare]
      exact (inLineAll ps qs us).then (inLine r s t)
    all_goals exact inLine_eq
  · exact inLine_of_ranks compare_of_rank_ne compare_of_rank_ne compare_of_rank_ne hrank
termination_by sizeOf a

theorem inLineAll : ∀ as bs cs : List Ty,
    InLine (compareAll as bs) (compareAll bs cs) (compareAll as cs)
  | a :: as, b :: bs, c :: cs => by
    rw [compareAll, compareAll, compareAll]
    exact (inLine a b c).then (inLineAll as bs cs)
  | [], bs, cs => by
    cases bs <;> cases cs <;> constructor <;> simp [compareAll]
  | a :: as, [], cs => by
    cases cs <;> constructor <;> simp [compareAll]
  | a :: as, b :: bs, [] => by constructor <;> simp [compareAll]
  termination_by as => sizeOf as

end

end Ty

end Parlance
