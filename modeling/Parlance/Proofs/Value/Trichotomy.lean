import Parlance.Eval.Operators
import Parlance.Proofs.Number.Parts
import Parlance.Proofs.Ty.Join
import Parlance.Proofs.Value.Total

/-!
# The operators of comparisons agree

How two values stand to each other is asked for once, and each operator says whether that suits it.

* `CompareOp.mirror op`      the operator that says the same of two things the other way round;
* `order?_swap`              values that change places stand to each other the other way round;
* `Unordered a b`            one of two numbers is a NaN, so that they do not stand to each other at all;
* `order?_eq_some_none_iff`  there is no other such pair;
* `codePoint? v`             the place of an integer or a character among the integers;
* `compares_of_codePoint?`   integers and characters are compared as these;
* `comparisons_coherent`     so the six operators say six things of one order.
-/

namespace Parlance

namespace CompareOp

/-- the operator that says the same of two things the other way round -/
def mirror : CompareOp → CompareOp
  | eq => eq
  | ne => ne
  | lt => gt
  | gt => lt
  | le => ge
  | ge => le

/-- does the operator hold of two integers -/
def relates : CompareOp → Int → Int → Bool
  | eq, m, n => m = n
  | ne, m, n => m ≠ n
  | lt, m, n => m < n
  | gt, m, n => n < m
  | le, m, n => m ≤ n
  | ge, m, n => n ≤ m

/-- What is related to something that is related to a third is related to that, unless all that is
said is that things are not the same. -/
theorem relates_trans {op : CompareOp} (hop : op ≠ ne) {k m n : Int} (h : op.relates k m = true)
    (h' : op.relates m n = true) : op.relates k n = true := by
  cases op with
  | ne => exact absurd rfl hop
  | eq =>
    have hkm : k = m := by simpa [relates] using h
    rw [hkm]
    exact h'
  | lt | gt | le | ge =>
    simp only [relates, decide_eq_true_eq] at h h' ⊢
    omega

end CompareOp

namespace Value

open CompareOp (mirror relates)

variable {a b c : Value} {op : CompareOp} {m n : Int}

theorem holds_mirror (op : CompareOp) (o : Option Ordering) :
    holds op.mirror (o.map Ordering.swap) = holds op o := by
  cases op <;> rcases o with _ | (_ | _ | _) <;> rfl

theorem holds_compare (op : CompareOp) (m n : Int) :
    holds op (some (Ord.compare m n)) = op.relates m n := by
  rcases Int.lt_trichotomy m n with h | rfl | h
  · have hne : m ≠ n := by omega
    have hle : m ≤ n := by omega
    have hgt : ¬n < m := by omega
    have hge : ¬n ≤ m := by omega
    rw [Int.compare_eq_lt.mpr h]
    cases op <;> simp [holds, relates, h, hne, hle, hgt, hge]
  · rw [Int.compare_eq_eq.mpr rfl]
    cases op <;> simp [holds, relates]
  · have hne : m ≠ n := by omega
    have hle : ¬m ≤ n := by omega
    have hlt : ¬m < n := by omega
    have hge : n ≤ m := by omega
    rw [Int.compare_eq_gt.mpr h]
    cases op <;> simp [holds, relates, h, hne, hle, hlt, hge]

/-! ## Values that change places -/

/-- how values stand to each other if their types agree -/
def agreed? (a b : Value) : Option (Option Ordering) :=
  if (Ty.unify a.ty b.ty).isSome then some (some (compare a b)) else none

theorem agreed?_swap (a b : Value) : agreed? b a = (agreed? a b).map (Option.map Ordering.swap) := by
  rw [agreed?, agreed?, Ty.unify_comm b.ty a.ty, compare_swap a b]
  split <;> rfl

/-- Values that change places stand to each other the other way round, if they can be compared. -/
theorem order?_swap (a b : Value) : order? b a = (order? a b).map (Option.map Ordering.swap) := by
  -- the pairs with a case of their own in `order?`; in all others the types decide
  cases a <;> cases b
  case int.dbl i d => exact congrArg some (Double.compare?_swap (.ofInt i.toInt) d)
  case dbl.int d i => exact congrArg some (Double.compare?_swap d (.ofInt i.toInt))
  case dbl.dbl d e => exact congrArg some (Double.compare?_swap d e)
  case char.int c i => exact congrArg (fun o => some (some o)) (Int.compare_swap c.toNat i.toInt).symm
  case int.char i c => exact congrArg (fun o => some (some o)) (Int.compare_swap i.toInt c.toNat).symm
  all_goals first | rfl | exact agreed?_swap _ _

/-! ## What values are compared as -/

/-- a number, as a double -/
def number? : Value → Option Double
  | int i => some (.ofInt i.toInt)
  | dbl d => some d
  | _ => none

/-- the place of an integer or a character among the integers -/
def codePoint? : Value → Option Int
  | int i => some i.toInt
  | char c => some c.toNat
  | _ => none

/-- A NaN is compared with a number. -/
def Unordered (a b : Value) : Prop :=
  ∃ x y, a.number? = some x ∧ b.number? = some y ∧ (x.isNaN = true ∨ y.isNaN = true)

theorem compare_natCast (m n : Nat) : Ord.compare (m : Int) (n : Int) = Ord.compare m n := by
  rw [Int.compare_eq_ite_lt, Nat.compare_eq_ite_lt]
  simp only [Int.ofNat_lt]

/-- Integers and characters are compared as integers. -/
theorem order?_of_codePoint? (ha : a.codePoint? = some m) (hb : b.codePoint? = some n) :
    order? a b = some (some (Ord.compare m n)) := by
  cases a <;> cases b <;> cases ha <;> cases hb
  case char.char =>
    rw [compare_natCast]
    rfl
  all_goals rfl

/-- Numbers otherwise are compared as doubles, and other values as they stand in the order of values, if
they are compared at all. -/
theorem order?_cases (a b : Value) :
    (∃ m n, a.codePoint? = some m ∧ b.codePoint? = some n) ∨
    (∃ x y, a.number? = some x ∧ b.number? = some y ∧ order? a b = some (x.compare? y)) ∨
    (a.number? = none ∨ b.number? = none) ∧ (order? a b = none ∨ order? a b = agreed? a b) := by
  cases a <;> cases b
  case int.int | char.char | char.int | int.char => exact .inl ⟨_, _, rfl, rfl⟩
  case int.dbl | dbl.int | dbl.dbl => exact .inr (.inl ⟨_, _, rfl, rfl, rfl⟩)
  all_goals
    refine .inr (.inr ⟨?_, ?_⟩)
    · first | exact .inl rfl | exact .inr rfl
    · first | exact .inl rfl | exact .inr rfl

/-- An integer is no NaN. -/
theorem isNaN_of_codePoint? {x : Double} (h : a.codePoint? = some m) (hx : a.number? = some x) :
    x.isNaN = false := by
  cases a with
  | int i =>
    obtain rfl : Double.ofInt i.toInt = x := Option.some.inj hx
    exact Double.isNaN_round _ _ _
  | char c => cases hx
  | void | bool | dbl | list | map | function => cases h

/-- Values that can be compared stand to each other, unless a NaN is compared with a number. -/
theorem order?_eq_some_none_iff : order? a b = some none ↔ Unordered a b := by
  rcases order?_cases a b with ⟨m, n, ha, hb⟩ | ⟨x, y, ha, hb, ho⟩ | ⟨hnone, ho⟩
  · rw [order?_of_codePoint? ha hb]
    refine iff_of_false (fun h => by cases h) ?_
    rintro ⟨x, y, hx, hy, hnan⟩
    rw [isNaN_of_codePoint? ha hx, isNaN_of_codePoint? hb hy] at hnan
    exact hnan.elim Bool.false_ne_true Bool.false_ne_true
  · rw [ho, Option.some.injEq, Double.compare?_eq_none_iff]
    constructor
    · intro hnan
      exact ⟨x, y, ha, hb, hnan⟩
    · rintro ⟨x', y', ha', hb', hnan⟩
      rw [ha, Option.some.injEq] at ha'
      rw [hb, Option.some.injEq] at hb'
      rwa [ha', hb']
  · have hagreed : agreed? a b ≠ some none := by
      unfold agreed?
      split <;> simp
    refine iff_of_false ?_ ?_
    · intro h
      rcases ho with ho | ho
      · rw [ho] at h
        cases h
      · exact hagreed (ho ▸ h)
    · rintro ⟨x, y, ha, hb, -⟩
      rw [ha, hb] at hnone
      exact hnone.elim (Option.some_ne_none x) (Option.some_ne_none y)

/-! ## The six operators -/

theorem compares_of_order? {o : Option Ordering} (h : order? a b = some o) (op : CompareOp) :
    compares op a b = .ok (holds op o) := by
  rw [compares, h]

theorem compares_mirror (op : CompareOp) (a b : Value) : compares op.mirror b a =
    (compares op a b).mapError fun _ => .invalidComparison op.mirror b.ty a.ty := by
  rw [compares, compares, order?_swap a b]
  cases order? a b with
  | none => rfl
  | some o => exact congrArg Except.ok (holds_mirror op o)

theorem order?_of_compares {r : Bool} (h : compares op a b = .ok r) : ∃ o, order? a b = some o := by
  cases ho : order? a b with
  | some o => exact ⟨o, rfl⟩
  | none =>
    rw [compares, ho] at h
    cases h

theorem compares_of_codePoint? (ha : a.codePoint? = some m) (hb : b.codePoint? = some n)
    (op : CompareOp) : compares op a b = .ok (op.relates m n) := by
  rw [compares_of_order? (order?_of_codePoint? ha hb) op, holds_compare]

theorem compares_trans (hop : op ≠ .ne) (ha : a.codePoint?.isSome) (hb : b.codePoint?.isSome)
    (hc : c.codePoint?.isSome) (h : compares op a b = .ok true) (h' : compares op b c = .ok true) :
    compares op a c = .ok true := by
  obtain ⟨k, hk⟩ := Option.isSome_iff_exists.mp ha
  obtain ⟨m, hm⟩ := Option.isSome_iff_exists.mp hb
  obtain ⟨n, hn⟩ := Option.isSome_iff_exists.mp hc
  rw [compares_of_codePoint? hk hm, Except.ok.injEq] at h
  rw [compares_of_codePoint? hm hn, Except.ok.injEq] at h'
  rw [compares_of_codePoint? hk hn, CompareOp.relates_trans hop h h']

/-- **The six operators say six things of one order.**  An operator says of two values what its mirror
says of them the other way round, and both refuse them or none.  If one operator takes two values, all
do: `!=` says the contrary of `==`, and `<=` and `>=` say that `<` or `>` holds or else `==`.  One of
`<`, `==` and `>` holds and the others do not, unless a NaN is compared with a number, where none does.
Integers and characters are compared by their numbers and code points, so that what is related to
something that is related to a third is related to that, whichever of them are characters. -/
theorem comparisons_coherent :
    (∀ op a b, compares op.mirror b a =
      (compares op a b).mapError fun _ => .invalidComparison op.mirror b.ty a.ty) ∧
    (∀ op a b r, compares op a b = .ok r → ∃ eq lt gt : Bool,
      compares .eq a b = .ok eq ∧ compares .lt a b = .ok lt ∧ compares .gt a b = .ok gt ∧
      compares .ne a b = .ok (!eq) ∧ compares .le a b = .ok (lt || eq) ∧
      compares .ge a b = .ok (gt || eq) ∧
      (¬Unordered a b → [lt, eq, gt].count true = 1) ∧
      (Unordered a b → [lt, eq, gt].count true = 0)) ∧
    (∀ a b m n, a.codePoint? = some m → b.codePoint? = some n →
      ∀ op, compares op a b = .ok (op.relates m n)) ∧
    ∀ op a b c, op ≠ .ne → a.codePoint?.isSome → b.codePoint?.isSome → c.codePoint?.isSome →
      compares op a b = .ok true → compares op b c = .ok true → compares op a c = .ok true := by
  refine ⟨compares_mirror, ?_, fun a b m n => compares_of_codePoint?, fun op a b c => compares_trans⟩
  intro op a b r h
  obtain ⟨o, ho⟩ := order?_of_compares h
  have hall := compares_of_order? ho
  have hunordered : Unordered a b ↔ o = none := by
    rw [← order?_eq_some_none_iff, ho, Option.some.injEq]
  refine ⟨holds .eq o, holds .lt o, holds .gt o, hall .eq, hall .lt, hall .gt, hall .ne, hall .le,
    hall .ge, ?_, ?_⟩
  · intro hordered
    rw [hunordered] at hordered
    rcases o with _ | (_ | _ | _)
    · exact absurd rfl hordered
    · rfl
    · rfl
    · rfl
  · intro hnone
    rw [hunordered.mp hnone]
    rfl

/-- a NaN beside a number, lists of which nothing is known about one, and a character between two
integers -/
theorem mixed_compared :
    (Unordered (dbl (.quietNaN false)) (int 1) ∧
      compares .ne (dbl (.quietNaN false)) (int 1) = .ok true ∧
      compares .gt (int 1) (dbl (.quietNaN false)) = .ok false) ∧
    (compares .lt (list .void []) (list .int [int 1]) = .ok true ∧
      compares .gt (list .int [int 1]) (list .void []) = .ok true) ∧
    (compares .le (int 97) (char 'a') = .ok true ∧ compares .le (char 'a') (int 98) = .ok true ∧
      compares .le (int 97) (int 98) = .ok true) := by
  obtain ⟨hmirror, hsix, hpoints, htrans⟩ := comparisons_coherent
  have hnan : Unordered (dbl (.quietNaN false)) (int 1) :=
    ⟨.quietNaN false, .ofInt 1, rfl, rfl, .inl (by decide)⟩
  have hne : compares .ne (dbl (.quietNaN false)) (int 1) = .ok true := rfl
  obtain ⟨eq, lt, gt, -, hlt, -, -, -, -, -, hnone⟩ := hsix .ne _ _ true hne
  have hlt' : lt = false := by
    have hcount := hnone hnan
    cases lt with
    | false => rfl
    | true => simp at hcount
  have hlists : compares .lt (list .void []) (list .int [int 1]) = .ok true := rfl
  have hlow : compares .le (int 97) (char 'a') = .ok true := hpoints _ _ 97 97 rfl rfl .le
  have hhigh : compares .le (char 'a') (int 98) = .ok true := hpoints _ _ 97 98 rfl rfl .le
  refine ⟨⟨hnan, hne, ?_⟩, ⟨hlists, ?_⟩, hlow, hhigh, ?_⟩
  · have hback := hmirror .lt (dbl (.quietNaN false)) (int 1)
    rw [hlt, hlt'] at hback
    exact hback
  · have hback := hmirror .lt (list .void []) (list .int [int 1])
    rw [hlists] at hback
    exact hback
  · exact htrans .le _ (char 'a') _ (by decide) rfl rfl rfl hlow hhigh

end Value

end Parlance
