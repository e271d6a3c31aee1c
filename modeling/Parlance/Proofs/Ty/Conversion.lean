import Mathlib.Order.Defs.Unbundled
import Parlance.Ty.Cast

/-!
# Implicit conversion as a directed metric

* `Passes a b n`      `a` passes for `b` at the cost `n`, by one of the rules for it;
* `castDist_eq_some_iff`   what a conversion costs is what the rules say;
* `converts_iff_eq`   only itself passes for a type that is no double and has nothing open;
* `Passes.eq_of_back` where there is a conversion each way, the types are the same;
* `Passes.trans`      two conversions one after the other are one that costs no more;
* `castDist_metric`   so conversion orders the types, and a way over a third type gains nothing.

Every rule but the first says what was not left open before, so that no two of them fit one pair of
types.
-/

namespace Parlance.Ty

/-- The rules of conversion.  A type passes for itself and an integer for a double, and what a list or
a map holds may be left open. -/
inductive Passes : Ty → Ty → Nat → Prop
  | same (a : Ty) : Passes a a 0
  | widened : Passes int dbl 1
  | openItems {elem : Ty} (closed : elem ≠ void) : Passes (list elem) (list void) 2
  | openKeys {key elem : Ty} (closed : key ≠ void) (kept : elem ≠ void) :
    Passes (map key elem) (map void elem) 2
  | openEntries {key elem : Ty} (kept : key ≠ void) (closed : elem ≠ void) :
    Passes (map key elem) (map key void) 2
  | openBoth {key elem : Ty} (closed : ¬(key = void ∧ elem = void)) :
    Passes (map key elem) (map void void) 3

variable {a b c : Ty} {m n : Nat}

theorem castDist_of_passes (h : Passes a b n) : castDist a b = some n := by
  cases h with
  | same => exact castDist_self a
  | widened => rfl
  | openItems closed => simp [castDist, closed]
  | openKeys closed kept => simp [castDist, closed, isVoid_eq_false_iff.mpr kept]
  | openEntries kept closed => simp [castDist, closed, isVoid_eq_false_iff.mpr kept]
  | @openBoth key elem closed =>
    have hne : map key elem ≠ map void void := by
      rintro ⟨⟩
      exact closed ⟨rfl, rfl⟩
    simp [castDist, hne]

theorem passes_of_castDist (h : castDist a b = some n) : Passes a b n := by
  unfold castDist at h
  by_cases hab : a = b
  · rw [if_pos hab] at h
    cases h
    exact hab ▸ .same a
  rw [if_neg hab] at h
  split at h
  · cases h
    exact .widened
  · rename_i elem' elem
    split at h
    · rename_i hvoid
      rw [isVoid_iff] at hvoid
      subst hvoid
      cases h
      exact .openItems fun hvoid => hab (by rw [hvoid])
    · cases h
  · rename_i key elem key' elem'
    split at h
    · rename_i hkey helem
      rw [isVoid_iff] at hkey helem
      subst hkey helem
      cases h
      exact .openBoth fun hvoid => hab (by rw [hvoid.1, hvoid.2])
    · rename_i hkey helem
      rw [isVoid_iff] at helem
      subst helem
      split at h
      · rename_i hsame
        subst hsame
        cases h
        exact .openEntries (isVoid_eq_false_iff.mp hkey) fun hvoid => hab (by rw [hvoid])
      · cases h
    · rename_i hkey helem
      rw [isVoid_iff] at hkey
      subst hkey
      split at h
      · rename_i hsame
        subst hsame
        cases h
        exact .openKeys (fun hvoid => hab (by rw [hvoid])) (isVoid_eq_false_iff.mp helem)
      · cases h
    · cases h
  · cases h

theorem castDist_eq_some_iff : castDist a b = some n ↔ Passes a b n :=
  ⟨passes_of_castDist, castDist_of_passes⟩

/-- A type passes for itself, or the conversion costs something, and never more than three. -/
theorem castDist_cases (h : castDist a b = some n) : (a = b ∧ n = 0) ∨ (a ≠ b ∧ 0 < n ∧ n ≤ 3) := by
  by_cases hab : a = b
  · subst hab
    rw [castDist_self] at h
    cases h
    exact .inl ⟨rfl, rfl⟩
  · refine .inr ⟨hab, ?_⟩
    cases passes_of_castDist h with
    | same => exact absurd rfl hab
    | widened | openItems | openKeys | openEntries | openBoth => exact ⟨by decide, by decide⟩

/-! ## What passes for a type -/

/-- is something that the type holds left open -/
def isOpen : Ty → Bool
  | list void => true
  | map void _ => true
  | map _ void => true
  | _ => false

/-- Only itself passes for a type that is no double and has nothing open. -/
theorem converts_iff_eq (hdbl : b ≠ dbl) (hopen : b.isOpen = false) :
    (∃ n, castDist a b = some n) ↔ a = b := by
  constructor
  · rintro ⟨n, h⟩
    cases passes_of_castDist h with
    | same => rfl
    | widened => exact absurd rfl hdbl
    | openItems | openKeys | openBoth => cases hopen
    | openEntries => simp [isOpen] at hopen
  · rintro rfl
    exact ⟨0, castDist_self a⟩

theorem converts_dbl_iff : (∃ n, castDist a dbl = some n) ↔ a = dbl ∨ a = int := by
  constructor
  · rintro ⟨n, h⟩
    cases passes_of_castDist h with
    | same => exact .inl rfl
    | widened => exact .inr rfl
  · rintro (rfl | rfl)
    · exact ⟨0, castDist_self dbl⟩
    · exact ⟨1, rfl⟩

theorem converts_list_void_iff : (∃ n, castDist a (list void) = some n) ↔ ∃ elem, a = list elem := by
  constructor
  · rintro ⟨n, h⟩
    cases passes_of_castDist h with
    | same => exact ⟨void, rfl⟩
    | openItems => exact ⟨_, rfl⟩
  · rintro ⟨elem, rfl⟩
    by_cases helem : elem = void
    · exact ⟨0, helem ▸ castDist_self _⟩
    · exact ⟨2, castDist_of_passes (.openItems helem)⟩

theorem converts_map_void_iff :
    (∃ n, castDist a (map void void) = some n) ↔ ∃ key elem, a = map key elem := by
  constructor
  · rintro ⟨n, h⟩
    cases passes_of_castDist h with
    | same => exact ⟨void, void, rfl⟩
    | openKeys | openEntries | openBoth => exact ⟨_, _, rfl⟩
  · rintro ⟨key, elem, rfl⟩
    by_cases hboth : key = void ∧ elem = void
    · obtain ⟨rfl, rfl⟩ := hboth
      exact ⟨0, castDist_self _⟩
    · exact ⟨3, castDist_of_passes (.openBoth hboth)⟩

/-! ## Conversions there and back, and one after another -/

/-- A conversion leaves something open, and nothing closes it again. -/
theorem Passes.eq_of_back (h : Passes a b m) (h' : Passes b a n) : a = b := by
  cases h with
  | same => rfl
  | widened => cases h'
  | openItems closed =>
    cases h' with
    | same => rfl
    | openItems closed' => exact absurd rfl closed'
  | openKeys closed kept =>
    cases h' with
    | same => rfl
    | openKeys closed' _ => exact absurd rfl closed'
    | openEntries kept' _ => exact absurd rfl kept'
    | openBoth => exact absurd rfl closed
  | openEntries kept closed =>
    cases h' with
    | same => rfl
    | openKeys _ kept' => exact absurd rfl kept'
    | openEntries _ closed' => exact absurd rfl closed'
    | openBoth => exact absurd rfl closed
  | openBoth closed =>
    cases h' with
    | same => rfl
    | openKeys closed' _ => exact absurd rfl closed'
    | openEntries kept' _ => exact absurd rfl kept'
    | openBoth closed' => exact absurd ⟨rfl, rfl⟩ closed'

theorem passes_zero_iff : Passes a b 0 ↔ a = b := by
  constructor
  · rintro ⟨⟩
    rfl
  · rintro rfl
    exact .same a

/-- Two conversions that both leave something open end at a map of anything to anything. -/
theorem Passes.trans (h : Passes a b m) (h' : Passes b c n) : ∃ k ≤ m + n, Passes a c k := by
  cases h with
  | same => exact ⟨n, Nat.le_add_left n 0, h'⟩
  | widened =>
    cases h'
    exact ⟨1, Nat.le_refl 1, .widened⟩
  | openItems closed =>
    cases h' with
    | same => exact ⟨2, Nat.le_refl 2, .openItems closed⟩
    | openItems closed' => exact absurd rfl closed'
  | openKeys closed kept =>
    cases h' with
    | same => exact ⟨2, Nat.le_refl 2, .openKeys closed kept⟩
    | openKeys closed' _ => exact absurd rfl closed'
    | openEntries kept' _ => exact absurd rfl kept'
    | openBoth => exact ⟨3, by omega, .openBoth fun hvoid => closed hvoid.1⟩
  | openEntries kept closed =>
    cases h' with
    | same => exact ⟨2, Nat.le_refl 2, .openEntries kept closed⟩
    | openKeys _ kept' => exact absurd rfl kept'
    | openEntries _ closed' => exact absurd rfl closed'
    | openBoth => exact ⟨3, by omega, .openBoth fun hvoid => closed hvoid.2⟩
  | openBoth closed =>
    cases h' with
    | same => exact ⟨3, Nat.le_refl 3, .openBoth closed⟩
    | openKeys closed' _ => exact absurd rfl closed'
    | openEntries kept' _ => exact absurd rfl kept'
    | openBoth closed' => exact absurd ⟨rfl, rfl⟩ closed'

/-- A way over a third type is one that can be had directly, for no more. -/
theorem castDist_over (h : castDist a b = some m) (h' : castDist b c = some n) :
    ∃ k ≤ m + n, castDist a c = some k := by
  obtain ⟨k, hk, hpasses⟩ := (passes_of_castDist h).trans (passes_of_castDist h')
  exact ⟨k, hk, castDist_of_passes hpasses⟩

theorem castDist_one_way (hne : a ≠ b) : castDist a b = none ∨ castDist b a = none := by
  cases h : castDist a b with
  | none => exact .inl rfl
  | some m =>
    right
    cases h' : castDist b a with
    | none => rfl
    | some n => exact absurd ((passes_of_castDist h).eq_of_back (passes_of_castDist h')) hne

/-- The types are partially ordered by what passes for what. -/
theorem castDist_partialOrder : IsPartialOrder Ty fun a b => (castDist a b).isSome = true where
  refl a := by
    rw [castDist_self]
    rfl
  trans a b c h h' := by
    obtain ⟨m, hm⟩ := Option.isSome_iff_exists.mp h
    obtain ⟨n, hn⟩ := Option.isSome_iff_exists.mp h'
    obtain ⟨k, -, hk⟩ := castDist_over hm hn
    rw [hk]
    rfl
  antisymm a b h h' := by
    obtain ⟨m, hm⟩ := Option.isSome_iff_exists.mp h
    obtain ⟨n, hn⟩ := Option.isSome_iff_exists.mp h'
    exact (passes_of_castDist hm).eq_of_back (passes_of_castDist hn)

/-- **Conversion is a directed metric on types.**  Nothing is to be paid exactly for the same type; two
types that differ have a conversion one way at most; and a way over a third type gains nothing.  So what
passes for what is a partial order. -/
theorem castDist_metric :
    (∀ a b, castDist a b = some 0 ↔ a = b) ∧
    (∀ a b, a ≠ b → castDist a b = none ∨ castDist b a = none) ∧
    (∀ a b c m n, castDist a b = some m → castDist b c = some n →
      ∃ k ≤ m + n, castDist a c = some k) ∧
    IsPartialOrder Ty fun a b => (castDist a b).isSome = true := by
  refine ⟨?_, fun _ _ => castDist_one_way, fun _ _ _ _ _ => castDist_over, castDist_partialOrder⟩
  intro a b
  rw [castDist_eq_some_iff]
  exact passes_zero_iff

/-- from lists of integers by name over what is named to anything at all -/
theorem named_lists_pass :
    let named : Ty := map string (list int)
    named ≠ map string void ∧ castDist (map string void) named = none ∧
    castDist named (map string void) = some 2 ∧
    castDist (map string void) (map void void) = some 3 ∧
    ∃ k ≤ 5, castDist named (map void void) = some k := by
  intro named
  have hne : named ≠ map string void := by decide
  have hthere : castDist named (map string void) = some 2 := by decide
  have hon : castDist (map string void) (map void void) = some 3 := by decide
  obtain ⟨-, hback, hover, -⟩ := castDist_metric
  refine ⟨hne, ?_, hthere, hon, hover _ _ _ _ _ hthere hon⟩
  rcases hback _ _ hne with hnone | hnone
  · rw [hthere] at hnone
    cases hnone
  · exact hnone

end Parlance.Ty
