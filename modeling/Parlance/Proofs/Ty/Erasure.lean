import Parlance.Ty.Erasure

/-!
# The order of erased types

* `Erases.trans`        types that give way to each other are ordered;
* `Filled`              types with nothing left to fill in give way to themselves alone;
* `unify_inv`           what two types give way to by `unify` is above both;
* `unifyAll_inv`        the same for a type and several others.
-/

namespace Parlance.Ty

theorem Erases.trans {a b c : Ty} (h : Erases a b) (h' : Erases b c) : Erases a c := by
  induction h generalizing c with
  | refl a => exact h'
  | void b => exact .void c
  | list _ ih =>
    cases h' with
    | refl => exact .list (ih (.refl _))
    | list h' => exact .list (ih h')

/-- there is no `void` along the list nesting -/
def Filled : Ty → Prop
  | .void => False
  | .list a => a.Filled
  | _ => True

theorem Erases.eq_of_filled {a b : Ty} (h : Erases a b) (ha : a.Filled) : b = a := by
  induction h with
  | refl a => rfl
  | void b => exact ha.elim
  | list _ ih => rw [ih ha]

theorem unify_cases {a b c : Ty} (h : unify a b = some c) :
    (a = b ∧ c = a) ∨ (a = .void ∧ c = b) ∨ (b = .void ∧ c = a) ∨
    ∃ s t u, a = .list s ∧ b = .list t ∧ c = .list u ∧ unify s t = some u := by
  unfold unify at h
  split at h
  · rename_i hab
    cases h
    exact .inl ⟨hab, rfl⟩
  split at h
  · cases h
    exact .inr (.inl ⟨rfl, rfl⟩)
  · cases h
    exact .inr (.inr (.inl ⟨rfl, rfl⟩))
  · rename_i s t _
    obtain ⟨u, hu, rfl⟩ := Option.map_eq_some_iff.mp h
    exact .inr (.inr (.inr ⟨s, t, u, rfl, rfl, rfl, hu⟩))
  · cases h

theorem unify_inv {a b c : Ty} (h : unify a b = some c) : Erases a c ∧ Erases b c := by
  rcases unify_cases h with ⟨rfl, rfl⟩ | ⟨rfl, rfl⟩ | ⟨rfl, rfl⟩ | ⟨s, t, u, rfl, rfl, rfl, hu⟩
  · exact ⟨.refl _, .refl _⟩
  · exact ⟨.void _, .refl _⟩
  · exact ⟨.refl _, .void _⟩
  · obtain ⟨hs, ht⟩ := unify_inv hu
    exact ⟨.list hs, .list ht⟩
termination_by sizeOf a

/-- a type and several others give way to what they are unified to -/
theorem unifyAll_inv {a c : Ty} {ts : List Ty} (h : unifyAll a ts = .ok c) :
    Erases a c ∧ ∀ t ∈ ts, Erases t c := by
  induction ts generalizing a with
  | nil =>
    cases h
    exact ⟨.refl _, fun _ h => by cases h⟩
  | cons t ts ih =>
    rw [unifyAll] at h
    split at h
    · rename_i b hb
      obtain ⟨ha, ht⟩ := unify_inv hb
      obtain ⟨hbc, hts⟩ := ih h
      refine ⟨ha.trans hbc, ?_⟩
      intro u hu
      rcases List.mem_cons.mp hu with rfl | hu
      · exact ht.trans hbc
      · exact hts u hu
    · cases h

end Parlance.Ty
