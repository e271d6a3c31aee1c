import Mathlib.Data.List.Perm.Basic
import Mathlib.Order.Defs.Unbundled
import Parlance.Proofs.Ty.Erasure

/-!
# Joins of erased types

* `Above ts d`        all of the types `ts` give way to `d`;
* `Join ts c`         and `c` is the least type for which that is so;
* `unify_eq_some_iff` two types are unified to their join;
* `unifyAll_eq_ok_iff`   a type and several others, from the left, to the join of all of them;
* `exists_join`       types that give way to one type have a join;
* `join_append_iff`   the join of two lists is the join of the joins;
* `unify_assoc`       so unifying goes either way, failures included.

A join depends only on what is above the types, so neither their order nor their grouping matters.
-/

namespace Parlance.Ty

variable {a b c d : Ty} {ts us : List Ty}

theorem Erases.antisymm (h : Erases a b) (h' : Erases b a) : a = b := by
  induction h with
  | refl a => rfl
  | void b =>
    cases h' with
    | refl => rfl
    | void => rfl
  | list _ ih =>
    cases h' with
    | refl => rfl
    | list h' => rw [ih h']

theorem erases_partialOrder : IsPartialOrder Ty Erases where
  refl := .refl
  trans _ _ _ := .trans
  antisymm _ _ h h' := h.antisymm h'

theorem Erases.of_list (h : Erases (.list a) d) : ∃ u, d = .list u ∧ Erases a u := by
  cases h with
  | refl => exact ⟨a, rfl, .refl a⟩
  | list h => exact ⟨_, rfl, h⟩

/-! ## Least types above others -/

/-- all of the types give way to `d` -/
def Above (ts : List Ty) (d : Ty) : Prop := ∀ t ∈ ts, Erases t d

/-- The least type that all of the types give way to. -/
structure Join (ts : List Ty) (c : Ty) : Prop where
  above : Above ts c
  least : ∀ d, Above ts d → Erases c d

theorem above_nil (d : Ty) : Above [] d := fun _ h => by cases h

theorem above_cons_iff : Above (a :: ts) d ↔ Erases a d ∧ Above ts d := List.forall_mem_cons

theorem above_pair_iff : Above [a, b] d ↔ Erases a d ∧ Erases b d := by
  rw [above_cons_iff, above_cons_iff, and_iff_left (above_nil d)]

theorem above_append_iff : Above (ts ++ us) d ↔ Above ts d ∧ Above us d :=
  List.forall_mem_append

theorem Join.unique (h : Join ts c) (h' : Join ts d) : c = d :=
  (h.least d h'.above).antisymm (h'.least c h.above)

/-- What a join gives way to is what all of the types give way to. -/
theorem Join.erases_iff (h : Join ts c) : Erases c d ↔ Above ts d :=
  ⟨fun hcd t ht => (h.above t ht).trans hcd, h.least d⟩

theorem join_congr (h : ∀ d, Above ts d ↔ Above us d) : Join ts c ↔ Join us c := by
  constructor
  · rintro ⟨habove, hleast⟩
    exact ⟨(h c).mp habove, fun d hd => hleast d ((h d).mpr hd)⟩
  · rintro ⟨habove, hleast⟩
    exact ⟨(h c).mpr habove, fun d hd => hleast d ((h d).mp hd)⟩

theorem join_perm (h : ts.Perm us) : Join ts c ↔ Join us c :=
  join_congr fun _ => forall_congr' fun _ => imp_congr_left h.mem_iff

theorem join_void_cons : Join (void :: ts) c ↔ Join ts c :=
  join_congr fun d => by rw [above_cons_iff, and_iff_right (Erases.void d)]

theorem join_singleton : Join [a] c ↔ c = a := by
  have hself : Join [a] a :=
    ⟨above_cons_iff.mpr ⟨.refl a, above_nil a⟩, fun d hd => (above_cons_iff.mp hd).1⟩
  constructor
  · exact fun h => h.unique hself
  · rintro rfl
    exact hself

/-! ## Unifying -/

theorem unify_list (h : (unify a b).isSome) : (unify (.list a) (.list b)).isSome := by
  rw [unify]
  split
  · rfl
  · rw [Option.isSome_map]
    exact h

/-- types that give way to one type can be unified -/
theorem unify_isSome_of_erases (ha : Erases a d) (hb : Erases b d) : (unify a b).isSome := by
  induction ha generalizing b with
  | refl a =>
    induction hb with
    | refl b => rw [unify_self]; rfl
    | void b => rw [unify_void_right]; rfl
    | list _ ih => exact unify_list ih
  | void c => rw [unify_void_left]; rfl
  | list _ ih =>
    cases hb with
    | refl => exact unify_list (ih (.refl _))
    | void => rw [unify_void_right]; rfl
    | list hb => exact unify_list (ih hb)

theorem unify_least {a b c d : Ty} (h : unify a b = some c) (ha : Erases a d) (hb : Erases b d) :
    Erases c d := by
  rcases unify_cases h with ⟨-, rfl⟩ | ⟨-, rfl⟩ | ⟨-, rfl⟩ | ⟨s, t, u, rfl, rfl, rfl, hu⟩
  · exact ha
  · exact hb
  · exact ha
  · obtain ⟨e, rfl, hs⟩ := ha.of_list
    obtain ⟨_, he, ht⟩ := hb.of_list
    cases he
    exact .list (unify_least hu hs ht)
termination_by sizeOf a

theorem join_of_unify (h : unify a b = some c) : Join [a, b] c := by
  obtain ⟨ha, hb⟩ := unify_inv h
  refine ⟨above_pair_iff.mpr ⟨ha, hb⟩, fun d hd => ?_⟩
  obtain ⟨had, hbd⟩ := above_pair_iff.mp hd
  exact unify_least h had hbd

/-- **Two types are unified to their join**, if they have one. -/
theorem unify_eq_some_iff : unify a b = some c ↔ Join [a, b] c := by
  refine ⟨join_of_unify, fun h => ?_⟩
  obtain ⟨ha, hb⟩ := above_pair_iff.mp h.above
  obtain ⟨u, hu⟩ := Option.isSome_iff_exists.mp (unify_isSome_of_erases ha hb)
  rw [hu, (join_of_unify hu).unique h]

theorem unify_isSome_iff : (unify a b).isSome ↔ ∃ d, Erases a d ∧ Erases b d := by
  constructor
  · intro h
    obtain ⟨c, hc⟩ := Option.isSome_iff_exists.mp h
    exact ⟨c, unify_inv hc⟩
  · rintro ⟨d, ha, hb⟩
    exact unify_isSome_of_erases ha hb

theorem unify_comm (a b : Ty) : unify a b = unify b a := by
  ext c
  rw [unify_eq_some_iff, unify_eq_some_iff]
  exact join_perm (List.Perm.swap b a [])

/-- Unifying with one more type takes the join of what has been found and that type. -/
theorem join_cons_cons (h : unify a b = some c) : Join (c :: ts) d ↔ Join (a :: b :: ts) d := by
  refine join_congr fun e => ?_
  rw [above_cons_iff, (join_of_unify h).erases_iff, above_pair_iff, above_cons_iff, above_cons_iff,
    and_assoc]

theorem unifyAll_eq_ok_iff : unifyAll a ts = .ok c ↔ Join (a :: ts) c := by
  induction ts generalizing a with
  | nil =>
    rw [unifyAll, join_singleton, Except.ok.injEq]
    exact eq_comm
  | cons t ts ih =>
    rw [unifyAll]
    cases hunify : unify a t with
    | some b =>
      dsimp only
      rw [ih, join_cons_cons hunify]
    | none =>
      refine iff_of_false (fun h => by cases h) fun h => ?_
      obtain ⟨ha, hothers⟩ := above_cons_iff.mp h.above
      have hsome := unify_isSome_of_erases ha (above_cons_iff.mp hothers).1
      rw [hunify] at hsome
      cases hsome

/-! ## Joins of lists -/

theorem exists_join (h : Above ts d) : ∃ c, Join ts c := by
  induction ts with
  | nil => exact ⟨void, above_nil void, fun d _ => .void d⟩
  | cons t ts ih =>
    obtain ⟨ht, hothers⟩ := above_cons_iff.mp h
    obtain ⟨u, hu⟩ := ih hothers
    obtain ⟨c, hc⟩ := Option.isSome_iff_exists.mp
      (unify_isSome_of_erases ht (hu.erases_iff.mpr hothers))
    refine ⟨c, (join_congr fun e => ?_).mp (join_of_unify hc)⟩
    rw [above_pair_iff, hu.erases_iff, above_cons_iff]

/-- Above two joins is what is above both lists. -/
theorem join_pair_iff {s t : Ty} (hs : Join ts s) (ht : Join us t) :
    Join [s, t] c ↔ Join (ts ++ us) c := by
  refine join_congr fun d => ?_
  rw [above_pair_iff, hs.erases_iff, ht.erases_iff, above_append_iff]

theorem join_append_iff :
    Join (ts ++ us) c ↔ ∃ s t, Join ts s ∧ Join us t ∧ Join [s, t] c := by
  constructor
  · intro h
    obtain ⟨hts, hus⟩ := above_append_iff.mp h.above
    obtain ⟨s, hs⟩ := exists_join hts
    obtain ⟨t, ht⟩ := exists_join hus
    exact ⟨s, t, hs, ht, (join_pair_iff hs ht).mpr h⟩
  · rintro ⟨s, t, hs, ht, h⟩
    exact (join_pair_iff hs ht).mp h

theorem join_cons_iff : Join (a :: us) c ↔ ∃ t, Join us t ∧ Join [a, t] c := by
  rw [← List.singleton_append, join_append_iff]
  simp only [join_singleton, exists_and_left, exists_eq_left]

theorem join_concat_iff (ts : List Ty) :
    Join (ts ++ [b]) c ↔ ∃ s, Join ts s ∧ Join [s, b] c := by
  rw [join_append_iff]
  simp only [join_singleton, exists_and_left, exists_eq_left]

theorem unify_assoc (a b c : Ty) :
    (unify a b).bind (unify · c) = (unify b c).bind (unify a ·) := by
  ext d
  simp only [Option.bind_eq_some_iff, unify_eq_some_iff]
  have hleft : Join [a, b, c] d ↔ ∃ s, Join [a, b] s ∧ Join [s, c] d :=
    join_concat_iff [a, b]
  rw [← hleft, join_cons_iff]

end Parlance.Ty
