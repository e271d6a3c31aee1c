import Parlance.Proofs.Value.Order
import Parlance.Proofs.Value.Places

/-!
# Reading after writing

A path is written at its end and read at its end.  Which paths have an end in common is said by the
turns that they take, since a list has two indices for each of its items and a map one place for each
key:

* `Turn`, `Value.turns path v`   the turns that a path takes through a value;
* `Value.Apart p q v`            neither path takes all the turns of the other, and perhaps more;
* `at?_eq_foldlM`                reading is subscripting along the path;
* `at?_put`                      a part that was written is read as it was written;
* `at?_put_of_apart`             any path apart from the written one leads where it led before.
-/

namespace Parlance

/-- One step of a path: to an item of a list by its position, or by an index as it is. -/
inductive Turn where
  | item (position : Nat)
  | index (v : Value)
deriving BEq

namespace Value

/-- the turn that an index takes at a value: in a list it is counted from the front -/
def turn (v index : Value) : Turn :=
  match v, index with
  | list _ items, int i =>
    match position? i items.length with
    | some n => .item n
    | none => .index (int i)
  | _, index => .index index

/-- The turns that a path takes through a value.  From where it leads nowhere, the indices stay as
they are. -/
def turns : List Value → Value → List Turn
  | [], _ => []
  | index :: path, v =>
    turn v index :: match subscript v index with
      | .ok x => turns path x
      | .error _ => path.map .index

/-- Neither of two paths through a value is the other one or leads on from its end. -/
def Apart (p q : List Value) (v : Value) : Prop :=
  (turns p v).isPrefixOf (turns q v) = false ∧ (turns q v).isPrefixOf (turns p v) = false

/-- reading is subscripting along the path -/
theorem at?_eq_foldlM (path : List Value) (v : Value) : at? path v = path.foldlM subscript v := by
  induction path generalizing v with
  | nil => rfl
  | cons index path ih =>
    rw [at?_cons, List.foldlM_cons]
    congr 1
    funext x
    exact ih x

/-! ## One step -/

section
variable {elem : Ty} {items : List Value} {n : Nat}

theorem turn_int {i : Int64} (h : position? i items.length = some n) :
    turn (list elem items) (int i) = .item n := by
  rw [turn, h]

theorem turn_modify (f : Value → Value) (j : Value) :
    turn (list elem (items.modify n f)) j = turn (list elem items) j := by
  cases j <;> simp only [turn, List.length_modify]

/-- an index finds an item of a list exactly by the turn to it -/
theorem subscript_list_iff {j x : Value} :
    subscript (list elem items) j = .ok x ↔
      ∃ n, turn (list elem items) j = .item n ∧ items[n]? = some x := by
  cases j with
  | int j =>
    cases hm : position? j items.length with
    | none => simp [subscript, turn, hm]
    | some m =>
      rw [turn_int hm, subscript, hm, Option.bind_some]
      cases hx : items[m]? <;> simp [hx]
  | _ => simp [subscript, turn]

/-- writing along an index changes the item to which it turns -/
theorem put_list (new : Value) (path : List Value) (i : Value) :
    put new (i :: path) (list elem items) = match turn (list elem items) i with
      | .item n => list elem (items.modify n (put new path))
      | .index _ => list elem items := by
  cases i with
  | int i =>
    rw [put, turn]
    cases position? i items.length <;> rfl
  | _ => rfl

theorem subscript_modify {f : Value → Value} {j : Value}
    (h : turn (list elem items) j ≠ .item n) :
    subscript (list elem (items.modify n f)) j = subscript (list elem items) j := by
  cases j with
  | int j =>
    cases hm : position? j items.length with
    | none =>
      rw [subscript, subscript, List.length_modify, hm]
      rfl
    | some m =>
      have hne : n ≠ m := by
        rintro rfl
        exact h (turn_int hm)
      rw [subscript, subscript, List.length_modify, hm, Option.bind_some, Option.bind_some,
        List.getElem?_modify_ne _ _ hne]
  | _ => rfl

end

section
variable {key elem : Ty} {entries : List (Value × Value)}

/-- writing along an index binds it as a key, or does nothing -/
theorem put_map_cases (new : Value) (path : List Value) (i : Value) :
    put new (i :: path) (map key elem entries) = map key elem entries ∨
    ∃ w, put new (i :: path) (map key elem entries) = map key elem (insertEntry i w entries) := by
  rw [put]
  split
  · exact .inr ⟨_, rfl⟩
  · split
    · exact .inr ⟨_, rfl⟩
    · exact .inl rfl

theorem subscript_insertEntry {i j : Value} (w : Value) (h : ¬compare i j = .eq) :
    subscript (map key elem (insertEntry i w entries)) j = subscript (map key elem entries) j := by
  simp only [subscript, lookup?_insertEntry, if_neg h]

end

theorem Turn.beq_item_iff {t : Turn} {n : Nat} : (Turn.item n == t) = true ↔ t = .item n := by
  cases t with
  | item m =>
    rw [Turn.item.injEq, eq_comm (a := m)]
    exact beq_iff_eq (a := n) (b := m)
  | index v => exact iff_of_false Bool.false_ne_true (fun h => by cases h)

theorem Turn.beq_comm (s t : Turn) : (s == t) = true ↔ (t == s) = true := by
  cases s with
  | item n =>
    cases t with
    | item m => rw [beq_item_iff, beq_item_iff, eq_comm]
    | index w => exact Iff.rfl
  | index v =>
    cases t with
    | item m => exact Iff.rfl
    | index w => exact ((beq_iff v w).trans (compare_eq_comm v w)).trans (beq_iff w v).symm

theorem Turn.beq_refl (t : Turn) : (t == t) = true := by
  cases t with
  | item n => exact beq_item_iff.mpr rfl
  | index v => exact (beq_iff v v).mpr (compare_self v)

/-- Where two indices take different turns, writing along the one leaves the other alone. -/
theorem subscript_put_other (new : Value) (path : List Value) {v i j : Value}
    (h : (turn v i == turn v j) = false) :
    subscript (put new (i :: path) v) j = subscript v j := by
  cases v with
  | list elem items =>
    rw [put_list]
    split
    · rename_i n hi
      rw [hi, ← Bool.not_eq_true, Turn.beq_item_iff] at h
      exact subscript_modify h
    · rfl
  | map key elem entries =>
    have hne : ¬compare i j = .eq := by
      rw [← beq_iff]
      exact ne_true_of_eq_false h
    rcases put_map_cases new path i with hput | ⟨w, hput⟩
    · rw [hput]
    · rw [hput, subscript_insertEntry w hne]
  | _ => rfl

/-- Where two indices take the same turn, the other one leads to what was written along the one, or
it leads nowhere as before. -/
theorem subscript_put_same (new : Value) (path : List Value) {v i j x : Value}
    (h : (turn v i == turn v j) = true) (hx : subscript v i = .ok x) :
    (subscript v j = .ok x ∧ subscript (put new (i :: path) v) j = .ok (put new path x)) ∨
    ∃ e, subscript v j = .error e ∧ subscript (put new (i :: path) v) j = .error e := by
  rcases subscript_inv hx with
    ⟨elem, items, _, rfl, -, -⟩ | ⟨key, elem, entries, rfl, -, hlookup, hput⟩
  · obtain ⟨n, hi, hn⟩ := subscript_list_iff.mp hx
    rw [hi, Turn.beq_item_iff] at h
    left
    rw [put_list, hi, subscript_list_iff, subscript_list_iff]
    refine ⟨⟨n, h, hn⟩, n, (turn_modify _ _).trans h, ?_⟩
    rw [List.getElem?_modify_eq, hn]
    rfl
  · have hsame : compare i j = .eq := (beq_iff i j).mp h
    rw [hput]
    by_cases hty : j.ty = key
    · left
      rw [subscript, subscript, if_pos hty, if_pos hty, lookup?_insertEntry, if_pos hsame,
        ← lookup?_congr hsame, hlookup]
      exact ⟨rfl, rfl⟩
    · right
      rw [subscript, subscript, if_neg hty, if_neg hty]
      exact ⟨_, rfl, rfl⟩

/-! ## Paths -/

/-- **A part that was written is read as it was written.** -/
theorem at?_put {new old v : Value} {path : List Value} (h : slot (some new) path v = .ok old) :
    at? path (put new path v) = .ok new := by
  induction path generalizing v with
  | nil => rfl
  | cons i path ih =>
    rcases slot_cons_inv h with
      ⟨x, hx, h⟩ | ⟨key, elem, entries, rfl, rfl, hkey, hnone, -, rfl⟩
    · rcases subscript_put_same new path (Turn.beq_refl (turn v i)) hx with ⟨-, hput⟩ | ⟨e, he, -⟩
      · rw [at?_cons, hput]
        exact ih h
      · rw [hx] at he
        cases he
    · rw [put, hnone, at?_cons]
      show subscript (map key elem (insertEntry i old entries)) i >>= at? [] = .ok old
      rw [subscript, if_pos hkey, lookup?_insertEntry, if_pos (compare_self i)]
      rfl

theorem turns_cons (i : Value) (p : List Value) (v : Value) :
    turns (i :: p) v = turn v i :: match subscript v i with
      | .ok x => turns p x
      | .error _ => p.map .index := rfl

section
variable {i j v : Value} (h : (turn v i == turn v j) = true)
include h

theorem not_apart_single (q : List Value) : ¬Apart [i] (j :: q) v := by
  rintro ⟨hleft, -⟩
  have hnil : turns [i] v = [turn v i] := by
    rw [turns_cons]
    cases subscript v i <;> rfl
  rw [hnil, turns_cons, List.isPrefixOf_cons_cons, h] at hleft
  cases hleft

/-- paths that start with the same turn are apart from where it leads on -/
theorem apart_tail {p q : List Value} {x : Value} (hi : subscript v i = .ok x)
    (hj : subscript v j = .ok x) (hapart : Apart (i :: p) (j :: q) v) : Apart p q x := by
  obtain ⟨hleft, hright⟩ := hapart
  rw [turns_cons, turns_cons, hi, hj, List.isPrefixOf_cons_cons] at hleft hright
  rw [h, Bool.true_and] at hleft
  rw [(Turn.beq_comm _ _).mp h, Bool.true_and] at hright
  exact ⟨hleft, hright⟩

end

/-- **A path apart from the written one leads where it led before.** -/
theorem at?_put_of_apart {new old v : Value} {p q : List Value}
    (h : slot (some new) p v = .ok old) (hapart : Apart p q v) :
    at? q (put new p v) = at? q v := by
  induction p generalizing q v with
  | nil => cases hapart.1
  | cons i p ih =>
    cases q with
    | nil => cases hapart.2
    | cons j q =>
      rw [at?_cons, at?_cons]
      -- the two paths part here, or they go on together from what both indices find
      cases hturn : turn v i == turn v j with
      | false => rw [subscript_put_other new p hturn]
      | true =>
        rcases slot_cons_inv h with ⟨x, hx, h⟩ | ⟨_, _, _, rfl, -⟩
        · rcases subscript_put_same new p hturn hx with ⟨hj, hput⟩ | ⟨e, hj, hput⟩
          · rw [hj, hput]
            exact ih h (apart_tail hturn hx hj hapart)
          · rw [hj, hput]
        · -- a key was put in, and the other path would lead through it
          exact absurd hapart (not_apart_single hturn q)

end Value

end Parlance
