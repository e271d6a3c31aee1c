import Parlance.Proofs.Value.Paths

/-!
# Walking to a part

A part that is to be written can be reached by a walk that changes the value on its way: a key that
is missing at the very end is put in as soon as the walk gets there, before it is known whether
anything will be written.

* `Value.walk fill path v`   what such a walk finds, and the value with the key that it put in;
* `walk_none`                without a fill, it finds what subscripting along the path finds;
* `walk_some`                with one, it finds what `slot` finds, and has put in a key only where
                             it found the fill;
* `put_put`                  the second of two writes to a part counts.
-/

namespace Parlance.Value

/-- A walk along a path: what is at its end, and the value with the key at its end, if that was
missing and had to be put in to hold `fill`. -/
def walk (fill : Option Value) : List Value → Value → Except EvalError Value × Option Value
  | [], v => (.ok v, none)
  | index :: path, v =>
    match v with
    | list elem items =>
      match index with
      | int i =>
        match position? i items.length with
        | some n =>
          match items[n]? with
          | some x =>
            let inner := walk fill path x
            (inner.1, inner.2.map fun y => list elem (items.set n y))
          | none => (.error (.indexOutOfRange i items.length), none)
        | none => (.error (.indexOutOfRange i items.length), none)
      | index => (.error (.invalidIndexType (.list elem) index.ty), none)
    | map key elem entries =>
      if index.ty ≠ key then (.error (.invalidIndexType (.map key elem) index.ty), none)
      else
        match lookup? index entries with
        | some x =>
          let inner := walk fill path x
          (inner.1, inner.2.map fun y => map key elem (insertEntry index y entries))
        | none =>
          match path, fill with
          | [], some new =>
            if new.ty ≠ elem then (.error (.assignTypeMismatch elem new.ty), none)
            else (.ok new, some (map key elem (insertEntry index new entries)))
          | _, _ => (.error (.missingKey index.display), none)
    | v => (.error (.notIndexable v.ty), none)

/-! ## One step -/

section
variable {v i x : Value} {fill : Option Value} {path : List Value}

/-- Where an index finds something, the walk goes on from there. -/
theorem walk_cons_of_ok (hx : subscript v i = .ok x) :
    walk fill (i :: path) v =
      ((walk fill path x).1, (walk fill path x).2.map fun y => put y [i] v) := by
  cases v with
  | list elem items =>
    obtain ⟨n, hturn, hn⟩ := subscript_list_iff.mp hx
    cases i with
    | int i =>
      cases hpos : position? i items.length with
      | none => simp [turn, hpos] at hturn
      | some m =>
        rw [turn_int hpos] at hturn
        cases hturn
        simp only [walk, hpos, hn, put, List.modify_eq_set_getElem?]
        rfl
    | _ => cases hturn
  | map key elem entries =>
    rcases subscript_inv hx with ⟨_, _, _, hv, -⟩ | ⟨_, _, _, hv, hkey, hlookup, hput⟩
    · cases hv
    · cases hv
      simp only [walk, ne_eq, hkey, not_true_eq_false, if_false, hlookup, hput]
      rfl
  | _ => cases hx

theorem slot_cons_of_ok (hx : subscript v i = .ok x) :
    slot fill (i :: path) v = slot fill path x := by
  cases path with
  | nil =>
    refine slot_of_at? ?_
    rw [at?_cons, hx]
    rfl
  | cons j path =>
    rw [slot_cons_cons, hx]
    rfl

theorem put_cons_of_ok (new : Value) (hx : subscript v i = .ok x) :
    put new (i :: path) v = put (put new path x) [i] v := by
  rcases subscript_inv hx with ⟨_, _, _, -, -, hput⟩ | ⟨_, _, _, -, -, -, hput⟩
  · rw [hput, hput]
    rfl
  · rw [hput, hput]
    rfl

variable {e : EvalError} (hx : subscript v i = .error e)
  (h : ∀ key elem entries, v = map key elem entries → i.ty = key → path = [] → fill = none)
include hx h

/-- Where an index finds nothing, the walk fails as subscripting does, unless the index is a key that
is missing at the end of the path and there is something that it is to hold. -/
theorem walk_cons_of_error : walk fill (i :: path) v = (.error e, none) := by
  cases v with
  | list elem items =>
    cases i with
    | int i =>
      cases hpos : position? i items.length with
      | none =>
        simp only [subscript, hpos, Option.bind_none] at hx
        cases hx
        simp only [walk, hpos]
      | some n =>
        cases hn : items[n]? with
        | some x => simp [subscript, hpos, hn] at hx
        | none =>
          simp only [subscript, hpos, Option.bind_some, hn] at hx
          cases hx
          simp only [walk, hpos, hn]
    | _ =>
      cases hx
      rfl
  | map key elem entries =>
    rw [subscript] at hx
    split at hx
    · rename_i hkey
      split at hx
      · cases hx
      · rename_i hnone
        cases hx
        simp only [walk, ne_eq, hkey, not_true_eq_false, if_false, hnone]
        split
        · cases h _ _ _ rfl hkey rfl
        · rfl
    · rename_i hkey
      cases hx
      simp only [walk, ne_eq, hkey, not_false_eq_true, if_true]
  | _ =>
    cases hx
    rfl

theorem slot_cons_of_error : slot fill (i :: path) v = .error e := by
  cases path with
  | nil =>
    unfold slot
    split
    · rw [if_neg fun hkey => by cases h _ _ _ rfl hkey.1 rfl]
      exact hx
    · exact hx
  | cons j path =>
    rw [slot_cons_cons, hx]
    rfl

end

section
variable {key elem : Ty} {entries : List (Value × Value)} {i : Value} (new : Value)
  (hkey : i.ty = key) (hnone : lookup? i entries = none)
include hkey hnone

theorem walk_missing : walk (some new) [i] (map key elem entries) =
    if new.ty ≠ elem then (.error (.assignTypeMismatch elem new.ty), none)
    else (.ok new, some (put new [i] (map key elem entries))) := by
  simp only [walk, put, ne_eq, hkey, not_true_eq_false, if_false, hnone]
  rfl

theorem slot_missing : slot (some new) [i] (map key elem entries) =
    if new.ty = elem then .ok new else .error (.assignTypeMismatch elem new.ty) := by
  rw [slot, if_pos ⟨hkey, by rw [hnone]; rfl⟩]

end

/-! ## The whole walk -/

/-- **Without a fill, the walk finds what subscripting along the path finds** and puts in nothing. -/
theorem walk_none (path : List Value) (v : Value) :
    walk none path v = (path.foldlM subscript v, none) := by
  induction path generalizing v with
  | nil => rfl
  | cons i path ih =>
    rw [List.foldlM_cons]
    cases hx : subscript v i with
    | ok x =>
      rw [walk_cons_of_ok hx, ih]
      rfl
    | error e => exact walk_cons_of_error hx fun _ _ _ _ _ _ => rfl

/-- **With a fill, the walk finds what `slot` finds.**  Where it has put a key in, that is how the
value is with the fill written at the end of the path. -/
theorem walk_some (new : Value) (path : List Value) (v : Value) :
    walk (some new) path v = (slot (some new) path v, none) ∨
    (slot (some new) path v = .ok new ∧
      walk (some new) path v = (.ok new, some (put new path v))) := by
  induction path generalizing v with
  | nil => exact .inl rfl
  | cons i path ih =>
    cases hx : subscript v i with
    | ok x =>
      rw [walk_cons_of_ok hx, slot_cons_of_ok hx, put_cons_of_ok new hx]
      rcases ih x with h | ⟨hslot, h⟩
      · rw [h]
        exact .inl rfl
      · rw [h]
        exact .inr ⟨hslot, rfl⟩
    | error e =>
      -- only at a missing key at the very end does it matter that there is a fill
      by_cases hmissing : ∃ key elem entries, v = map key elem entries ∧ i.ty = key ∧ path = []
      · obtain ⟨key, elem, entries, rfl, hkey, rfl⟩ := hmissing
        have hnone : lookup? i entries = none := by
          rw [subscript, if_pos hkey] at hx
          split at hx
          · cases hx
          · assumption
        rw [walk_missing new hkey hnone, slot_missing new hkey hnone]
        by_cases helem : new.ty = elem
        · rw [if_pos helem, if_neg (not_not_intro helem)]
          exact .inr ⟨rfl, rfl⟩
        · rw [if_neg helem, if_pos helem]
          exact .inl rfl
      · have hfill : ∀ key elem entries, v = map key elem entries → i.ty = key → path = [] →
            some new = none := fun key elem entries hv hkey hpath =>
          absurd ⟨key, elem, entries, hv, hkey, hpath⟩ hmissing
        left
        rw [walk_cons_of_error hx hfill, slot_cons_of_error hx hfill]

/-! ## Two writes -/

theorem insertEntry_insertEntry (key v w : Value) (entries : List (Value × Value)) :
    insertEntry key w (insertEntry key v entries) = insertEntry key w entries := by
  induction entries with
  | nil => simp only [insertEntry, compare_self]
  | cons e rest ih =>
    obtain ⟨k, x⟩ := e
    cases h : compare key k with
    | lt => simp only [insertEntry, h, compare_self]
    | eq => simp only [insertEntry, h]
    | gt => simp only [insertEntry, h, ih]

theorem put_single_map (new i : Value) (key elem : Ty) (entries : List (Value × Value)) :
    put new [i] (map key elem entries) = map key elem (insertEntry i new entries) := by
  rw [put]
  cases lookup? i entries <;> rfl

theorem put_put_single (w new i v : Value) : put w [i] (put new [i] v) = put w [i] v := by
  cases v with
  | list elem items =>
    cases hturn : turn (list elem items) i with
    | item n =>
      simp only [put_list, turn_modify, hturn, List.modify_modify_eq]
      rfl
    | index j => simp only [put_list, hturn]
  | map key elem entries => simp only [put_single_map, insertEntry_insertEntry]
  | _ => rfl

/-- **The second of two writes to a part counts.** -/
theorem put_put {new old v : Value} {path : List Value} (w : Value)
    (h : slot (some new) path v = .ok old) : put w path (put new path v) = put w path v := by
  induction path generalizing v with
  | nil => rfl
  | cons i path ih =>
    rcases slot_cons_inv h with ⟨x, hx, h⟩ | ⟨_, _, _, rfl, -⟩
    · have hnew : subscript (put new (i :: path) v) i = .ok (put new path x) := by
        rcases subscript_put_same new path (Turn.beq_refl (turn v i)) hx with ⟨-, hput⟩ | ⟨e, he, -⟩
        · exact hput
        · rw [hx] at he
          cases he
      calc put w (i :: path) (put new (i :: path) v)
          = put (put w path (put new path x)) [i] (put new (i :: path) v) := put_cons_of_ok w hnew
        _ = put (put w path x) [i] (put (put new path x) [i] v) := by
            rw [ih h, put_cons_of_ok new hx]
        _ = put (put w path x) [i] v := put_put_single _ _ _ _
        _ = put w (i :: path) v := (put_cons_of_ok w hx).symm
    · exact put_put_single w new i v

end Parlance.Value
