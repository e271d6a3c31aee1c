import Mathlib.Data.List.Basic
import Parlance.Eval.Access

/-!
# Places inside values

* `slot_none`         what a place holds is the part at the end of its path;
* `subscript_inv`     where an index finds something, replacing what it finds replaces one item of a
                      list or the value of one entry of a map;
* `slot_cons_inv`     writing finds what reading finds, or a missing key that is to hold something of
                      the right type;
* `ty_put`            replacing something inside a value does not change the type of the value.
-/

namespace Parlance.Value

theorem at?_nil (v : Value) : at? [] v = .ok v := rfl
theorem at?_cons (index : Value) (path : List Value) (v : Value) :
    at? (index :: path) v = subscript v index >>= at? path := rfl

theorem at?_cons_inv {index v w : Value} {path : List Value} (h : at? (index :: path) v = .ok w) :
    ∃ x, subscript v index = .ok x ∧ at? path x = .ok w := by
  rw [at?_cons] at h
  cases hx : subscript v index with
  | ok x =>
    rw [hx] at h
    exact ⟨x, rfl, h⟩
  | error e =>
    rw [hx] at h
    cases h

theorem slot_cons_cons (fill : Option Value) (i j : Value) (path : List Value) (v : Value) :
    slot fill (i :: j :: path) v = subscript v i >>= slot fill (j :: path) := by
  rw [slot]
  simp

theorem slot_none_single (index v : Value) : slot none [index] v = subscript v index := by
  cases v <;> rfl

theorem slot_none (path : List Value) (v : Value) : slot none path v = at? path v := by
  induction path generalizing v with
  | nil => rfl
  | cons index path ih =>
    cases path with
    | nil =>
      rw [slot_none_single, at?_cons]
      cases subscript v index <;> rfl
    | cons j path =>
      rw [slot_cons_cons, at?_cons]
      congr 1
      funext x
      exact ih x

/-! ## Entries -/

theorem mem_insertEntry (key value : Value) (entries : List (Value × Value)) :
    ∃ k, (k, value) ∈ insertEntry key value entries := by
  induction entries with
  | nil => exact ⟨key, List.mem_singleton_self _⟩
  | cons e rest ih =>
    obtain ⟨k, v⟩ := e
    rw [insertEntry]
    split
    · exact ⟨key, List.mem_cons_self⟩
    · exact ⟨k, List.mem_cons_self⟩
    · obtain ⟨l, hl⟩ := ih
      exact ⟨l, List.mem_cons_of_mem _ hl⟩

/-- an entry after an insertion was there, or it has the new value and a key that was there or the
new one -/
theorem insertEntry_cases {key value : Value} {entries : List (Value × Value)} {e : Value × Value}
    (h : e ∈ insertEntry key value entries) :
    e ∈ entries ∨ (e.2 = value ∧ (e.1 = key ∨ ∃ old, (e.1, old) ∈ entries)) := by
  induction entries with
  | nil =>
    cases List.mem_singleton.mp h
    exact .inr ⟨rfl, .inl rfl⟩
  | cons f rest ih =>
    obtain ⟨k, v⟩ := f
    rw [insertEntry] at h
    split at h
    · rcases List.mem_cons.mp h with rfl | h
      · exact .inr ⟨rfl, .inl rfl⟩
      · exact .inl h
    · rcases List.mem_cons.mp h with rfl | h
      · exact .inr ⟨rfl, .inr ⟨v, List.mem_cons_self⟩⟩
      · exact .inl (List.mem_cons_of_mem _ h)
    · rcases List.mem_cons.mp h with rfl | h
      · exact .inl List.mem_cons_self
      · rcases ih h with h | ⟨h1, h2 | ⟨old, h2⟩⟩
        · exact .inl (List.mem_cons_of_mem _ h)
        · exact .inr ⟨h1, .inl h2⟩
        · exact .inr ⟨h1, .inr ⟨old, List.mem_cons_of_mem _ h2⟩⟩

theorem mem_of_lookup? {key v : Value} {entries : List (Value × Value)}
    (h : lookup? key entries = some v) : ∃ k, (k, v) ∈ entries := by
  induction entries with
  | nil => cases h
  | cons e rest ih =>
    obtain ⟨k, w⟩ := e
    rw [lookup?] at h
    split at h
    · cases h
      exact ⟨k, List.mem_cons_self⟩
    · obtain ⟨l, hl⟩ := ih h
      exact ⟨l, List.mem_cons_of_mem _ hl⟩

/-! ## Parts -/

/-- Where an index finds something, it finds the item of a list or the value of an entry of a map,
and replacing what it finds replaces that. -/
theorem subscript_inv {v index x : Value} (h : subscript v index = .ok x) :
    (∃ elem items n, v = .list elem items ∧ items[n]? = some x ∧
      ∀ new path, put new (index :: path) v = .list elem (items.set n (put new path x))) ∨
    (∃ key elem entries, v = .map key elem entries ∧ index.ty = key ∧
      lookup? index entries = some x ∧
      ∀ new path, put new (index :: path) v =
        .map key elem (insertEntry index (put new path x) entries)) := by
  unfold subscript at h
  split at h
  · rename_i elem items
    split at h
    · rename_i i
      split at h
      · rename_i w hw
        cases h
        obtain ⟨n, hn, hx⟩ := Option.bind_eq_some_iff.mp hw
        refine .inl ⟨elem, items, n, rfl, hx, ?_⟩
        intro new path
        rw [put, hn]
        show list elem (items.modify n (put new path)) = list elem (items.set n (put new path x))
        rw [List.modify_eq_set_getElem?, hx]
        rfl
      · cases h
    · cases h
  · rename_i key elem entries
    split at h
    · rename_i hkey
      split at h
      · rename_i w hw
        cases h
        refine .inr ⟨key, elem, entries, rfl, hkey, hw, ?_⟩
        intro new path
        rw [put, hw]
      · cases h
    · cases h
  · cases h

theorem slot_cons_inv {new index v old : Value} {path : List Value}
    (h : slot (some new) (index :: path) v = .ok old) :
    (∃ x, subscript v index = .ok x ∧ slot (some new) path x = .ok old) ∨
    (∃ key elem entries, path = [] ∧ v = .map key elem entries ∧ index.ty = key ∧
      lookup? index entries = none ∧ new.ty = elem ∧ old = new) := by
  cases path with
  | cons j path =>
    rw [slot_cons_cons] at h
    cases hx : subscript v index with
    | ok x =>
      rw [hx] at h
      exact .inl ⟨x, rfl, h⟩
    | error e =>
      rw [hx] at h
      cases h
  | nil =>
    unfold slot at h
    split at h
    · rename_i key elem entries fill hfill
      cases hfill
      split at h
      · rename_i hkey
        split at h
        · rename_i helem
          cases h
          have hnone : lookup? index entries = none := by simpa using hkey.2
          exact .inr ⟨key, elem, entries, rfl, rfl, hkey.1, hnone, helem, rfl⟩
        · cases h
      · exact .inl ⟨old, h, rfl⟩
    · exact .inl ⟨old, h, rfl⟩

theorem slot_of_at? {fill : Option Value} {path : List Value} {v w : Value}
    (h : at? path v = .ok w) : slot fill path v = .ok w := by
  induction path generalizing v with
  | nil => exact h
  | cons index path ih =>
    obtain ⟨x, hx, hw⟩ := at?_cons_inv h
    cases path with
    | cons j path =>
      rw [slot_cons_cons, hx]
      exact ih hw
    | nil =>
      cases hw
      unfold slot
      split
      · rename_i key elem entries new
        have hfound : ∃ y, lookup? index entries = some y := by
          rcases subscript_inv hx with ⟨_, _, _, hv, -⟩ | ⟨_, _, _, hv, -, hlookup, -⟩
          · cases hv
          · cases hv
            exact ⟨_, hlookup⟩
        obtain ⟨y, hy⟩ := hfound
        rw [if_neg (by simp [hy])]
        exact hx
      · exact hx

theorem ty_put (new index : Value) (path : List Value) (v : Value) :
    (put new (index :: path) v).ty = v.ty := by
  unfold put
  repeat' split
  all_goals rfl

end Parlance.Value
