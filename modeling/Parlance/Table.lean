/-!
# Tables by name

A `Table α` binds names to values of type `α`.  Its entries are kept in the order of their names.

* `Table.get?`, `Table.contains`      what a name is bound to;
* `Table.insert`                      binds a name, in place of what it was bound to before;
* `Table.erase`                       takes a name out;
* `Table.toList`                      the bindings in the order of their names.

What a name is bound to after a change is said by `get?_insert` and `get?_erase`.
-/

namespace Parlance

/-- bindings of names to values -/
structure Table (α : Type) where
  entries : List (String × α)

namespace Table

variable {α : Type}

/-- the table without bindings -/
def empty : Table α := ⟨[]⟩

/-- the bindings in the order of their names -/
def toList (t : Table α) : List (String × α) := t.entries

/-- what the first entry with a name binds it to -/
def find? (name : String) : List (String × α) → Option α
  | [] => none
  | (key, a) :: rest => if key = name then some a else find? name rest

/-- what `name` is bound to -/
def get? (t : Table α) (name : String) : Option α := find? name t.entries

/-- is `name` bound -/
def contains (t : Table α) (name : String) : Bool := (t.get? name).isSome

/-- entries with `name` bound to `a`, at its place in the order of names -/
def put (name : String) (a : α) : List (String × α) → List (String × α)
  | [] => [(name, a)]
  | (key, b) :: rest =>
    if key = name then (name, a) :: rest
    else if name < key then (name, a) :: (key, b) :: rest
    else (key, b) :: put name a rest

/-- the table with `name` bound to `a` -/
def insert (t : Table α) (name : String) (a : α) : Table α := ⟨put name a t.entries⟩

/-- the table with `name` bound to nothing -/
def erase (t : Table α) (name : String) : Table α := ⟨t.entries.filter (·.1 ≠ name)⟩

/-- the table of a list of bindings, the last of several for one name counting -/
def ofList (entries : List (String × α)) : Table α :=
  entries.foldl (fun t e => t.insert e.1 e.2) empty

theorem mem_of_find? {name : String} {a : α} {entries : List (String × α)}
    (h : find? name entries = some a) : a ∈ entries.map (·.2) := by
  induction entries with
  | nil => simp [find?] at h
  | cons e rest ih =>
    obtain ⟨key, b⟩ := e
    rw [find?] at h
    split at h
    · simp_all
    · simp [ih h]

/-- what a name is bound to stands in the table -/
theorem mem_of_get? {t : Table α} {name : String} {a : α} (h : t.get? name = some a) :
    a ∈ t.toList.map (·.2) := mem_of_find? h

@[simp] theorem get?_empty (name : String) : (empty : Table α).get? name = none := rfl

theorem find?_put (name : String) (a : α) (entries : List (String × α)) (other : String) :
    find? other (put name a entries) = if name = other then some a else find? other entries := by
  induction entries with
  | nil => simp [put, find?]
  | cons e rest ih =>
    obtain ⟨key, b⟩ := e
    simp only [put]
    split
    · rename_i h
      subst h
      by_cases ho : key = other <;> simp [find?, ho]
    · rename_i hk
      split
      · simp [find?]
      · by_cases ho : key = other
        · have : name ≠ other := fun h => hk (ho.trans h.symm)
          simp [find?, ho, this]
        · simp [find?, ho, ih]

@[simp] theorem get?_insert (t : Table α) (name : String) (a : α) (other : String) :
    (t.insert name a).get? other = if name = other then some a else t.get? other :=
  find?_put name a t.entries other

@[simp] theorem get?_erase (t : Table α) (name other : String) :
    (t.erase name).get? other = if name = other then none else t.get? other := by
  unfold erase get?
  induction t.entries with
  | nil => simp [find?]
  | cons e rest ih =>
    obtain ⟨key, b⟩ := e
    by_cases hk : key = name
    · subst hk
      rw [List.filter_cons_of_neg (by simp), ih]
      by_cases ho : key = other <;> simp [find?, ho]
    · rw [List.filter_cons_of_pos (by simpa using hk)]
      by_cases ho : key = other
      · subst ho
        simp [find?, Ne.symm hk]
      · simp only [find?, if_neg ho]
        exact ih

@[simp] theorem contains_empty (name : String) : (empty : Table α).contains name = false := rfl

@[simp] theorem contains_insert (t : Table α) (name : String) (a : α) (other : String) :
    (t.insert name a).contains other = (decide (name = other) || t.contains other) := by
  unfold contains
  rw [get?_insert]
  split <;> simp_all

@[simp] theorem contains_erase (t : Table α) (name other : String) :
    (t.erase name).contains other = (decide (name ≠ other) && t.contains other) := by
  unfold contains
  rw [get?_erase]
  split <;> simp_all

theorem get?_eq_none_of_contains {t : Table α} {name : String} (h : t.contains name = false) :
    t.get? name = none := by
  simpa [contains] using h

end Table

end Parlance
