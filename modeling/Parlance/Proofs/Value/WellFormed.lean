import Parlance.Proofs.Eval.Discipline
import Parlance.Proofs.Ty.Erasure

/-!
# Well-formed values

A list says of which type its items are, and a map of which types its keys and what it holds are.  An
item may be of a type that gives way to the one that the list says, since an empty list does not
know what it will hold:

* `Value.WellFormed`   what lists and maps say about their types is true, at any depth;
* `Value.Room`         the list or map that directly holds a part has room for a value;
* `closed_wellFormed`  everything that is made of well-formed values is well-formed;
* `wellFormed_put`     a value with a part replaced is well-formed if there is room for the new part;
* `room_of_wellFormed_put`   and only then.
-/

namespace Parlance.Value

/-- What lists and maps say about the types of what they hold is true, at any depth. -/
inductive WellFormed : Value → Prop
  | void : WellFormed void
  | bool (b : Bool) : WellFormed (bool b)
  | char (c : Char) : WellFormed (char c)
  | int (i : Int64) : WellFormed (int i)
  | dbl (d : Double) : WellFormed (dbl d)
  | function (c : Command) : WellFormed (function c)
  | list {elem : Ty} {items : List Value} (types : ∀ v ∈ items, v.ty.Erases elem)
      (all : ∀ v ∈ items, WellFormed v) : WellFormed (list elem items)
  | map {key elem : Ty} {entries : List (Value × Value)} (keyTypes : ∀ e ∈ entries, e.1.ty = key)
      (types : ∀ e ∈ entries, e.2.ty.Erases elem) (keys : ∀ e ∈ entries, WellFormed e.1)
      (all : ∀ e ∈ entries, WellFormed e.2) : WellFormed (map key elem entries)

/-- The list or map that directly holds the end of a path has room for values of this type. -/
def Room (type : Ty) : List Value → Value → Prop
  | [], _ => True
  | [_], v => ∃ elem, v.ty.elem? = some elem ∧ type.Erases elem
  | index :: path, v => ∃ x, subscript v index = .ok x ∧ Room type path x

theorem room_single (type : Ty) (index v : Value) :
    Room type [index] v ↔ ∃ elem, v.ty.elem? = some elem ∧ type.Erases elem := Iff.rfl
theorem room_cons_cons (type : Ty) (i j : Value) (path : List Value) (v : Value) :
    Room type (i :: j :: path) v ↔ ∃ x, subscript v i = .ok x ∧ Room type (j :: path) x := by
  rw [Room]
  simp

theorem room_tail {type : Ty} {index v x : Value} {path : List Value}
    (h : Room type (index :: path) v) (hx : subscript v index = .ok x) : Room type path x := by
  cases path with
  | nil => exact True.intro
  | cons j path =>
    obtain ⟨y, hy, h⟩ := (room_cons_cons type index j path v).mp h
    rw [hx] at hy
    cases hy
    exact h

/-! ## Texts -/

theorem wellFormed_list_of_ty {elem : Ty} {items : List Value} (h : ∀ v ∈ items, v.ty = elem)
    (hall : ∀ v ∈ items, WellFormed v) : WellFormed (list elem items) :=
  .list (fun v hv => h v hv ▸ .refl _) hall

theorem wellFormed_ofChars (cs : List Char) : WellFormed (ofChars cs) := by
  refine wellFormed_list_of_ty ?_ ?_
  · intro v hv
    obtain ⟨c, -, rfl⟩ := List.mem_map.mp hv
    rfl
  · intro v hv
    obtain ⟨c, -, rfl⟩ := List.mem_map.mp hv
    exact .char c

theorem wellFormed_texts (texts : List (List Char)) :
    WellFormed (list .string (texts.map ofChars)) := by
  refine wellFormed_list_of_ty ?_ ?_
  · intro v hv
    obtain ⟨cs, -, rfl⟩ := List.mem_map.mp hv
    rfl
  · intro v hv
    obtain ⟨cs, -, rfl⟩ := List.mem_map.mp hv
    exact wellFormed_ofChars cs

/-! ## Operators -/

theorem wellFormed_listOf {items : List Value} {v : Value} (h : ∀ x ∈ items, WellFormed x)
    (hv : listOf items = .ok v) : WellFormed v := by
  unfold listOf at hv
  split at hv
  · rename_i elem helem
    cases hv
    obtain ⟨-, htypes⟩ := Ty.unifyAll_inv helem
    exact .list (fun x hx => htypes x.ty (List.mem_map_of_mem hx)) h
  · cases hv

theorem wellFormed_append {elem : Ty} {items more : List Value} {v : Value}
    (h : WellFormed (list elem items)) (hmore : ∀ x ∈ more, WellFormed x)
    (hv : append elem items more = .ok v) : WellFormed v := by
  unfold append at hv
  split at hv
  · rename_i wider hwider
    cases hv
    obtain ⟨helem, htypes⟩ := Ty.unifyAll_inv hwider
    cases h with
    | list types all =>
      refine .list ?_ ?_
      · intro x hx
        rcases List.mem_append.mp hx with hx | hx
        · exact (types x hx).trans helem
        · exact htypes x.ty (List.mem_map_of_mem hx)
      · intro x hx
        rcases List.mem_append.mp hx with hx | hx
        · exact all x hx
        · exact hmore x hx
  · cases hv

theorem wellFormed_unary {op : UnaryOp} {x v : Value} (hv : unary op x = .ok v) : WellFormed v := by
  unfold unary at hv
  split at hv
  case h_1 =>
    split at hv <;> cases hv
    exact .int _
  all_goals cases hv
  all_goals constructor

theorem wellFormed_integerOp {op : BinaryOp} {a b : Int64} {v : Value}
    (hv : integerOp op a b = .ok v) : WellFormed v := by
  have hchecked : ∀ o : Option Int64, checked op o = .ok v → WellFormed v := by
    intro o ho
    cases o with
    | none => cases ho
    | some i =>
      cases ho
      exact .int i
  unfold integerOp at hv
  split at hv
  case h_4 | h_5 =>
    split at hv
    · cases hv
    · exact hchecked _ hv
  case h_6 =>
    split at hv
    · cases hv
      exact .dbl _
    · exact hchecked _ hv
  case h_9 | h_10 | h_11 =>
    cases hv
    exact .int _
  case h_12 | h_13 | h_14 => cases hv
  all_goals exact hchecked _ hv

theorem wellFormed_doubleOp {op : BinaryOp} {a b : Double} {v : Value}
    (hv : doubleOp op a b = .ok v) : WellFormed v := by
  unfold doubleOp at hv
  split at hv
  all_goals cases hv
  all_goals exact .dbl _

theorem wellFormed_moved {op : BinaryOp} {c : Char} {i : Int} {v : Value}
    (hv : moved op c i = .ok v) : WellFormed v := by
  unfold moved ofCodePoint? at hv
  split at hv
  · rename_i w hw
    cases hv
    split at hw
    · cases hw
      exact .char _
    · cases hw
  · cases hv

theorem wellFormed_binary {op : BinaryOp} {x y v : Value} (hx : WellFormed x) (hy : WellFormed y)
    (hv : binary op x y = .ok v) : WellFormed v := by
  unfold binary at hv
  split at hv
  · exact wellFormed_integerOp hv
  · exact wellFormed_doubleOp hv
  · exact wellFormed_doubleOp hv
  · exact wellFormed_doubleOp hv
  · split at hv
    · exact wellFormed_moved hv
    split at hv
    · exact wellFormed_moved hv
    · cases hv
  · split at hv
    · exact wellFormed_moved hv
    · cases hv
  · split at hv
    · split at hv
      · rename_i elem helem
        cases hv
        obtain ⟨hs, ht⟩ := Ty.unify_inv helem
        cases hx with
        | list xtypes xall =>
          cases hy with
          | list ytypes yall =>
            refine .list ?_ ?_
            · intro w hw
              rcases List.mem_append.mp hw with hw | hw
              · exact (xtypes w hw).trans hs
              · exact (ytypes w hw).trans ht
            · intro w hw
              rcases List.mem_append.mp hw with hw | hw
              · exact xall w hw
              · exact yall w hw
      · cases hv
    · cases hv
  · cases hv

/-! ## Parts -/

theorem wellFormed_subscript {x i v : Value} (hx : WellFormed x) (hv : subscript x i = .ok v) :
    WellFormed v := by
  rcases subscript_inv hv with ⟨elem, items, n, rfl, hn, -⟩ | ⟨key, elem, entries, rfl, -, hl, -⟩
  · cases hx with
    | list types all => exact all v (List.mem_of_getElem? hn)
  · cases hx with
    | map keyTypes types keys all =>
      obtain ⟨k, hk⟩ := mem_of_lookup? hl
      exact all _ hk

theorem erases_subscript {v index x : Value} (hv : WellFormed v) (hx : subscript v index = .ok x) :
    ∃ elem, v.ty.elem? = some elem ∧ x.ty.Erases elem := by
  rcases subscript_inv hx with ⟨elem, items, n, rfl, hn, -⟩ | ⟨key, elem, entries, rfl, -, hl, -⟩
  · cases hv with
    | list types all => exact ⟨elem, rfl, types x (List.mem_of_getElem? hn)⟩
  · cases hv with
    | map keyTypes types keys all =>
      obtain ⟨k, hk⟩ := mem_of_lookup? hl
      exact ⟨elem, rfl, types _ hk⟩

theorem wellFormed_slice {x v : Value} {start stop : Option Value} (hx : WellFormed x)
    (hv : slice x start stop = .ok v) : WellFormed v := by
  unfold slice at hv
  split at hv
  · rename_i elem items
    cases hlo : bound items.length 0 start with
    | error e =>
      rw [hlo] at hv
      cases hv
    | ok lo =>
      cases hhi : bound items.length items.length stop with
      | error e =>
        rw [hlo, hhi] at hv
        cases hv
      | ok hi =>
        rw [hlo, hhi] at hv
        cases hv
        cases hx with
        | list types all =>
          have hsub : ∀ w ∈ (items.take hi).drop lo, w ∈ items := fun w hw =>
            List.mem_of_mem_take (List.mem_of_mem_drop hw)
          exact .list (fun w hw => types w (hsub w hw)) fun w hw => all w (hsub w hw)
  · cases hv

/-! ## Functions -/

/-- what the language's functions answer is their argument, a number or a string -/
theorem answer_cases {p : Primitive} {x v : Value} (hv : p.answer x = some v) :
    v = x ∨ (∃ i, v = int i) ∨ (∃ d, v = dbl d) ∨ ∃ cs, v = ofChars cs := by
  unfold Primitive.answer at hv
  split at hv
  case h_2 | h_16 =>
    obtain ⟨_, -, h⟩ := Option.bind_eq_some_iff.mp hv
    obtain ⟨i, -, rfl⟩ := Option.map_eq_some_iff.mp h
    exact .inr (.inl ⟨i, rfl⟩)
  case h_15 =>
    obtain ⟨_, -, h⟩ := Option.bind_eq_some_iff.mp hv
    obtain ⟨d, -, rfl⟩ := Option.map_eq_some_iff.mp h
    exact .inr (.inr (.inl ⟨d, rfl⟩))
  case h_6 =>
    split at hv
    · cases hv
      exact .inl rfl
    · cases hv
  case h_1 | h_3 | h_4 | h_5 =>
    cases hv
    exact .inr (.inl ⟨_, rfl⟩)
  case h_13 | h_14 =>
    cases hv
    exact .inr (.inr (.inl ⟨_, rfl⟩))
  case h_7 | h_8 | h_9 | h_10 | h_11 | h_12 =>
    cases hv
    exact .inr (.inr (.inr ⟨_, rfl⟩))
  case h_17 => cases hv

theorem wellFormed_apply {p : Primitive} {args : List Value} {v : Value}
    (h : ∀ x ∈ args, WellFormed x) (hv : p.apply args = some v) : WellFormed v := by
  obtain ⟨x, hx, hv⟩ := Option.bind_eq_some_iff.mp hv
  rcases answer_cases hv with rfl | ⟨i, rfl⟩ | ⟨d, rfl⟩ | ⟨cs, rfl⟩
  · exact h v (List.mem_of_head? hx)
  · exact .int i
  · exact .dbl d
  · exact wellFormed_ofChars cs

/-- **Everything that is made of well-formed values is well-formed.** -/
theorem closed_wellFormed : Closed WellFormed where
  bool := .bool
  char := .char
  int := .int
  dbl := .dbl
  function := .function
  ofChars := wellFormed_ofChars
  texts := wellFormed_texts
  listOf := wellFormed_listOf
  unary _ := wellFormed_unary
  binary := wellFormed_binary
  subscript := wellFormed_subscript
  slice := wellFormed_slice
  primitive := wellFormed_apply

/-! ## Replaced parts -/

theorem wellFormed_set {elem : Ty} {items : List Value} {n : Nat} {new : Value}
    (h : WellFormed (list elem items)) (hty : new.ty.Erases elem) (hnew : WellFormed new) :
    WellFormed (list elem (items.set n new)) := by
  cases h with
  | list types all =>
    refine .list ?_ ?_
    · intro v hv
      rcases List.mem_or_eq_of_mem_set hv with hv | rfl
      · exact types v hv
      · exact hty
    · intro v hv
      rcases List.mem_or_eq_of_mem_set hv with hv | rfl
      · exact all v hv
      · exact hnew

theorem wellFormed_insertEntry {key elem : Ty} {entries : List (Value × Value)} {index new : Value}
    (h : WellFormed (map key elem entries)) (hkey : index.ty = key) (hindex : WellFormed index)
    (hty : new.ty.Erases elem) (hnew : WellFormed new) :
    WellFormed (map key elem (insertEntry index new entries)) := by
  cases h with
  | map keyTypes types keys all =>
    refine .map ?_ ?_ ?_ ?_
    · intro e he
      rcases insertEntry_cases he with he | ⟨-, h | ⟨old, h⟩⟩
      · exact keyTypes e he
      · exact h ▸ hkey
      · exact keyTypes (e.1, old) h
    · intro e he
      rcases insertEntry_cases he with he | ⟨h, -⟩
      · exact types e he
      · exact h ▸ hty
    · intro e he
      rcases insertEntry_cases he with he | ⟨-, h | ⟨old, h⟩⟩
      · exact keys e he
      · exact h ▸ hindex
      · exact keys (e.1, old) h
    · intro e he
      rcases insertEntry_cases he with he | ⟨h, -⟩
      · exact all e he
      · exact h ▸ hnew

theorem erases_put {new v index x : Value} {path : List Value} (hv : WellFormed v)
    (hx : subscript v index = .ok x) (hroom : Room new.ty (index :: path) v) :
    ∃ elem, v.ty.elem? = some elem ∧ (put new path x).ty.Erases elem := by
  cases path with
  | nil => exact (room_single new.ty index v).mp hroom
  | cons j path =>
    rw [ty_put]
    exact erases_subscript hv hx

/-- A way into a map starts with an index of the type of the keys, be it one that is there or not. -/
theorem ty_index_of_slot {new old v index : Value} {path : List Value} {key : Ty}
    (hslot : slot (some new) (index :: path) v = .ok old) (hkey : v.ty.key? = some key) :
    index.ty = key := by
  rcases slot_cons_inv hslot with ⟨x, hx, -⟩ | ⟨_, elem, entries, -, rfl, hty, -⟩
  · rcases subscript_inv hx with ⟨elem, items, n, rfl, -⟩ | ⟨_, elem, entries, rfl, hty, -⟩
    · cases hkey
    · cases hkey
      exact hty
  · cases hkey
    exact hty

/-- **A well-formed value with a part replaced is well-formed if there is room for the new part.** -/
theorem wellFormed_put {new old v : Value} {path : List Value} (hv : WellFormed v)
    (hnew : WellFormed new) (hpath : ∀ i ∈ path, WellFormed i)
    (hslot : slot (some new) path v = .ok old) (hroom : Room new.ty path v) :
    WellFormed (put new path v) := by
  induction path generalizing v with
  | nil => exact hnew
  | cons index path ih =>
    have hindex : WellFormed index := hpath index List.mem_cons_self
    have hkey : ∀ key, v.ty.key? = some key → index.ty = key := fun _ => ty_index_of_slot hslot
    rcases slot_cons_inv hslot with
      ⟨x, hx, hslot⟩ | ⟨key, elem, entries, rfl, rfl, -, hnone, helem, rfl⟩
    · have hpart : WellFormed (put new path x) :=
        ih (wellFormed_subscript hv hx) (fun i hi => hpath i (List.mem_cons_of_mem _ hi)) hslot
          (room_tail hroom hx)
      obtain ⟨elem, helem, hty⟩ := erases_put hv hx hroom
      rcases subscript_inv hx with
        ⟨_, items, n, rfl, -, hput⟩ | ⟨key, _, entries, rfl, -, -, hput⟩
      · cases helem
        rw [hput]
        exact wellFormed_set hv hty hpart
      · cases helem
        rw [hput]
        exact wellFormed_insertEntry hv (hkey key rfl) hindex hty hpart
    · have hput : put old [index] (map key elem entries) =
          map key elem (insertEntry index old entries) := by
        rw [put, hnone]
        rfl
      rw [hput]
      exact wellFormed_insertEntry hv (hkey key rfl) hindex (helem ▸ .refl _) hnew

theorem room_of_ty {new old v : Value} {path : List Value} (hv : WellFormed v)
    (hslot : slot (some new) path v = .ok old) (hty : old.ty = new.ty) : Room new.ty path v := by
  induction path generalizing v with
  | nil => exact True.intro
  | cons index path ih =>
    rcases slot_cons_inv hslot with
      ⟨x, hx, hslot⟩ | ⟨key, elem, entries, rfl, rfl, -, -, helem, rfl⟩
    · cases path with
      | nil =>
        cases hslot
        rw [room_single, ← hty]
        exact erases_subscript hv hx
      | cons j path =>
        rw [room_cons_cons]
        exact ⟨x, hx, ih (wellFormed_subscript hv hx) hslot⟩
    · exact ⟨elem, rfl, helem ▸ .refl _⟩

/-- **And there has to be room for it.** -/
theorem room_of_wellFormed_put {new old v : Value} {path : List Value}
    (hat : at? path v = .ok old) (hput : WellFormed (put new path v)) : Room new.ty path v := by
  induction path generalizing v with
  | nil => exact True.intro
  | cons index path ih =>
    obtain ⟨x, hx, hat⟩ := at?_cons_inv hat
    -- what is put back is one of the things that the new container holds
    have hpart : WellFormed (put new path x) ∧
        ∃ elem, v.ty.elem? = some elem ∧ (put new path x).ty.Erases elem := by
      rcases subscript_inv hx with
        ⟨elem, items, n, rfl, hn, h⟩ | ⟨key, elem, entries, rfl, -, -, h⟩
      · rw [h] at hput
        have hn : n < items.length := (List.getElem?_eq_some_iff.mp hn).1
        have hmem : put new path x ∈ items.set n (put new path x) := List.mem_set hn _
        cases hput with
        | list types all => exact ⟨all _ hmem, elem, rfl, types _ hmem⟩
      · rw [h] at hput
        obtain ⟨k, hk⟩ := mem_insertEntry index (put new path x) entries
        cases hput with
        | map keyTypes types keys all => exact ⟨all _ hk, elem, rfl, types _ hk⟩
    cases path with
    | nil => exact (room_single new.ty index v).mpr hpart.2
    | cons j path => exact (room_cons_cons new.ty index j path v).mpr ⟨x, hx, ih hat hpart.1⟩

end Parlance.Value
