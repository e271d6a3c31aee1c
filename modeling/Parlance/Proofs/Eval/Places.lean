import Parlance.Proofs.Eval.Writing
import Parlance.Proofs.Value.Walk

/-!
# Places read and written

* `Eval.walkTo place fill`     a walk to a place, which may put a key in on its way;
* `Eval.storeWalking`          putting a value in a place by way of such a walk;
* `storeWalking_eq`            which comes to the same as looking first and writing then;
* `Place.Apart globals p q`    neither place is the other one or a part of it;
* `Eval.places_kept_apart`     a place is read as it was written, and all places apart from it as
                               before.
-/

namespace Parlance

namespace Table

variable {α : Type}

theorem put_put (name : String) (a b : α) (entries : List (String × α)) :
    put name b (put name a entries) = put name b entries := by
  induction entries with
  | nil => simp only [put, if_true]
  | cons e rest ih =>
    obtain ⟨key, c⟩ := e
    by_cases hkey : key = name
    · simp only [put, if_pos hkey, if_true]
    · by_cases hlt : name < key
      · simp only [put, if_neg hkey, if_pos hlt, if_true]
      · simp only [put, if_neg hkey, if_neg hlt, ih]

theorem insert_insert (t : Table α) (name : String) (a b : α) :
    (t.insert name a).insert name b = t.insert name b :=
  congrArg Table.mk (put_put name a b t.entries)

end Table

/-- Neither place is the other one or a part of it, as the globals are. -/
def Place.Apart (globals : Table Value) (p q : Place) : Prop :=
  p.name ≠ q.name ∨ ∃ whole, globals.get? p.name = some whole ∧ Value.Apart p.path q.path whole

namespace Eval

/-- A walk to a place.  A key that is missing at its end is put in to hold the fill, if there is one,
as soon as the walk gets there. -/
def walkTo (place : Place) (fill : Option Value) : EvalM Value := do
  match Value.walk fill place.path (← wholeOf place) with
  | (found, none) => EvalM.lift found
  | (found, some grown) => do
    EvalM.setGlobal place.name grown
    EvalM.lift found

/-- Puts a value in a place by a walk there, which may have put a key in before the types are
compared. -/
def storeWalking (place : Place) (value : Value) : EvalM Value := do
  let old ← walkTo place (some value)
  if old.ty ≠ value.ty then EvalM.fail (.assignTypeMismatch old.ty value.ty)
  else
    EvalM.setGlobal place.name (Value.put value place.path (← wholeOf place))
    return value

variable {m : Machine} {place : Place}

/-! ## Walks -/

/-- what the path of a place leads to, one subscript after another -/
def found (globals : Table Value) (place : Place) : Except EvalError Value :=
  match globals.get? place.name with
  | some whole => place.path.foldlM Value.subscript whole
  | none => .error (.unresolvedVariable place.name)

theorem found_of_get? {globals : Table Value} {whole : Value}
    (h : globals.get? place.name = some whole) :
    found globals place = whole.at? place.path := by
  rw [found, h, Value.at?_eq_foldlM]

theorem found_of_none {globals : Table Value} (h : globals.get? place.name = none) :
    found globals place = .error (.unresolvedVariable place.name) := by
  rw [found, h]

theorem readPlace_eq (place : Place) (m : Machine) :
    readPlace place m = (found m.globals place, m) := by
  cases h : m.globals.get? place.name with
  | none =>
    rw [found_of_none h]
    exact EvalM.bind_eq_of_error (wholeOf_of_none h)
  | some whole =>
    rw [found_of_get? h, ← Value.slot_none]
    exact (EvalM.bind_eq_of_ok (wholeOf_of_get? h)).trans (EvalM.lift_apply _ m)

/-- A walk leaves the globals as they are, or with the key that it has put in. -/
theorem walkTo_of_get? {whole : Value} (h : m.globals.get? place.name = some whole)
    (fill : Option Value) :
    walkTo place fill m = match Value.walk fill place.path whole with
      | (found, none) => (found, m)
      | (found, some grown) =>
        (found, { m with globals := m.globals.insert place.name grown }) := by
  refine (EvalM.bind_eq_of_ok (wholeOf_of_get? h)).trans ?_
  rcases Value.walk fill place.path whole with ⟨found, _ | grown⟩
  · exact EvalM.lift_apply found m
  · exact EvalM.lift_apply found _

theorem walkTo_none (place : Place) (m : Machine) :
    walkTo place none m = (found m.globals place, m) := by
  cases h : m.globals.get? place.name with
  | none =>
    rw [found_of_none h]
    exact EvalM.bind_eq_of_error (wholeOf_of_none h)
  | some whole => rw [walkTo_of_get? h, Value.walk_none, found, h]

theorem stored_stored (place : Place) (whole v w : Value) (m : Machine) :
    stored (stored m place whole v) place whole w = stored m place whole w := by
  rw [stored, stored, stored, Table.insert_insert]

section
variable {whole value : Value} (h : m.globals.get? place.name = some whole)
include h

theorem storeWalking_of_kept
    (hwalk : Value.walk (some value) place.path whole =
      (whole.slot (some value) place.path, none)) :
    storeWalking place value m = store place value m := by
  have hwalkTo := walkTo_of_get? h (some value)
  rw [hwalk] at hwalkTo
  rw [store_of_get? h, storeWalking]
  cases hold : whole.slot (some value) place.path with
  | error e =>
    rw [hold] at hwalkTo
    exact EvalM.bind_eq_of_error hwalkTo
  | ok old =>
    rw [hold] at hwalkTo
    rw [EvalM.bind_eq_of_ok hwalkTo]
    by_cases hty : old.ty = value.ty
    · rw [if_neg (not_not_intro hty)]
      refine (EvalM.bind_eq_of_ok (wholeOf_of_get? h)).trans ?_
      exact (if_pos hty).symm
    · rw [if_pos hty]
      exact (if_neg hty).symm

/-- Behind a walk that has put a key in, the same value is written once more. -/
theorem storeWalking_of_grown (hslot : whole.slot (some value) place.path = .ok value)
    (hwalk : Value.walk (some value) place.path whole =
      (.ok value, some (Value.put value place.path whole))) :
    storeWalking place value m = store place value m := by
  have hwalkTo := walkTo_of_get? h (some value)
  rw [hwalk] at hwalkTo
  have hgrown : (stored m place whole value).globals.get? place.name =
      some (Value.put value place.path whole) := by
    rw [stored, Table.get?_insert, if_pos rfl]
  rw [storeWalking, EvalM.bind_eq_of_ok hwalkTo, if_neg (not_not_intro rfl)]
  refine (EvalM.bind_eq_of_ok (wholeOf_of_get? hgrown)).trans ?_
  rw [store_of_get? h, hslot, Value.put_put value hslot]
  dsimp only
  rw [if_pos rfl]
  exact congrArg (Prod.mk (Except.ok value)) (stored_stored place whole value value m)

end

/-- **A walk that puts a key in on its way comes to the same as looking first and writing then.** -/
theorem storeWalking_eq (place : Place) (value : Value) :
    storeWalking place value = store place value := by
  funext m
  cases h : m.globals.get? place.name with
  | none =>
    rw [store_of_none h]
    exact EvalM.bind_eq_of_error (EvalM.bind_eq_of_error (wholeOf_of_none h))
  | some whole =>
    rcases Value.walk_some value place.path whole with hwalk | ⟨hslot, hwalk⟩
    · exact storeWalking_of_kept h hwalk
    · exact storeWalking_of_grown h hslot hwalk

/-! ## Places after a write -/

/-- What is stored is the given value, where something of its type is. -/
theorem store_inv {m' : Machine} {value v : Value} (h : store place value m = (.ok v, m')) :
    v = value ∧ ∃ whole old, m.globals.get? place.name = some whole ∧
      whole.slot (some value) place.path = .ok old ∧ m' = stored m place whole value := by
  rcases store_cases place value m with ⟨e, he⟩ | ⟨whole, old, hwhole, hold, -, heq⟩
  · rw [he] at h
    cases h
  · rw [heq] at h
    cases h
    exact ⟨rfl, whole, old, hwhole, hold, rfl⟩

/-- An assignment comes to storing what it answers in its place. -/
theorem store_of_assignment {op : Option BinaryOp} {target : EvalM Place} {value : EvalM Value}
    {m₀ m₁ m' : Machine} {w v : Value} (htarget : target m₀ = (.ok place, m₁))
    (hvalue : value m₁ = (.ok w, m)) (h : assignment op target value m₀ = (.ok v, m')) :
    (op = none → v = w) ∧ store place v m = (.ok v, m') := by
  rw [assignment, EvalM.bind_eq_of_ok htarget, EvalM.bind_eq_of_ok hvalue] at h
  cases op with
  | none =>
    have hv : v = w := (store_inv h).1
    exact ⟨fun _ => hv, hv ▸ h⟩
  | some op =>
    refine ⟨nofun, ?_⟩
    replace h : (do store place (← EvalM.lift (Value.binary op (← readPlace place) w)) :
        EvalM Value) m = (.ok v, m') := h
    have hread := readPlace_eq place m
    cases hfound : found m.globals place with
    | error e =>
      rw [hfound] at hread
      rw [EvalM.bind_eq_of_error hread] at h
      cases h
    | ok old =>
      rw [hfound] at hread
      rw [EvalM.bind_eq_of_ok hread] at h
      cases hnew : Value.binary op old w with
      | error e =>
        rw [hnew, EvalM.bind_eq_of_error (EvalM.lift_apply (.error e) m)] at h
        cases h
      | ok new =>
        rw [hnew, EvalM.bind_eq_of_ok (EvalM.lift_apply (.ok new) m)] at h
        exact (store_inv h).1 ▸ h

section
variable {m' : Machine} {v : Value} (h : store place v m = (.ok v, m'))
include h

theorem found_stored : found m'.globals place = .ok v := by
  obtain ⟨-, whole, old, -, hold, rfl⟩ := store_inv h
  have hget : (stored m place whole v).globals.get? place.name =
      some (Value.put v place.path whole) := by
    rw [stored, Table.get?_insert, if_pos rfl]
  rw [found_of_get? hget, Value.at?_put hold]

theorem found_stored_of_apart {other : Place} (hapart : place.Apart m.globals other) :
    found m'.globals other = found m.globals other := by
  obtain ⟨-, whole, old, hwhole, hold, rfl⟩ := store_inv h
  by_cases hname : place.name = other.name
  · rcases hapart with hne | ⟨w, hw, hapart⟩
    · exact absurd hname hne
    · rw [hwhole] at hw
      cases hw
      have hget : (stored m place whole v).globals.get? other.name =
          some (Value.put v place.path whole) := by
        rw [stored, Table.get?_insert, if_pos hname]
      rw [found_of_get? hget, found_of_get? (hname ▸ hwhole), Value.at?_put_of_apart hold hapart]
  · rw [found, found, stored, Table.get?_insert, if_neg hname]

end

/-- **Places are written where they are read.**  Any place is read by looking its global up and
subscripting along its path, errors included.  After an assignment, its place is read as what the
assignment answered, and every place apart from it as just before the write. -/
theorem places_kept_apart (r : Registry) (ctx : Context)
    (call : Command → List Value → EvalM Value) :
    (∀ (place : Place) (m : Machine),
      walkTo place none m = (found m.globals place, m) ∧
      readPlace place m = (found m.globals place, m)) ∧
    ∀ {op target value m₀ place m₁ w m v m'}, placeOf r ctx call target m₀ = (.ok place, m₁) →
      eval r ctx call value m₁ = (.ok w, m) →
      eval r ctx call (.assign op target value) m₀ = (.ok v, m') →
      (op = none → v = w) ∧ found m'.globals place = .ok v ∧
        ∀ other, place.Apart m.globals other → found m'.globals other = found m.globals other := by
  constructor
  · exact fun place m => ⟨walkTo_none place m, readPlace_eq place m⟩
  · intro op target value m₀ place m₁ w m v m' htarget hvalue h
    rw [eval] at h
    obtain ⟨hv, hstore⟩ := store_of_assignment htarget hvalue h
    exact ⟨hv, found_stored hstore, fun _ => found_stored_of_apart hstore⟩

def bystander : Context := ⟨"alice", "#lounge", "bot", [], 0, false, .still⟩

def refused : Command → List Value → EvalM Value := fun _ _ => EvalM.fail .recursionLimit

/-- a number, and a map of two lists of which the first one ends so -/
def drawers (last : Int64) : Machine := .start <| (Table.empty.insert "n" (.int 7)).insert "g" <|
  .map .char (.list .int) [(.char 'a', .list .int [.int 1, .int last]), (.char 'b', .list .int [])]

def drawer (letter : Char) (i : Int64) : Place := ⟨"g", [.char letter, .int i]⟩

/-- `g['a'][-1]` -/
def lastDrawer : Expr := .subscript (.subscript (.var (.name "g")) (.char 'a')) (.int (-1))

/-- With the last item made larger, the first one is still there and the other list still empty. -/
theorem drawers_kept_apart :
    placeOf .fresh bystander refused lastDrawer (drawers 2) = (.ok (drawer 'a' (-1)), drawers 2) ∧
    eval .fresh bystander refused (.int 5) (drawers 2) = (.ok (.int 5), drawers 2) ∧
    eval .fresh bystander refused (.assign (some .add) lastDrawer (.int 5)) (drawers 2) =
      (.ok (.int 7), drawers 7) ∧
    (drawer 'a' (-1)).Apart (drawers 2).globals (drawer 'a' 0) ∧
    (drawer 'a' (-1)).Apart (drawers 2).globals (drawer 'b' 0) ∧
    found (drawers 7).globals (drawer 'a' (-1)) = .ok (.int 7) ∧
    found (drawers 7).globals (drawer 'a' 0) = .ok (.int 1) ∧
    found (drawers 7).globals (drawer 'b' 0) = .error (.indexOutOfRange 0 0) := by
  have htarget : placeOf .fresh bystander refused lastDrawer (drawers 2) =
      (.ok (drawer 'a' (-1)), drawers 2) := rfl
  have hvalue : eval .fresh bystander refused (.int 5) (drawers 2) =
      (.ok (.int 5), drawers 2) := rfl
  have h : eval .fresh bystander refused (.assign (some .add) lastDrawer (.int 5)) (drawers 2) =
      (.ok (.int 7), drawers 7) := rfl
  have hfirst : (drawer 'a' (-1)).Apart (drawers 2).globals (drawer 'a' 0) :=
    .inr ⟨_, rfl, rfl, rfl⟩
  have hother : (drawer 'a' (-1)).Apart (drawers 2).globals (drawer 'b' 0) :=
    .inr ⟨_, rfl, rfl, rfl⟩
  obtain ⟨-, hwrite⟩ := places_kept_apart .fresh bystander refused
  obtain ⟨-, hsame, hapart⟩ := hwrite htarget hvalue h
  exact ⟨htarget, hvalue, h, hfirst, hother, hsame, hapart _ hfirst, hapart _ hother⟩

end Eval

end Parlance
