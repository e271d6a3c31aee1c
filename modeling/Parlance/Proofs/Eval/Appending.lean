import Parlance.Proofs.Eval.Places
import Parlance.Session

/-!
# Two ways to make a list longer

`place += [v]` adds a list of one item to what is in a place and assigns the sum.  `place.append(v)`
puts the item behind the others.

* `EvalM.SameAt m x y`         two steps come to the same, as far as the value and the globals tell;
* `Eval.Widens globals p v`    the item makes the list in the place a list of another type;
* `sameAt_iff_not_widens`      adding and appending come to the same unless it does;
* `addAssign_same_iff`         and so do the two expressions.

The sum is a new value, so its type has to be the one that the place has.  A list that is appended
to may change its type in its place.
-/

namespace Parlance

namespace EvalM

variable {α : Type} {m : Machine} {x y : EvalM α}

/-- Two steps taken at a machine both fail or both give the same, and leave the same globals. -/
def SameAt (m : Machine) (x y : EvalM α) : Prop :=
  (x m).1.toOption = (y m).1.toOption ∧ (x m).2.globals = (y m).2.globals

theorem sameAt_of_errors {e e' : EvalError} {m' : Machine} (hx : x m = (.error e, m'))
    (hy : y m = (.error e', m')) : SameAt m x y := by
  rw [SameAt, hx, hy]
  exact ⟨rfl, rfl⟩

end EvalM

namespace Eval

/-- assigns the sum of what is in a place and the list of one item -/
def adding (place : Place) (v : Value) : EvalM Value := do
  store place (← EvalM.lift (Value.binary .add (← readPlace place) (.list v.ty [v])))

/-- The list in the place becomes one of another type with the item. -/
def Widens (globals : Table Value) (place : Place) (v : Value) : Prop :=
  ∃ elem items wider, found globals place = .ok (.list elem items) ∧
    Ty.unify elem v.ty = some wider ∧ wider ≠ elem

/-! ## Steps on a place -/

section
variable {m : Machine} {place : Place} {whole : Value} (v : Value)

theorem append_single (elem : Ty) (items : List Value) :
    Value.append elem items [v] = match Ty.unify elem v.ty with
      | some wider => .ok (.list wider (items ++ [v]))
      | none => .error (.appendTypeMismatch (.list elem) v.ty) := by
  cases h : Ty.unify elem v.ty <;>
    simp only [Value.append, List.map_cons, List.map_nil, Ty.unifyAll, h]

theorem add_single (elem : Ty) (items : List Value) :
    Value.binary .add (.list elem items) (.list v.ty [v]) = match Ty.unify elem v.ty with
      | some wider => .ok (.list wider (items ++ [v]))
      | none => .error (.invalidBinary .add (.list elem) (.list v.ty)) := by
  cases h : Ty.unify elem v.ty <;> simp only [Value.binary, h, if_true]

theorem adding_of_error {e : EvalError} (h : found m.globals place = .error e) :
    adding place v m = (.error e, m) :=
  EvalM.bind_eq_of_error (by rw [readPlace_eq, h])

theorem adding_of_ok {old : Value} (h : m.globals.get? place.name = some whole)
    (hold : whole.at? place.path = .ok old) :
    adding place v m = match Value.binary .add old (.list v.ty [v]) with
      | .error e => (.error e, m)
      | .ok new =>
        if old.ty = new.ty then (.ok new, stored m place whole new)
        else (.error (.assignTypeMismatch old.ty new.ty), m) := by
  have hread : readPlace place m = (.ok old, m) := by
    rw [readPlace_eq, found_of_get? h, hold]
  rw [adding, EvalM.bind_eq_of_ok hread]
  cases Value.binary .add old (.list v.ty [v]) with
  | error e => exact EvalM.bind_eq_of_error (EvalM.lift_apply (.error e) m)
  | ok new =>
    rw [EvalM.bind_eq_of_ok (EvalM.lift_apply (.ok new) m), store_of_get? h, Value.slot_of_at? hold]

theorem extend_of_error {e : EvalError} (more : List Value)
    (h : found m.globals place = .error e) : extend place more m = (.error e, m) := by
  rw [found] at h
  split at h
  · rename_i whole hwhole
    rw [← Value.at?_eq_foldlM] at h
    rw [extend_of_get? hwhole more, h]
  · rename_i hnone
    cases h
    exact extend_of_none hnone more

theorem get?_of_found {old : Value} (h : found m.globals place = .ok old) :
    ∃ whole, m.globals.get? place.name = some whole ∧ whole.at? place.path = .ok old := by
  rw [found] at h
  split at h
  · rename_i whole hwhole
    exact ⟨whole, hwhole, by rw [Value.at?_eq_foldlM, h]⟩
  · cases h

/-- What does not hold a list takes no item, in either way. -/
theorem sameAt_of_no_list {old : Value} (h : found m.globals place = .ok old)
    (hold : ∀ elem items, old ≠ .list elem items) :
    EvalM.SameAt m (adding place v) (extend place [v]) := by
  obtain ⟨whole, hwhole, hat⟩ := get?_of_found h
  have hadding := adding_of_ok v hwhole hat
  have hextend := extend_of_get? hwhole [v]
  rw [hat] at hextend
  cases old with
  | list elem items => exact absurd rfl (hold elem items)
  | _ => exact EvalM.sameAt_of_errors hadding hextend

variable {elem : Ty} {items : List Value} (h : found m.globals place = .ok (.list elem items))
include h

theorem sameAt_of_unify_none (hunify : Ty.unify elem v.ty = none) :
    EvalM.SameAt m (adding place v) (extend place [v]) := by
  obtain ⟨whole, hwhole, hat⟩ := get?_of_found h
  have hadding := adding_of_ok v hwhole hat
  have hextend := extend_of_get? hwhole [v]
  rw [add_single, hunify] at hadding
  rw [hat] at hextend
  simp only [append_single, hunify] at hextend
  exact EvalM.sameAt_of_errors hadding hextend

/-- What is appended changes the type of the list, and what is assigned must not. -/
theorem longer_of_unify {wider : Ty} (hunify : Ty.unify elem v.ty = some wider) :
    ∃ whole, extend place [v] m =
        (.ok (.list wider (items ++ [v])), extended m place whole (.list wider (items ++ [v]))) ∧
      adding place v m =
        if Ty.list elem = .list wider then
          (.ok (.list wider (items ++ [v])), stored m place whole (.list wider (items ++ [v])))
        else (.error (.assignTypeMismatch (.list elem) (.list wider)), m) := by
  obtain ⟨whole, hwhole, hat⟩ := get?_of_found h
  have hadding := adding_of_ok v hwhole hat
  have hextend := extend_of_get? hwhole [v]
  rw [add_single, hunify] at hadding
  rw [hat] at hextend
  simp only [append_single, hunify] at hextend
  exact ⟨whole, hextend, hadding⟩

theorem sameAt_of_unify_self (hunify : Ty.unify elem v.ty = some elem) :
    EvalM.SameAt m (adding place v) (extend place [v]) := by
  obtain ⟨whole, hextend, hadding⟩ := longer_of_unify v h hunify
  rw [if_pos rfl] at hadding
  rw [EvalM.SameAt, hadding, hextend]
  exact ⟨rfl, rfl⟩

/-- Where the item makes the list one of another type, only appending it succeeds. -/
theorem adding_fails_of_widens {wider : Ty} (hunify : Ty.unify elem v.ty = some wider)
    (hne : wider ≠ elem) :
    (adding place v m).1 = .error (.assignTypeMismatch (.list elem) (.list wider)) ∧
    (extend place [v] m).1 = .ok (.list wider (items ++ [v])) := by
  obtain ⟨whole, hextend, hadding⟩ := longer_of_unify v h hunify
  rw [if_neg fun hty => hne (Ty.list.inj hty).symm] at hadding
  rw [hadding, hextend]
  exact ⟨rfl, rfl⟩

end

/-- Adding an item and appending it come to the same unless the item makes the list one of another
type. -/
theorem sameAt_iff_not_widens (place : Place) (v : Value) (m : Machine) :
    EvalM.SameAt m (adding place v) (extend place [v]) ↔ ¬Widens m.globals place v := by
  constructor
  · rintro ⟨hresult, -⟩ ⟨elem, items, wider, h, hunify, hne⟩
    obtain ⟨hadding, hextend⟩ := adding_fails_of_widens v h hunify hne
    rw [hadding, hextend] at hresult
    cases hresult
  · intro hwidens
    cases h : found m.globals place with
    | error e => exact EvalM.sameAt_of_errors (adding_of_error v h) (extend_of_error [v] h)
    | ok old =>
      cases old with
      | list elem items =>
        cases hunify : Ty.unify elem v.ty with
        | none => exact sameAt_of_unify_none v h hunify
        | some wider =>
          have hwider : wider = elem := by
            by_contra hne
            exact hwidens ⟨elem, items, wider, h, hunify, hne⟩
          exact sameAt_of_unify_self v h (hwider ▸ hunify)
      | _ => exact sameAt_of_no_list v h nofun

/-! ## Expressions -/

/-- `target += [v]` -/
def addAssign (target v : Expr) : Expr := .assign (some .add) target (.list [v])

/-- `target.append(v)` -/
def appendCall (target v : Expr) : Expr := .call (.member target "append") [v]

section
variable (r : Registry) (ctx : Context) (call : Command → List Value → EvalM Value)
  (target v : Expr)

/-- Where the two operands come to something, the item makes the list in the place one of another
type. -/
def Retypes (m₀ : Machine) : Prop :=
  ∃ place m₁ w m, placeOf r ctx call target m₀ = (.ok place, m₁) ∧
    eval r ctx call v m₁ = (.ok w, m) ∧ Widens m.globals place w

theorem eval_list : eval r ctx call (.list [v]) =
    evalAll r ctx call [v] >>= fun vs => EvalM.lift (Value.listOf vs) := by
  rw [eval]

theorem eval_addAssign : eval r ctx call (addAssign target v) =
    assignment (some .add) (placeOf r ctx call target) (eval r ctx call (.list [v])) := by
  rw [addAssign, eval_list, eval, eval_list]

theorem eval_appendCall : eval r ctx call (appendCall target v) =
    appending (placeOf r ctx call target) (evalAll r ctx call [v]) := by
  rw [appendCall, eval]
  rfl

theorem listOf_single (w : Value) : Value.listOf [w] = .ok (.list w.ty [w]) := by
  rw [Value.listOf, List.map_cons, List.map_nil, Ty.unifyAll, Ty.unify_void_left]
  rfl

variable {r ctx call target v} {m₀ m₁ m : Machine} {place : Place}

theorem evalAll_of_ok {w : Value} (h : eval r ctx call v m = (.ok w, m₁)) :
    evalAll r ctx call [v] m = (.ok [w], m₁) := by
  rw [evalAll, EvalM.bind_eq_of_ok h, evalAll]
  rfl

theorem evalAll_of_error {e : EvalError} (h : eval r ctx call v m = (.error e, m₁)) :
    evalAll r ctx call [v] m = (.error e, m₁) := by
  rw [evalAll, EvalM.bind_eq_of_error h]

theorem eval_list_of_ok {w : Value} (h : eval r ctx call v m = (.ok w, m₁)) :
    eval r ctx call (.list [v]) m = (.ok (.list w.ty [w]), m₁) := by
  rw [eval_list, EvalM.bind_eq_of_ok (evalAll_of_ok h), listOf_single, EvalM.lift_apply]

theorem sameAt_of_place_error {e : EvalError} (h : placeOf r ctx call target m₀ = (.error e, m)) :
    EvalM.SameAt m₀ (eval r ctx call (addAssign target v))
      (eval r ctx call (appendCall target v)) := by
  rw [eval_addAssign, eval_appendCall]
  exact EvalM.sameAt_of_errors (EvalM.bind_eq_of_error h) (EvalM.bind_eq_of_error h)

theorem sameAt_of_item_error {e : EvalError}
    (hplace : placeOf r ctx call target m₀ = (.ok place, m₁))
    (h : eval r ctx call v m₁ = (.error e, m)) :
    EvalM.SameAt m₀ (eval r ctx call (addAssign target v))
      (eval r ctx call (appendCall target v)) := by
  have hall := evalAll_of_error h
  have hlist : eval r ctx call (.list [v]) m₁ = (.error e, m) := by
    rw [eval_list, EvalM.bind_eq_of_error hall]
  rw [eval_addAssign, eval_appendCall]
  exact EvalM.sameAt_of_errors
    ((EvalM.bind_eq_of_ok hplace).trans (EvalM.bind_eq_of_error hlist))
    ((EvalM.bind_eq_of_ok hplace).trans (EvalM.bind_eq_of_error hall))

section
variable {w : Value} (hplace : placeOf r ctx call target m₀ = (.ok place, m₁))
  (hv : eval r ctx call v m₁ = (.ok w, m))
include hplace hv

theorem eval_addAssign_of_ok : eval r ctx call (addAssign target v) m₀ = adding place w m := by
  rw [eval_addAssign, assignment, EvalM.bind_eq_of_ok hplace,
    EvalM.bind_eq_of_ok (eval_list_of_ok hv)]
  rfl

theorem eval_appendCall_of_ok : eval r ctx call (appendCall target v) m₀ = extend place [w] m := by
  rw [eval_appendCall, appending, EvalM.bind_eq_of_ok hplace,
    EvalM.bind_eq_of_ok (evalAll_of_ok hv)]

theorem retypes_iff : Retypes r ctx call target v m₀ ↔ Widens m.globals place w := by
  constructor
  · rintro ⟨place', m₁', w', m', hplace', hv', h⟩
    rw [hplace] at hplace'
    cases hplace'
    rw [hv] at hv'
    cases hv'
    exact h
  · exact fun h => ⟨place, m₁, w, m, hplace, hv, h⟩

end

/-- Two expressions that make a list longer come to the same unless the item makes the list one of
another type. -/
theorem sameAt_iff_not_retypes :
    EvalM.SameAt m₀ (eval r ctx call (addAssign target v)) (eval r ctx call (appendCall target v)) ↔
      ¬Retypes r ctx call target v m₀ := by
  rcases hplace : placeOf r ctx call target m₀ with ⟨e | place, m₁⟩
  · refine iff_of_true (sameAt_of_place_error hplace) ?_
    rintro ⟨_, _, _, _, h, -⟩
    rw [hplace] at h
    cases h
  rcases hv : eval r ctx call v m₁ with ⟨e | w, m⟩
  · refine iff_of_true (sameAt_of_item_error hplace hv) ?_
    rintro ⟨_, _, _, _, h, h', -⟩
    rw [hplace] at h
    cases h
    rw [hv] at h'
    cases h'
  · rw [retypes_iff hplace hv, ← sameAt_iff_not_widens, EvalM.SameAt, EvalM.SameAt,
      eval_addAssign_of_ok hplace hv, eval_appendCall_of_ok hplace hv]

end

end Eval

namespace Session

/-- In the session, the item makes the list in the place one of another type. -/
def Retypes (s : Session) (ctx : Context) (target v : Expr) : Prop :=
  Eval.Retypes s.registry ctx (Eval.invoke s.registry (Eval.levelsBelow ctx) ctx) target v
    (.start s.globals)

theorem sameAt_iff (s : Session) {x y : EvalM Value} : EvalM.SameAt (.start s.globals) x y ↔
    (s.perform x).result.toOption = (s.perform y).result.toOption ∧
      (s.perform x).session = (s.perform y).session := by
  show _ ↔ _ ∧ (⟨s.registry, _⟩ : Session) = ⟨s.registry, _⟩
  rw [Session.mk.injEq, and_iff_right rfl]
  rfl

/-- **`+=` and `append` come to the same, value and session, unless the item makes the list one of
another type.**  Then only `append` succeeds. -/
theorem addAssign_same_iff (s : Session) (ctx : Context) (target v : Expr) :
    let o := s.evaluateExpr ctx (Eval.addAssign target v)
    let a := s.evaluateExpr ctx (Eval.appendCall target v)
    (o.result.toOption = a.result.toOption ∧ o.session = a.session ↔ ¬s.Retypes ctx target v) ∧
    (s.Retypes ctx target v →
      (∃ t t', o.result = .error (.assignTypeMismatch t t')) ∧
      ∃ longer, a.result = .ok longer) := by
  intro o a
  refine ⟨(s.sameAt_iff).symm.trans Eval.sameAt_iff_not_retypes, ?_⟩
  rintro ⟨place, m₁, w, m, hplace, hv, elem, items, wider, hfound, hunify, hne⟩
  obtain ⟨hadding, hextend⟩ := Eval.adding_fails_of_widens w hfound hunify hne
  have ho : o.result = (Eval.adding place w m).1 :=
    congrArg Prod.fst (Eval.eval_addAssign_of_ok hplace hv)
  have ha : a.result = (Eval.extend place [w] m).1 :=
    congrArg Prod.fst (Eval.eval_appendCall_of_ok hplace hv)
  exact ⟨⟨_, _, ho.trans hadding⟩, _, ha.trans hextend⟩

/-- the session whose only global is a list of lists of integers, with one list in it -/
def tray (inner : Ty) : Session :=
  ⟨.fresh, .insert .empty "g" (.list (.list .int) [.list inner []])⟩

/-- `g[0]` -/
def innerTray : Expr := .subscript (.var (.name "g")) (.int 0)

/-- a list of integers takes another integer either way -/
theorem tray_filled :
    ((tray .int).evaluateExpr Eval.bystander (Eval.addAssign innerTray (.int 1))).result.toOption =
      some (.list .int [.int 1]) ∧
    ¬(tray .int).Retypes Eval.bystander innerTray (.int 1) ∧
    (tray .void).Retypes Eval.bystander innerTray (.int 1) ∧
    ∃ longer, ((tray .void).evaluateExpr Eval.bystander
      (Eval.appendCall innerTray (.int 1))).result = .ok longer := by
  have hadding : ((tray .int).evaluateExpr Eval.bystander
      (Eval.addAssign innerTray (.int 1))).result.toOption = some (.list .int [.int 1]) := rfl
  have hsame : ((tray .int).evaluateExpr Eval.bystander
        (Eval.addAssign innerTray (.int 1))).result.toOption =
      ((tray .int).evaluateExpr Eval.bystander
        (Eval.appendCall innerTray (.int 1))).result.toOption ∧
      ((tray .int).evaluateExpr Eval.bystander (Eval.addAssign innerTray (.int 1))).session =
      ((tray .int).evaluateExpr Eval.bystander (Eval.appendCall innerTray (.int 1))).session :=
    ⟨rfl, rfl⟩
  have hretypes : (tray .void).Retypes Eval.bystander innerTray (.int 1) :=
    ⟨⟨"g", [.int 0]⟩, _, .int 1, _, rfl, rfl, .void, [], .int, rfl, rfl, by decide⟩
  obtain ⟨hiff, -⟩ := addAssign_same_iff (tray .int) Eval.bystander innerTray (.int 1)
  obtain ⟨-, hfails⟩ := addAssign_same_iff (tray .void) Eval.bystander innerTray (.int 1)
  exact ⟨hadding, hiff.mp hsame, hretypes, (hfails hretypes).2⟩

/-- a list that nothing is known about takes an integer by `append` only -/
theorem tray_takes_append_only :
    ((tray .void).evaluateExpr Eval.bystander (Eval.addAssign innerTray (.int 1))).result =
      .error (.assignTypeMismatch (.list .void) (.list .int)) ∧
    ((tray .void).evaluateExpr Eval.bystander (Eval.appendCall innerTray (.int 1))).result =
      .ok (.list .int [.int 1]) :=
  ⟨rfl, rfl⟩

end Session

end Parlance
