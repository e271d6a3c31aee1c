import Parlance.Proofs.Eval.Places
import Parlance.Session

/-!
# Writes that fail

* `Expr.Quiet`         nothing in an expression assigns, appends or calls a function;
* `EvalM.Still`        a step that leaves the machine as it is, whatever it comes to;
* `EvalM.Atomic`       a step that leaves the machine as it is if it fails;
* `eval_still`         a quiet expression is such a step, by induction on why it is quiet;
* `failed_write_quiet` so a write between quiet operands that fails has written nothing.

Most steps are still, and the two that write are atomic.  A write is a still step with an atomic one
behind it.
-/

namespace Parlance

/-- Nothing in the expression assigns, appends or calls a function, which the end of a pipeline
does, too.  What is never evaluated may be anything: the arguments of a method other than `append`,
and what a member is taken of. -/
inductive Expr.Quiet : Expr → Prop
  | int (i : Int64) : Quiet (.int i)
  | dbl (d : Double) : Quiet (.dbl d)
  | bool (b : Bool) : Quiet (.bool b)
  | char (c : Char) : Quiet (.char c)
  | str (s : String) : Quiet (.str s)
  | list {items : List Expr} (all : ∀ e ∈ items, Quiet e) : Quiet (.list items)
  | var (ref : VarRef) : Quiet (.var ref)
  | unary {op : UnaryOp} {operand : Expr} (h : Quiet operand) : Quiet (.unary op operand)
  | binary {op : BinaryOp} {lhs rhs : Expr} (hop : op ≠ .pipeline) (hl : Quiet lhs)
      (hr : Quiet rhs) : Quiet (.binary op lhs rhs)
  | ternary {cond yes no : Expr} (hcond : Quiet cond) (hyes : Quiet yes) (hno : Quiet no) :
      Quiet (.ternary cond yes no)
  | comparison {operands : List Expr} {ops : List CompareOp} (all : ∀ e ∈ operands, Quiet e) :
      Quiet (.comparison operands ops)
  | method {base : Expr} {name : String} {args : List Expr} (hname : name ≠ "append")
      (hbase : Quiet base) : Quiet (.call (.member base name) args)
  | subscript {base index : Expr} (hbase : Quiet base) (hindex : Quiet index) :
      Quiet (.subscript base index)
  | slice {base : Expr} {start stop : Option Expr} (hbase : Quiet base)
      (hstart : ∀ e, start = some e → Quiet e) (hstop : ∀ e, stop = some e → Quiet e) :
      Quiet (.slice base start stop)
  | member (base : Expr) (name : String) : Quiet (.member base name)

namespace EvalM

variable {α β : Type} {x : EvalM α} {f : α → EvalM β}

/-- the step leaves the machine as it is -/
def Still (x : EvalM α) : Prop := ∀ m, (x m).2 = m

/-- the step leaves the machine as it is if it fails -/
def Atomic (x : EvalM α) : Prop := ∀ m e, (x m).1 = .error e → (x m).2 = m

theorem still_pure (a : α) : Still (pure a) := fun _ => rfl

theorem still_fail (e : EvalError) : Still (fail e : EvalM α) := fun _ => rfl

theorem still_globals : Still globals := fun _ => rfl

theorem still_lift (r : Except EvalError α) : Still (lift r) := by
  cases r with
  | ok a => exact still_pure a
  | error e => exact still_fail e

theorem Still.atomic (h : Still x) : Atomic x := fun m _ _ => h m

theorem Still.ok_or_error (h : Still x) (m : Machine) :
    (∃ a, x m = (.ok a, m)) ∨ ∃ e, x m = (.error e, m) := by
  have hm := h m
  rcases hx : x m with ⟨e | a, m'⟩
  · rw [hx] at hm
    exact .inr ⟨e, by rw [← hm]⟩
  · rw [hx] at hm
    exact .inl ⟨a, by rw [← hm]⟩

/-- After a still step, the next one starts from the same machine. -/
theorem Still.bind_apply (h : Still x) (m : Machine) :
    (∃ a, (x >>= f) m = f a m) ∨ ∃ e, (x >>= f) m = (.error e, m) := by
  rcases h.ok_or_error m with ⟨a, hx⟩ | ⟨e, hx⟩
  · exact .inl ⟨a, bind_eq_of_ok hx⟩
  · exact .inr ⟨e, bind_eq_of_error hx⟩

/-- What comes out of a still step and another one is what the second makes of the first. -/
theorem Still.of_bind (h : Still x) {b : β} {m m' : Machine} (hb : (x >>= f) m = (.ok b, m')) :
    ∃ a, x m = (.ok a, m) ∧ f a m = (.ok b, m') := by
  rcases h.ok_or_error m with ⟨a, hx⟩ | ⟨e, hx⟩
  · rw [bind_eq_of_ok hx] at hb
    exact ⟨a, hx, hb⟩
  · rw [bind_eq_of_error hx] at hb
    cases hb

theorem Still.bind (h : Still x) (hf : ∀ a, Still (f a)) : Still (x >>= f) := by
  intro m
  rcases h.bind_apply (f := f) m with ⟨a, heq⟩ | ⟨e, heq⟩
  · rw [heq]
    exact hf a m
  · rw [heq]

theorem Still.bind_atomic (h : Still x) (hf : ∀ a, Atomic (f a)) : Atomic (x >>= f) := by
  intro m e he
  rcases h.bind_apply (f := f) m with ⟨a, heq⟩ | ⟨e', heq⟩
  · rw [heq] at he ⊢
    exact hf a m e he
  · rw [heq]

end EvalM

namespace Eval

open EvalM

/-! ## Quiet expressions -/

section
variable {r : Registry} {ctx : Context}

theorem readVar_still (ref : VarRef) : Still (readVar r ctx ref) :=
  still_globals.bind fun _ => still_lift _

theorem globalPlace_still (name : String) : Still (globalPlace r ctx name) := by
  refine still_globals.bind fun _ => ?_
  split
  · exact still_pure _
  · exact (readVar_still _).bind fun _ => still_fail _

theorem junction_still (op : BinaryOp) (short : Bool) {x y : EvalM Value} (hx : Still x)
    (hy : Still y) : Still (junction op short x y) := by
  refine hx.bind fun v => ?_
  split
  · split
    · exact still_pure _
    · refine hy.bind fun w => ?_
      split
      · exact still_pure _
      · exact still_fail _
  · exact still_fail _

theorem operation_still (op : BinaryOp) {x y : EvalM Value} (hx : Still x) (hy : Still y) :
    Still (operation op x y) := by
  unfold operation
  split
  · exact junction_still _ _ hx hy
  · exact junction_still _ _ hx hy
  · exact hx.bind fun _ => hy.bind fun _ => still_lift _

theorem lengthOf_still (v : Value) : Still (lengthOf v) := by
  unfold lengthOf
  split
  · exact still_lift _
  · exact still_fail _

theorem methodCall_still {name : String} (hname : name ≠ "append") {base : EvalM Value}
    (hbase : Still base) (place : EvalM Place) (count : Nat) (args : EvalM (List Value)) :
    Still (methodCall name base place count args) := by
  unfold methodCall
  split
  · split
    · exact hbase.bind lengthOf_still
    · exact still_fail _
  · exact hbase.bind fun _ => still_fail _

end

section
variable {r : Registry} {ctx : Context} {call : Command → List Value → EvalM Value}

theorem evalAll_still {es : List Expr} (h : ∀ e ∈ es, Still (eval r ctx call e)) :
    Still (evalAll r ctx call es) := by
  induction es with
  | nil =>
    rw [evalAll]
    exact still_pure _
  | cons e es ih =>
    obtain ⟨he, hes⟩ := List.forall_mem_cons.mp h
    rw [evalAll]
    exact he.bind fun v => (ih hes).bind fun vs => still_pure _

theorem evalBound_still {o : Option Expr} (h : ∀ e, o = some e → Still (eval r ctx call e)) :
    Still (evalBound r ctx call o) := by
  cases o with
  | none =>
    rw [evalBound]
    exact still_pure _
  | some e =>
    rw [evalBound]
    exact (h e rfl).bind fun v => still_pure _

theorem evalChain_still {es : List Expr} (h : ∀ e ∈ es, Still (eval r ctx call e)) (lhs : Value)
    (ops : List CompareOp) : Still (evalChain r ctx call lhs es ops) := by
  induction es generalizing lhs ops with
  | nil =>
    cases ops <;> exact still_pure _
  | cons e es ih =>
    obtain ⟨he, hes⟩ := List.forall_mem_cons.mp h
    cases ops with
    | nil => exact still_pure _
    | cons op ops =>
      rw [evalChain]
      refine he.bind fun rhs => (still_lift _).bind fun holds => ?_
      split
      · exact ih hes rhs ops
      · exact still_pure _

/-- **Evaluating a quiet expression leaves the machine as it is.** -/
theorem eval_still {e : Expr} (h : e.Quiet) : Still (eval r ctx call e) := by
  induction h with
  | int _ | dbl _ | bool _ | char _ | str _ =>
    rw [eval]
    exact still_pure _
  | list _ ih =>
    rw [eval]
    exact (evalAll_still ih).bind fun vs => still_lift _
  | var ref =>
    rw [eval]
    exact readVar_still ref
  | unary _ ih =>
    rw [eval]
    exact ih.bind fun v => still_lift _
  | binary hop _ _ ihl ihr =>
    rw [eval]
    · exact operation_still _ ihl ihr
    · exact hop
  | ternary _ _ _ ihcond ihyes ihno =>
    rw [eval]
    refine ihcond.bind fun v => ?_
    split
    · exact ihyes
    · exact ihno
    · exact still_fail _
  | @comparison operands ops _ ih =>
    cases operands with
    | nil =>
      rw [eval]
      exact still_pure _
    | cons first others =>
      obtain ⟨hfirst, hothers⟩ := List.forall_mem_cons.mp ih
      rw [eval]
      exact hfirst.bind fun v => evalChain_still hothers v ops
  | method hname _ ih =>
    -- the arguments are counted, and evaluated for `append` only
    rw [eval]
    exact methodCall_still hname ih _ _ _
  | subscript _ _ ihbase ihindex =>
    rw [eval]
    exact ihbase.bind fun v => ihindex.bind fun i => still_lift _
  | slice _ _ _ ihbase ihstart ihstop =>
    rw [eval]
    exact ihbase.bind fun v => (evalBound_still ihstart).bind fun lo =>
      (evalBound_still ihstop).bind fun hi => still_lift _
  | member _ _ =>
    rw [eval]
    exact still_fail _

theorem placeOf_still {e : Expr} (h : e.Quiet) : Still (placeOf r ctx call e) := by
  induction h with
  | subscript _ hindex ihbase _ =>
    rw [placeOf]
    exact ihbase.bind fun place => (eval_still hindex).bind fun i => still_pure _
  | var ref =>
    cases ref with
    | name name =>
      rw [placeOf]
      exact globalPlace_still name
    | arg _ | context _ => exact still_fail _
  | _ => exact still_fail _

end

/-! ## Writes -/

theorem readPlace_still (place : Place) : Still (readPlace place) := by
  intro m
  rw [readPlace_eq]

theorem store_atomic (place : Place) (value : Value) : Atomic (store place value) := by
  intro m e he
  rcases store_cases place value m with ⟨e', h⟩ | ⟨_, _, -, -, -, h⟩
  · rw [h]
  · rw [h] at he
    cases he

theorem extend_atomic (place : Place) (more : List Value) : Atomic (extend place more) := by
  intro m e he
  rcases extend_cases place more m with ⟨e', h⟩ | ⟨_, _, _, _, -, -, -, h⟩
  · rw [h]
  · rw [h] at he
    cases he

section
variable {place : EvalM Place} (hplace : Still place)
include hplace

theorem assignment_atomic (op : Option BinaryOp) {value : EvalM Value} (hvalue : Still value) :
    Atomic (assignment op place value) := by
  refine hplace.bind_atomic fun p => hvalue.bind_atomic fun v => ?_
  cases op with
  | none => exact store_atomic p v
  | some op =>
    exact (readPlace_still p).bind_atomic fun old => (still_lift _).bind_atomic fun new =>
      store_atomic p new

theorem append_atomic (base : EvalM Value) (count : Nat) {args : EvalM (List Value)}
    (hargs : Still args) : Atomic (methodCall "append" base place count args) := by
  rw [methodCall, if_neg (by decide), if_pos rfl]
  split
  · exact (still_fail _).atomic
  · exact hplace.bind_atomic fun p => hargs.bind_atomic fun vs => extend_atomic p vs

end

end Eval

namespace Session

theorem perform_quiet (s : Session) {α : Type} {x : EvalM α} (hx : x.Atomic) {e : EvalError}
    (h : (s.perform x).result = .error e) : s.perform x = .quiet (.error e) s := by
  have hm : (x (.start s.globals)).2 = .start s.globals := hx _ e h
  show (⟨(x (.start s.globals)).1, { s with globals := (x (.start s.globals)).2.globals },
    (x (.start s.globals)).2.calls, (x (.start s.globals)).2.growths,
    (x (.start s.globals)).2.readings⟩ : Outcome _) = _
  rw [hm, show (x (.start s.globals)).1 = .error e from h]
  rfl

/-- **A write that fails has written nothing.**  An assignment or `append` whose operands are quiet
leaves the session as it is if it fails; and this is so although storing a value may be taken to put
a missing key in before the types are compared. -/
theorem failed_write_quiet (s : Session) (ctx : Context) {place : Expr} (hplace : place.Quiet) :
    (∀ op value e, value.Quiet →
      (s.evaluateExpr ctx (.assign op place value)).result = .error e →
      s.evaluateExpr ctx (.assign op place value) = .quiet (.error e) s) ∧
    (∀ args e, (∀ a ∈ args, a.Quiet) →
      (s.evaluateExpr ctx (.call (.member place "append") args)).result = .error e →
      s.evaluateExpr ctx (.call (.member place "append") args) = .quiet (.error e) s) ∧
    ∀ place value, Eval.store place value = Eval.storeWalking place value := by
  have hp : ∀ call, (Eval.placeOf s.registry ctx call place).Still := fun call =>
    Eval.placeOf_still hplace
  refine ⟨?_, ?_, fun place value => (Eval.storeWalking_eq place value).symm⟩
  · intro op value e hvalue
    refine s.perform_quiet ?_
    rw [Eval.evalIn, Eval.eval]
    exact Eval.assignment_atomic (hp _) op (Eval.eval_still hvalue)
  · intro args e hargs
    refine s.perform_quiet ?_
    rw [Eval.evalIn, Eval.eval]
    exact Eval.append_atomic (hp _) _ _
      (Eval.evalAll_still fun a ha => Eval.eval_still (hargs a ha))

/-- the session whose only global is a map with a list for one letter -/
def ledger : Session :=
  ⟨.fresh, .insert .empty "g" (.map .char (.list .int) [(.char 'a', .list .int [.int 1])])⟩

/-- `g['a']`, and so on -/
def column (letter : Char) : Expr := .subscript (.var (.name "g")) (.char letter)

theorem column_quiet (letter : Char) : (column letter).Quiet :=
  .subscript (.var _) (.char letter)

/-- `g['b'] = 2` puts no list under the letter, and `g['a'].append(2, true)` appends no number. -/
theorem ledger_unchanged :
    (column 'b').Quiet ∧ Expr.Quiet (.int 2) ∧ (column 'a').Quiet ∧
    (∀ a ∈ [Expr.int 2, .bool true], a.Quiet) ∧
    ledger.evaluateExpr Eval.bystander (.assign none (column 'b') (.int 2)) =
      .quiet (.error (.assignTypeMismatch (.list .int) .int)) ledger ∧
    ledger.evaluateExpr Eval.bystander
        (.call (.member (column 'a') "append") [.int 2, .bool true]) =
      .quiet (.error (.appendTypeMismatch (.list .int) .bool)) ledger := by
  have hvalue : Expr.Quiet (.int 2) := .int 2
  have hargs : ∀ a ∈ [Expr.int 2, .bool true], a.Quiet :=
    List.forall_mem_cons.mpr ⟨.int 2, List.forall_mem_singleton.mpr (.bool true)⟩
  obtain ⟨hassign, -, -⟩ := failed_write_quiet ledger Eval.bystander (column_quiet 'b')
  obtain ⟨-, happend, -⟩ := failed_write_quiet ledger Eval.bystander (column_quiet 'a')
  exact ⟨column_quiet 'b', hvalue, column_quiet 'a', hargs, hassign none _ _ hvalue rfl,
    happend _ _ hargs rfl⟩

end Session

end Parlance
