import Parlance.Eval.Basic

/-!
# Comparing two evaluations

Evaluation looks at the context for what variables stand for, and at calls.  So two evaluations of one
expression compare as their calls do, in contexts with the same variables:

* `Comparison`     a relation between steps that is respected where steps are put together;
* `eval_rel`       the two meanings of an expression are related if the calls are: an induction on
                   the expression;
* `runBody_rel`    so are two runs of a command, if the expressions in its words are.
-/

set_option linter.unusedSectionVars false

namespace Parlance

/-- A relation between steps that is respected where steps are put together. -/
structure Comparison where
  Rel : {α : Type} → EvalM α → EvalM α → Prop
  give : ∀ {α : Type} (a : α), Rel (pure a : EvalM α) (pure a)
  fail : ∀ {α : Type} (e : EvalError), Rel (EvalM.fail e : EvalM α) (EvalM.fail e)
  globals : Rel EvalM.globals EvalM.globals
  setGlobal : ∀ name v, Rel (EvalM.setGlobal name v) (EvalM.setGlobal name v)
  recordGrowth : ∀ g, Rel (EvalM.recordGrowth g) (EvalM.recordGrowth g)
  bind : ∀ {α β : Type} {x y : EvalM α} {f g : α → EvalM β}, Rel x y → (∀ a, Rel (f a) (g a)) →
    Rel (x >>= f) (y >>= g)
  attempt : ∀ {α : Type} {x y : EvalM α}, Rel x y → Rel x.attempt y.attempt

theorem Comparison.lift (R : Comparison) {α : Type} (r : Except EvalError α) :
    R.Rel (EvalM.lift r) (EvalM.lift r) := by
  cases r with
  | ok a => exact R.give a
  | error e => exact R.fail e

/-- Steps that may come too late are related if the steps themselves are, and reading the clock is. -/
theorem Comparison.inTime (R : Comparison) {α : Type} {ctx ctx' : Context} {x y : EvalM α}
    (hread : R.Rel (EvalM.outOfTime ctx) (EvalM.outOfTime ctx')) (h : R.Rel x y) :
    R.Rel (EvalM.inTime ctx x) (EvalM.inTime ctx' y) := by
  refine R.bind hread ?_
  intro late
  cases late with
  | true => exact R.fail _
  | false => exact h

namespace Eval

variable (R : Comparison)

/-! ## Places -/

section
variable {r : Registry} {ctx ctx' : Context} (hctx : lookup r ctx = lookup r ctx')
include hctx

theorem readVar_rel (ref : VarRef) : R.Rel (readVar r ctx ref) (readVar r ctx' ref) := by
  unfold readVar
  rw [hctx]
  exact R.bind R.globals fun globals => R.lift (lookup r ctx' globals ref)

theorem globalPlace_rel (name : String) :
    R.Rel (globalPlace r ctx name) (globalPlace r ctx' name) := by
  refine R.bind R.globals ?_
  intro globals
  split
  · exact R.give _
  · exact R.bind (readVar_rel R hctx _) fun _ => R.fail _

end

theorem wholeOf_rel (place : Place) : R.Rel (wholeOf place) (wholeOf place) := by
  refine R.bind R.globals ?_
  intro globals
  split
  · exact R.give _
  · exact R.fail _

theorem readPlace_rel (place : Place) : R.Rel (readPlace place) (readPlace place) :=
  R.bind (wholeOf_rel R place) fun _ => R.lift _

theorem store_rel (place : Place) (value : Value) :
    R.Rel (store place value) (store place value) := by
  refine R.bind (wholeOf_rel R place) ?_
  intro whole
  refine R.bind (R.lift _) ?_
  intro old
  split
  · exact R.bind (R.setGlobal _ _) fun _ => R.give _
  · exact R.fail _

theorem extend_rel (place : Place) (more : List Value) :
    R.Rel (extend place more) (extend place more) := by
  refine R.bind (wholeOf_rel R place) ?_
  intro whole
  refine R.bind (R.lift _) ?_
  intro v
  split
  · refine R.bind (R.lift _) ?_
    intro longer
    refine R.bind (R.recordGrowth _) ?_
    intro _
    exact R.bind (R.setGlobal _ _) fun _ => R.give _
  · exact R.fail _

/-! ## Forms -/

section
variable {x x' y y' : EvalM Value} (hx : R.Rel x x') (hy : R.Rel y y')
include hx hy

theorem junction_rel (op : BinaryOp) (short : Bool) :
    R.Rel (junction op short x y) (junction op short x' y') := by
  refine R.bind hx ?_
  intro v
  split
  · split
    · exact R.give _
    · refine R.bind hy ?_
      intro w
      split
      · exact R.give _
      · exact R.fail _
  · exact R.fail _

theorem operation_rel (op : BinaryOp) : R.Rel (operation op x y) (operation op x' y') := by
  unfold operation
  split
  · exact junction_rel R hx hy _ _
  · exact junction_rel R hx hy _ _
  · refine R.bind hx ?_
    intro v
    exact R.bind hy fun w => R.lift _

end

section
variable {place place' : EvalM Place} (hplace : R.Rel place place')
include hplace

theorem assignment_rel {value value' : EvalM Value} (hvalue : R.Rel value value')
    (op : Option BinaryOp) :
    R.Rel (assignment op place value) (assignment op place' value') := by
  refine R.bind hplace ?_
  intro p
  refine R.bind hvalue ?_
  intro v
  cases op with
  | none => exact store_rel R p v
  | some op =>
    refine R.bind (readPlace_rel R p) ?_
    intro old
    exact R.bind (R.lift _) fun new => store_rel R p new

theorem appending_rel {more more' : EvalM (List Value)} (hmore : R.Rel more more') :
    R.Rel (appending place more) (appending place' more') := by
  refine R.bind hplace ?_
  intro p
  exact R.bind hmore fun vs => extend_rel R p vs

end

theorem lengthOf_rel (v : Value) : R.Rel (lengthOf v) (lengthOf v) := by
  unfold lengthOf
  split
  · exact R.lift _
  · exact R.fail _

theorem methodCall_rel {base base' : EvalM Value} (hbase : R.Rel base base')
    {place place' : EvalM Place} (hplace : R.Rel place place')
    {args args' : EvalM (List Value)} (hargs : R.Rel args args') (name : String) (count : Nat) :
    R.Rel (methodCall name base place count args) (methodCall name base' place' count args') := by
  unfold methodCall
  split
  · split
    · exact R.bind hbase fun v => lengthOf_rel R v
    · exact R.fail _
  split
  · split
    · exact R.fail _
    · exact appending_rel R hplace hargs
  · exact R.bind hbase fun _ => R.fail _

/-! ## Expressions -/

section
variable {r : Registry} {ctx ctx' : Context} (hctx : lookup r ctx = lookup r ctx')
  {call call' : Command → List Value → EvalM Value}
  (hcall : ∀ c args, R.Rel (call c args) (call' c args))

include hcall in
theorem applyTo_rel (callee : Value) (args : List Value) :
    R.Rel (applyTo call callee args) (applyTo call' callee args) := by
  unfold applyTo
  split
  · exact hcall _ args
  · exact R.fail _

include hctx hcall

mutual

theorem eval_rel : ∀ e : Expr, R.Rel (eval r ctx call e) (eval r ctx' call' e)
  | .int _ | .dbl _ | .bool _ | .char _ | .str _ => by
    rw [eval, eval]
    exact R.give _
  | .list items => by
    rw [eval, eval]
    exact R.bind (evalAll_rel items) fun vs => R.lift _
  | .var ref => by
    rw [eval, eval]
    exact readVar_rel R hctx ref
  | .unary op operand => by
    rw [eval, eval]
    exact R.bind (eval_rel operand) fun v => R.lift _
  | .binary op lhs rhs => by
    by_cases hop : op = .pipeline
    · subst hop
      rw [eval, eval]
      exact R.bind (eval_rel lhs) fun v => evalStage_rel v (eval_rel rhs) rhs
    · rw [eval, eval]
      · exact operation_rel R (eval_rel lhs) (eval_rel rhs) op
      all_goals exact hop
  | .assign op place value => by
    rw [eval, eval]
    exact assignment_rel R (placeOf_rel place) (eval_rel value) op
  | .ternary cond yes no => by
    rw [eval, eval]
    refine R.bind (eval_rel cond) ?_
    intro v
    split
    · exact eval_rel yes
    · exact eval_rel no
    · exact R.fail _
  | .comparison [] ops => by
    rw [eval, eval]
    exact R.give _
  | .comparison (first :: others) ops => by
    rw [eval, eval]
    exact R.bind (eval_rel first) fun v => evalChain_rel others v ops
  | .call callee args => by
    by_cases hm : ∃ base name, callee = .member base name
    · obtain ⟨base, name, rfl⟩ := hm
      rw [eval, eval]
      exact methodCall_rel R (eval_rel base) (placeOf_rel base) (evalAll_rel args) name args.length
    · rw [eval, eval]
      · refine R.bind (eval_rel callee) ?_
        intro f
        exact R.bind (evalAll_rel args) fun vs => applyTo_rel R hcall f vs
      all_goals exact fun base name h => hm ⟨base, name, h⟩
  | .subscript base index => by
    rw [eval, eval]
    refine R.bind (eval_rel base) ?_
    intro v
    exact R.bind (eval_rel index) fun i => R.lift _
  | .slice base start stop => by
    rw [eval, eval]
    refine R.bind (eval_rel base) ?_
    intro v
    refine R.bind (evalBound_rel start) ?_
    intro lo
    exact R.bind (evalBound_rel stop) fun hi => R.lift _
  | .member base name => by
    rw [eval, eval]
    exact R.fail _
termination_by e => sizeOf e

theorem evalStage_rel (value : Value) {plain plain' : EvalM Value} (hplain : R.Rel plain plain') :
    ∀ e : Expr, R.Rel (evalStage r ctx call value plain e) (evalStage r ctx' call' value plain' e)
  | .call callee args => by
    by_cases hm : ∃ base name, callee = .member base name
    · obtain ⟨base, name, rfl⟩ := hm
      rw [evalStage, evalStage]
      exact R.bind hplain fun f => applyTo_rel R hcall f _
    · rw [evalStage, evalStage]
      · refine R.bind (eval_rel callee) ?_
        intro f
        exact R.bind (evalAll_rel args) fun vs => applyTo_rel R hcall f _
      all_goals exact fun base name h => hm ⟨base, name, h⟩
  | .int _ | .dbl _ | .bool _ | .char _ | .str _ | .list _ | .var _ | .unary _ _ | .binary _ _ _
  | .assign _ _ _ | .ternary _ _ _ | .comparison _ _ | .subscript _ _ | .slice _ _ _
  | .member _ _ => by
    rw [evalStage, evalStage]
    · exact R.bind hplain fun f => applyTo_rel R hcall f _
    all_goals simp
termination_by e => sizeOf e

theorem evalAll_rel : ∀ es : List Expr, R.Rel (evalAll r ctx call es) (evalAll r ctx' call' es)
  | [] => by
    rw [evalAll, evalAll]
    exact R.give _
  | e :: es => by
    rw [evalAll, evalAll]
    refine R.bind (eval_rel e) ?_
    intro v
    exact R.bind (evalAll_rel es) fun vs => R.give _
termination_by es => sizeOf es

theorem evalBound_rel : ∀ o : Option Expr, R.Rel (evalBound r ctx call o) (evalBound r ctx' call' o)
  | none => by
    rw [evalBound, evalBound]
    exact R.give _
  | some e => by
    rw [evalBound, evalBound]
    exact R.bind (eval_rel e) fun v => R.give _
termination_by o => sizeOf o

theorem evalChain_rel : ∀ (es : List Expr) (lhs : Value) (ops : List CompareOp),
    R.Rel (evalChain r ctx call lhs es ops) (evalChain r ctx' call' lhs es ops)
  | e :: es, lhs, op :: ops => by
    rw [evalChain, evalChain]
    refine R.bind (eval_rel e) ?_
    intro rhs
    refine R.bind (R.lift _) ?_
    intro holds
    split
    · exact evalChain_rel es rhs ops
    · exact R.give _
  | [], lhs, ops => by
    rw [evalChain, evalChain]
    · exact R.give _
    all_goals simp
  | e :: es, lhs, [] => by
    rw [evalChain, evalChain]
    · exact R.give _
    all_goals simp
termination_by es => sizeOf es

theorem placeOf_rel : ∀ e : Expr, R.Rel (placeOf r ctx call e) (placeOf r ctx' call' e)
  | .subscript base index => by
    rw [placeOf, placeOf]
    refine R.bind (placeOf_rel base) ?_
    intro place
    exact R.bind (eval_rel index) fun i => R.give _
  | .var (.name name) => by
    rw [placeOf, placeOf]
    exact globalPlace_rel R hctx name
  | .var (.arg _) | .var (.context _) | .int _ | .dbl _ | .bool _ | .char _ | .str _ | .list _
  | .unary _ _ | .binary _ _ _ | .assign _ _ _ | .ternary _ _ _ | .comparison _ _ | .call _ _
  | .slice _ _ _ | .member _ _ => by
    rw [placeOf, placeOf]
    all_goals first | exact R.fail _ | simp
termination_by e => sizeOf e

end

theorem evalSource_rel (source : List Char) :
    R.Rel (evalSource r ctx call source) (evalSource r ctx' call' source) := by
  unfold evalSource
  split
  · rename_i e _
    exact R.attempt (eval_rel R hctx hcall e)
  · exact R.give _

end

/-! ## Commands -/

section
variable {evaluate evaluate' : List Char → EvalM (Option Value)}
  (h : ∀ source, R.Rel (evaluate source) (evaluate' source))
include h

theorem sayWord_rel (word : String) : R.Rel (sayWord evaluate word) (sayWord evaluate' word) := by
  unfold sayWord
  split
  · exact R.give _
  · rename_i source _
    exact R.bind (h source) fun o => R.give _

theorem sayWords_rel (words : List String) :
    R.Rel (sayWords evaluate words) (sayWords evaluate' words) := by
  induction words with
  | nil => exact R.give _
  | cons word words ih =>
    refine R.bind (sayWord_rel R h word) ?_
    intro said
    exact R.bind ih fun others => R.give _

theorem runBody_rel {ctx ctx' : Context} {c : Command} (hargs : ctx.args = ctx'.args)
    (hrecord : R.Rel (EvalM.record c ctx.depth) (EvalM.record c ctx'.depth)) :
    R.Rel (runBody evaluate ctx c) (runBody evaluate' ctx' c) := by
  unfold runBody
  rw [hargs]
  refine R.bind hrecord ?_
  intro _
  split
  · rename_i words _
    exact R.bind (sayWords_rel R h words) fun vs => R.give _
  · exact R.give _
  · exact R.give _

end

end Eval

end Parlance
