import Parlance.Proofs.Eval.Discipline

/-!
# Every run keeps to a discipline

A discipline that admits the writing steps is kept by all of evaluation:

* `eval_keeps`      by an expression, where calls keep to it: an induction on the expression;
* `runBody_keeps`   by running a command, where the expressions in its words do;
* `invoke_keeps`    by a call: an induction on the levels of calls that are allowed below it;
* `evalIn_keeps`, `runIn_keeps`   by an expression and by a command in a context.
-/

set_option linter.unusedSectionVars false

namespace Parlance.Eval

variable {D : Discipline} {m : Machine}

/-! ## Variables and places -/

section
variable {r : Registry} {ctx : Context}

theorem lookup_good (hargs : D.AllGood m ctx.args) (hsound : D.Sound m) {ref : VarRef} {v : Value}
    (h : lookup r ctx m.globals ref = .ok v) : D.Good m v := by
  have closed := D.closed m
  cases ref with
  | arg index =>
    simp only [lookup] at h
    split at h
    · rename_i w hw
      cases h
      exact hargs v (List.mem_of_getElem? hw)
    · cases h
  | context name =>
    simp only [lookup] at h
    split at h
    · cases h
      exact closed.ofString _
    split at h
    · cases h
      exact closed.ofString _
    split at h
    · cases h
      exact closed.ofString _
    split at h
    · cases h
      have := closed.texts ((ctx.args.map Value.raw).map String.toList)
      rwa [List.map_map] at this
    · cases h
  | name name =>
    simp only [lookup] at h
    split at h
    · rename_i w hw
      cases h
      exact D.global hsound hw
    split at h
    · cases h
      exact closed.function _
    · cases h

theorem readVar_keeps (hargs : D.AllGood m ctx.args) (ref : VarRef) :
    D.Keeps m (readVar r ctx ref) D.Good := by
  refine Discipline.keeps_globals ?_
  intro m' hstep hsound
  exact Discipline.keeps_result fun v hv => lookup_good (hargs.later hstep) hsound hv

theorem globalPlace_keeps (hargs : D.AllGood m ctx.args) (name : String) :
    D.Keeps m (globalPlace r ctx name) D.GoodPath := by
  refine Discipline.keeps_globals ?_
  intro m' hstep _
  split
  · exact Discipline.keeps_pure fun m'' _ _ => D.allGood_nil m''
  · refine (readVar_keeps (hargs.later hstep) _).bind ?_
    intro _ _ _ _
    exact Discipline.keeps_fail _

theorem wholeOf_keeps (place : Place) : D.Keeps m (wholeOf place) D.Good := by
  refine Discipline.keeps_globals ?_
  intro m' _ hsound
  split
  · rename_i whole hwhole
    exact Discipline.keeps_give (D.global hsound hwhole)
  · exact Discipline.keeps_fail _

theorem readPlace_keeps (place : Place) : D.Keeps m (readPlace place) D.Good := by
  refine (wholeOf_keeps place).bind ?_
  intro m' whole _ hwhole
  refine Discipline.keeps_result ?_
  intro v hv
  rw [Value.slot_none] at hv
  exact (D.closed m').at? hwhole hv

end

/-! ## Forms -/

section
variable {call : Command → List Value → EvalM Value}
  (hcall : ∀ m c args, D.AllGood m args → D.Keeps m (call c args) D.Good)
include hcall

theorem applyTo_keeps (callee : Value) {args : List Value} (hargs : D.AllGood m args) :
    D.Keeps m (applyTo call callee args) D.Good := by
  unfold applyTo
  split
  · exact hcall m _ _ hargs
  · exact Discipline.keeps_fail _

theorem applied_keeps {value : Value} (hvalue : D.Good m value) {callee : EvalM Value}
    (h : D.Keeps m callee D.Good) :
    D.Keeps m (do applyTo call (← callee) [value]) D.Good := by
  refine h.bind ?_
  intro m' f hstep _
  exact applyTo_keeps hcall f (D.allGood_cons (D.lasting hstep hvalue) (D.allGood_nil m'))

end

section
variable {x y : EvalM Value} (hx : D.Keeps m x D.Good) (hy : D.Keeps m y D.Good)
include hx hy

theorem junction_keeps (op : BinaryOp) (short : Bool) :
    D.Keeps m (junction op short x y) D.Good := by
  refine hx.bind ?_
  intro m' v hstep _
  split
  · split
    · exact Discipline.keeps_give ((D.closed m').bool _)
    · refine (hy.later hstep).bind ?_
      intro m'' w _ _
      split
      · exact Discipline.keeps_give ((D.closed m'').bool _)
      · exact Discipline.keeps_fail _
  · exact Discipline.keeps_fail _

theorem operation_keeps (op : BinaryOp) : D.Keeps m (operation op x y) D.Good := by
  unfold operation
  split
  · exact junction_keeps hx hy _ _
  · exact junction_keeps hx hy _ _
  · refine hx.bind ?_
    intro m' v hstep hv
    refine (hy.later hstep).bind ?_
    intro m'' w hstep' hw
    have hv' := D.lasting hstep' hv
    exact Discipline.keeps_result fun _ => (D.closed m'').binary hv' hw

end

theorem counted_inv {n : Option Int64} {v : Value} (h : counted n = .ok v) : ∃ i, v = .int i := by
  cases n with
  | none => cases h
  | some i =>
    cases h
    exact ⟨i, rfl⟩

theorem lengthOf_keeps (v : Value) : D.Keeps m (lengthOf v) D.Good := by
  unfold lengthOf
  split
  · refine Discipline.keeps_result ?_
    intro w hw
    obtain ⟨i, rfl⟩ := counted_inv hw
    exact (D.closed m).int i
  · exact Discipline.keeps_fail _

section
variable (ha : D.Admits) {place : EvalM Place} (hplace : D.Keeps m place D.GoodPath)
include ha hplace

theorem assignment_keeps {value : EvalM Value} (hvalue : D.Keeps m value D.Good)
    (op : Option BinaryOp) : D.Keeps m (assignment op place value) D.Good := by
  refine hplace.bind ?_
  intro m' p hstep hp
  refine (hvalue.later hstep).bind ?_
  intro m'' v hstep' hv
  have hp' : D.GoodPath m'' p := hp.later hstep'
  cases op with
  | none => exact ha.store hp' hv
  | some op =>
    refine (readPlace_keeps p).bind ?_
    intro m₃ old hstep₃ hold
    have hv₃ := D.lasting hstep₃ hv
    refine (Discipline.keeps_result fun _ => (D.closed m₃).binary hold hv₃).bind ?_
    intro m₄ new hstep₄ hnew
    exact ha.store ((hp'.later hstep₃).later hstep₄) hnew

theorem appending_keeps {more : EvalM (List Value)} (hmore : D.Keeps m more D.AllGood) :
    D.Keeps m (appending place more) D.Good := by
  refine hplace.bind ?_
  intro m' p hstep hp
  refine (hmore.later hstep).bind ?_
  intro m'' vs hstep' hvs
  exact ha.extend (hp.later hstep') hvs

theorem methodCall_keeps {base : EvalM Value} (hbase : D.Keeps m base D.Good)
    {args : EvalM (List Value)} (hargs : D.Keeps m args D.AllGood) (name : String) (count : Nat) :
    D.Keeps m (methodCall name base place count args) D.Good := by
  unfold methodCall
  split
  · split
    · refine hbase.bind ?_
      intro m' v _ _
      exact lengthOf_keeps v
    · exact Discipline.keeps_fail _
  split
  · split
    · exact Discipline.keeps_fail _
    · exact appending_keeps ha hplace hargs
  · refine hbase.bind ?_
    intro _ _ _ _
    exact Discipline.keeps_fail _

end

/-! ## Expressions -/

section
variable {r : Registry} {ctx : Context} {call : Command → List Value → EvalM Value}
  (ha : D.Admits) (hcall : ∀ m c args, D.AllGood m args → D.Keeps m (call c args) D.Good)
include ha hcall

mutual

theorem eval_keeps {m : Machine} (hargs : D.AllGood m ctx.args) :
    ∀ e : Expr, D.Keeps m (eval r ctx call e) D.Good
  | .int i => by
    rw [eval]
    exact Discipline.keeps_give ((D.closed m).int i)
  | .dbl d => by
    rw [eval]
    exact Discipline.keeps_give ((D.closed m).dbl d)
  | .bool b => by
    rw [eval]
    exact Discipline.keeps_give ((D.closed m).bool b)
  | .char c => by
    rw [eval]
    exact Discipline.keeps_give ((D.closed m).char c)
  | .str s => by
    rw [eval]
    exact Discipline.keeps_give ((D.closed m).ofString s)
  | .list items => by
    rw [eval]
    refine (evalAll_keeps hargs items).bind ?_
    intro m' vs _ hvs
    exact Discipline.keeps_result fun _ => (D.closed m').listOf hvs
  | .var ref => by
    rw [eval]
    exact readVar_keeps hargs ref
  | .unary op operand => by
    rw [eval]
    refine (eval_keeps hargs operand).bind ?_
    intro m' v _ hv
    exact Discipline.keeps_result fun _ => (D.closed m').unary hv
  | .binary op lhs rhs => by
    by_cases hop : op = .pipeline
    · subst hop
      rw [eval]
      refine (eval_keeps hargs lhs).bind ?_
      intro m' v hstep hv
      exact evalStage_keeps (hargs.later hstep) hv ((eval_keeps hargs rhs).later hstep) rhs
    · rw [eval]
      · exact operation_keeps (eval_keeps hargs lhs) (eval_keeps hargs rhs) op
      · exact hop
  | .assign op place value => by
    rw [eval]
    exact assignment_keeps ha (placeOf_keeps hargs place) (eval_keeps hargs value) op
  | .ternary cond yes no => by
    rw [eval]
    refine (eval_keeps hargs cond).bind ?_
    intro m' v hstep _
    split
    · exact (eval_keeps hargs yes).later hstep
    · exact (eval_keeps hargs no).later hstep
    · exact Discipline.keeps_fail _
  | .comparison [] ops => by
    rw [eval]
    exact Discipline.keeps_give ((D.closed m).bool true)
  | .comparison (first :: others) ops => by
    rw [eval]
    refine (eval_keeps hargs first).bind ?_
    intro m' v hstep _
    exact (evalChain_keeps (hargs.later hstep) others v ops)
  | .call callee args => by
    by_cases hm : ∃ base name, callee = .member base name
    · obtain ⟨base, name, rfl⟩ := hm
      rw [eval]
      exact methodCall_keeps ha (placeOf_keeps hargs base) (eval_keeps hargs base)
        (evalAll_keeps hargs args) name args.length
    · rw [eval]
      · refine (eval_keeps hargs callee).bind ?_
        intro m' f hstep _
        refine ((evalAll_keeps hargs args).later hstep).bind ?_
        intro m'' vs _ hvs
        exact applyTo_keeps hcall f hvs
      · intro base name h
        exact hm ⟨base, name, h⟩
  | .subscript base index => by
    rw [eval]
    refine (eval_keeps hargs base).bind ?_
    intro m' v hstep hv
    refine ((eval_keeps hargs index).later hstep).bind ?_
    intro m'' i hstep' _
    exact Discipline.keeps_result fun _ => (D.closed m'').subscript (D.lasting hstep' hv)
  | .slice base start stop => by
    rw [eval]
    refine (eval_keeps hargs base).bind ?_
    intro m' v hstep hv
    refine ((evalBound_keeps hargs start).later hstep).bind ?_
    intro m'' lo hstep' _
    refine (((evalBound_keeps hargs stop).later hstep).later hstep').bind ?_
    intro m₃ hi hstep₃ _
    exact Discipline.keeps_result fun _ =>
      (D.closed m₃).slice (D.lasting hstep₃ (D.lasting hstep' hv))
  | .member base name => by
    rw [eval]
    exact Discipline.keeps_fail _
termination_by e => sizeOf e

theorem evalStage_keeps {m : Machine} (hargs : D.AllGood m ctx.args) {value : Value}
    (hvalue : D.Good m value) {plain : EvalM Value} (hplain : D.Keeps m plain D.Good) :
    ∀ e : Expr, D.Keeps m (evalStage r ctx call value plain e) D.Good
  | .call callee args => by
    by_cases hm : ∃ base name, callee = .member base name
    · obtain ⟨base, name, rfl⟩ := hm
      rw [evalStage]
      exact applied_keeps hcall hvalue hplain
    · rw [evalStage]
      · refine (eval_keeps hargs callee).bind ?_
        intro m' f hstep hf
        refine ((evalAll_keeps hargs args).later hstep).bind ?_
        intro m'' vs hstep' hvs
        have hvalue' := D.lasting hstep' (D.lasting hstep hvalue)
        exact applyTo_keeps hcall f (D.allGood_cons hvalue' hvs)
      · intro base name h
        exact hm ⟨base, name, h⟩
  | .int _ | .dbl _ | .bool _ | .char _ | .str _ | .list _ | .var _ | .unary _ _ | .binary _ _ _
  | .assign _ _ _ | .ternary _ _ _ | .comparison _ _ | .subscript _ _ | .slice _ _ _
  | .member _ _ => by
    rw [evalStage]
    · exact applied_keeps hcall hvalue hplain
    all_goals simp
termination_by e => sizeOf e

theorem evalAll_keeps {m : Machine} (hargs : D.AllGood m ctx.args) :
    ∀ es : List Expr, D.Keeps m (evalAll r ctx call es) D.AllGood
  | [] => by
    rw [evalAll]
    exact Discipline.keeps_pure fun m' _ _ => D.allGood_nil m'
  | e :: es => by
    rw [evalAll]
    refine (eval_keeps hargs e).bind ?_
    intro m' v hstep hv
    refine ((evalAll_keeps hargs es).later hstep).bind ?_
    intro m'' vs hstep' hvs
    refine Discipline.keeps_pure ?_
    intro m₃ hstep₃ _
    exact (D.allGood_cons (D.lasting hstep' hv) hvs).later hstep₃
termination_by es => sizeOf es

theorem evalBound_keeps {m : Machine} (hargs : D.AllGood m ctx.args) :
    ∀ o : Option Expr, D.Keeps m (evalBound r ctx call o) fun _ _ => True
  | none => by
    rw [evalBound]
    exact Discipline.keeps_pure fun _ _ _ => trivial
  | some e => by
    rw [evalBound]
    refine (eval_keeps hargs e).bind ?_
    intro _ _ _ _
    exact Discipline.keeps_pure fun _ _ _ => trivial
termination_by o => sizeOf o

theorem evalChain_keeps {m : Machine} (hargs : D.AllGood m ctx.args) :
    ∀ (es : List Expr) (lhs : Value) (ops : List CompareOp),
      D.Keeps m (evalChain r ctx call lhs es ops) D.Good
  | [], lhs, ops => by
    rw [evalChain]
    · exact Discipline.keeps_give ((D.closed m).bool true)
    · intro _ _ _ _ h
      cases h
  | e :: es, lhs, [] => by
    rw [evalChain]
    · exact Discipline.keeps_give ((D.closed m).bool true)
    · intro _ _ _ _ _ h
      cases h
  | e :: es, lhs, op :: ops => by
    rw [evalChain]
    refine (eval_keeps hargs e).bind ?_
    intro m' rhs hstep _
    refine (Discipline.keeps_lift (Q := fun _ _ => True) fun _ _ _ _ _ => trivial).bind ?_
    intro m'' holds hstep' _
    split
    · exact evalChain_keeps ((hargs.later hstep).later hstep') es rhs ops
    · exact Discipline.keeps_give ((D.closed m'').bool false)
termination_by es => sizeOf es

theorem placeOf_keeps {m : Machine} (hargs : D.AllGood m ctx.args) :
    ∀ e : Expr, D.Keeps m (placeOf r ctx call e) D.GoodPath
  | .subscript base index => by
    rw [placeOf]
    refine (placeOf_keeps hargs base).bind ?_
    intro m' place hstep hplace
    refine ((eval_keeps hargs index).later hstep).bind ?_
    intro m'' i hstep' hi
    refine Discipline.keeps_pure ?_
    intro m₃ hstep₃ _ v hv
    rcases List.mem_append.mp hv with hv | hv
    · exact D.lasting hstep₃ (D.lasting hstep' (hplace v hv))
    · rw [List.mem_singleton] at hv
      subst hv
      exact D.lasting hstep₃ hi
  | .var (.name name) => by
    rw [placeOf]
    exact globalPlace_keeps hargs name
  | .var (.arg _) | .var (.context _) | .int _ | .dbl _ | .bool _ | .char _ | .str _ | .list _
  | .unary _ _ | .binary _ _ _ | .assign _ _ _ | .ternary _ _ _ | .comparison _ _ | .call _ _
  | .slice _ _ _ | .member _ _ => by
    rw [placeOf]
    all_goals first | exact Discipline.keeps_fail _ | simp
termination_by e => sizeOf e

end

end

/-! ## Commands and calls -/

section
variable {evaluate : List Char → EvalM (Option Value)}
  (hevaluate : ∀ source, D.Keeps m (evaluate source) fun _ _ => True)
include hevaluate

theorem sayWord_keeps (word : String) :
    D.Keeps m (sayWord evaluate word) fun _ o =>
      ∃ texts : List (List Char), o.toList = texts.map .ofChars := by
  unfold sayWord
  split
  · rename_i text _
    exact Discipline.keeps_pure fun _ _ _ => ⟨[text], rfl⟩
  · rename_i source _
    refine (hevaluate source).bind ?_
    intro m' o _ _
    cases o with
    | none => exact Discipline.keeps_pure fun _ _ _ => ⟨[], rfl⟩
    | some v => exact Discipline.keeps_pure fun _ _ _ => ⟨[v.message.toList], rfl⟩

/-- whatever its expressions do, a command with words says texts -/
theorem sayWords_keeps (words : List String) :
    D.Keeps m (sayWords evaluate words) fun _ vs =>
      ∃ texts : List (List Char), vs = texts.map .ofChars := by
  induction words generalizing m with
  | nil => exact Discipline.keeps_pure fun _ _ _ => ⟨[], rfl⟩
  | cons word words ih =>
    rw [sayWords]
    refine (sayWord_keeps hevaluate word).bind ?_
    intro m' said hstep hs
    refine (ih fun source => (hevaluate source).later hstep).bind ?_
    intro m'' others _ ho
    obtain ⟨texts, hs⟩ := hs
    obtain ⟨more, ho⟩ := ho
    refine Discipline.keeps_pure fun _ _ _ => ⟨texts ++ more, ?_⟩
    rw [hs, ho, List.map_append]

theorem runBody_keeps {ctx : Context} (hargs : D.AllGood m ctx.args) {c : Command}
    (hrecord : D.Keeps m (EvalM.record c ctx.depth) fun _ _ => True) :
    D.Keeps m (runBody evaluate ctx c) D.GoodIfAny := by
  refine hrecord.bind ?_
  intro m' _ hstep _
  split
  · rename_i words _
    refine (sayWords_keeps (fun source => (hevaluate source).later hstep) words).bind ?_
    intro m'' vs _ hvs
    obtain ⟨texts, rfl⟩ := hvs
    refine Discipline.keeps_pure ?_
    intro m₃ _ _ v hv
    cases hv
    exact (D.closed m₃).texts texts
  · refine Discipline.keeps_pure ?_
    intro m'' hstep' _ v hv
    exact (D.closed m'').primitive ((hargs.later hstep).later hstep') hv
  · refine Discipline.keeps_pure ?_
    intro m'' hstep' _ v hv
    obtain ⟨candidate, _, hv⟩ := Option.bind_eq_some_iff.mp hv
    exact (D.closed m'').primitive ((hargs.later hstep).later hstep') hv

end

theorem argsFor_good {c : Command} {args args' : List Value} (hargs : D.AllGood m args)
    (h : argsFor c args = .ok args') : D.AllGood m args' := by
  unfold argsFor at h
  split at h
  · cases h
    intro v hv
    obtain ⟨w, _, rfl⟩ := List.mem_map.mp hv
    exact (D.closed m).ofString w.raw
  · cases h
    exact hargs
  · dsimp only at h
    split at h
    · cases h
      exact hargs
    · cases h

section
variable {r : Registry} (ha : D.Admits)
include ha

theorem evalSource_keeps {ctx : Context} (hargs : D.AllGood m ctx.args)
    {call : Command → List Value → EvalM Value}
    (hcall : ∀ m c args, D.AllGood m args → D.Keeps m (call c args) D.Good) (source : List Char) :
    D.Keeps m (evalSource r ctx call source) fun _ _ => True := by
  unfold evalSource
  split
  · rename_i e _
    exact (eval_keeps ha hcall hargs e).attempt.weaken fun _ _ _ => trivial
  · exact Discipline.keeps_pure fun _ _ _ => trivial

/-- **A call keeps to a discipline** that allows commands at the depths that it can reach. -/
theorem invoke_keeps {levels : Nat} {ctx : Context}
    (hrun : D.Runs ctx.depth (ctx.depth + levels)) (c : Command) {args : List Value}
    (hargs : D.AllGood m args) : D.Keeps m (invoke r levels ctx c args) D.Good := by
  induction levels generalizing m ctx c args with
  | zero =>
    rw [invoke]
    exact ha.inTime (Discipline.keeps_fail _) ctx
  | succ levels ih =>
    rw [invoke]
    refine ha.inTime ?_ ctx
    refine (Discipline.keeps_lift (Q := D.AllGood) ?_).bind ?_
    · intro args' hargs' m' hstep _
      exact (argsFor_good hargs hargs').later hstep
    intro m' args' hstep hargs'
    have hrun' : D.Runs (ctx.nested args').depth ((ctx.nested args').depth + levels) := by
      intro m c depth hlow hhigh
      have hdepth : (ctx.nested args').depth = ctx.depth + 1 := rfl
      exact hrun m c depth (by omega) (by omega)
    have hcall : ∀ m c args, D.AllGood m args →
        D.Keeps m (invoke r levels (ctx.nested args') c args) D.Good :=
      fun _ c _ hargs => ih hrun' c hargs
    have hrecord := hrun m' c (ctx.depth + 1) (by omega) (by omega)
    refine (runBody_keeps (evalSource_keeps ha hargs' hcall) hargs' hrecord).bind ?_
    intro m'' o _ ho
    cases o with
    | none => exact Discipline.keeps_fail _
    | some v => exact Discipline.keeps_give (ho v rfl)

/-! ## In a context -/

variable {ctx : Context} (hrun : D.Runs ctx.depth (ctx.depth + levelsBelow ctx))
  (hargs : D.AllGood m ctx.args)
include hrun hargs

theorem evalIn_keeps (e : Expr) : D.Keeps m (evalIn r ctx e) D.Good :=
  eval_keeps ha (fun _ c _ hargs => invoke_keeps ha hrun c hargs) hargs e

theorem runIn_keeps {c : Command}
    (hrecord : D.Keeps m (EvalM.record c ctx.depth) fun _ _ => True) :
    D.Keeps m (runIn r ctx c) D.GoodIfAny :=
  runBody_keeps (evalSource_keeps ha hargs fun _ c _ hargs => invoke_keeps ha hrun c hargs) hargs
    hrecord

end

end Parlance.Eval
