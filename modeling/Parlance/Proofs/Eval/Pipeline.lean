import Parlance.Proofs.Eval.Depth
import Parlance.Proofs.Eval.Frame

/-!
# Pipelines

A stage of a pipeline gets the value that comes out of the stage before as its first argument.  So a
pipeline is one application around the other, except for the order: a pipeline looks up a function
when the value for it is there, and an application before that.  No evaluation binds a name that is
not bound, so both find the same function.

* `Stage`             the name of a function and, unless it stands there alone, the other arguments;
* `Expr.pipe e st`, `Expr.apply e st`   the last stage of a pipeline, and the function applied;
* `Agree r ctx t e e'`   two expressions mean the same wherever the names are bound that `t` binds;
* `Agree.stage`       then so do a stage behind the one and a function applied to the other;
* `pipeline_nested`   so pipelines are nested applications, by induction on the stages.
-/

namespace Parlance

/-- the name of a function and, unless the name stands there alone, the other arguments for it -/
structure Stage where
  name : String
  args : Option (List Expr)

/-- what a stage is in a pipeline -/
def Stage.expr (st : Stage) : Expr :=
  match st.args with
  | none => .var (.name st.name)
  | some args => .call (.var (.name st.name)) args

namespace Expr

/-- `e |> f` or `e |> f(..)` -/
def pipe (e : Expr) (st : Stage) : Expr := .binary .pipeline e st.expr

/-- `f(e)` or `f(e, ..)` -/
def apply (e : Expr) (st : Stage) : Expr := .call (.var (.name st.name)) (e :: st.args.getD [])

end Expr

namespace Eval

open Parlance.EvalM Parlance.Expr

variable {r : Registry} {ctx : Context} {t : Table Value} {st : Stage} {c : Command} {m : Machine}

/-- Evaluation binds no other names. -/
theorem names_evalIn (e : Expr) (h : t.SameNames m.globals) :
    t.SameNames (evalIn r ctx e m).2.globals := by
  have hkeeps : Discipline.sameNames.Keeps m (evalIn r ctx e) fun _ _ => True :=
    evalIn_keeps Discipline.sameNames_admits (Discipline.sameNames_runs _ _) (fun _ _ => trivial) e
  obtain ⟨-, hstep, -⟩ := hkeeps m (Discipline.sameNames.refl m) trivial
  exact h.trans hstep

/-! ## One stage -/

/-- What a stage comes to for a value, once its name is known to stand for this command. -/
def applied (r : Registry) (ctx : Context) (c : Command) (st : Stage) (v : Value) :
    EvalM Value := do
  let vs ← evalAll r ctx (invoke r (levelsBelow ctx) ctx) (st.args.getD [])
  invoke r (levelsBelow ctx) ctx c (v :: vs)

theorem eval_callee (call : Command → List Value → EvalM Value) {name : String}
    (hc : callable? r name = some c) (hname : t.get? name = none) (hm : t.SameNames m.globals) :
    eval r ctx call (.var (.name name)) m = (.ok (.function c), m) := by
  have hfree : m.globals.get? name = none := by
    refine Table.get?_eq_none_of_contains ?_
    rw [hm name, Table.contains, hname, Option.isSome_none]
  exact eval_callable hfree hc ctx call

variable (hc : callable? r st.name = some c) (hname : t.get? st.name = none)
include hc hname

/-- A stage with the value that comes out of the stages before it. -/
theorem evalStage_eq_applied (hm : t.SameNames m.globals) (v : Value) :
    evalStage r ctx (invoke r (levelsBelow ctx) ctx) v (evalIn r ctx st.expr) st.expr m =
      applied r ctx c st v m := by
  obtain ⟨name, _ | args⟩ := st
  · exact bind_eq_of_ok (eval_callee _ hc hname hm)
  · exact bind_eq_of_ok (eval_callee _ hc hname hm)

theorem evalIn_pipe (e : Expr) (hm : t.SameNames m.globals) :
    evalIn r ctx (e.pipe st) m = (evalIn r ctx e >>= applied r ctx c st) m := by
  have hlater : t.SameNames (evalIn r ctx e m).2.globals := names_evalIn e hm
  rw [pipe, evalIn, eval]
  rcases he : evalIn r ctx e m with ⟨err | v, m'⟩
  · rw [bind_eq_of_error he]
    exact bind_eq_of_error he
  · rw [he] at hlater
    rw [bind_eq_of_ok he, ← evalStage_eq_applied hc hname hlater v]
    exact bind_eq_of_ok he

theorem evalIn_apply (e : Expr) (hm : t.SameNames m.globals) :
    evalIn r ctx (e.apply st) m = (evalIn r ctx e >>= applied r ctx c st) m := by
  rw [apply, evalIn, eval, bind_eq_of_ok (eval_callee _ hc hname hm), evalAll, bind_assoc]
  · simp only [bind_assoc, pure_bind]
    rfl
  · exact fun _ _ => Expr.noConfusion

omit hc hname

/-! ## All stages -/

/-- The expressions mean the same wherever the names are bound that `t` binds. -/
def Agree (r : Registry) (ctx : Context) (t : Table Value) (e e' : Expr) : Prop :=
  ∀ m : Machine, t.SameNames m.globals → evalIn r ctx e m = evalIn r ctx e' m

theorem Agree.refl (e : Expr) : Agree r ctx t e e := fun _ _ => rfl

include hc hname in
theorem Agree.stage {e e' : Expr} (h : Agree r ctx t e e') :
    Agree r ctx t (e.pipe st) (e'.apply st) := by
  intro m hm
  rw [evalIn_pipe hc hname e hm, evalIn_apply hc hname e' hm, bind_apply, bind_apply, h m hm]

theorem Agree.stages {stages : List Stage}
    (h : ∀ st ∈ stages, t.get? st.name = none ∧ ∃ c, callable? r st.name = some c) {e e' : Expr}
    (he : Agree r ctx t e e') : Agree r ctx t (stages.foldl pipe e) (stages.foldl apply e') := by
  induction stages generalizing e e' with
  | nil => exact he
  | cons st stages ih =>
    obtain ⟨⟨hname, c, hc⟩, hstages⟩ := List.forall_mem_cons.mp h
    exact ih hstages (he.stage hc hname)

end Eval

namespace Session

/-- **A pipeline is nested application.**  If the name of no stage is bound to a global, and each
stands for a function or command, then the functions applied one around the other come to the same
outcome: the same value or error, the same globals, the same commands run in the same order. -/
theorem pipeline_nested (s : Session) (ctx : Context) (x : Expr) {stages : List Stage}
    (h : ∀ st ∈ stages, s.globals.get? st.name = none ∧
      ∃ c, Eval.callable? s.registry st.name = some c) :
    s.evaluateExpr ctx (stages.foldl Expr.pipe x) =
      s.evaluateExpr ctx (stages.foldl Expr.apply x) := by
  have hagree : Eval.Agree s.registry ctx s.globals (stages.foldl Expr.pipe x)
      (stages.foldl Expr.apply x) := .stages h (.refl x)
  rw [evaluateExpr, perform, hagree (.start s.globals) (.refl s.globals)]
  rfl

/-- a command that tells what it was told first, and how long a global is -/
def note : Command := ⟨"note", .words ["\\$0", "\\g.len()"]⟩

def noting : Session :=
  ⟨(Registry.fresh.insertCommand note).2, .insert .empty "g" (.list .int [])⟩

/-- `g.append(i)` -/
def appended (i : Int64) : Expr := .call (.member (.var (.name "g")) "append") [.int i]

/-- the stages of `.. |> note(g.append(8)) |> len` -/
def notingStages : List Stage := [⟨"note", some [appended 8]⟩, ⟨"len", none⟩]

/-- Arguments that change a global do so in the pipeline and in the nested calls alike: the list there
gets longer for the first one, and then for the second. -/
theorem noting_nested :
    let piped := noting.evaluateExpr outermost (notingStages.foldl Expr.pipe (appended 7))
    (∀ st ∈ notingStages, noting.globals.get? st.name = none ∧
      ∃ c, Eval.callable? noting.registry st.name = some c) ∧
    piped = noting.evaluateExpr outermost (.call (.var (.name "len"))
      [.call (.var (.name "note")) [appended 7, appended 8]]) ∧
    piped.result.map Value.raw = .ok "2" ∧
    (piped.session.globals.get? "g").map Value.raw = some "[7, 8]" ∧
    piped.calls.map (·.command.name) = ["len", "note"] := by
  have hstages : ∀ st ∈ notingStages, noting.globals.get? st.name = none ∧
      ∃ c, Eval.callable? noting.registry st.name = some c := by
    refine List.forall_mem_cons.mpr ⟨⟨rfl, note, by decide +kernel⟩, ?_⟩
    exact List.forall_mem_singleton.mpr ⟨rfl, _, rfl⟩
  refine ⟨hstages, pipeline_nested noting outermost (appended 7) hstages, ?_, ?_, ?_⟩ <;>
    decide +kernel

end Session

end Parlance
