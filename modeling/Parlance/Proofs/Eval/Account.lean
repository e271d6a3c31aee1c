import Parlance.Proofs.Eval.Fundamental
import Parlance.Proofs.Eval.Writing
import Parlance.Session

/-!
# The account of what was run

* `Discipline.running P`   only commands with `P` are run;
* `Invocation.Below`       a command was run inside a context, within the levels allowed there;
* `below_of_evaluate`      all that an expression runs is below its context;
* `below_of_run`           running a command runs that command first, and then commands below it.
-/

namespace Parlance

def Discipline.running (P : Invocation → Prop) : Discipline where
  Sound _ := True
  Step m m' := ∃ new, m'.calls = new ++ m.calls ∧ ∀ inv ∈ new, P inv
  Good _ _ := True
  refl m := ⟨[], rfl, fun _ h => by cases h⟩
  trans := by
    rintro a b c ⟨new, h1, h2⟩ ⟨newer, h3, h4⟩
    refine ⟨newer ++ new, by rw [h3, h1, List.append_assoc], ?_⟩
    intro inv hinv
    rcases List.mem_append.mp hinv with hinv | hinv
    · exact h4 inv hinv
    · exact h2 inv hinv
  lasting _ _ := trivial
  closed _ := closed_true
  global _ _ := trivial

namespace Discipline

variable {P : Invocation → Prop} {m : Machine}

theorem running_of_calls {α : Type} {x : EvalM α} (h : ∀ m, (x m).2.calls = m.calls) :
    (running P).Keeps m x fun _ _ => True := by
  intro m' _ _
  exact ⟨trivial, ⟨[], h m', fun _ h => by cases h⟩, fun _ _ => trivial⟩

theorem running_record {c : Command} {depth : Nat} (h : P ⟨c, depth⟩) :
    (running P).Keeps m (EvalM.record c depth) fun _ _ => True := by
  intro m' _ _
  refine ⟨trivial, ⟨[⟨c, depth⟩], rfl, ?_⟩, fun _ _ => trivial⟩
  intro inv hinv
  rw [List.mem_singleton] at hinv
  exact hinv ▸ h

theorem running_admits : (running P).Admits where
  store {_ place v} _ _ := running_of_calls fun m => (Eval.account_store place v m).1
  extend {_ place vs} _ _ := running_of_calls fun m => (Eval.account_extend place vs m).1
  read _ := running_of_calls fun _ => rfl

end Discipline

/-- a command was run inside the context, within the levels of calls allowed there -/
def Invocation.Below (ctx : Context) (inv : Invocation) : Prop :=
  ctx.depth < inv.depth ∧ inv.depth ≤ ctx.depth + Eval.levelsBelow ctx

namespace Session

variable (s : Session) (ctx : Context)

theorem calls_of_perform {P : Invocation → Prop} {α : Type} {x : EvalM α}
    {Q : Machine → α → Prop}
    (h : (Discipline.running P).Keeps (.start s.globals) x Q) :
    ∀ inv ∈ (s.perform x).calls, P inv := by
  obtain ⟨-, ⟨new, hnew, hP⟩, -⟩ := h _ (Discipline.refl _ _) trivial
  have hcalls : (s.perform x).calls = new := by
    show (x (.start s.globals)).2.calls = new
    rw [hnew]
    exact List.append_nil new
  rw [hcalls]
  exact hP

theorem below_of_evaluateExpr (e : Expr) :
    ∀ inv ∈ (s.evaluateExpr ctx e).calls, inv.Below ctx := by
  refine calls_of_perform s (Eval.evalIn_keeps Discipline.running_admits ?_ ?_ e)
  · intro m c depth hlow hhigh
    exact Discipline.running_record ⟨hlow, hhigh⟩
  · exact fun _ _ => trivial

theorem below_of_evaluate (text : String) :
    ∀ inv ∈ (s.evaluate ctx text).calls, inv.Below ctx := by
  unfold evaluate
  split
  · intro inv hinv
    cases hinv
  · exact below_of_evaluateExpr s ctx _

theorem below_of_run (c : Command) :
    ∀ inv ∈ (s.run ctx c).calls, inv = ⟨c, ctx.depth⟩ ∨ inv.Below ctx := by
  refine calls_of_perform s (Eval.runIn_keeps Discipline.running_admits ?_ ?_ ?_)
  · intro m c depth hlow hhigh
    exact Discipline.running_record (.inr ⟨hlow, hhigh⟩)
  · exact fun _ _ => trivial
  · exact Discipline.running_record (.inl rfl)

/-! ## The registry -/

theorem registry_evaluate (text : String) :
    (s.evaluate ctx text).session.registry = s.registry := by
  unfold evaluate
  split
  · rfl
  · rfl

end Session

end Parlance
