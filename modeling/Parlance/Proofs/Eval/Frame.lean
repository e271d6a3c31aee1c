import Parlance.Proofs.Eval.Account

/-!
# What evaluation leaves alone

Evaluation reads the registry and writes values of globals.  It binds a global only where one is bound
already:

* `Table.SameNames t t'`      two tables bind the same names;
* `Session.SameFrame s s'`    two sessions have the same registry and globals of the same names;
* `sameFrame_evaluateExpr`    so have the sessions before and after the evaluation of an expression;
* `sameFrame_run`             and those before and after a command was run.
-/

namespace Parlance

namespace Table

variable {α : Type}

def SameNames (t t' : Table α) : Prop := ∀ name, t'.contains name = t.contains name

theorem SameNames.refl (t : Table α) : t.SameNames t := fun _ => rfl

theorem SameNames.trans {t t' t'' : Table α} (h : t.SameNames t') (h' : t'.SameNames t'') :
    t.SameNames t'' := fun name => (h' name).trans (h name)

/-- a new value for a name that is bound -/
theorem sameNames_insert {t : Table α} {name : String} {a : α} (h : t.get? name = some a) (b : α) :
    t.SameNames (t.insert name b) := by
  intro other
  rw [contains_insert]
  by_cases hname : name = other
  · subst hname
    simp [contains, h]
  · simp [hname]

end Table

def Discipline.sameNames : Discipline where
  Sound _ := True
  Step m m' := m.globals.SameNames m'.globals
  Good _ _ := True
  refl m := .refl m.globals
  trans := Table.SameNames.trans
  lasting _ _ := trivial
  closed _ := closed_true
  global _ _ := trivial

namespace Discipline

variable {m : Machine}

theorem sameNames_of_step {α : Type} {x : EvalM α}
    (h : ∀ m : Machine, m.globals.SameNames (x m).2.globals) :
    sameNames.Keeps m x fun _ _ => True := by
  intro m' _ _
  exact ⟨trivial, h m', fun _ _ => trivial⟩

theorem sameNames_record (c : Command) (depth : Nat) :
    sameNames.Keeps m (EvalM.record c depth) fun _ _ => True :=
  sameNames_of_step fun m => .refl m.globals

theorem sameNames_admits : sameNames.Admits where
  store {_ place v} _ _ := by
    refine sameNames_of_step fun m => ?_
    rcases Eval.store_cases place v m with ⟨e, h⟩ | ⟨whole, old, hwhole, -, -, h⟩
    · rw [h]
      exact .refl m.globals
    · rw [h]
      exact Table.sameNames_insert hwhole _
  extend {_ place vs} _ _ := by
    refine sameNames_of_step fun m => ?_
    rcases Eval.extend_cases place vs m with ⟨e, h⟩ | ⟨whole, elem, items, longer, hwhole, -, -, h⟩
    · rw [h]
      exact .refl m.globals
    · rw [h]
      exact Table.sameNames_insert hwhole _
  read _ := sameNames_of_step fun m => .refl m.globals

theorem sameNames_runs (low high : Nat) : sameNames.Runs low high :=
  fun _ c depth _ _ => sameNames_record c depth

end Discipline

namespace Session

/-- the same registry, and globals of the same names -/
def SameFrame (s s' : Session) : Prop :=
  s'.registry = s.registry ∧ s.globals.SameNames s'.globals

variable (s : Session) (ctx : Context)

theorem SameFrame.refl : s.SameFrame s := ⟨rfl, .refl s.globals⟩

theorem sameFrame_perform {α : Type} {x : EvalM α} {Q : Machine → α → Prop}
    (h : Discipline.sameNames.Keeps (.start s.globals) x Q) :
    s.SameFrame (s.perform x).session := by
  obtain ⟨-, hstep, -⟩ := h _ (Discipline.sameNames.refl _) trivial
  exact ⟨rfl, hstep⟩

theorem sameFrame_evaluateExpr (e : Expr) : s.SameFrame (s.evaluateExpr ctx e).session :=
  sameFrame_perform s (Eval.evalIn_keeps Discipline.sameNames_admits
    (Discipline.sameNames_runs _ _) (fun _ _ => trivial) e)

theorem sameFrame_evaluate (text : String) : s.SameFrame (s.evaluate ctx text).session := by
  unfold evaluate
  split
  · exact .refl s
  · exact sameFrame_evaluateExpr s ctx _

theorem sameFrame_run (c : Command) : s.SameFrame (s.run ctx c).session :=
  sameFrame_perform s (Eval.runIn_keeps Discipline.sameNames_admits
    (Discipline.sameNames_runs _ _) (fun _ _ => trivial) (Discipline.sameNames_record c ctx.depth))

end Session

end Parlance
