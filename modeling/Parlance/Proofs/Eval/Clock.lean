import Mathlib.Order.Monotone.Basic
import Parlance.Proofs.Eval.Account

/-!
# Runs that are cut off

A call that comes too late is refused, and so is every call after it.  But evaluation need not end
there: a command whose word has come to nothing goes on with the next word, and what that writes is
written:

* `Context.outOfTime_mono`   time that is used up stays so;
* `Discipline.overtime`      where it is used up, nothing is run any more;
* `idle_of_outOfTime`        so whatever is still evaluated then only reads and writes globals.
-/

namespace Parlance

namespace Clock

variable (clock : Clock)

theorem elapsed_mono : Monotone clock.elapsed := monotone_nat_of_le_succ clock.forward

theorem late_mono {n k : Nat} (h : n ≤ k) (hlate : clock.late n = true) : clock.late k = true := by
  rw [late_iff] at hlate ⊢
  exact Nat.lt_of_lt_of_le hlate (clock.elapsed_mono h)

/-- the clock that jumps past the limit at the reading `n` -/
def lateFrom (n : Nat) : Clock where
  elapsed k := if k < n then 0 else timeLimit * 1000000 + 1
  forward k := by
    split
    · exact Nat.zero_le _
    · rw [if_neg (by omega)]

end Clock

/-- Time that is used up stays so. -/
theorem Context.outOfTime_mono {ctx : Context} {n k : Nat} (h : n ≤ k)
    (hout : ctx.outOfTime n = true) : ctx.outOfTime k = true := by
  rw [outOfTime, Bool.or_eq_true] at hout ⊢
  exact hout.imp_right (ctx.clock.late_mono h)

/-- where the time is used up, nothing is run any more -/
def Discipline.overtime (ctx : Context) : Discipline where
  Sound m := ctx.outOfTime m.readings = true
  Step m m' := m'.calls = m.calls
  Good _ _ := True
  refl _ := rfl
  trans h h' := h'.trans h
  lasting _ _ := trivial
  closed _ := closed_true
  global _ _ := trivial

namespace Discipline

variable {ctx : Context} {m : Machine}

theorem overtime_of_account {α : Type} {x : EvalM α}
    (h : ∀ m, (x m).2.calls = m.calls ∧ m.readings ≤ (x m).2.readings) :
    (overtime ctx).Keeps m x fun _ _ => True := by
  intro m' _ hsound
  exact ⟨Context.outOfTime_mono (h m').2 hsound, (h m').1, fun _ _ => trivial⟩

theorem overtime_admits : (overtime ctx).Admits where
  store {_ place v} _ _ := overtime_of_account fun m =>
    ⟨(Eval.account_store place v m).1, (Eval.account_store place v m).2.ge⟩
  extend {_ place vs} _ _ := overtime_of_account fun m =>
    ⟨(Eval.account_extend place vs m).1, (Eval.account_extend place vs m).2.ge⟩
  read _ := overtime_of_account fun m => ⟨rfl, Nat.le_succ m.readings⟩

end Discipline

namespace Eval

variable {r : Registry} {ctx : Context} {m : Machine}

theorem invoke_inTime (levels : Nat) (c : Command) (args : List Value) :
    ∃ x, invoke r levels ctx c args = EvalM.inTime ctx x := by
  cases levels with
  | zero =>
    rw [invoke]
    exact ⟨_, rfl⟩
  | succ levels =>
    rw [invoke]
    exact ⟨_, rfl⟩

/-- a call that comes too late runs nothing -/
theorem invoke_overtime (levels : Nat) (c : Command) (args : List Value) :
    (Discipline.overtime ctx).Keeps m (invoke r levels ctx c args) fun _ _ => True := by
  intro m' _ hsound
  obtain ⟨x, hx⟩ : ∃ x, invoke r levels ctx c args = EvalM.inTime ctx x :=
    invoke_inTime levels c args
  rw [hx, EvalM.inTime_of_late hsound]
  refine ⟨Context.outOfTime_mono (Nat.le_succ _) hsound, rfl, ?_⟩
  exact fun _ _ => trivial

/-- **Once the time is used up, nothing is run any more**, neither by an expression nor by the words
of a command that is running. -/
theorem idle_of_outOfTime (h : ctx.outOfTime m.readings = true) :
    (∀ e, (evalIn r ctx e m).2.calls = m.calls) ∧
    ∀ words, (sayWords (evalSource r ctx (invoke r (levelsBelow ctx) ctx)) words m).2.calls =
      m.calls := by
  have hcall : ∀ m c args, (Discipline.overtime ctx).AllGood m args →
      (Discipline.overtime ctx).Keeps m (invoke r (levelsBelow ctx) ctx c args)
        (Discipline.overtime ctx).Good := fun _ c args _ => invoke_overtime _ c args
  have hargs : (Discipline.overtime ctx).AllGood m ctx.args := fun _ _ => trivial
  constructor
  · intro e
    have hkeeps := eval_keeps (r := r) Discipline.overtime_admits hcall hargs e
    exact (hkeeps m rfl h).2.1
  · intro words
    have hkeeps := sayWords_keeps
      (evalSource_keeps (r := r) Discipline.overtime_admits hargs hcall) words
    exact (hkeeps m rfl h).2.1

end Eval

/-- The second call of a command is refused, but what stands after it is still evaluated. -/
example :
    let note : Command := ⟨"note", .words ["\\log.append($0)"]⟩
    let both : Command := ⟨"both", .words ["\\note(1)", "\\note(2)", "\\n=3"]⟩
    let s : Session :=
      ⟨(Registry.fresh.insertCommand note).2,
        (Table.empty.insert "log" (.list .string [])).insert "n" (.int 0)⟩
    let o := s.run ⟨"alice", "#lounge", "bot", [], 0, false, .lateFrom 1⟩ both
    o.calls = [⟨note, 1⟩, ⟨both, 0⟩] ∧ o.readings = 2 ∧
    (o.session.globals.get? "log").map Value.message = some "1" ∧
    (o.session.globals.get? "n").map Value.message = some "3" := by
  decide +kernel

end Parlance
