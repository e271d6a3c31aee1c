import Parlance.Proofs.Eval.Clock
import Parlance.Proofs.Session.History
import Parlance.Proofs.Ty.Erasure

/-!
# The types of globals

A global is assigned values of its own type, and a list in it only becomes a list of something
less erased:

* `Table.Refines t t'`      all that one table binds, the other binds to a value whose type is the same
                            or fills in some `void`s along the list nesting;
* `Discipline.refining`     evaluation refines the globals, also where it fails half way;
* `refines_after`           so does everything that can happen to a session;
* `types_refined`           a global with nothing left to fill in keeps exactly its type.
-/

namespace Parlance

namespace Table

/-- every binding is kept, with a value whose type the type before gives way to -/
def Refines (t t' : Table Value) : Prop :=
  ∀ name v, t.get? name = some v → ∃ v', t'.get? name = some v' ∧ v.ty.Erases v'.ty

theorem Refines.refl (t : Table Value) : t.Refines t := fun _ v hv => ⟨v, hv, .refl v.ty⟩

theorem Refines.trans {t t' t'' : Table Value} (h : t.Refines t') (h' : t'.Refines t'') :
    t.Refines t'' := by
  intro name v hv
  obtain ⟨v', hv', hle⟩ := h name v hv
  obtain ⟨v'', hv'', hle'⟩ := h' name v' hv'
  exact ⟨v'', hv'', hle.trans hle'⟩

/-- a new value for a name, of a type that the one before gives way to -/
theorem refines_insert {t : Table Value} {name : String} {new : Value}
    (h : ∀ v, t.get? name = some v → v.ty.Erases new.ty) : t.Refines (t.insert name new) := by
  intro other v hv
  rw [get?_insert]
  by_cases hname : name = other
  · subst hname
    rw [if_pos rfl]
    exact ⟨new, rfl, h v hv⟩
  · rw [if_neg hname]
    exact ⟨v, hv, .refl v.ty⟩

theorem refines_insert_of_get? {t : Table Value} {name : String} {v new : Value}
    (hv : t.get? name = some v) (h : v.ty.Erases new.ty) : t.Refines (t.insert name new) := by
  refine refines_insert ?_
  intro w hw
  rw [hv] at hw
  cases hw
  exact h

end Table

namespace Value

/-- Putting a value where one of its type is found leaves the type of the whole. -/
theorem ty_put_of_slot {new old v : Value} {path : List Value}
    (h : slot (some new) path v = .ok old) (hty : old.ty = new.ty) :
    (put new path v).ty = v.ty := by
  cases path with
  | nil =>
    cases h
    exact hty.symm
  | cons index path => exact ty_put new index path v

theorem erases_append {elem : Ty} {items more : List Value} {longer : Value}
    (h : append elem items more = .ok longer) : (Ty.list elem).Erases longer.ty := by
  unfold append at h
  split at h
  · rename_i wider hwider
    cases h
    exact .list (Ty.unifyAll_inv hwider).1
  · cases h

/-- Only a list that is the whole itself changes the type of the whole by getting longer. -/
theorem erases_put_append {elem : Ty} {items more path : List Value} {v longer : Value}
    (hat : at? path v = .ok (.list elem items)) (h : append elem items more = .ok longer) :
    v.ty.Erases (put longer path v).ty := by
  cases path with
  | nil =>
    cases hat
    exact erases_append h
  | cons index path =>
    rw [ty_put]
    exact .refl v.ty

end Value

/-- every step refines the types of globals -/
def Discipline.refining : Discipline where
  Sound _ := True
  Step m m' := m.globals.Refines m'.globals
  Good _ _ := True
  refl m := .refl m.globals
  trans := Table.Refines.trans
  lasting _ _ := trivial
  closed _ := closed_true
  global _ _ := trivial

namespace Discipline

variable {m : Machine}

theorem refining_of_step {α : Type} {x : EvalM α}
    (h : ∀ m : Machine, m.globals.Refines (x m).2.globals) :
    refining.Keeps m x fun _ _ => True := by
  intro m' _ _
  exact ⟨trivial, h m', fun _ _ => trivial⟩

theorem refining_record (c : Command) (depth : Nat) :
    refining.Keeps m (EvalM.record c depth) fun _ _ => True :=
  refining_of_step fun m => .refl m.globals

theorem refining_admits : refining.Admits where
  store {_ place v} _ _ := by
    refine refining_of_step fun m => ?_
    rcases Eval.store_cases place v m with ⟨e, h⟩ | ⟨whole, old, hwhole, hslot, hty, h⟩
    · rw [h]
      exact .refl m.globals
    · rw [h]
      refine Table.refines_insert_of_get? hwhole ?_
      rw [Value.ty_put_of_slot hslot hty]
      exact .refl whole.ty
  extend {_ place vs} _ _ := by
    refine refining_of_step fun m => ?_
    rcases Eval.extend_cases place vs m with
      ⟨e, h⟩ | ⟨whole, elem, items, longer, hwhole, hat, happend, h⟩
    · rw [h]
      exact .refl m.globals
    · rw [h]
      exact Table.refines_insert_of_get? hwhole (Value.erases_put_append hat happend)
  read _ := refining_of_step fun m => .refl m.globals

theorem refining_runs (low high : Nat) : refining.Runs low high :=
  fun _ c depth _ _ => refining_record c depth

end Discipline

namespace Session

variable (s : Session) (ctx : Context)

theorem refines_perform {α : Type} {x : EvalM α} {Q : Machine → α → Prop}
    (h : Discipline.refining.Keeps (.start s.globals) x Q) :
    s.globals.Refines (s.perform x).session.globals := by
  obtain ⟨-, hstep, -⟩ := h _ (Discipline.refining.refl _) trivial
  exact hstep

theorem refines_evaluate (text : String) :
    s.globals.Refines (s.evaluate ctx text).session.globals := by
  unfold evaluate
  split
  · exact .refl s.globals
  · exact refines_perform s (Eval.evalIn_keeps Discipline.refining_admits
      (Discipline.refining_runs _ _) (fun _ _ => trivial) _)

theorem refines_run (c : Command) : s.globals.Refines (s.run ctx c).session.globals :=
  refines_perform s (Eval.runIn_keeps Discipline.refining_admits
    (Discipline.refining_runs _ _) (fun _ _ => trivial) (Discipline.refining_record c ctx.depth))

theorem refines_addGlobal (name : String) (v : Value) :
    s.globals.Refines (s.operate (.addGlobal name v)).globals := by
  rw [operate]
  cases hadd : s.addGlobal name v with
  | error e => exact .refl s.globals
  | ok s' =>
    obtain ⟨hcontains, rfl⟩ := addGlobal_inv hadd
    have hnone := Table.get?_eq_none_of_contains hcontains
    refine Table.refines_insert ?_
    intro w hw
    rw [hnone] at hw
    cases hw

theorem refines_operate (o : Operation) : s.globals.Refines (s.operate o).globals := by
  cases o with
  | evaluate ctx text => exact s.refines_evaluate ctx text
  | run ctx c => exact s.refines_run ctx c
  | addGlobal name v => exact s.refines_addGlobal name v
  | register _ | insertCommand _ | insertAlias _ _ | setGate _ _ | setMask _ _ =>
    exact .refl s.globals

theorem refines_after (events : List Event) : s.globals.Refines (s.after events).globals :=
  after_induction (P := fun s' => s.globals.Refines s'.globals)
    (fun s' o h => h.trans (s'.refines_operate o)) (.refl s.globals) events

def typeOf? (name : String) : Option Ty := (s.globals.get? name).map Value.ty

theorem typeOf?_of_refines {s s' : Session} (h : s.globals.Refines s'.globals) {name : String}
    {t : Ty} (ht : s.typeOf? name = some t) : ∃ t', s'.typeOf? name = some t' ∧ t.Erases t' := by
  obtain ⟨v, hv, rfl⟩ := Option.map_eq_some_iff.mp ht
  obtain ⟨v', hv', hle⟩ := h name v hv
  exact ⟨v'.ty, by rw [typeOf?, hv']; rfl, hle⟩

/-- **A global stays, and its type is only filled in.**  Whatever an evaluation comes to, and whenever
its time is used up, every global is there afterwards with a type that the one before gives way to; so
one whose type is filled keeps it through everything that can happen to the session. -/
theorem types_refined :
    (∀ ctx text name t, s.typeOf? name = some t →
      ∃ t', (s.evaluate ctx text).session.typeOf? name = some t' ∧ t.Erases t') ∧
    ∀ events name t, t.Filled → s.typeOf? name = some t →
      (s.after events).typeOf? name = some t := by
  constructor
  · intro ctx text name t ht
    exact typeOf?_of_refines (s.refines_evaluate ctx text) ht
  · intro events name t hfilled ht
    obtain ⟨t', ht', hle⟩ := typeOf?_of_refines (s.refines_after events) ht
    rw [ht', hle.eq_of_filled hfilled]

/-- the session with an empty list of nothing known and an empty list of integers -/
def shelves : Session :=
  ⟨.fresh, (Table.empty.insert "g" (.list .void [])).insert "n" (.list .int [])⟩

/-- an evaluation that fails after the list got longer, one of which the second call comes too late,
and a line for the other one -/
theorem shelves_refined :
    shelves.typeOf? "g" = some (.list .void) ∧
    (∃ t', (shelves.evaluate Chat.visitor "g.append(1) + true").session.typeOf? "g" = some t' ∧
      (Ty.list .void).Erases t') ∧
    (let o := shelves.evaluate { Chat.visitor with clock := .lateFrom 1 }
      "[int(1), g.append(2).len(), int(3)]"
    o.result.isOk = false ∧ o.readings = 2 ∧
      ∃ t', o.session.typeOf? "g" = some t' ∧ (Ty.list .void).Erases t') ∧
    (Ty.list .int).Filled ∧ shelves.typeOf? "n" = some (.list .int) ∧
    (shelves.after [.line Chat.visitor .all "!" "!eval n.append(2)"]).typeOf? "n" =
      some (.list .int) := by
  have hg : shelves.typeOf? "g" = some (.list .void) := by decide
  have hn : shelves.typeOf? "n" = some (.list .int) := by decide
  have hfilled : (Ty.list .int).Filled := trivial
  obtain ⟨hvoid, hkept⟩ := types_refined shelves
  exact ⟨hg, hvoid _ _ _ _ hg, ⟨by decide +kernel, by decide +kernel, hvoid _ _ _ _ hg⟩, hfilled, hn,
    hkept _ _ _ hfilled hn⟩

end Session

end Parlance
