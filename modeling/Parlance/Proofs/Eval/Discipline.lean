import Parlance.Eval.Basic
import Parlance.Proofs.Value.Places

/-!
# Disciplines of evaluation

* `Closed P`           what is made of values with `P` has `P` again;
* `Discipline`         which machines to start from, which machines may follow one, and which values
                       are good at a machine;
* `Discipline.Keeps`   a step, taken at a machine or at a later one, keeps to a discipline and gives
                       what it should;
* `Discipline.Admits`  the steps that write a global keep to a discipline, and so does reading the
                       clock.

A value that is good stays good at every later machine, so what a step has given may be used
after other steps have been taken.  A step that fails has to leave an allowed machine, too.
-/

namespace Parlance

/-- What is made of values with `P` has `P` again, and so has what is made of none. -/
structure Closed (P : Value → Prop) : Prop where
  bool : ∀ b, P (.bool b)
  char : ∀ c, P (.char c)
  int : ∀ i, P (.int i)
  dbl : ∀ d, P (.dbl d)
  function : ∀ c, P (.function c)
  ofChars : ∀ cs, P (.ofChars cs)
  texts : ∀ texts : List (List Char), P (.list .string (texts.map .ofChars))
  listOf : ∀ {items v}, (∀ x ∈ items, P x) → Value.listOf items = .ok v → P v
  unary : ∀ {op x v}, P x → Value.unary op x = .ok v → P v
  binary : ∀ {op x y v}, P x → P y → Value.binary op x y = .ok v → P v
  subscript : ∀ {x i v}, P x → Value.subscript x i = .ok v → P v
  slice : ∀ {x start stop v}, P x → Value.slice x start stop = .ok v → P v
  primitive : ∀ {p : Primitive} {args v}, (∀ x ∈ args, P x) → p.apply args = some v → P v

theorem Closed.ofString {P : Value → Prop} (h : Closed P) (s : String) : P (.ofString s) :=
  h.ofChars s.toList

theorem Closed.at? {P : Value → Prop} (h : Closed P) {path : List Value} {v w : Value} (hv : P v)
    (hw : Value.at? path v = .ok w) : P w := by
  induction path generalizing v with
  | nil =>
    rw [Value.at?_nil] at hw
    cases hw
    exact hv
  | cons index path ih =>
    obtain ⟨x, hx, hw⟩ := Value.at?_cons_inv hw
    exact ih (h.subscript hv hx) hw

theorem closed_true : Closed fun _ => True := by
  constructor <;> intros <;> exact True.intro

/-- Which machines to start from, which machines may follow one, and which values are good there. -/
structure Discipline where
  Sound : Machine → Prop
  Step : Machine → Machine → Prop
  Good : Machine → Value → Prop
  refl : ∀ m, Step m m
  trans : ∀ {a b c}, Step a b → Step b c → Step a c
  lasting : ∀ {m m' v}, Step m m' → Good m v → Good m' v
  closed : ∀ m, Closed (Good m)
  global : ∀ {m name v}, Sound m → m.globals.get? name = some v → Good m v

namespace Discipline

variable {D : Discipline} {α β : Type} {m m' : Machine}

/-- Taken at `m` or at a later machine, the step leaves an allowed machine, and what it gives
satisfies `Q` there. -/
def Keeps (D : Discipline) (m : Machine) (x : EvalM α) (Q : Machine → α → Prop) : Prop :=
  ∀ m', D.Step m m' → D.Sound m' →
    D.Sound (x m').2 ∧ D.Step m' (x m').2 ∧ ∀ a, (x m').1 = .ok a → Q (x m').2 a

def AllGood (D : Discipline) (m : Machine) (vs : List Value) : Prop := ∀ v ∈ vs, D.Good m v

def GoodIfAny (D : Discipline) (m : Machine) (o : Option Value) : Prop :=
  ∀ v, o = some v → D.Good m v

def GoodPath (D : Discipline) (m : Machine) (place : Place) : Prop := D.AllGood m place.path

theorem AllGood.later {vs : List Value} (h : D.AllGood m vs) (hm : D.Step m m') : D.AllGood m' vs :=
  fun v hv => D.lasting hm (h v hv)

theorem allGood_nil (D : Discipline) (m : Machine) : D.AllGood m [] := fun _ h => by cases h

theorem allGood_cons {v : Value} {vs : List Value} (h : D.Good m v) (hs : D.AllGood m vs) :
    D.AllGood m (v :: vs) := List.forall_mem_cons.mpr ⟨h, hs⟩

/-! ## Steps one after another -/

section
variable {x : EvalM α} {Q : Machine → α → Prop}

theorem Keeps.later (h : D.Keeps m x Q) (hm : D.Step m m') : D.Keeps m' x Q :=
  fun _ hstep => h _ (D.trans hm hstep)

theorem Keeps.weaken {Q' : Machine → α → Prop} (h : D.Keeps m x Q) (hQ : ∀ m a, Q m a → Q' m a) :
    D.Keeps m x Q' := by
  intro m' hstep hsound
  obtain ⟨h1, h2, h3⟩ := h m' hstep hsound
  exact ⟨h1, h2, fun a ha => hQ _ a (h3 a ha)⟩

theorem keeps_pure {a : α} (h : ∀ m', D.Step m m' → D.Sound m' → Q m' a) :
    D.Keeps m (pure a) Q := by
  intro m' hstep hsound
  refine ⟨hsound, D.refl m', ?_⟩
  intro b hb
  cases hb
  exact h m' hstep hsound

theorem keeps_fail (e : EvalError) : D.Keeps m (EvalM.fail e) Q := by
  intro m' _ hsound
  refine ⟨hsound, D.refl m', ?_⟩
  intro a ha
  cases ha

theorem keeps_lift {r : Except EvalError α}
    (h : ∀ a, r = .ok a → ∀ m', D.Step m m' → D.Sound m' → Q m' a) :
    D.Keeps m (EvalM.lift r) Q := by
  cases r with
  | ok a => exact keeps_pure (h a rfl)
  | error e => exact keeps_fail e

theorem keeps_globals (h : ∀ m', D.Step m m' → D.Sound m' → D.Keeps m' (f m'.globals) Q) :
    D.Keeps m (EvalM.globals >>= f) Q := fun m' hstep hsound =>
  h m' hstep hsound m' (D.refl m') hsound

theorem Keeps.bind {f : α → EvalM β} {Q' : Machine → β → Prop} (h : D.Keeps m x Q)
    (hf : ∀ m' a, D.Step m m' → Q m' a → D.Keeps m' (f a) Q') : D.Keeps m (x >>= f) Q' := by
  intro m' hstep hsound
  obtain ⟨h1, h2, h3⟩ := h m' hstep hsound
  rcases hx : x m' with ⟨r, m''⟩
  rw [hx] at h1 h2 h3
  cases r with
  | ok a =>
    rw [EvalM.bind_eq_of_ok hx]
    obtain ⟨k1, k2, k3⟩ := hf m'' a (D.trans hstep h2) (h3 a rfl) m'' (D.refl m'') h1
    exact ⟨k1, D.trans h2 k2, k3⟩
  | error e =>
    rw [EvalM.bind_eq_of_error hx]
    refine ⟨h1, h2, ?_⟩
    intro b hb
    cases hb

theorem Keeps.attempt (h : D.Keeps m x Q) :
    D.Keeps m (EvalM.attempt x) fun m o => ∀ a, o = some a → Q m a := by
  intro m' hstep hsound
  obtain ⟨h1, h2, h3⟩ := h m' hstep hsound
  unfold EvalM.attempt
  rcases hx : x m' with ⟨r, m''⟩
  rw [hx] at h1 h2 h3
  cases r with
  | ok a =>
    refine ⟨h1, h2, ?_⟩
    intro o ho b hb
    cases ho
    cases hb
    exact h3 a rfl
  | error e =>
    refine ⟨h1, h2, ?_⟩
    intro o ho b hb
    cases ho
    cases hb

theorem keeps_give {v : Value} (h : D.Good m v) : D.Keeps m (pure v) D.Good :=
  keeps_pure fun _ hstep _ => D.lasting hstep h

theorem keeps_result {r : Except EvalError Value} (h : ∀ v, r = .ok v → D.Good m v) :
    D.Keeps m (EvalM.lift r) D.Good :=
  keeps_lift fun v hv _ hstep _ => D.lasting hstep (h v hv)

end

/-- The steps that write a global keep to the discipline, and so does reading the clock. -/
structure Admits (D : Discipline) : Prop where
  store : ∀ {m place v}, D.GoodPath m place → D.Good m v → D.Keeps m (Eval.store place v) D.Good
  extend : ∀ {m place vs}, D.GoodPath m place → D.AllGood m vs →
    D.Keeps m (Eval.extend place vs) D.Good
  read : ∀ {m} (ctx : Context), D.Keeps m (EvalM.outOfTime ctx) fun _ _ => True

/-- A step that may come too late keeps to what it keeps to if it does not. -/
theorem Admits.inTime (h : D.Admits) {x : EvalM α} {Q : Machine → α → Prop} (hx : D.Keeps m x Q)
    (ctx : Context) : D.Keeps m (EvalM.inTime ctx x) Q := by
  refine (h.read ctx).bind ?_
  intro m' late hstep _
  split
  · exact keeps_fail _
  · exact hx.later hstep

/-- Commands may be run at depths above `low` and up to `high`. -/
def Runs (D : Discipline) (low high : Nat) : Prop :=
  ∀ m c depth, low < depth → depth ≤ high → D.Keeps m (EvalM.record c depth) fun _ _ => True

end Discipline

end Parlance
