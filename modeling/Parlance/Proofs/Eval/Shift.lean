import Parlance.Proofs.Eval.Comparison
import Parlance.Proofs.Eval.Depth

/-!
# Evaluation at another depth

The depth of a context matters for nothing but how deep calls may go, and the clock for nothing but how
late.  As long as no call is stopped for that, all of evaluation is the same further up and sooner:

* `Eval.watched`         the calls made in a context, where those that are too deep are taken down, too;
* `unroll_rel`           they compare with the calls of a context further up as those do that are
                         stopped;
* `EvalM.Tracks x y`     the steps do the same but for what they take down, unless the first comes to
                         a stop;
* `evaluateBy_watched`   so watching changes nothing;
* `Session.asked`        all the calls that the evaluation of a text asks for;
* `Session.Unstopped`    none of them is stopped;
* `Comparison.following`   one step does what another does, where the clock was not read more often,
                         unless a call is stopped;
* `run_of_deeper`        hence a command does the same further up and sooner, if no call is stopped.
-/

namespace Parlance

namespace Eval

/-- a call that is too deep, taken down at the depth at which it would be run -/
def takeDown (ctx : Context) (c : Command) (_ : List Value) : EvalM Value := EvalM.inTime ctx do
  EvalM.record c (ctx.depth + 1)
  EvalM.fail .recursionLimit

/-- the calls made in a context, where those that are too deep are taken down, too -/
def watched (r : Registry) (ctx : Context) : Command → List Value → EvalM Value :=
  unroll r takeDown (levelsBelow ctx) ctx

/-- Whether a call that is watched comes too late is asked before anything else. -/
theorem watched_inTime (r : Registry) (ctx : Context) (c : Command) (args : List Value) :
    ∃ x, watched r ctx c args = EvalM.inTime ctx x := by
  unfold watched
  cases levelsBelow ctx with
  | zero => exact ⟨_, rfl⟩
  | succ levels => exact ⟨_, rfl⟩

end Eval

namespace Session

/-- all the calls that the evaluation of a text asks for, those that are too deep included -/
def asked (s : Session) (ctx : Context) (text : String) : List Invocation :=
  (s.evaluateBy (Eval.watched s.registry ctx) ctx text).calls

/-- No call of the evaluation is stopped: none is too deep, and none comes too late. -/
structure Unstopped (s : Session) (ctx : Context) (text : String) : Prop where
  depth : ∀ inv ∈ s.asked ctx text, inv.depth ≤ maxCallDepth
  time : ∀ n < (s.evaluate ctx text).readings, ctx.outOfTime n = false

end Session

/-! ## Contexts further up -/

def Context.deeper (j : Nat) (ctx : Context) : Context := { ctx with depth := ctx.depth + j }

theorem Context.deeper_nested (j : Nat) (ctx : Context) (args : List Value) :
    (ctx.deeper j).nested args = (ctx.nested args).deeper j := by
  show ({ ctx with args := args, depth := ctx.depth + j + 1 } : Context) =
    { ctx with args := args, depth := ctx.depth + 1 + j }
  rw [Nat.add_right_comm]

namespace Eval

theorem lookup_deeper (r : Registry) (j : Nat) (ctx : Context) :
    lookup r (ctx.deeper j) = lookup r ctx := by
  funext globals ref
  cases ref <;> rfl

section
variable {r : Registry} {R : Comparison} {j : Nat}
  (hrecord : ∀ c depth, R.Rel (EvalM.record c (depth + j)) (EvalM.record c depth))
include hrecord

theorem runBody_deeper (ctx : Context) (c : Command)
    {call call' : Command → List Value → EvalM Value}
    (hcall : ∀ c args, R.Rel (call c args) (call' c args)) :
    R.Rel (runBody (evalSource r (ctx.deeper j) call) (ctx.deeper j) c)
      (runBody (evalSource r ctx call') ctx c) :=
  runBody_rel R (fun source => evalSource_rel R (lookup_deeper r j ctx) hcall source) rfl
    (hrecord c ctx.depth)

/-- Calls that are watched compare with those of a context further up as the stopped ones do, if
reading the clock compares with itself. -/
theorem unroll_rel {late : Nat → Bool}
    (hread : ∀ ctx : Context, ctx.outOfTime = late →
      R.Rel (EvalM.outOfTime ctx) (EvalM.outOfTime ctx))
    (hstopped : ∀ {ctx : Context} (c : Command) (args : List Value), ctx.outOfTime = late →
      maxCallDepth ≤ ctx.depth + j →
        R.Rel (takeDown (ctx.deeper j) c args) (invoke r (levelsBelow ctx) ctx c args))
    {levels : Nat} {ctx : Context} (hlate : ctx.outOfTime = late)
    (hlevels : levelsBelow (ctx.deeper j) = levels) (c : Command) (args : List Value) :
    R.Rel (unroll r takeDown levels (ctx.deeper j) c args)
      (invoke r (levelsBelow ctx) ctx c args) := by
  have hbelow : levelsBelow (ctx.deeper j) = maxCallDepth - (ctx.depth + j) := rfl
  induction levels generalizing ctx c args with
  | zero => exact hstopped c args hlate (by omega)
  | succ levels ih =>
    have hdepth : ¬maxCallDepth ≤ (ctx.deeper j).depth := by
      show ¬maxCallDepth ≤ ctx.depth + j
      omega
    have hdepth' : ¬maxCallDepth ≤ ctx.depth := by omega
    rw [invoke_levelsBelow, unroll, callGiven, callGiven, if_neg hdepth, if_neg hdepth']
    have hread' : R.Rel (EvalM.outOfTime (ctx.deeper j)) (EvalM.outOfTime ctx) := hread ctx hlate
    refine R.inTime hread' ?_
    refine R.bind (R.lift _) ?_
    intro args'
    rw [Context.deeper_nested]
    have hinner : levelsBelow ((ctx.nested args').deeper j) = levels := by
      show maxCallDepth - (ctx.depth + 1 + j) = levels
      omega
    refine R.bind (runBody_deeper hrecord (ctx.nested args') c ?_) ?_
    · intro c args
      have hlate' : (ctx.nested args').outOfTime = late := hlate
      exact ih hlate' hinner c args rfl
    · intro o
      cases o with
      | none => exact R.fail _
      | some v => exact R.give v

end

end Eval

/-! ## What is taken down -/

/-- the same but for what was run, where the readings of the clock compare -/
structure Machine.Alike (often : Nat → Nat → Prop) (m m' : Machine) : Prop where
  globals : m.globals = m'.globals
  growths : m.growths = m'.growths
  readings : often m.readings m'.readings

/-- The steps do the same but for what they take down, unless the first comes to a stop.  What has come
to a stop stays so. -/
def EvalM.Tracks (often : Nat → Nat → Prop) (Stop : Machine → Prop) {α : Type} (x y : EvalM α) :
    Prop :=
  (∀ m, Stop m → Stop (x m).2) ∧
    ∀ m m', m.Alike often m' → ¬Stop (x m).2 → (x m).1 = (y m').1 ∧ (x m).2.Alike often (y m').2

namespace EvalM.Tracks

variable {often : Nat → Nat → Prop} {Stop : Machine → Prop} {α β : Type} {x y : EvalM α}
  {f g : α → EvalM β}

theorem bind (hx : Tracks often Stop x y) (hf : ∀ a, Tracks often Stop (f a) (g a)) :
    Tracks often Stop (x >>= f) (y >>= g) := by
  constructor
  · intro m h
    have hm := hx.1 m h
    rcases hrun : x m with ⟨r, m₁⟩
    rw [hrun] at hm
    cases r with
    | ok a =>
      rw [bind_eq_of_ok hrun]
      exact (hf a).1 m₁ hm
    | error e =>
      rw [bind_eq_of_error hrun]
      exact hm
  · intro m m' halike h
    have hy := hx.2 m m' halike
    rcases hrun : x m with ⟨r, m₁⟩
    rcases hrun' : y m' with ⟨r', m₁'⟩
    rw [hrun, hrun'] at hy
    cases r with
    | ok a =>
      rw [bind_eq_of_ok hrun] at h ⊢
      -- what comes later does not undo that the first step came to a stop
      have hm₁ : ¬Stop m₁ := fun hm => h ((hf a).1 m₁ hm)
      obtain ⟨hresult, halike₁⟩ := hy hm₁
      obtain rfl : Except.ok a = r' := hresult
      rw [bind_eq_of_ok hrun']
      exact (hf a).2 m₁ m₁' halike₁ h
    | error e =>
      rw [bind_eq_of_error hrun] at h ⊢
      obtain ⟨hresult, halike₁⟩ := hy h
      obtain rfl : Except.error e = r' := hresult
      rw [bind_eq_of_error hrun']
      exact ⟨rfl, halike₁⟩

theorem attempt (hx : Tracks often Stop x y) : Tracks often Stop x.attempt y.attempt := by
  have hsnd : ∀ m, (x.attempt m).2 = (x m).2 := by
    intro m
    unfold EvalM.attempt
    rcases x m with ⟨r, m₁⟩
    cases r <;> rfl
  constructor
  · intro m h
    rw [hsnd]
    exact hx.1 m h
  · intro m m' halike h
    rw [hsnd] at h
    obtain ⟨hresult, halike₁⟩ := hx.2 m m' halike h
    unfold EvalM.attempt
    rcases hrun : x m with ⟨r, m₁⟩
    rcases hrun' : y m' with ⟨r', m₁'⟩
    rw [hrun, hrun'] at hresult halike₁
    obtain rfl : r = r' := hresult
    cases r <;> exact ⟨rfl, halike₁⟩

end EvalM.Tracks

/-- the comparison of steps that track each other, where no write brings about a stop or undoes one -/
def Comparison.tracking (often : Nat → Nat → Prop) (Stop : Machine → Prop)
    (hstop : ∀ m globals growths, Stop m → Stop { m with globals := globals, growths := growths }) :
    Comparison where
  Rel := EvalM.Tracks often Stop
  give _ := ⟨fun _ h => h, fun _ _ h _ => ⟨rfl, h⟩⟩
  fail _ := ⟨fun _ h => h, fun _ _ h _ => ⟨rfl, h⟩⟩
  globals := ⟨fun _ h => h, fun _ _ h _ => ⟨congrArg Except.ok h.globals, h⟩⟩
  setGlobal name v := ⟨fun m h => hstop m _ m.growths h, fun _ _ h _ =>
    ⟨rfl, congrArg (Table.insert · name v) h.globals, h.growths, h.readings⟩⟩
  recordGrowth g := ⟨fun m h => hstop m m.globals _ h, fun _ _ h _ =>
    ⟨rfl, h.globals, congrArg (g :: ·) h.growths, h.readings⟩⟩
  bind := EvalM.Tracks.bind
  attempt := EvalM.Tracks.attempt

/-! ## Watching -/

/-- the comparison of steps that do the same but for what they take down -/
def Comparison.agreeing : Comparison := tracking Eq (fun _ => False) fun _ _ _ h => h

theorem Comparison.agreeing_record (c : Command) (depth depth' : Nat) :
    agreeing.Rel (EvalM.record c depth) (EvalM.record c depth') :=
  ⟨fun _ h => h, fun _ _ h _ => ⟨rfl, h.globals, h.growths, h.readings⟩⟩

theorem Comparison.agreeing_read (ctx : Context) :
    agreeing.Rel (EvalM.outOfTime ctx) (EvalM.outOfTime ctx) := by
  refine ⟨fun _ h => h, ?_⟩
  intro m m' h _
  refine ⟨?_, h.globals, h.growths, congrArg (· + 1) h.readings⟩
  exact congrArg (fun n => Except.ok (ctx.outOfTime n)) h.readings

/-- Taking down what is too deep changes nothing. -/
theorem Eval.watched_agrees (r : Registry) (ctx : Context) (c : Command) (args : List Value) :
    Comparison.agreeing.Rel (watched r ctx c args) (invoke r (levelsBelow ctx) ctx c args) := by
  refine unroll_rel (R := Comparison.agreeing) (j := 0)
    (fun c depth => Comparison.agreeing_record c depth depth)
    (fun ctx _ => Comparison.agreeing_read ctx) ?_ rfl rfl c args
  intro ctx c args _ hdepth
  have hlevels : levelsBelow ctx = 0 := by
    show maxCallDepth - ctx.depth = 0
    omega
  have hread : Comparison.agreeing.Rel (EvalM.outOfTime (ctx.deeper 0)) (EvalM.outOfTime ctx) :=
    Comparison.agreeing_read ctx
  rw [hlevels, invoke]
  refine Comparison.inTime _ hread ?_
  exact ⟨fun _ h => h, fun _ _ h _ => ⟨rfl, h.globals, h.growths, h.readings⟩⟩

/-! ## Calls that are not stopped -/

/-- A call was taken down that is too deep, or one came too late. -/
def Machine.Stopped (late : Nat → Bool) (m : Machine) : Prop :=
  (∃ inv ∈ m.calls, maxCallDepth < inv.depth) ∨ ∃ n < m.readings, late n = true

theorem Machine.Stopped.record {late : Nat → Bool} {m : Machine} (h : m.Stopped late) (c : Command)
    (depth : Nat) : (EvalM.record c depth m).2.Stopped late := by
  rcases h with ⟨inv, hinv, hdeep⟩ | hlate
  · exact .inl ⟨inv, List.mem_cons_of_mem _ hinv, hdeep⟩
  · exact .inr hlate

theorem Machine.Stopped.tick {late : Nat → Bool} {m : Machine} (h : m.Stopped late) :
    m.tick.Stopped late := by
  rcases h with hdeep | ⟨n, hn, hlate⟩
  · exact .inl hdeep
  · exact .inr ⟨n, Nat.lt_succ_of_lt hn, hlate⟩

/-- the comparison of steps of which the second does what the first does unless a call is stopped, also
where the clock was not read as often -/
def Comparison.following (late : Nat → Bool) : Comparison :=
  tracking (fun n n' => n' ≤ n) (Machine.Stopped late) fun _ _ _ h => h

theorem Comparison.following_record (late : Nat → Bool) (c : Command) (depth depth' : Nat) :
    (following late).Rel (EvalM.record c depth) (EvalM.record c depth') :=
  ⟨fun _ h => h.record c depth, fun _ _ h _ => ⟨rfl, h.globals, h.growths, h.readings⟩⟩

/-- A reading that is in time is so where the clock was not read as often: all the readings before it
are in time, too. -/
theorem Comparison.following_read (ctx : Context) :
    (following ctx.outOfTime).Rel (EvalM.outOfTime ctx) (EvalM.outOfTime ctx) := by
  refine ⟨fun m h => h.tick, ?_⟩
  intro m m' h hstopped
  have hintime : ∀ n ≤ m.readings, ctx.outOfTime n = false := by
    intro n hn
    refine eq_false_of_ne_true ?_
    intro hlate
    exact hstopped (.inr ⟨n, Nat.lt_succ_of_le hn, hlate⟩)
  have hresult : ctx.outOfTime m.readings = ctx.outOfTime m'.readings := by
    rw [hintime _ (Nat.le_refl _), hintime _ h.readings]
  exact ⟨congrArg Except.ok hresult, h.globals, h.growths, Nat.succ_le_succ h.readings⟩

namespace Eval

/-- A call that is too deep is stopped, if not for that, then because it comes too late. -/
theorem stopped_takeDown {ctx : Context} (hdepth : maxCallDepth ≤ ctx.depth) (c : Command)
    (args : List Value) (m : Machine) : (takeDown ctx c args m).2.Stopped ctx.outOfTime := by
  unfold takeDown
  cases hlate : ctx.outOfTime m.readings with
  | true =>
    rw [EvalM.inTime_of_late hlate]
    exact .inr ⟨m.readings, Nat.lt_succ_self _, hlate⟩
  | false =>
    rw [EvalM.inTime_of_not_late hlate]
    exact .inl ⟨⟨c, ctx.depth + 1⟩, List.mem_cons_self, Nat.lt_succ_of_le hdepth⟩

/-- **A call does the same further up and sooner**, unless one is stopped. -/
theorem watched_following (r : Registry) (j : Nat) (ctx : Context) (c : Command)
    (args : List Value) :
    (Comparison.following ctx.outOfTime).Rel (watched r (ctx.deeper j) c args)
      (invoke r (levelsBelow ctx) ctx c args) := by
  refine unroll_rel (fun c depth => Comparison.following_record _ c _ _) ?_ ?_ rfl rfl c args
  · intro ctx' hlate
    rw [← hlate]
    exact Comparison.following_read ctx'
  · intro ctx' c args hlate hdepth
    have hstopped : ∀ m, (takeDown (ctx'.deeper j) c args m).2.Stopped ctx.outOfTime := by
      intro m
      rw [← hlate]
      exact stopped_takeDown hdepth c args m
    exact ⟨fun m _ => hstopped m, fun m _ _ h => absurd (hstopped m) h⟩

end Eval

namespace Session

variable (s : Session) (ctx : Context)

/-- **Watching changes nothing**: neither what a text comes to, nor the session that it leaves behind,
nor how often the clock is read. -/
theorem evaluateBy_watched (text : String) :
    (s.evaluateBy (Eval.watched s.registry ctx) ctx text).result = (s.evaluate ctx text).result ∧
    (s.evaluateBy (Eval.watched s.registry ctx) ctx text).session =
      (s.evaluate ctx text).session ∧
    (s.evaluateBy (Eval.watched s.registry ctx) ctx text).readings =
      (s.evaluate ctx text).readings := by
  unfold evaluateBy evaluate
  cases Expr.ofText text with
  | error e => exact ⟨rfl, rfl, rfl⟩
  | ok e =>
    have hrel := Eval.eval_rel Comparison.agreeing (Eval.lookup_deeper s.registry 0 ctx)
      (Eval.watched_agrees s.registry ctx) e
    obtain ⟨hresult, hm⟩ := hrel.2 (.start s.globals) (.start s.globals) ⟨rfl, rfl, rfl⟩ not_false
    refine ⟨congrArg (Except.mapError Failure.eval) hresult, ?_, hm.readings⟩
    exact congrArg (fun globals => { s with globals := globals }) hm.globals

/-- A command answers and does the same further up, if it is not run later there and no call is
stopped. -/
theorem run_of_deeper (j : Nat) (c : Command) {m m' : Machine} {o : Option Value}
    (hstart : m.Alike (fun n n' => n' ≤ n) (.start s.globals))
    (hrun : Eval.runBody (Eval.evalSource s.registry (ctx.deeper j)
      (Eval.watched s.registry (ctx.deeper j))) (ctx.deeper j) c m = (.ok o, m'))
    (h : ¬m'.Stopped ctx.outOfTime) :
    (s.run ctx c).result = o ∧ (s.run ctx c).session = { s with globals := m'.globals } := by
  have hrel := Eval.runBody_deeper (r := s.registry)
    (fun c depth => Comparison.following_record ctx.outOfTime c (depth + j) depth) ctx c
    (Eval.watched_following s.registry j ctx)
  have hsame := hrel.2 m (.start s.globals) hstart
  rw [hrun] at hsame
  obtain ⟨hresult, halike⟩ := hsame h
  have hanswer : Eval.runIn s.registry ctx c (.start s.globals) =
      (.ok o, (Eval.runIn s.registry ctx c (.start s.globals)).2) := Prod.ext hresult.symm rfl
  unfold run perform
  rw [hanswer]
  exact ⟨rfl, congrArg (fun globals => { s with globals := globals }) halike.globals.symm⟩

end Session

end Parlance
