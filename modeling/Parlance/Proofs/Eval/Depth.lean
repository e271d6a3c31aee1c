import Parlance.Proofs.Eval.Account

/-!
# Evaluation is bounded by depth

The levels of calls below a context are all that keeps calls from going on for ever.  Here a call is
said once without counting them, by what the context alone tells:

* `Eval.callGiven r inside`   a call made in a context, where `inside` says what the calls made by the
                              running command do;
* `Eval.unroll r rest n`      calls written out to `n` levels, with `rest` below them;
* `unroll_eq_invoke`          with more levels than the context allows, what is below does not matter:
                              no evaluation gets there;
* `runBody_words`             a command with words says texts, one for a word at most;
* `bounded_by_depth`          so evaluation comes to an end, within the depth allowed.
-/

namespace Parlance

namespace Eval

/-! ## Calls written out -/

section
variable (r : Registry)

/-- A call made in a context, where `inside` says what the calls made by the running command do. -/
def callGiven (inside : Context → Command → List Value → EvalM Value) (ctx : Context) (c : Command)
    (args : List Value) : EvalM Value := EvalM.inTime ctx do
  if maxCallDepth ≤ ctx.depth then EvalM.fail .recursionLimit
  else
    let args ← EvalM.lift (argsFor c args)
    let inner := ctx.nested args
    match (← runBody (evalSource r inner (inside inner)) inner c) with
    | some v => return v
    | none => EvalM.fail (.callFailed c.name)

/-- calls written out to so many levels, with `rest` below them -/
def unroll (rest : Context → Command → List Value → EvalM Value) :
    Nat → Context → Command → List Value → EvalM Value
  | 0 => rest
  | n + 1 => callGiven r (unroll rest n)

end

variable {r : Registry}

theorem levelsBelow_nested {ctx : Context} (h : ctx.depth < maxCallDepth) (args : List Value) :
    levelsBelow ctx = levelsBelow (ctx.nested args) + 1 := by
  show maxCallDepth - ctx.depth = maxCallDepth - (ctx.depth + 1) + 1
  omega

/-- The levels that are counted are those that the depth leaves. -/
theorem invoke_levelsBelow (ctx : Context) :
    invoke r (levelsBelow ctx) ctx =
      callGiven r (fun inner => invoke r (levelsBelow inner) inner) ctx := by
  funext c args
  unfold callGiven
  by_cases hdepth : maxCallDepth ≤ ctx.depth
  · have hlevels : levelsBelow ctx = 0 := by
      show maxCallDepth - ctx.depth = 0
      omega
    rw [hlevels, invoke, if_pos hdepth]
  · rw [if_neg hdepth, levelsBelow_nested (by omega) args, invoke]
    rfl

/-- **Calls written out to more levels than the depth leaves are the calls**, whatever is said to be
below. -/
theorem unroll_eq_invoke (rest : Context → Command → List Value → EvalM Value) {n : Nat}
    {ctx : Context} (h : levelsBelow ctx < n) :
    unroll r rest n ctx = invoke r (levelsBelow ctx) ctx := by
  induction n generalizing ctx with
  | zero => omega
  | succ n ih =>
    rw [invoke_levelsBelow, unroll]
    funext c args
    unfold callGiven
    congr 1
    split
    · rfl
    · rename_i hdepth
      congr 1
      funext args'
      have hnested : levelsBelow ctx = levelsBelow (ctx.nested args') + 1 :=
        levelsBelow_nested (by omega) args'
      have hinner : unroll r rest n (ctx.nested args') =
        invoke r (levelsBelow (ctx.nested args')) (ctx.nested args') := ih (by omega)
      dsimp only
      rw [hinner]

/-! ## What a command with words says -/

theorem attempt_ok {α : Type} (x : EvalM α) (m : Machine) :
    ∃ o m', EvalM.attempt x m = (.ok o, m') := by
  unfold EvalM.attempt
  rcases x m with ⟨result, m'⟩
  cases result with
  | ok a => exact ⟨some a, m', rfl⟩
  | error e => exact ⟨none, m', rfl⟩

theorem evalSource_ok (ctx : Context) (call : Command → List Value → EvalM Value)
    (source : List Char) (m : Machine) :
    ∃ o m', evalSource r ctx call source m = (.ok o, m') := by
  rw [evalSource]
  cases Expr.ofText (String.ofList source) with
  | ok e => exact attempt_ok _ m
  | error e => exact ⟨none, m, rfl⟩

section
variable {evaluate : List Char → EvalM (Option Value)}
  (h : ∀ source m, ∃ o m', evaluate source m = (.ok o, m'))
include h

theorem sayWord_ok (word : String) (m : Machine) :
    ∃ o m', sayWord evaluate word m = (.ok o, m') ∧
      ∃ texts : List (List Char), texts.length ≤ 1 ∧ o.toList = texts.map .ofChars := by
  rw [sayWord]
  cases Expansion.meaning word.toList with
  | said text => exact ⟨_, m, rfl, [text], by simp, rfl⟩
  | code source =>
    obtain ⟨o, m', ho⟩ := h source m
    dsimp only
    rw [EvalM.bind_eq_of_ok ho]
    cases o with
    | none => exact ⟨none, m', rfl, [], by simp, rfl⟩
    | some v => exact ⟨_, m', rfl, [v.message.toList], by simp, rfl⟩

theorem sayWords_ok (words : List String) (m : Machine) :
    ∃ texts : List (List Char), texts.length ≤ words.length ∧
      ∃ m', sayWords evaluate words m = (.ok (texts.map .ofChars), m') := by
  induction words generalizing m with
  | nil => exact ⟨[], by simp, m, rfl⟩
  | cons word words ih =>
    obtain ⟨o, m', ho, said, hlength, hsaid⟩ := sayWord_ok h word m
    obtain ⟨others, hlengths, m'', hothers⟩ := ih m'
    refine ⟨said ++ others, ?_, m'', ?_⟩
    · rw [List.length_append, List.length_cons]
      omega
    · rw [sayWords, EvalM.bind_eq_of_ok ho, EvalM.bind_eq_of_ok hothers, EvalM.pure_apply, hsaid,
        List.map_append]

/-- whatever its expressions do, a command with words answers texts, one for a word at most -/
theorem runBody_words (ctx : Context) (name : String) (words : List String) (m : Machine) :
    ∃ texts : List (List Char), texts.length ≤ words.length ∧
      ∃ m', runBody evaluate ctx ⟨name, .words words⟩ m =
        (.ok (some (.list .string (texts.map .ofChars))), m') := by
  have hrecord : EvalM.record ⟨name, .words words⟩ ctx.depth m =
      (.ok (), { m with calls := ⟨⟨name, .words words⟩, ctx.depth⟩ :: m.calls }) := rfl
  obtain ⟨texts, hlength, m', hsaid⟩ :=
    sayWords_ok h words { m with calls := ⟨⟨name, .words words⟩, ctx.depth⟩ :: m.calls }
  refine ⟨texts, hlength, m', ?_⟩
  rw [runBody, EvalM.bind_eq_of_ok hrecord]
  exact EvalM.bind_eq_of_ok hsaid

end

end Eval

namespace Session

/-- the value of a text, where `call` says what a call does -/
def evaluateBy (s : Session) (call : Command → List Value → EvalM Value) (ctx : Context)
    (text : String) : Outcome (Except Failure Value) :=
  match Expr.ofText text with
  | .error e => .quiet (.error (.parse e)) s
  | .ok e =>
    let o := s.perform (Eval.eval s.registry ctx call e)
    { o with result := o.result.mapError .eval }

/-- what a command answers, where `call` says what a call does -/
def runBy (s : Session) (call : Command → List Value → EvalM Value) (ctx : Context) (c : Command) :
    Outcome (Option Value) :=
  let o := s.perform (Eval.runBody (Eval.evalSource s.registry ctx call) ctx c)
  { o with result := o.result.toOption.bind id }

variable (s : Session) (ctx : Context)

theorem evaluateBy_invoke (text : String) :
    s.evaluateBy (Eval.invoke s.registry (Eval.levelsBelow ctx) ctx) ctx text =
      s.evaluate ctx text := rfl

theorem runBy_invoke (c : Command) :
    s.runBy (Eval.invoke s.registry (Eval.levelsBelow ctx) ctx) ctx c = s.run ctx c := rfl

theorem depth_of_evaluate (text : String) :
    ∀ inv ∈ (s.evaluate ctx text).calls, inv.depth ≤ maxCallDepth := by
  intro inv hinv
  obtain ⟨hlow, hhigh⟩ := s.below_of_evaluate ctx text inv hinv
  have hlevels : Eval.levelsBelow ctx = maxCallDepth - ctx.depth := rfl
  omega

theorem depth_of_run (hdepth : ctx.depth ≤ maxCallDepth) (c : Command) :
    ∀ inv ∈ (s.run ctx c).calls, inv.depth ≤ maxCallDepth := by
  intro inv hinv
  rcases s.below_of_run ctx c inv hinv with rfl | ⟨hlow, hhigh⟩
  · exact hdepth
  · have hlevels : Eval.levelsBelow ctx = maxCallDepth - ctx.depth := rfl
    omega

theorem result_run_words (name : String) (words : List String) :
    ∃ texts : List (List Char), texts.length ≤ words.length ∧
      (s.run ctx ⟨name, .words words⟩).result =
        some (.list .string (texts.map .ofChars)) := by
  have hok := Eval.evalSource_ok (r := s.registry) ctx
    (Eval.invoke s.registry (Eval.levelsBelow ctx) ctx)
  obtain ⟨texts, hlength, m', hrun⟩ := Eval.runBody_words hok ctx name words (.start s.globals)
  refine ⟨texts, hlength, ?_⟩
  simp only [run, perform, Eval.runIn, hrun]
  rfl

/-- **Evaluation is bounded by depth.**  What an expression or a command comes to is settled by calls
written out to more levels than the depth leaves: nothing below them is ever reached.  No command is
run deeper than that, and one with words always answers a list of strings, one for a word at most. -/
theorem bounded_by_depth (hdepth : ctx.depth ≤ maxCallDepth) :
    (∀ rest n, maxCallDepth < ctx.depth + n →
      (∀ text, s.evaluateBy (Eval.unroll s.registry rest n ctx) ctx text = s.evaluate ctx text) ∧
      ∀ c, s.runBy (Eval.unroll s.registry rest n ctx) ctx c = s.run ctx c) ∧
    (∀ text, ∀ inv ∈ (s.evaluate ctx text).calls, inv.depth ≤ maxCallDepth) ∧
    (∀ c, ∀ inv ∈ (s.run ctx c).calls, inv.depth ≤ maxCallDepth) ∧
    ∀ name words, ∃ texts : List (List Char), texts.length ≤ words.length ∧
      (s.run ctx ⟨name, .words words⟩).result =
        some (.list .string (texts.map .ofChars)) := by
  refine ⟨?_, s.depth_of_evaluate ctx, s.depth_of_run ctx hdepth, s.result_run_words ctx⟩
  intro rest n hn
  have hlevels : Eval.levelsBelow ctx < n := by
    show maxCallDepth - ctx.depth < n
    omega
  rw [Eval.unroll_eq_invoke rest hlevels]
  exact ⟨s.evaluateBy_invoke ctx, s.runBy_invoke ctx⟩

/-- a context in which nothing has been called -/
def outermost : Context := ⟨"alice", "#lounge", "bot", [], 0, false, .still⟩

/-- a command that runs itself twice -/
def loop : Command := ⟨"loop", .words ["\\loop()", "\\loop()"]⟩

def looping : Session := ⟨(Registry.fresh.insertCommand loop).2, .empty⟩

/-- what a command comes to that runs itself twice, where any call that is too deep gives a number -/
theorem looping_bounded :
    outermost.depth ≤ maxCallDepth ∧ maxCallDepth < outermost.depth + 65 ∧
    (∀ text, looping.evaluateBy
      (Eval.unroll looping.registry (fun _ _ _ => pure (.int 0)) 65 outermost) outermost text =
        looping.evaluate outermost text) ∧
    (∀ inv ∈ (looping.evaluate outermost "loop()").calls, inv.depth ≤ maxCallDepth) ∧
    (∀ inv ∈ (looping.run outermost loop).calls, inv.depth ≤ maxCallDepth) ∧
    ∃ texts : List (List Char), texts.length ≤ 2 ∧
      (looping.run outermost loop).result = some (.list .string (texts.map .ofChars)) := by
  have hdepth : outermost.depth ≤ maxCallDepth := by decide
  have hlevels : maxCallDepth < outermost.depth + 65 := by decide
  obtain ⟨hunroll, hevaluate, hrun, hresult⟩ := bounded_by_depth looping outermost hdepth
  exact ⟨hdepth, hlevels, (hunroll _ 65 hlevels).1, hevaluate _, hrun loop,
    hresult "loop" ["\\loop()", "\\loop()"]⟩

/-- a command that runs itself once is run as deep as is allowed -/
example :
    let dig : Command := ⟨"dig", .words ["\\dig()"]⟩
    let digging : Session := ⟨(Registry.fresh.insertCommand dig).2, .empty⟩
    (digging.evaluate outermost "dig()").calls.head? = some ⟨dig, maxCallDepth⟩ := by
  decide +kernel

end Session

end Parlance
