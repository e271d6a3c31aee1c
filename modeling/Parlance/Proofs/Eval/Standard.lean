import Parlance.Proofs.Command.Standard
import Parlance.Proofs.Eval.Depth

/-!
# Running and calling the functions that the language comes with

* `result_run_standard`  running one of them answers what the function that is chosen makes of the
                       arguments;
* `ok_invoke_iff`      a call of one of them, where it is not stopped, gives that answer;
* `Eval.len_call_iff`, `Eval.len_method_iff`   there are two ways to ask for a length, and each gives
                       the number of items or entries;
* `standard_sound`     which arguments the functions take, and what comes of it.
-/

namespace Parlance

namespace Command

variable {c : Command} {d : Candidate} {x : Value}

theorem overloads_of_standard : ∀ c ∈ standard, c.body = .overloads c.candidates := by
  decide

/-- all the functions that tell a length do so in the same way -/
theorem action_of_len (hc : standard? "len" = some c) (hd : d ∈ c.candidates) :
    d.action = .len := by
  cases hc
  revert d
  decide

/-- A length can be asked for exactly where there are items or entries. -/
theorem resolves_len_iff_size : Resolves "len" [x] ↔ ∃ n, x.size? = some n := by
  rw [resolves_len_iff]
  constructor
  · rintro ⟨y, hy, ⟨elem, htype⟩ | ⟨key, elem, htype⟩⟩
    · obtain rfl : x = y := List.singleton_inj.mp hy
      obtain ⟨items, rfl⟩ := Value.shape_of_ty htype
      exact ⟨items.length, rfl⟩
    · obtain rfl : x = y := List.singleton_inj.mp hy
      obtain ⟨entries, rfl⟩ := Value.shape_of_ty htype
      exact ⟨entries.length, rfl⟩
  · rintro ⟨n, hn⟩
    cases x with
    | list elem items => exact ⟨_, rfl, .inl ⟨elem, rfl⟩⟩
    | map key elem entries => exact ⟨_, rfl, .inr ⟨key, elem, rfl⟩⟩
    | void | bool | char | int | dbl | function => cases hn

end Command

namespace Eval

open Command

variable {r : Registry} {ctx : Context} {c : Command} {e : Expr} {x v : Value} {m m' : Machine}

/-! ## Running one of several functions -/

/-- what is answered by the function that is chosen, if one is -/
def answered (c : Command) (args : List Value) : Option Value :=
  (c.chosen? args).bind fun d => d.action.apply args

theorem runBody_overloads (evaluate : List Char → EvalM (Option Value)) (ctx : Context)
    (m : Machine) (hbody : c.body = .overloads c.candidates) :
    ∃ m', runBody evaluate ctx c m = (.ok (answered c ctx.args), m') := by
  have hrecord : EvalM.record c ctx.depth m =
      (.ok (), { m with calls := ⟨c, ctx.depth⟩ :: m.calls }) := rfl
  refine ⟨{ m with calls := ⟨c, ctx.depth⟩ :: m.calls }, ?_⟩
  rw [runBody, EvalM.bind_eq_of_ok hrecord, hbody]
  rfl

theorem argsFor_overloads (hbody : c.body = .overloads c.candidates) (args : List Value) :
    argsFor c args = if (c.chosen? args).isSome then .ok args
      else .error (.noMatchingOverload c.name (args.map Value.ty)) := by
  rw [argsFor, hbody]
  rfl

/-- What a call gives that is not stopped is what is answered by the function that is chosen. -/
theorem ok_invoke_iff (hdepth : ctx.depth < maxCallDepth)
    (hbody : c.body = .overloads c.candidates) (args : List Value)
    (htime : ctx.outOfTime m.readings = false) :
    (invoke r (levelsBelow ctx) ctx c args m).1 = .ok v ↔ answered c args = some v := by
  have hdepth' : ¬maxCallDepth ≤ ctx.depth := by omega
  rw [invoke_levelsBelow, callGiven, EvalM.inTime_of_not_late htime, if_neg hdepth',
    argsFor_overloads hbody]
  cases hchosen : c.chosen? args with
  | none =>
    rw [answered, hchosen]
    exact iff_of_false (fun h => by cases h) (fun h => by cases h)
  | some d =>
    obtain ⟨m', hrun⟩ := runBody_overloads (evalSource r (ctx.nested args)
      (invoke r (levelsBelow (ctx.nested args)) (ctx.nested args))) (ctx.nested args) m.tick hbody
    have hargs : EvalM.lift (Except.ok args : Except EvalError (List Value)) m.tick =
        (.ok args, m.tick) := rfl
    rw [Option.isSome_some, if_pos rfl, EvalM.bind_eq_of_ok hargs, EvalM.bind_eq_of_ok hrun]
    have hnested : (ctx.nested args).args = args := rfl
    rw [hnested]
    cases answered c args with
    | none => exact iff_of_false (fun h => by cases h) (fun h => by cases h)
    | some w =>
      show Except.ok w = Except.ok v ↔ some w = some v
      rw [Except.ok.injEq, Option.some.injEq]

/-! ## Two ways to ask for a length -/

/-- The integer is the number of the items or entries of the value. -/
def Counts (x v : Value) : Prop :=
  ∃ (n : Nat) (i : Int64), x.size? = some n ∧ i.toInt = n ∧ v = .int i

theorem counts_iff : Counts x v ↔ Primitive.len.answer x = some v := by
  rw [Primitive.answer_len, Option.bind_eq_some_iff]
  constructor
  · rintro ⟨n, i, hn, hi, rfl⟩
    exact ⟨n, hn, Option.map_eq_some_iff.mpr ⟨i, Integer.toInt64?_eq_some_iff.mpr hi.symm, rfl⟩⟩
  · rintro ⟨n, hn, h⟩
    obtain ⟨i, hi, rfl⟩ := Option.map_eq_some_iff.mp h
    exact ⟨n, i, hn, (Integer.toInt64?_eq_some_iff.mp hi).symm, rfl⟩

theorem answered_len (hc : standard? "len" = some c) : answered c [x] = some v ↔ Counts x v := by
  rw [counts_iff, answered]
  cases hchosen : c.chosen? [x] with
  | some d =>
    have haction := action_of_len hc (chosen?_inv hchosen).1
    rw [Option.bind_some, haction]
    rfl
  | none =>
    have hsize : ∀ n, x.size? ≠ some n := by
      intro n hn
      obtain ⟨c', d, hc', hd⟩ := resolves_len_iff_size.mpr ⟨n, hn⟩
      rw [hc] at hc'
      cases hc'
      rw [hchosen] at hd
      cases hd
    refine iff_of_false (fun h => by cases h) fun h => ?_
    obtain ⟨n, -, hn, -⟩ := counts_iff.mpr h
    exact hsize n hn

theorem counted_eq_ok_iff {o : Option Int64} : counted o = .ok v ↔ ∃ i, o = some i ∧ v = .int i := by
  cases o with
  | none =>
    refine iff_of_false (fun h => by cases h) ?_
    rintro ⟨i, hi, -⟩
    cases hi
  | some i =>
    constructor
    · rintro ⟨⟩
      exact ⟨i, rfl, rfl⟩
    · rintro ⟨i, ⟨⟩, rfl⟩
      rfl

theorem ok_lengthOf_iff : (lengthOf x m).1 = .ok v ↔ Counts x v := by
  rw [lengthOf, Counts]
  cases x.size? with
  | none =>
    refine iff_of_false (fun h => by cases h) ?_
    rintro ⟨n, i, hn, -⟩
    cases hn
  | some n =>
    dsimp only
    rw [EvalM.lift_apply, counted_eq_ok_iff]
    constructor
    · rintro ⟨i, hi, rfl⟩
      exact ⟨n, i, rfl, (Integer.toInt64?_eq_some_iff.mp hi).symm, rfl⟩
    · rintro ⟨n, i, ⟨⟩, hi, rfl⟩
      exact ⟨i, Integer.toInt64?_eq_some_iff.mpr hi.symm, rfl⟩

/-- What is made of what a step gives is given exactly where the step gives something that it can be
made of. -/
theorem ok_bind_iff {α β : Type} {first : EvalM α} {next : α → EvalM β} {Q : α → β → Prop}
    (h : ∀ a b, (next a (first m).2).1 = .ok b ↔ Q a b) {b : β} :
    ((first >>= next) m).1 = .ok b ↔ ∃ a, (first m).1 = .ok a ∧ Q a b := by
  rcases hfirst : first m with ⟨e | a, m'⟩
  · rw [EvalM.bind_eq_of_error hfirst]
    refine iff_of_false (fun h => by cases h) ?_
    rintro ⟨a, ha, -⟩
    cases ha
  · rw [hfirst] at h
    rw [EvalM.bind_eq_of_ok hfirst, h]
    constructor
    · intro hb
      exact ⟨a, rfl, hb⟩
    · rintro ⟨a', ha, hb⟩
      cases ha
      exact hb

theorem callable?_of_standard? {name : String} (hc : standard? name = some c) :
    callable? r name = some c := by
  rw [callable?, hc, Option.some_or]

theorem len_call_iff (htime : ctx.outOfTime (evalIn r ctx e m).2.readings = false)
    (hdepth : ctx.depth < maxCallDepth) (hglobal : m.globals.get? "len" = none) :
    (evalIn r ctx (.call (.var (.name "len")) [e]) m).1 = .ok v ↔
      ∃ x, (evalIn r ctx e m).1 = .ok x ∧ Counts x v := by
  obtain ⟨c, hc⟩ : ∃ c, standard? "len" = some c := ⟨_, rfl⟩
  have hbody := overloads_of_standard c (List.mem_of_find?_eq_some hc)
  have hcallee : eval r ctx (invoke r (levelsBelow ctx) ctx) (.var (.name "len")) m =
      (.ok (.function c), m) := eval_callable hglobal (callable?_of_standard? hc) ctx _
  rw [evalIn, eval, EvalM.bind_eq_of_ok hcallee, evalAll, evalAll, bind_assoc]
  · refine ok_bind_iff fun x w => ?_
    show (invoke r (levelsBelow ctx) ctx c [x] (evalIn r ctx e m).2).1 = .ok w ↔ _
    rw [ok_invoke_iff hdepth hbody [x] htime, answered_len hc]
  · exact fun _ _ => Expr.noConfusion

theorem len_method_iff :
    (evalIn r ctx (.call (.member e "len") []) m).1 = .ok v ↔
      ∃ x, (evalIn r ctx e m).1 = .ok x ∧ Counts x v := by
  have hlength : ∀ x v, (lengthOf x (evalIn r ctx e m).2).1 = .ok v ↔ Counts x v :=
    fun _ _ => ok_lengthOf_iff
  rw [evalIn, eval, methodCall, if_pos rfl, List.length_nil, if_pos rfl]
  exact ok_bind_iff hlength

end Eval

/-! ## What comes of it -/

open Command

variable {c : Command}

/-- running one of the functions that the language comes with answers what is answered by the function
that is chosen -/
theorem Session.result_run_standard (s : Session) (ctx : Context) (hc : c ∈ standard) :
    (s.run ctx c).result = Eval.answered c ctx.args := by
  obtain ⟨m', hrun⟩ := Eval.runBody_overloads (Eval.evalSource s.registry ctx
    (Eval.invoke s.registry (Eval.levelsBelow ctx) ctx)) ctx (.start s.globals)
    (overloads_of_standard c hc)
  simp only [run, perform, Eval.runIn, hrun]
  rfl

/-- **The functions that the language comes with take what they are for, and answer it.**  `int` takes
one integer, text, double, truth value or character, `str` all that and any list or map, `dbl` one
double, integer or text, and `len` any list or map, and none of them takes anything else.  The function
that is chosen answers with a value of the type that its set declares, unless the argument is a text
that is no numeral (or, for `len`, holds more than can be counted).  And a length may as well be asked
for by the method. -/
theorem Session.standard_sound :
    (∀ args, Resolves "int" args ↔
      ∃ x, args = [x] ∧ x.ty ∈ [Ty.int, .string, .dbl, .bool, .char]) ∧
    (∀ args, Resolves "str" args ↔ ∃ x, args = [x] ∧ (x.ty ∈ [Ty.int, .dbl, .bool, .char] ∨
      (∃ elem, x.ty = .list elem) ∨ ∃ key elem, x.ty = .map key elem)) ∧
    (∀ args, Resolves "dbl" args ↔ ∃ x, args = [x] ∧ x.ty ∈ [Ty.dbl, .int, .string]) ∧
    (∀ args, Resolves "len" args ↔ ∃ x, args = [x] ∧
      ((∃ elem, x.ty = .list elem) ∨ ∃ key elem, x.ty = .map key elem)) ∧
    (∀ (s : Session) (ctx : Context) (name : String) (c : Command), standard? name = some c →
      Resolves name ctx.args → ∃ x d, ctx.args = [x] ∧ c.chosen? [x] = some d ∧
        (s.run ctx c).result = d.action.apply [x] ∧
        ((s.run ctx c).result = none ↔ Refuses name x) ∧
        ∀ v, (s.run ctx c).result = some v → v.ty = c.signature.ret) ∧
    ∀ (r : Registry) (ctx : Context) (e : Expr) (m : Machine) (v : Value),
      ctx.outOfTime (Eval.evalIn r ctx e m).2.readings = false → ctx.depth < maxCallDepth →
      m.globals.get? "len" = none →
      ((Eval.evalIn r ctx (.call (.var (.name "len")) [e]) m).1 = .ok v ↔
        (Eval.evalIn r ctx (.call (.member e "len") []) m).1 = .ok v) ∧
      ((Eval.evalIn r ctx (.call (.member e "len") []) m).1 = .ok v ↔
        ∃ x, (Eval.evalIn r ctx e m).1 = .ok x ∧ Eval.Counts x v) := by
  refine ⟨fun _ => resolves_int_iff, fun _ => resolves_str_iff, fun _ => resolves_dbl_iff,
    fun _ => resolves_len_iff, ?_, ?_⟩
  · intro s ctx name c hc hresolves
    have hmem : c ∈ standard := List.mem_of_find?_eq_some hc
    have hname : c.name = name := by simpa using List.find?_some hc
    obtain ⟨c', d, hc', hd⟩ := hresolves
    obtain rfl : c = c' := Option.some.inj (hc.symm.trans hc')
    obtain ⟨x, hargs, hsound⟩ := answer_of_chosen? hmem hd
    have hresult : (s.run ctx c).result = d.action.apply ctx.args := by
      rw [s.result_run_standard ctx hmem, Eval.answered, hd, Option.bind_some]
    rw [← hresult] at hsound
    rw [hargs] at hd hresult
    exact ⟨x, d, hargs, hd, hresult, hname ▸ hsound.none_iff, hsound.ty_eq⟩
  · intro r ctx e m v htime hdepth hglobal
    rw [Eval.len_call_iff htime hdepth hglobal, Eval.len_method_iff]
    exact ⟨Iff.rfl, Iff.rfl⟩

/-- the context of an invocation that is told a text -/
def Session.told (text : String) : Context := { outermost with args := [.ofString text] }

theorem Session.standard_two :
    ∃ c, standard? "int" = some c ∧ Resolves "int" (told "two").args ∧
      (fresh.run (told "two") c).result = none ∧
      (told "two").outOfTime (Eval.evalIn .fresh (told "two") (.str "two")
        (.start .empty)).2.readings = false ∧
      (told "two").depth < maxCallDepth ∧
      (Machine.start .empty).globals.get? "len" = none ∧
      (Eval.evalIn .fresh (told "two") (.call (.var (.name "len")) [.str "two"])
        (.start .empty)).1 = .ok (.int 3) := by
  obtain ⟨hint, -, -, -, hrun, hlen⟩ := standard_sound
  obtain ⟨c, hc⟩ : ∃ c, standard? "int" = some c := ⟨_, rfl⟩
  have hresolves : Resolves "int" (told "two").args := (hint _).mpr ⟨_, rfl, by decide⟩
  obtain ⟨x, d, hargs, -, -, hnone, -⟩ := hrun fresh (told "two") "int" c hc hresolves
  obtain rfl : .ofString "two" = x := List.singleton_inj.mp hargs
  have hrefuses : Refuses "int" (.ofString "two") := .inl ⟨rfl, _, rfl, by decide⟩
  obtain ⟨hsame, hcounts⟩ := hlen .fresh (told "two") (.str "two") (.start .empty) (.int 3) rfl
    (by decide) rfl
  refine ⟨c, hc, hresolves, hnone.mpr hrefuses, rfl, by decide, rfl, hsame.mpr (hcounts.mpr ?_)⟩
  exact ⟨.ofString "two", rfl, 3, 3, rfl, rfl, rfl⟩

end Parlance
