import Parlance.Proofs.Eval.Quiet

/-!
# Chains of comparisons

* `Expr.chain e rest`      the chain of an operand and the operators and operands after it;
* `Expr.pairs e rest`      the comparisons of neighbours in it;
* `Expr.Conjoins ps e`     the expression is the conjunction of these, grouped in any way;
* `allOf xs`               steps one after another, as long as they give `true`;
* `eval_of_conjoins`       a conjunction of comparisons is that;
* `evalChain_pairs`        so is the loop through a chain of quiet operands;
* `Reads ev es m vs m'`    expressions evaluated one after another, each once;
* `Ended ev es ops m out`  how a chain comes to its end;
* `ended_evalChain`        the invariant of the loop;
* `chain_conjunction`      so chains are conjunctions, and evaluate no operand twice or too late.

A chain keeps the value of an operand for the next comparison, where a conjunction evaluates the
operand once more.  A quiet operand still has the value that it had.
-/

namespace Parlance

namespace Expr

/-- the chain of an operand and the operators and operands after it -/
def chain (e : Expr) (rest : List (CompareOp × Expr)) : Expr :=
  .comparison (e :: rest.map (·.2)) (rest.map (·.1))

/-- the comparisons of neighbours in a chain -/
def pairs : Expr → List (CompareOp × Expr) → List Expr
  | _, [] => []
  | e, (op, f) :: rest => chain e [(op, f)] :: pairs f rest

/-- The expression is the conjunction of all these, from the left, grouped in any way. -/
inductive Conjoins : List Expr → Expr → Prop
  | one (e : Expr) : Conjoins [e] e
  | and {ps qs : List Expr} {e f : Expr} (he : Conjoins ps e) (hf : Conjoins qs f) :
      Conjoins (ps ++ qs) (.binary .and e f)

theorem Conjoins.ne_nil {ps : List Expr} {e : Expr} (h : Conjoins ps e) : ps ≠ [] := by
  induction h with
  | one e => exact List.cons_ne_nil e []
  | and _ _ ihe _ => exact List.append_ne_nil_of_left_ne_nil ihe _

/-- Without brackets a conjunction is grouped to the left. -/
theorem conjoins_foldl {ps : List Expr} {e : Expr} (h : Conjoins ps e) (qs : List Expr) :
    Conjoins (ps ++ qs) (qs.foldl (.binary .and) e) := by
  induction qs generalizing ps e with
  | nil => rwa [List.append_nil]
  | cons q qs ih =>
    have hq := ih (h.and (.one q))
    rwa [List.append_assoc] at hq

end Expr

namespace Eval

open Parlance.EvalM Parlance.Expr

/-! ## One after another, as long as they hold -/

/-- a step and, if it gives `true`, another one -/
def andAlso (x y : EvalM Value) : EvalM Value := do
  match (← x) with
  | .bool true => y
  | v => return v

/-- The step gives a truth value, unless it fails. -/
def Boolean (x : EvalM Value) : Prop := ∀ m v, (x m).1 = .ok v → ∃ b, v = .bool b

/-- all steps, one after another as long as they give `true` -/
def allOf (xs : List (EvalM Value)) : EvalM Value := xs.foldr andAlso (pure (.bool true))

section
variable {x y z : EvalM Value}

theorem Boolean.cases (h : Boolean x) (m : Machine) :
    (∃ b m', x m = (.ok (.bool b), m')) ∨ ∃ e m', x m = (.error e, m') := by
  rcases hx : x m with ⟨e | v, m'⟩
  · exact .inr ⟨e, m', rfl⟩
  · obtain ⟨b, rfl⟩ := h m v (congrArg Prod.fst hx)
    exact .inl ⟨b, m', rfl⟩

theorem boolean_pure (b : Bool) : Boolean (pure (.bool b)) := by
  intro m v hv
  cases hv
  exact ⟨b, rfl⟩

theorem boolean_bind {α : Type} {x : EvalM α} {f : α → EvalM Value} (h : ∀ a, Boolean (f a)) :
    Boolean (x >>= f) := by
  intro m v hv
  rcases hx : x m with ⟨e | a, m'⟩
  · rw [bind_eq_of_error hx] at hv
    cases hv
  · rw [bind_eq_of_ok hx] at hv
    exact h a m' v hv

theorem andAlso_of_true {m m' : Machine} (h : x m = (.ok (.bool true), m')) :
    andAlso x y m = y m' :=
  bind_eq_of_ok h

theorem andAlso_of_false {m m' : Machine} (h : x m = (.ok (.bool false), m')) :
    andAlso x y m = (.ok (.bool false), m') :=
  bind_eq_of_ok h

theorem andAlso_of_error {e : EvalError} {m m' : Machine} (h : x m = (.error e, m')) :
    andAlso x y m = (.error e, m') :=
  bind_eq_of_error h

theorem andAlso_assoc : andAlso (andAlso x y) z = andAlso x (andAlso y z) := by
  unfold andAlso
  rw [bind_assoc]
  congr 1
  funext v
  cases v with
  | bool b => cases b <;> rfl
  | _ => rfl

theorem andAlso_true (h : Boolean x) : andAlso x (pure (.bool true)) = x := by
  funext m
  rcases h.cases m with ⟨b, m', hx⟩ | ⟨e, m', hx⟩
  · cases b with
    | false => rw [andAlso_of_false hx, hx]
    | true => rw [andAlso_of_true hx, hx, pure_apply]
  · rw [andAlso_of_error hx, hx]

theorem junction_and (hx : Boolean x) (hy : Boolean y) : junction .and false x y = andAlso x y := by
  funext m
  rcases hx.cases m with ⟨b, m', hx⟩ | ⟨e, m', hx⟩
  · rw [junction, bind_eq_of_ok hx]
    cases b with
    | false => exact (andAlso_of_false hx).symm
    | true =>
      rw [andAlso_of_true hx]
      rcases hy.cases m' with ⟨c, m'', hy⟩ | ⟨e, m'', hy⟩
      · exact (bind_eq_of_ok hy).trans hy.symm
      · exact (bind_eq_of_error hy).trans hy.symm
  · rw [junction, bind_eq_of_error hx, andAlso_of_error hx]

theorem Boolean.andAlso (hx : Boolean x) (hy : Boolean y) : Boolean (andAlso x y) := by
  intro m v hv
  rcases hx.cases m with ⟨b, m', hx⟩ | ⟨e, m', hx⟩
  · cases b with
    | false =>
      rw [andAlso_of_false hx] at hv
      cases hv
      exact ⟨false, rfl⟩
    | true =>
      rw [andAlso_of_true hx] at hv
      exact hy m' v hv
  · rw [andAlso_of_error hx] at hv
    cases hv

theorem allOf_append (xs ys : List (EvalM Value)) :
    allOf (xs ++ ys) = andAlso (allOf xs) (allOf ys) := by
  induction xs with
  | nil => rfl
  | cons x xs ih =>
    show Eval.andAlso x (allOf (xs ++ ys)) = Eval.andAlso (Eval.andAlso x (allOf xs)) (allOf ys)
    rw [ih, andAlso_assoc]

end

section
variable {r : Registry} {ctx : Context} {call : Command → List Value → EvalM Value}

theorem boolean_evalChain (es : List Expr) (ops : List CompareOp) (lhs : Value) :
    Boolean (evalChain r ctx call lhs es ops) := by
  induction es generalizing ops lhs with
  | nil => cases ops <;> exact boolean_pure true
  | cons e es ih =>
    cases ops with
    | nil => exact boolean_pure true
    | cons op ops =>
      rw [evalChain]
      refine boolean_bind fun rhs => boolean_bind fun holds => ?_
      split
      · exact ih ops rhs
      · exact boolean_pure false

theorem boolean_chain (e : Expr) (rest : List (CompareOp × Expr)) :
    Boolean (eval r ctx call (chain e rest)) := by
  rw [chain, eval]
  exact boolean_bind fun v => boolean_evalChain _ _ v

theorem boolean_pairs (e : Expr) (rest : List (CompareOp × Expr)) :
    ∀ p ∈ pairs e rest, Boolean (eval r ctx call p) := by
  induction rest generalizing e with
  | nil => exact fun p hp => nomatch hp
  | cons o rest ih => exact List.forall_mem_cons.mpr ⟨boolean_chain e [(o.1, o.2)], ih o.2⟩

/-- A conjunction of truth values is one after another. -/
theorem eval_of_conjoins {ps : List Expr} {e : Expr} (h : Conjoins ps e)
    (hps : ∀ p ∈ ps, Boolean (eval r ctx call p)) :
    eval r ctx call e = allOf (ps.map (eval r ctx call)) ∧ Boolean (eval r ctx call e) := by
  induction h with
  | one e =>
    have he := hps e (List.mem_singleton.mpr rfl)
    exact ⟨(andAlso_true he).symm, he⟩
  | @and ps qs e f _ _ ihe ihf =>
    obtain ⟨hp, hq⟩ := List.forall_mem_append.mp hps
    obtain ⟨he, hbe⟩ := ihe hp
    obtain ⟨hf, hbf⟩ := ihf hq
    have hand : eval r ctx call (.binary .and e f) =
        andAlso (eval r ctx call e) (eval r ctx call f) := by
      rw [eval]
      · exact junction_and hbe hbf
      · intro h
        cases h
    refine ⟨?_, ?_⟩
    · rw [hand, List.map_append, allOf_append, he, hf]
    · rw [hand]
      exact hbe.andAlso hbf

/-- The loop through a chain of quiet operands does what the comparisons of neighbours do one after
another: the operand that is evaluated once more still has the value that was kept. -/
theorem evalChain_pairs {e : Expr} (he : e.Quiet) {rest : List (CompareOp × Expr)}
    (hrest : ∀ o ∈ rest, o.2.Quiet) {m : Machine} {v : Value}
    (hv : eval r ctx call e m = (.ok v, m)) :
    evalChain r ctx call v (rest.map (·.2)) (rest.map (·.1)) m =
      allOf ((pairs e rest).map (eval r ctx call)) m := by
  induction rest generalizing e v with
  | nil => rfl
  | cons o rest ih =>
    obtain ⟨op, f⟩ := o
    obtain ⟨hf, hrest⟩ := List.forall_mem_cons.mp hrest
    show evalChain r ctx call v (f :: rest.map (·.2)) (op :: rest.map (·.1)) m =
      Eval.andAlso (eval r ctx call (chain e [(op, f)]))
        (allOf ((pairs f rest).map (eval r ctx call))) m
    have hpair : eval r ctx call (chain e [(op, f)]) m = evalChain r ctx call v [f] [op] m := by
      rw [chain, eval]
      exact bind_eq_of_ok hv
    rw [evalChain] at hpair ⊢
    have hstill : Still (eval r ctx call f) := eval_still hf
    rcases hstill.ok_or_error m with ⟨w, hw⟩ | ⟨err, hw⟩
    · rw [bind_eq_of_ok hw] at hpair ⊢
      rcases hc : Value.compares op v w with err | b
      · rw [hc] at hpair
        exact (andAlso_of_error hpair).symm
      · rw [hc] at hpair
        cases b with
        | true => exact (ih hf hrest hw).trans (andAlso_of_true hpair).symm
        | false => exact (andAlso_of_false hpair).symm
    · rw [bind_eq_of_error hw] at hpair ⊢
      exact (andAlso_of_error hpair).symm

/-- **A chain of quiet operands evaluates as the conjunction of the comparisons of neighbours.** -/
theorem eval_chain {e f : Expr} (he : e.Quiet) {rest : List (CompareOp × Expr)}
    (hrest : ∀ o ∈ rest, o.2.Quiet) (hf : Conjoins (pairs e rest) f) :
    eval r ctx call (chain e rest) = eval r ctx call f := by
  obtain ⟨heq, -⟩ := eval_of_conjoins hf (boolean_pairs (r := r) e rest)
  funext m
  rw [heq, chain, eval]
  have hstill : Still (eval r ctx call e) := eval_still he
  rcases hstill.ok_or_error m with ⟨v, hv⟩ | ⟨err, hv⟩
  · rw [bind_eq_of_ok hv]
    exact evalChain_pairs he hrest hv
  · rw [bind_eq_of_error hv]
    cases rest with
    | nil => exact absurd rfl hf.ne_nil
    | cons o rest =>
      refine (andAlso_of_error ?_).symm
      rw [chain, eval]
      exact bind_eq_of_error hv

end

/-! ## Each operand at most once -/

/-- The expressions are evaluated one after another, each once. -/
inductive Reads (ev : Expr → EvalM Value) : List Expr → Machine → List Value → Machine → Prop
  | none (m : Machine) : Reads ev [] m [] m
  | next {es : List Expr} {e : Expr} {vs : List Value} {v : Value} {m m₁ m₂ : Machine}
      (hes : Reads ev es m vs m₁) (he : ev e m₁ = (.ok v, m₂)) :
      Reads ev (es ++ [e]) m (vs ++ [v]) m₂

/-- Between neighbours among the values the comparisons hold. -/
inductive Holding : List Value → List CompareOp → Prop
  | none : Holding [] []
  | one (v : Value) : Holding [v] []
  | next {vs : List Value} {v w : Value} {ops : List CompareOp} {op : CompareOp}
      (hvs : Holding (vs ++ [v]) ops) (hw : Value.compares op v w = .ok true) :
      Holding (vs ++ [v] ++ [w]) (ops ++ [op])

/-- How a chain comes to its end: every comparison holds; or one does not, or makes no sense; or an
operand fails.  The operands behind that point are not evaluated. -/
inductive Ended (ev : Expr → EvalM Value) (es : List Expr) (ops : List CompareOp) (m : Machine) :
    Except EvalError Value × Machine → Prop
  | held {vs : List Value} {m' : Machine} (hes : Reads ev es m vs m') (hvs : Holding vs ops) :
      Ended ev es ops m (.ok (.bool true), m')
  | stopped {before after : List Expr} {done undone : List CompareOp} {op : CompareOp}
      {vs : List Value} {v w : Value} {m' : Machine} {out : Except EvalError Bool}
      (hsplit : es = before ++ after) (hops : ops = done ++ op :: undone)
      (hes : Reads ev before m (vs ++ [v] ++ [w]) m') (hvs : Holding (vs ++ [v]) done)
      (hout : Value.compares op v w = out) (hstop : out ≠ .ok true) :
      Ended ev es ops m (out.map Value.bool, m')
  | failed {before after : List Expr} {e : Expr} {done undone : List CompareOp}
      {vs : List Value} {m₁ m' : Machine} {err : EvalError}
      (hsplit : es = before ++ e :: after) (hops : ops = done ++ undone)
      (hes : Reads ev before m vs m₁) (hvs : Holding vs done) (he : ev e m₁ = (.error err, m')) :
      Ended ev es ops m (.error err, m')

section
variable {r : Registry} {ctx : Context} {call : Command → List Value → EvalM Value}

/-- The invariant of the loop through a chain: what is before was evaluated once, and holds. -/
theorem ended_evalChain {before : List Expr} {done : List CompareOp} {vs : List Value} {v : Value}
    {m m₁ : Machine} (hes : Reads (eval r ctx call) before m (vs ++ [v]) m₁)
    (hvs : Holding (vs ++ [v]) done) (rest : List (CompareOp × Expr)) :
    Ended (eval r ctx call) (before ++ rest.map (·.2)) (done ++ rest.map (·.1)) m
      (evalChain r ctx call v (rest.map (·.2)) (rest.map (·.1)) m₁) := by
  induction rest generalizing before done vs v m₁ with
  | nil =>
    simp only [List.map_nil, List.append_nil]
    exact .held hes hvs
  | cons o rest ih =>
    obtain ⟨op, e⟩ := o
    simp only [List.map_cons]
    rw [evalChain]
    rcases he : eval r ctx call e m₁ with ⟨err | w, m₂⟩
    · rw [bind_eq_of_error he]
      exact .failed rfl rfl hes hvs he
    · rw [bind_eq_of_ok he]
      have hread := hes.next he
      have hsplit := List.append_cons before e (rest.map (·.2))
      have stops : ∀ out, Value.compares op v w = out → out ≠ .ok true →
          Ended (eval r ctx call) (before ++ e :: rest.map (·.2)) (done ++ op :: rest.map (·.1)) m
            (out.map Value.bool, m₂) :=
        fun out hout hstop => .stopped hsplit rfl hread hvs hout hstop
      rcases hw : Value.compares op v w with err | holds
      · exact stops (.error err) hw (fun h => nomatch h)
      · cases holds with
        | true =>
          rw [hsplit, List.append_cons done]
          exact ih hread (hvs.next hw)
        | false => exact stops (.ok false) hw (fun h => nomatch h)

/-- **A chain evaluates each operand at most once, from the left**, and none behind the comparison
that does not hold or fails. -/
theorem ended_chain (e : Expr) (rest : List (CompareOp × Expr)) (m : Machine) :
    Ended (eval r ctx call) (e :: rest.map (·.2)) (rest.map (·.1)) m
      (eval r ctx call (chain e rest) m) := by
  rw [chain, eval]
  rcases he : eval r ctx call e m with ⟨err | v, m'⟩
  · rw [bind_eq_of_error he]
    exact .failed (List.nil_append _).symm (List.nil_append _).symm (.none m) .none he
  · rw [bind_eq_of_ok he]
    have hread : Reads (eval r ctx call) ([] ++ [e]) m ([] ++ [v]) m' := (Reads.none m).next he
    exact ended_evalChain hread (.one v) rest

end

end Eval

namespace Session

open Parlance.Expr

/-- **A chain of comparisons is the conjunction of its pairs**, when its operands are quiet; and
however they are, each one is evaluated at most once, from the left, and none behind the first
comparison that does not hold or fails. -/
theorem chain_conjunction (s : Session) (ctx : Context) (first : Expr)
    (rest : List (CompareOp × Expr)) :
    (∀ e, first.Quiet → (∀ o ∈ rest, o.2.Quiet) → Conjoins (pairs first rest) e →
      s.evaluateExpr ctx (chain first rest) = s.evaluateExpr ctx e) ∧
    ∀ m, Eval.Ended (Eval.evalIn s.registry ctx) (first :: rest.map (·.2)) (rest.map (·.1)) m
      (Eval.evalIn s.registry ctx (chain first rest) m) := by
  refine ⟨fun e hfirst hrest he => ?_, fun m => Eval.ended_chain first rest m⟩
  exact congrArg s.perform (Eval.eval_chain hfirst hrest he)

/-- the operands after `1` in `1 < 3 > 2 == "x"` -/
def mixedRest : List (CompareOp × Expr) := [(.lt, .int 3), (.gt, .int 2), (.eq, .str "x")]

/-- A number and a string are not compared, in the chain or in the conjunction. -/
theorem mixed_conjunction :
    (Expr.int 1).Quiet ∧ (∀ o ∈ mixedRest, o.2.Quiet) ∧
    Conjoins (pairs (.int 1) mixedRest) (.binary .and (.binary .and
      (chain (.int 1) [(.lt, .int 3)]) (chain (.int 3) [(.gt, .int 2)]))
      (chain (.int 2) [(.eq, .str "x")])) ∧
    fresh.evaluateExpr Eval.bystander (chain (.int 1) mixedRest) =
      fresh.evaluateExpr Eval.bystander (.binary .and (.binary .and
        (chain (.int 1) [(.lt, .int 3)]) (chain (.int 3) [(.gt, .int 2)]))
        (chain (.int 2) [(.eq, .str "x")])) ∧
    fresh.evaluateExpr Eval.bystander (chain (.int 1) mixedRest) =
      .quiet (.error (.invalidComparison .eq .int .string)) fresh := by
  have hrest : ∀ o ∈ mixedRest, o.2.Quiet := by
    simp only [mixedRest, List.forall_mem_cons]
    exact ⟨.int 3, .int 2, .str "x", fun _ h => nomatch h⟩
  have hconj := conjoins_foldl (.one (chain (.int 1) [(.lt, .int 3)]))
    [chain (.int 3) [(.gt, .int 2)], chain (.int 2) [(.eq, .str "x")]]
  obtain ⟨heq, -⟩ := chain_conjunction fresh Eval.bystander (.int 1) mixedRest
  exact ⟨.int 1, hrest, hconj, heq _ (.int 1) hrest hconj, rfl⟩

end Session

end Parlance
