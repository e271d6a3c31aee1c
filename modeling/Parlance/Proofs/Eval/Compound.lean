import Parlance.Proofs.Eval.Arithmetic
import Parlance.Proofs.Eval.Quiet

/-!
# Compound assignments and what they stand for

`place op= value` looks into the place once it has the value.  `place = place op value` evaluates the
place a second time, as an expression and before the value.

* `BinaryOp.strict_of_assign`   the operators that an assignment can be spelled with;
* `eval_of_placeOf`             a quiet place is evaluated to what its path leads to;
* `assign_cases`                so both assignments fail and leave the machine as it is, or they are the
                                same step;
* `compound_expands`            and come to the same in a session.
-/

namespace Parlance

/-- The operators that an assignment can be spelled with evaluate both operands. -/
theorem BinaryOp.strict_of_assign {s : Symbol} {op : BinaryOp}
    (h : Joiner.ofSymbol? s = some (.assign (some op))) : op.Strict := by
  unfold Strict
  cases s <;> cases h <;> decide

namespace Eval

open EvalM

theorem found_concat (globals : Table Value) (place : Place) (index : Value) :
    found globals { place with path := place.path ++ [index] } =
      found globals place >>= fun v => Value.subscript v index := by
  unfold found
  cases globals.get? place.name with
  | none => rfl
  | some whole =>
    dsimp only
    rw [List.foldlM_append]
    refine congrArg _ (funext fun v => ?_)
    rw [List.foldlM_cons]
    cases Value.subscript v index <;> rfl

/-! ## Places as expressions -/

section
variable {r : Registry} {ctx : Context} {call : Command → List Value → EvalM Value}

theorem globalPlace_inv {name : String} {m m' : Machine} {place : Place}
    (h : globalPlace r ctx name m = (.ok place, m')) :
    place = ⟨name, []⟩ ∧ ∃ whole, m.globals.get? name = some whole := by
  obtain ⟨globals, hglobals, h⟩ := still_globals.of_bind h
  cases hglobals
  split at h
  · rename_i hcontains
    cases h
    exact ⟨rfl, Option.isSome_iff_exists.mp hcontains⟩
  · -- what is no global may stand for something, but is no place
    obtain ⟨v, -, h⟩ := (readVar_still _).of_bind h
    cases h

/-- **A quiet place is evaluated to what its path leads to**, errors included. -/
theorem eval_of_placeOf {p : Expr} (hp : p.Quiet) {m m' : Machine} {place : Place}
    (h : placeOf r ctx call p m = (.ok place, m')) :
    eval r ctx call p m = (found m.globals place, m) := by
  induction hp generalizing m m' place with
  | var ref =>
    cases ref with
    | name name =>
      rw [placeOf] at h
      obtain ⟨rfl, whole, hwhole⟩ := globalPlace_inv h
      rw [eval, readVar_apply, lookup, found, hwhole]
      rfl
    | arg _ | context _ => cases h
  | subscript hbase hindex ihbase _ =>
    rw [placeOf] at h
    obtain ⟨place₀, hplace, h⟩ := (placeOf_still hbase).of_bind h
    obtain ⟨i, hi, h⟩ := (eval_still hindex).of_bind h
    cases h
    have hread := ihbase hplace
    rw [eval, found_concat]
    cases hfound : found m.globals place₀ with
    | error e =>
      rw [hfound] at hread
      exact bind_eq_of_error hread
    | ok v =>
      rw [hfound] at hread
      rw [bind_eq_of_ok hread, bind_eq_of_ok hi]
      exact lift_apply _ m
  | _ => cases h

/-! ## Assignments -/

section
variable {p v : Expr} {m m' : Machine} {place : Place} (h : placeOf r ctx call p m = (.ok place, m'))
include h

theorem eval_simple : eval r ctx call (.assign none p v) m =
    (eval r ctx call v >>= store place) m' := by
  rw [eval]
  exact bind_eq_of_ok h

theorem eval_compound (op : BinaryOp) : eval r ctx call (.assign (some op) p v) m =
    (eval r ctx call v >>= fun w => readPlace place >>= fun old =>
      EvalM.lift (Value.binary op old w) >>= store place) m' := by
  rw [eval]
  exact bind_eq_of_ok h

end

theorem assign_atomic (op : Option BinaryOp) {p v : Expr} (hp : p.Quiet) (hv : v.Quiet) :
    Atomic (eval r ctx call (.assign op p v)) := by
  rw [eval]
  exact assignment_atomic (placeOf_still hp) op (eval_still hv)

/-- **An assignment with an operator does what it stands for**, or both fail before they write.  Their
errors may differ, since the value is evaluated before what is in the place or after it. -/
theorem assign_cases {op : BinaryOp} (hop : op.Strict) {p v : Expr} (hp : p.Quiet) (hv : v.Quiet)
    (m : Machine) :
    eval r ctx call (.assign (some op) p v) m =
        eval r ctx call (.assign none p (.binary op p v)) m ∨
      ∃ e e', eval r ctx call (.assign (some op) p v) m = (.error e, m) ∧
        eval r ctx call (.assign none p (.binary op p v)) m = (.error e', m) := by
  rcases (placeOf_still hp).ok_or_error m with ⟨place, hplace⟩ | ⟨e, hplace⟩
  · have hread := readPlace_eq place m
    have hold := eval_of_placeOf hp hplace
    rw [eval_compound hplace, eval_simple hplace, eval_strict hop]
    rcases (eval_still hv).ok_or_error m with ⟨w, hw⟩ | ⟨e, hw⟩ <;>
      cases hfound : found m.globals place <;> rw [hfound] at hread hold
    case inl.error e =>
      rw [bind_eq_of_ok hw, bind_eq_of_error hread,
        bind_eq_of_error (bind_eq_of_error hold)]
      exact .inl rfl
    case inl.ok old =>
      rw [bind_eq_of_ok hw, bind_eq_of_ok hread, bind_assoc, bind_eq_of_ok hold, bind_assoc,
        bind_eq_of_ok hw]
      exact .inl rfl
    case inr.error e' =>
      exact .inr ⟨e, e', bind_eq_of_error hw, bind_eq_of_error (bind_eq_of_error hold)⟩
    case inr.ok old =>
      refine .inr ⟨e, e, bind_eq_of_error hw, bind_eq_of_error ?_⟩
      rw [bind_eq_of_ok hold, bind_eq_of_error hw]
  · left
    rw [eval, eval]
    exact (bind_eq_of_error hplace).trans (bind_eq_of_error hplace).symm

end

end Eval

namespace Session

theorem perform_congr (s : Session) {α : Type} {x y : EvalM α}
    (h : x (.start s.globals) = y (.start s.globals)) : s.perform x = s.perform y := by
  rw [perform, perform, h]

theorem perform_result (s : Session) {α : Type} {x : EvalM α} {a : Except EvalError α} {m : Machine}
    (h : x (.start s.globals) = (a, m)) : (s.perform x).result = a := by
  rw [perform, h]

/-- **A compound assignment comes to what it stands for.**  Between quiet operands, `p op= v` and
`p = p op v` give the same value if either gives one, and are then the same in all that they do; and
the one that fails leaves the session as it is. -/
theorem compound_expands (s : Session) (ctx : Context) {t : Symbol} {op : BinaryOp}
    (hop : Joiner.ofSymbol? t = some (.assign (some op))) {p v : Expr} (hp : p.Quiet)
    (hv : v.Quiet) :
    let compound := s.evaluateExpr ctx (.assign (some op) p v)
    let expanded := s.evaluateExpr ctx (.assign none p (.binary op p v))
    (∀ w, compound.result = .ok w ↔ expanded.result = .ok w) ∧
    (∀ w, compound.result = .ok w → compound = expanded) ∧
    (∀ e, compound.result = .error e → compound = .quiet (.error e) s) ∧
    (∀ e, expanded.result = .error e → expanded = .quiet (.error e) s) := by
  intro compound expanded
  have hstrict := BinaryOp.strict_of_assign hop
  have hboth : compound = expanded ∨
      ∃ e e', compound.result = .error e ∧ expanded.result = .error e' := by
    rcases Eval.assign_cases hstrict hp hv (.start s.globals) with h | ⟨e, e', h, h'⟩
    · exact .inl (s.perform_congr h)
    · exact .inr ⟨e, e', s.perform_result h, s.perform_result h'⟩
  refine ⟨fun w => ?_, fun w hw => ?_, fun e => ?_, fun e => ?_⟩
  · rcases hboth with h | ⟨e, e', h, h'⟩
    · rw [h]
    · rw [h, h']
      exact iff_of_false nofun nofun
  · rcases hboth with h | ⟨e, -, h, -⟩
    · exact h
    · rw [h] at hw
      cases hw
  · exact s.perform_quiet (Eval.assign_atomic _ hp hv)
  · have hnew : (Expr.binary op p v).Quiet := .binary hstrict.2.2 hp hv
    exact s.perform_quiet (Eval.assign_atomic _ hp hnew)

/-- the session whose only global is the same map, with one more number in the list -/
def longerLedger : Session :=
  ⟨.fresh, .insert .empty "g"
    (.map .char (.list .int) [(.char 'a', .list .int [.int 1, .int 2])])⟩

/-- `g['a'] += [2]` makes the list longer, and `g['b'] += [2]` finds no list. -/
theorem ledger_expands :
    Joiner.ofSymbol? .plusEqual = some (.assign (some .add)) ∧ (column 'a').Quiet ∧
    (column 'b').Quiet ∧ (Expr.list [.int 2]).Quiet ∧
    ledger.evaluateExpr Eval.bystander (.assign (some .add) (column 'a') (.list [.int 2])) =
      .quiet (.ok (.list .int [.int 1, .int 2])) longerLedger ∧
    ledger.evaluateExpr Eval.bystander
        (.assign none (column 'a') (.binary .add (column 'a') (.list [.int 2]))) =
      .quiet (.ok (.list .int [.int 1, .int 2])) longerLedger ∧
    ledger.evaluateExpr Eval.bystander (.assign (some .add) (column 'b') (.list [.int 2])) =
      .quiet (.error (.missingKey "'b'")) ledger := by
  have hop : Joiner.ofSymbol? .plusEqual = some (.assign (some .add)) := rfl
  have hvalue : (Expr.list [.int 2]).Quiet := .list (List.forall_mem_singleton.mpr (.int 2))
  obtain ⟨-, hsame, -, -⟩ :=
    compound_expands ledger Eval.bystander hop (column_quiet 'a') hvalue
  obtain ⟨-, -, hfails, -⟩ :=
    compound_expands ledger Eval.bystander hop (column_quiet 'b') hvalue
  have hlonger : ledger.evaluateExpr Eval.bystander
      (.assign (some .add) (column 'a') (.list [.int 2])) =
      .quiet (.ok (.list .int [.int 1, .int 2])) longerLedger := rfl
  have hexpanded := hsame (.list .int [.int 1, .int 2]) (congrArg Outcome.result hlonger)
  exact ⟨hop, column_quiet 'a', column_quiet 'b', hvalue, hlonger, hexpanded ▸ hlonger,
    hfails _ rfl⟩

end Session

end Parlance
