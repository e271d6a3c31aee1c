import Parlance.Proofs.Eval.Places
import Parlance.Proofs.Expr.Spelling
import Parlance.Proofs.Session.History

/-!
# Globals read by their names

A fresh global has an identifier for its name.  Evaluating the name answers the value, unless the
language has set that word aside:

* `evaluate_global`     a name that stands alone is a variable, and globals are found first;
* `evaluate_truthWord`  the two truth values stand for themselves;
* `evaluate_keyword`    a keyword is no expression;
* `added_read_iff`      so a fresh global is read by its name exactly if this is no keyword, and a
                        truth value only where that is the value.
-/

namespace Parlance

namespace Lexeme

/-- a truth value as it is written -/
def truthWord : Bool → String
  | true => "true"
  | false => "false"

theorem truthWord_inj : ∀ {b b' : Bool}, truthWord b = truthWord b' → b = b' := by
  decide

theorem wordKind_keyword (k : Keyword) : wordKind k.spelling.toList = .keyword k := by
  cases k <;> decide

theorem wordKind_truthWord (b : Bool) : wordKind (truthWord b).toList = .bool := by
  cases b <;> decide

theorem wordKind_of_unreserved {name : String} (hkeyword : ∀ k : Keyword, k.spelling ≠ name)
    (htruth : ∀ b, truthWord b ≠ name) : wordKind name.toList = .ident :=
  wordKind_eq_ident hkeyword (Ne.symm (htruth true)) (Ne.symm (htruth false))

end Lexeme

namespace Session

variable {s s' : Session} {name : String} {v : Value}

theorem isIdentifier_of_addGlobal (h : s.addGlobal name v = .ok s') : isIdentifier name = true := by
  unfold addGlobal at h
  split at h
  · cases h
  · rename_i haccepted
    simp only [Bool.or_eq_true, Bool.not_eq_true', not_or, Bool.not_eq_false] at haccepted
    exact haccepted.1

/-! ## Words that stand alone -/

theorem evaluate_of_ofText {text : String} {e : Expr} {ctx : Context}
    (h : Expr.ofText text = .ok e)
    (hv : Eval.evalIn s.registry ctx e (.start s.globals) = (.ok v, .start s.globals)) :
    s.evaluate ctx text = .quiet (.ok v) s := by
  rw [evaluate, h]
  dsimp only
  rw [evaluateExpr, perform, hv]
  rfl

theorem evaluate_global (hname : isIdentifier name = true)
    (hkind : Lexeme.wordKind name.toList = .ident) (hget : s.globals.get? name = some v)
    (ctx : Context) : s.evaluate ctx name = .quiet (.ok v) s := by
  have htext : Expr.ofText name = .ok (.var (.name name)) := by
    refine (Expr.ofText_word hname fun n => iff_true_intro ?_).mpr trivial
    rw [hkind]
    exact .postfixed (.primary (.name rfl))
  refine evaluate_of_ofText htext ?_
  -- the globals are looked through before functions and commands
  have hlookup : Eval.lookup s.registry ctx s.globals (.name name) = .ok v := by
    rw [Eval.lookup, hget]
  rw [Eval.evalIn, Eval.eval, Eval.readVar_apply]
  exact congrArg (Prod.mk · _) hlookup

theorem evaluate_truthWord (b : Bool) (s : Session) (ctx : Context) :
    s.evaluate ctx (Lexeme.truthWord b) = .quiet (.ok (.bool b)) s := by
  have hname : isIdentifier (Lexeme.truthWord b) = true := by
    cases b <;> decide
  have htext : Expr.ofText (Lexeme.truthWord b) = .ok (.bool b) := by
    refine (Expr.ofText_word hname fun n => iff_true_intro ?_).mpr trivial
    rw [Lexeme.wordKind_truthWord]
    have hbool : Grammar.Primary [⟨.bool, Lexeme.truthWord b, n⟩]
        (.bool (Lexeme.truthWord b == "true")) := .bool rfl
    have hvalue : (Lexeme.truthWord b == "true") = b := by
      cases b <;> decide
    rw [hvalue] at hbool
    exact .postfixed (.primary hbool)
  exact evaluate_of_ofText htext rfl

theorem evaluate_keyword (k : Keyword) (s : Session) (ctx : Context) :
    ∃ e, s.evaluate ctx k.spelling = .quiet (.error (.parse e)) s := by
  have hname : isIdentifier k.spelling = true := by
    cases k <;> decide
  have hnone : ∀ e, Expr.ofText k.spelling ≠ .ok e := by
    intro e
    refine (Expr.ofText_word hname fun n => iff_false_intro ?_).mp
    rw [Lexeme.wordKind_keyword]
    exact Grammar.not_derives_keyword rfl e
  cases htext : Expr.ofText k.spelling with
  | ok e => exact absurd htext (hnone e)
  | error e =>
    refine ⟨e, ?_⟩
    rw [evaluate, htext]

/-! ## Fresh globals -/

/-- **A fresh global is read by its name exactly if the language has not set that word aside**, or if
it is a truth value and the global holds that.  Reading changes nothing. -/
theorem added_read_iff (h : s.addGlobal name v = .ok s') (ctx : Context) :
    ((s'.evaluate ctx name).result = .ok v ↔
      (∀ k : Keyword, k.spelling ≠ name) ∧ ∀ b, Lexeme.truthWord b = name → v = .bool b) ∧
    (s'.evaluate ctx name).session = s' := by
  have hname := isIdentifier_of_addGlobal h
  obtain ⟨-, hadded⟩ := addGlobal_inv h
  have hget : s'.globals.get? name = some v := by
    rw [hadded, Table.get?_insert, if_pos rfl]
  by_cases hkeyword : ∃ k : Keyword, k.spelling = name
  · obtain ⟨k, rfl⟩ := hkeyword
    obtain ⟨e, he⟩ := evaluate_keyword k s' ctx
    rw [he]
    refine ⟨iff_of_false ?_ fun hread => hread.1 k rfl, rfl⟩
    exact fun hresult => by cases hresult
  rw [not_exists] at hkeyword
  by_cases htruth : ∃ b, Lexeme.truthWord b = name
  · obtain ⟨b, rfl⟩ := htruth
    rw [evaluate_truthWord]
    refine ⟨⟨?_, fun hread => congrArg Except.ok (hread.2 b rfl).symm⟩, rfl⟩
    intro hresult
    refine ⟨hkeyword, fun b' hb' => ?_⟩
    rw [Lexeme.truthWord_inj hb']
    exact (Except.ok.inj hresult).symm
  · rw [not_exists] at htruth
    rw [evaluate_global hname (Lexeme.wordKind_of_unreserved hkeyword htruth) hget]
    exact ⟨iff_of_true rfl ⟨hkeyword, fun b hb => absurd hb (htruth b)⟩, rfl⟩

/-- the fresh session with one global -/
def holding (name : String) (v : Value) : Session :=
  ⟨.fresh, Table.empty.insert name v⟩

/-- `iffy` starts like a keyword, and is a name like any other. -/
theorem iffy_read : fresh.addGlobal "iffy" (.int 5) = .ok (holding "iffy" (.int 5)) ∧
    ((holding "iffy" (.int 5)).evaluate Eval.bystander "iffy").result = .ok (.int 5) := by
  have hadded : fresh.addGlobal "iffy" (.int 5) = .ok (holding "iffy" (.int 5)) := rfl
  obtain ⟨hread, -⟩ := added_read_iff hadded Eval.bystander
  refine ⟨hadded, hread.mpr ⟨?_, ?_⟩⟩
  · intro k
    cases k <;> decide
  · intro b hb
    cases b <;> exact absurd hb (by decide)

/-- A global by the name of a keyword cannot be read at all, and one by the name of a truth value is
hidden by it. -/
theorem reserved_global_unread :
    (fresh.addGlobal "if" (.int 5) = .ok (holding "if" (.int 5)) ∧
      ∃ e, ((holding "if" (.int 5)).evaluate Eval.bystander "if").result = .error (.parse e)) ∧
    fresh.addGlobal "true" (.int 5) = .ok (holding "true" (.int 5)) ∧
      ((holding "true" (.int 5)).evaluate Eval.bystander "true").result = .ok (.bool true) := by
  obtain ⟨e, he⟩ := evaluate_keyword .ifWord (holding "if" (.int 5)) Eval.bystander
  refine ⟨⟨rfl, e, congrArg Outcome.result he⟩, rfl, ?_⟩
  exact congrArg Outcome.result (evaluate_truthWord true _ Eval.bystander)

end Session

end Parlance
