import Parlance.Expr.Printer
import Parlance.Proofs.Text.Groups

/-!
# Expressions as words in brackets

* `Expr.tree e`       the words and groups that `Expr.display` writes for an expression;
* `toList_display`    its text is theirs.
-/

namespace Parlance.Expr

/-- a form: its mark and its parts in round brackets -/
def form (mark : String) (parts : List Sexp) : Sexp := .group .round (.word mark.toList :: parts)

mutual

/-- the words and groups that are written for an expression -/
def tree : Expr → Sexp
  | int i => .word (Integer.display i).toList
  | dbl d => .word d.exactText
  | bool b => .word (if b then "true" else "false").toList
  | char c => .word (Text.quotedChar c)
  | str s => .word (Text.quotedString s.toList)
  | list items => .group .square (trees items)
  | var ref => .word ref.display.toList
  | unary op operand => form op.symbol [operand.tree]
  | binary op lhs rhs => form op.symbol [lhs.tree, rhs.tree]
  | assign op place value => form (assignSymbol op) [place.tree, value.tree]
  | ternary cond yes no => form "?" [cond.tree, yes.tree, no.tree]
  | comparison [] _ => .group .round []
  | comparison (first :: others) ops => .group .round (first.tree :: chainTrees others ops)
  | call callee args => form "call" (callee.tree :: trees args)
  | subscript base index => form "index" [base.tree, index.tree]
  | slice base start stop => form "slice" [base.tree, boundTree start, boundTree stop]
  | member base name => form "." [base.tree, .word name.toList]

def trees : List Expr → List Sexp
  | [] => []
  | item :: items => item.tree :: trees items

/-- the operands of a chain after the first, each after its operator -/
def chainTrees : List Expr → List CompareOp → List Sexp
  | [], _ => []
  | operand :: operands, ops =>
    .word ((ops.head?.map CompareOp.symbol).getD "").toList :: operand.tree ::
      chainTrees operands ops.tail

def boundTree : Option Expr → Sexp
  | some bound => bound.tree
  | none => .word ['_']

end

/-! ## The text of a tree -/

theorem text_form (mark : String) (parts : List Sexp) :
    (form mark parts).text = '(' :: (mark.toList ++ Sexp.textAfter .round parts) := by
  rw [form, Sexp.text, Sexp.textParts, Sexp.text]
  rfl

mutual

theorem toList_display (e : Expr) : e.display.toList = e.tree.text := by
  match e with
  | int _ | bool _ | var _ =>
    rw [display, tree, Sexp.text]
  | dbl _ | char _ | str _ =>
    rw [display, tree, Sexp.text, String.toList_ofList]
  | list items =>
    rw [display, tree, Sexp.text, String.toList_append, String.toList_append, List.append_assoc,
      ← toList_displayItems items]
    rfl
  | unary op operand =>
    simp [display, tree, text_form, Sexp.textAfter, Bracket.gap, Bracket.stop, ← toList_display operand]
  | binary op lhs rhs | assign op lhs rhs | subscript lhs rhs =>
    simp [display, tree, text_form, Sexp.textAfter, Bracket.gap, Bracket.stop, ← toList_display lhs,
      ← toList_display rhs]
  | ternary cond yes no =>
    simp [display, tree, text_form, Sexp.textAfter, Bracket.gap, Bracket.stop, ← toList_display cond,
      ← toList_display yes, ← toList_display no]
  | comparison [] _ =>
    rw [display, tree]
    rfl
  | comparison (first :: others) ops =>
    simp [display, tree, Sexp.text, Sexp.textParts, Bracket.start, ← toList_display first,
      ← toList_displayChain others ops]
  | call callee args =>
    simp [display, tree, text_form, Sexp.textAfter, Bracket.gap, ← toList_display callee,
      ← toList_displayArgs args]
  | slice base start stop =>
    simp [display, tree, text_form, Sexp.textAfter, Bracket.gap, Bracket.stop, ← toList_display base,
      ← toList_displayBound start, ← toList_displayBound stop]
  | member base name =>
    simp [display, tree, text_form, Sexp.textAfter, Sexp.text, Bracket.gap, Bracket.stop,
      ← toList_display base]

theorem toList_displayItems (items : List Expr) :
    (displayItems items).toList ++ [']'] = Sexp.textParts .square (trees items) := by
  match items with
  | [] => rfl
  | [item] =>
    simp [displayItems, trees, Sexp.textParts, Sexp.textAfter, Bracket.stop, ← toList_display item]
  | item :: other :: items =>
    have hothers := toList_displayItems (other :: items)
    simp only [trees, Sexp.textParts] at hothers
    simp [displayItems, trees, Sexp.textParts, Sexp.textAfter, Bracket.gap, ← toList_display item, hothers]

theorem toList_displayArgs (args : List Expr) :
    (displayArgs args).toList ++ [')'] = Sexp.textAfter .round (trees args) := by
  match args with
  | [] => rfl
  | arg :: args =>
    simp [displayArgs, trees, Sexp.textAfter, Bracket.gap, ← toList_display arg, ← toList_displayArgs args]

theorem toList_displayChain (operands : List Expr) (ops : List CompareOp) :
    (displayChain operands ops).toList ++ [')'] = Sexp.textAfter .round (chainTrees operands ops) := by
  match operands with
  | [] => rfl
  | operand :: operands =>
    simp [displayChain, chainTrees, Sexp.textAfter, Sexp.text, Bracket.gap, ← toList_display operand,
      ← toList_displayChain operands ops.tail]

theorem toList_displayBound (bound : Option Expr) :
    (displayBound bound).toList = (boundTree bound).text := by
  match bound with
  | none => rfl
  | some bound =>
    rw [displayBound, boundTree]
    exact toList_display bound

end

end Parlance.Expr
