import Parlance.Proofs.Expr.Made
import Parlance.Proofs.Expr.Trees
import Parlance.Proofs.Number.Shortest

/-!
# The form of an expression can be read off its tree

* `Expr.Clear e`       the parts of the expression are made as those of a text are, no double is infinite,
                       and no bound of a slice is the variable that looks like a bound left out;
* `fit_tree`           the words of such an expression are quoted, or end where a tree can end;
* `Expr.Shape`         the form of an expression, with its operator;
* `Sexp.shape?`        the form that a tree is of: a word by its first character, a chain by the operator
                       after its first part, another group by the mark at its front;
* `shape?_tree`        that is the form of the expression.
-/

namespace Parlance

/-! ## Words -/

section
variable {cs : List Char} {c : Char}

/-- The word is digits with signs and marks of a decimal between them. -/
structure IsNumber (cs : List Char) : Prop where
  starts : ∃ c ∈ cs.head?, c.isDigit = true ∨ c = '+' ∨ c = '-'
  chars : ∀ c ∈ cs, c.isDigit = true ∨ c = '+' ∨ c = '-' ∨ c = '.' ∨ c = 'e'

theorem IsNumber.head_ne (h : IsNumber cs) (hc : c.isDigit = false ∧ c ≠ '+' ∧ c ≠ '-') :
    cs.head? ≠ some c := by
  obtain ⟨d, hd, hstart⟩ := h.starts
  intro heq
  rw [Option.some.inj (hd.symm.trans heq)] at hstart
  rcases hstart with hdigit | hplus | hminus
  · rw [hc.1] at hdigit
    cases hdigit
  · exact hc.2.1 hplus
  · exact hc.2.2 hminus

namespace Sexp

theorem isSolid_of_isWordPart (h : Lexeme.isWordPart c = true) : isSolid c = true := by
  rw [← Bool.not_eq_false]
  intro hc
  simp only [isSolid, Bool.not_eq_eq_eq_not, Bool.not_false, Bool.or_eq_true, beq_iff_eq] at hc
  rcases hc with ((((((rfl | rfl) | rfl) | rfl) | rfl) | rfl) | rfl) | rfl <;> cases h

theorem isSolid_of_isDigit (h : c.isDigit = true) : isSolid c = true :=
  isSolid_of_isWordPart ((Lexeme.isWordPart_iff c).mpr (.inr h))

theorem isWord_of_solid (hne : cs ≠ []) (h : cs.all isSolid = true) : IsWord cs :=
  .inl ⟨hne, List.all_eq_true.mp h⟩

theorem isWord_of_isNumber (h : IsNumber cs) : IsWord cs := by
  obtain ⟨c, hc, -⟩ := h.starts
  refine .inl ⟨?_, fun d hd => ?_⟩
  · rintro rfl
    cases hc
  · rcases h.chars d hd with hd | rfl | rfl | rfl | rfl
    · exact isSolid_of_isDigit hd
    all_goals rfl

theorem isWord_of_isName (h : Lexeme.IsName cs) : IsWord cs := by
  obtain ⟨c, hc, -⟩ := h.starts
  refine .inl ⟨?_, fun d hd => isSolid_of_isWordPart (h.parts d hd)⟩
  rintro rfl
  cases hc

end Sexp

/-- a sign before a number -/
theorem isNumber_sign (h : IsNumber cs) (hc : c = '+' ∨ c = '-') : IsNumber (c :: cs) :=
  ⟨⟨c, rfl, .inr hc⟩, List.forall_mem_cons.mpr ⟨hc.elim (.inr ∘ .inl) (.inr ∘ .inr ∘ .inl), h.chars⟩⟩

theorem isNumber_of_decimal {n : Nat} (h : Numeral.Decimal cs n) :
    IsNumber cs ∧ Literal.isFractional cs = false := by
  obtain ⟨hne, hdigits, -⟩ := h
  obtain ⟨c, cs, rfl⟩ := List.exists_cons_of_ne_nil hne
  refine ⟨⟨⟨c, rfl, .inl (hdigits c List.mem_cons_self)⟩, fun d hd => .inl (hdigits d hd)⟩, ?_⟩
  rw [Literal.isFractional, List.any_eq_false]
  intro d hd hmark
  have hdigit := hdigits d hd
  simp only [Bool.or_eq_true, beq_iff_eq] at hmark
  rcases hmark with (rfl | rfl) | rfl <;> cases hdigit

/-- An integer is a number without a point and an exponent. -/
theorem isNumber_of_signed {i : Int} (h : Numeral.Signed cs i) :
    IsNumber cs ∧ Literal.isFractional cs = false := by
  cases h with
  | plain digits => exact isNumber_of_decimal digits
  | plus digits =>
    obtain ⟨hnumber, hwhole⟩ := isNumber_of_decimal digits
    exact ⟨isNumber_sign hnumber (.inl rfl), hwhole⟩
  | minus digits =>
    obtain ⟨hnumber, hwhole⟩ := isNumber_of_decimal digits
    exact ⟨isNumber_sign hnumber (.inr rfl), hwhole⟩

/-- The text of a finite double is a number with a point or an exponent. -/
theorem isNumber_exactText {d : Double} (hnan : d.isNaN = false) (hinfinite : d.isInfinite = false) :
    IsNumber d.exactText ∧ Literal.isFractional d.exactText = true := by
  obtain ⟨text, htext, hdecimal, -⟩ := Double.exactText_spec hnan hinfinite
  obtain ⟨c, hc, hdigit⟩ := hdecimal.starts
  have hnumber : IsNumber text := by
    refine ⟨⟨c, hc, .inl hdigit⟩, fun d hd => ?_⟩
    rcases hdecimal.chars d hd with h | h | h | h
    · exact .inl h
    · exact .inr (.inr (.inr (.inl h)))
    · exact .inr (.inr (.inr (.inr h)))
    · exact .inr (.inr (.inl h))
  have hfractional : Literal.isFractional text = true := by
    rw [Literal.isFractional, List.any_eq_true]
    rcases hdecimal.marked with hmem | hmem
    · exact ⟨_, hmem, rfl⟩
    · exact ⟨_, hmem, rfl⟩
  rw [htext, Double.withSign]
  split
  · exact ⟨isNumber_sign hnumber (.inr rfl), hfractional⟩
  · exact ⟨hnumber, hfractional⟩

end

namespace Expr

/-! ## Clear expressions -/

/-- No double is infinite, and no bound of a slice is the variable `_`. -/
def Plain : Expr → Prop
  | dbl d => d.isInfinite = false
  | slice _ start stop => start ≠ some (var (.name "_")) ∧ stop ≠ some (var (.name "_"))
  | _ => True

def Clear (e : Expr) : Prop := e.Made ∧ e.Plain

/-! ## Words that fit -/

open Sexp

theorem isWord_operator (op : UnaryOp) : IsWord op.symbol.toList := by
  cases op <;> exact isWord_of_solid (by decide) (by decide)

theorem isWord_binary (op : BinaryOp) : IsWord op.symbol.toList := by
  cases op <;> exact isWord_of_solid (by decide) (by decide)

theorem isWord_assign (op : Option BinaryOp) : IsWord (assignSymbol op).toList := by
  rcases op with _ | op
  · exact isWord_of_solid (by decide) (by decide)
  · cases op <;> exact isWord_of_solid (by decide) (by decide)

theorem isWord_compare (op : CompareOp) : IsWord op.symbol.toList := by
  cases op <;> exact isWord_of_solid (by decide) (by decide)

theorem isSolid_toDigits (n : Nat) : ∀ c ∈ Nat.toDigits 10 n, isSolid c = true := fun c hc =>
  isSolid_of_isDigit ((Numeral.decimal_toDigits n).2.1 c hc)

theorem toList_arg (index : Nat) : (VarRef.arg index).display.toList = '$' :: Nat.toDigits 10 index := by
  simp [VarRef.display]

theorem toList_context (name : String) : (VarRef.context name).display.toList = '$' :: name.toList := by
  simp [VarRef.display]

theorem isWord_var {ref : VarRef} (h : (var ref).Made) : IsWord ref.display.toList := by
  cases ref with
  | name name => exact isWord_of_isName h
  | arg index =>
    rw [toList_arg]
    exact .inl ⟨List.cons_ne_nil _ _, List.forall_mem_cons.mpr ⟨rfl, isSolid_toDigits index⟩⟩
  | context name =>
    rw [toList_context]
    exact .inl ⟨List.cons_ne_nil _ _,
      List.forall_mem_cons.mpr ⟨rfl, fun c hc => isSolid_of_isWordPart (h.parts c hc)⟩⟩

mutual

/-- The words of a clear expression are quoted, or end where a tree can end. -/
theorem fit_tree {e : Expr} (h : e.Forall Clear) : e.tree.Fit := by
  match e with
  | int i => exact isWord_of_isNumber (isNumber_of_signed (Numeral.signed_display i)).1
  | dbl d => exact isWord_of_isNumber (isNumber_exactText h.1 h.2).1
  | bool b => cases b <;> exact isWord_of_solid (by decide) (by decide)
  | char c => exact .inr ⟨_, _, .inr rfl, rfl⟩
  | str s => exact .inr ⟨_, _, .inl rfl, rfl⟩
  | list items => exact fit_trees h.2
  | var ref => exact isWord_var h.1
  | unary op operand => exact ⟨isWord_operator op, fit_tree h.2, trivial⟩
  | binary op lhs rhs => exact ⟨isWord_binary op, fit_tree h.2.1, fit_tree h.2.2, trivial⟩
  | assign op place value => exact ⟨isWord_assign op, fit_tree h.2.1, fit_tree h.2.2, trivial⟩
  | ternary cond yes no =>
    exact ⟨isWord_of_solid (by decide) (by decide), fit_tree h.2.1, fit_tree h.2.2.1, fit_tree h.2.2.2,
      trivial⟩
  | comparison [] ops => exact trivial
  | comparison (first :: others) ops =>
    exact ⟨fit_tree h.2.1, fit_chainTrees h.2.2 (Nat.succ.inj h.1.1.2)⟩
  | call callee args =>
    exact ⟨isWord_of_solid (by decide) (by decide), fit_tree h.2.1, fit_trees h.2.2⟩
  | subscript base index =>
    exact ⟨isWord_of_solid (by decide) (by decide), fit_tree h.2.1, fit_tree h.2.2, trivial⟩
  | slice base start stop =>
    exact ⟨isWord_of_solid (by decide) (by decide), fit_tree h.2.1, fit_boundTree h.2.2.1,
      fit_boundTree h.2.2.2, trivial⟩
  | member base name =>
    exact ⟨isWord_of_solid (by decide) (by decide), fit_tree h.2, isWord_of_isName h.1.1, trivial⟩

theorem fit_trees {es : List Expr} (h : ForallItems Clear es) : FitAll (trees es) := by
  match es with
  | [] => exact trivial
  | e :: es => exact ⟨fit_tree h.1, fit_trees h.2⟩

theorem fit_chainTrees {operands : List Expr} {ops : List CompareOp} (h : ForallItems Clear operands)
    (hlength : operands.length = ops.length) : FitAll (chainTrees operands ops) := by
  match operands, ops with
  | [], _ => exact trivial
  | operand :: operands, op :: ops =>
    exact ⟨isWord_compare op, fit_tree h.1, fit_chainTrees h.2 (Nat.succ.inj hlength)⟩

theorem fit_boundTree {bound : Option Expr} (h : ForallBound Clear bound) : (boundTree bound).Fit := by
  match bound with
  | none => exact isWord_of_solid (by decide) (by decide)
  | some bound => exact fit_tree (e := bound) h

end

/-! ## Forms -/

/-- the form of an expression, with its operator -/
inductive Shape where
  | int
  | dbl
  | bool
  | char
  | str
  | list
  | var
  | unary (op : UnaryOp)
  | binary (op : BinaryOp)
  | assign (op : Option BinaryOp)
  | ternary
  | comparison
  | call
  | subscript
  | slice
  | member
deriving DecidableEq

def shape : Expr → Shape
  | int _ => .int
  | dbl _ => .dbl
  | bool _ => .bool
  | char _ => .char
  | str _ => .str
  | list _ => .list
  | var _ => .var
  | unary op _ => .unary op
  | binary op _ _ => .binary op
  | assign op _ _ => .assign op
  | ternary _ _ _ => .ternary
  | comparison _ _ => .comparison
  | call _ _ => .call
  | subscript _ _ => .subscript
  | slice _ _ _ => .slice
  | member _ _ => .member

namespace Shape

/-- the word at the front of a form, if it has one -/
def mark : Shape → String
  | unary op => op.symbol
  | binary op => op.symbol
  | assign op => assignSymbol op
  | ternary => "?"
  | call => "call"
  | subscript => "index"
  | slice => "slice"
  | member => "."
  | _ => ""

def binaryOps : List BinaryOp :=
  [.add, .sub, .mul, .div, .rem, .pow, .shl, .shr, .bitAnd, .bitOr, .bitXor, .and, .or, .pipeline]

theorem mem_binaryOps (op : BinaryOp) : op ∈ binaryOps := by
  cases op <;> decide

/-- the forms with a mark and one part -/
def simple : List Shape := [unary .neg, unary .plus, unary .not, unary .bitNot, call]

/-- the forms with a mark and several parts -/
def compound : List Shape :=
  binaryOps.map binary ++ assign none :: binaryOps.map (fun op => assign (some op)) ++
    [ternary, call, subscript, slice, member]

/-- the form with the mark `cs` and one part or more -/
def ofMark? (cs : List Char) (single : Bool) : Option Shape :=
  (if single then simple else compound).find? fun s => s.mark.toList == cs

theorem ofMark?_simple : ∀ s ∈ simple, ofMark? s.mark.toList true = some s := by
  decide +kernel

theorem ofMark?_compound : ∀ s ∈ compound, ofMark? s.mark.toList false = some s := by
  decide +kernel

/-- the form of a word -/
def ofWord (cs : List Char) : Shape :=
  if cs.head? = some '"' then str
  else if cs.head? = some '\'' then char
  else if cs.head? = some '$' then var
  else if cs.head?.any Lexeme.isWordStart then if Lexeme.wordKind cs = .bool then bool else var
  else if Literal.isFractional cs then dbl
  else int

end Shape

end Expr

namespace Sexp

open Parlance.Expr

/-- Is the tree a word that an operator of comparisons starts like. -/
def isCompare : Sexp → Bool
  | word cs => cs.head?.any fun c => c == '=' || c == '!' || c == '<' || c == '>'
  | group _ _ => false

/-- The form of an expression with this tree. -/
def shape? : Sexp → Option Shape
  | word cs => some (.ofWord cs)
  | group .square _ => some .list
  | group .round (first :: second :: others) =>
    if second.isCompare then some .comparison
    else
      match first with
      | word cs => Shape.ofMark? cs others.isEmpty
      | group _ _ => none
  | group .round _ => none

end Sexp

namespace Expr

/-! ## Forms that are read off -/

namespace Shape

variable {cs : List Char}

theorem ofWord_of_isNumber (h : IsNumber cs) :
    ofWord cs = if Literal.isFractional cs then dbl else int := by
  have hword : cs.head?.any Lexeme.isWordStart = false := by
    obtain ⟨c, hc, hstart⟩ := h.starts
    rw [hc, Option.any_some]
    rcases hstart with hdigit | rfl | rfl
    · rw [← Bool.not_eq_true]
      intro hword
      rw [Lexeme.not_isDigit_of_isWordStart hword] at hdigit
      cases hdigit
    all_goals rfl
  rw [ofWord, if_neg (h.head_ne (by decide)), if_neg (h.head_ne (by decide)),
    if_neg (h.head_ne (by decide)), hword, if_neg Bool.false_ne_true]

theorem ofWord_of_isName (h : Lexeme.IsName cs) : ofWord cs = var := by
  have hword : cs.head?.any Lexeme.isWordStart = true := by
    obtain ⟨c, hc, hstart⟩ := h.starts
    rw [hc]
    exact hstart
  have hkind : ¬Lexeme.wordKind cs = .bool := by
    rw [h.kind]
    exact TokenKind.noConfusion
  rw [ofWord, if_neg (h.head_ne rfl), if_neg (h.head_ne rfl), if_neg (h.head_ne rfl), if_pos hword,
    if_neg hkind]

theorem ofWord_var {ref : VarRef} (h : (Expr.var ref).Made) : ofWord ref.display.toList = var := by
  cases ref with
  | name name => exact ofWord_of_isName h
  | arg index =>
    rw [toList_arg]
    rfl
  | context name =>
    rw [toList_context]
    rfl

end Shape

open Sexp

theorem isCompare_word {cs : List Char} (h : cs.head? ≠ some '=' ∧ cs.head? ≠ some '!' ∧
    cs.head? ≠ some '<' ∧ cs.head? ≠ some '>') : (word cs).isCompare = false := by
  cases cs with
  | nil => rfl
  | cons c cs =>
    have hc : c ≠ '=' ∧ c ≠ '!' ∧ c ≠ '<' ∧ c ≠ '>' := by simpa using h
    simp [isCompare, hc]

theorem isCompare_number {cs : List Char} (h : IsNumber cs) : (word cs).isCompare = false :=
  isCompare_word ⟨h.head_ne (by decide), h.head_ne (by decide), h.head_ne (by decide),
    h.head_ne (by decide)⟩

theorem isCompare_name {cs : List Char} (h : Lexeme.IsName cs) : (word cs).isCompare = false :=
  isCompare_word ⟨h.head_ne rfl, h.head_ne rfl, h.head_ne rfl, h.head_ne rfl⟩

/-- No expression reads like an operator of comparisons. -/
theorem isCompare_tree {e : Expr} (h : e.Forall Clear) : e.tree.isCompare = false := by
  cases e with
  | int i => exact isCompare_number (isNumber_of_signed (Numeral.signed_display i)).1
  | dbl d => exact isCompare_number (isNumber_exactText h.1 h.2).1
  | bool b => cases b <;> rfl
  | var ref =>
    cases ref with
    | name name => exact isCompare_name h.1
    | arg index =>
      rw [tree, toList_arg]
      rfl
    | context name =>
      rw [tree, toList_context]
      rfl
  | comparison operands _ => cases operands <;> rfl
  | _ => rfl

theorem isCompare_symbol (op : CompareOp) : (word op.symbol.toList).isCompare = true := by
  cases op <;> rfl

theorem shape?_form (s : Shape) {part : Expr} {others : List Sexp} {single : Bool}
    (hpart : part.Forall Clear) (hsingle : others.isEmpty = single)
    (hmark : Shape.ofMark? s.mark.toList single = some s) :
    (form s.mark (part.tree :: others)).shape? = some s := by
  rw [form, shape?, isCompare_tree hpart, if_neg Bool.false_ne_true, hsingle]
  exact hmark

/-- **The form of an expression can be read off its tree.** -/
theorem shape?_tree {e : Expr} (h : e.Forall Clear) : e.tree.shape? = some e.shape := by
  match e with
  | int i =>
    obtain ⟨hnumber, hwhole⟩ := isNumber_of_signed (Numeral.signed_display i)
    rw [tree, shape?, Shape.ofWord_of_isNumber hnumber, hwhole, if_neg Bool.false_ne_true, shape]
  | dbl d =>
    obtain ⟨hnumber, hfractional⟩ := isNumber_exactText h.1 h.2
    rw [tree, shape?, Shape.ofWord_of_isNumber hnumber, if_pos hfractional, shape]
  | bool b => cases b <;> rfl
  | char _ | str _ | list _ => rfl
  | var ref => rw [tree, shape?, Shape.ofWord_var h.1, shape]
  | unary op _ =>
    have hmem : Shape.unary op ∈ Shape.simple := by cases op <;> decide
    rw [tree]
    exact shape?_form (.unary op) h.2 rfl (Shape.ofMark?_simple _ hmem)
  | binary op _ _ =>
    have hmem : Shape.binary op ∈ Shape.compound := by simp [Shape.compound, Shape.mem_binaryOps]
    rw [tree]
    exact shape?_form (.binary op) h.2.1 rfl (Shape.ofMark?_compound _ hmem)
  | assign op _ _ =>
    have hmem : Shape.assign op ∈ Shape.compound := by
      cases op <;> simp [Shape.compound, Shape.mem_binaryOps]
    rw [tree]
    exact shape?_form (.assign op) h.2.1 rfl (Shape.ofMark?_compound _ hmem)
  | ternary _ _ _ =>
    rw [tree]
    exact shape?_form .ternary h.2.1 rfl (Shape.ofMark?_compound _ (by decide))
  | comparison (first :: second :: others) (op :: ops) =>
    rw [tree, chainTrees]
    exact if_pos (isCompare_symbol op)
  | comparison [] _ => exact absurd h.1.1.2 (Nat.succ_ne_zero _).symm
  | comparison [_] ops => exact absurd (List.eq_nil_of_length_eq_zero (Nat.succ.inj h.1.1.2).symm) h.1.1.1
  | comparison (_ :: _ :: _) [] => exact absurd rfl h.1.1.1
  | call _ [] =>
    rw [tree, trees]
    exact shape?_form .call h.2.1 rfl (Shape.ofMark?_simple _ (by decide))
  | call _ (_ :: _) =>
    rw [tree, trees]
    exact shape?_form .call h.2.1 rfl (Shape.ofMark?_compound _ (by decide))
  | subscript _ _ =>
    rw [tree]
    exact shape?_form .subscript h.2.1 rfl (Shape.ofMark?_compound _ (by decide))
  | slice _ _ _ =>
    rw [tree]
    exact shape?_form .slice h.2.1 rfl (Shape.ofMark?_compound _ (by decide))
  | member _ _ =>
    rw [tree]
    exact shape?_form .member h.2 rfl (Shape.ofMark?_compound _ (by decide))

end Expr

end Parlance
