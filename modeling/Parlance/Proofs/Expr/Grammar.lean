import Parlance.Expr.Parser

/-!
# The grammar of expressions

What a list of tokens denotes is said without reading it.  The strength of an operator is that of
the table `Joiner.strength`; a level `m` admits the forms whose joiner binds at least so tightly:

* `Primary us e`      a literal, a variable, or something in brackets;
* `Items us es`       expressions with commas between them, after which a comma may stand;
* `Bound us o`        a bound of a slice, which may be left out;
* `Postfixed us e`    a primary with members, calls, subscripts and slices after it;
* `Chain us es ops`   two or more operands with comparisons between them;
* `Derives m us e`    an expression of level `m`.

Operators of one strength join from the left, except for powers and assignments.  A chain is one
node, and nothing in brackets is a part of it.
-/

namespace Parlance.Grammar

mutual

inductive Primary : List Token → Expr → Prop
  | number {t : Token} {e : Expr} (kind : t.kind = .number)
      (value : Literal.number t.literal.toList = .ok e) : Primary [t] e
  | string {t : Token} (kind : t.kind = .string) :
      Primary [t] (.str (String.ofList (Literal.unescape t.literal.toList)))
  | char {t : Token} {c : Char} (kind : t.kind = .char)
      (value : Literal.char? t.literal.toList = some c) : Primary [t] (.char c)
  | bool {t : Token} (kind : t.kind = .bool) : Primary [t] (.bool (t.literal == "true"))
  | name {t : Token} (kind : t.kind = .ident) : Primary [t] (.var (.name t.literal))
  | context {d t : Token} (dollar : d.kind = .symbol .dollar) (kind : t.kind = .ident) :
      Primary [d, t] (.var (.context t.literal))
  | arg {d t : Token} {n : Nat} (dollar : d.kind = .symbol .dollar) (kind : t.kind = .number)
      (value : Literal.argument? t.literal.toList = some n) : Primary [d, t] (.var (.arg n))
  | paren {l r : Token} {us : List Token} {e : Expr} (left : l.kind = .symbol .leftParen)
      (inner : Derives 0 us e) (right : r.kind = .symbol .rightParen) : Primary (l :: us ++ [r]) e
  | list {l r : Token} {us : List Token} {es : List Expr} (left : l.kind = .symbol .leftSquare)
      (items : Items us es) (right : r.kind = .symbol .rightSquare) :
      Primary (l :: us ++ [r]) (.list es)

inductive Items : List Token → List Expr → Prop
  | none : Items [] []
  | last {us : List Token} {e : Expr} (item : Derives 0 us e) : Items us [e]
  | more {us vs : List Token} {e : Expr} {es : List Expr} {c : Token} (item : Derives 0 us e)
      (comma : c.kind = .symbol .comma) (others : Items vs es) : Items (us ++ c :: vs) (e :: es)

inductive Bound : List Token → Option Expr → Prop
  | none : Bound [] none
  | some {us : List Token} {e : Expr} (bound : Derives 0 us e) : Bound us (some e)

inductive Postfixed : List Token → Expr → Prop
  | primary {us : List Token} {e : Expr} (primary : Primary us e) : Postfixed us e
  | member {us : List Token} {e : Expr} {d t : Token} (base : Postfixed us e)
      (dot : d.kind = .symbol .dot) (kind : t.kind = .ident) :
      Postfixed (us ++ [d, t]) (.member e t.literal)
  | call {us vs : List Token} {e : Expr} {es : List Expr} {l r : Token} (callee : Postfixed us e)
      (left : l.kind = .symbol .leftParen) (args : Items vs es)
      (right : r.kind = .symbol .rightParen) : Postfixed (us ++ l :: (vs ++ [r])) (.call e es)
  | subscript {us vs : List Token} {e i : Expr} {l r : Token} (base : Postfixed us e)
      (left : l.kind = .symbol .leftSquare) (index : Derives 0 vs i)
      (right : r.kind = .symbol .rightSquare) : Postfixed (us ++ l :: (vs ++ [r])) (.subscript e i)
  | slice {us vs ws : List Token} {e : Expr} {lo hi : Option Expr} {l c r : Token}
      (base : Postfixed us e) (left : l.kind = .symbol .leftSquare) (start : Bound vs lo)
      (colon : c.kind = .symbol .colon) (stop : Bound ws hi)
      (right : r.kind = .symbol .rightSquare) :
      Postfixed (us ++ l :: (vs ++ c :: (ws ++ [r]))) (.slice e lo hi)

inductive Chain : List Token → List Expr → List CompareOp → Prop
  | pair {us vs : List Token} {x y : Expr} {t : Token} {op : CompareOp}
      (lhs : Derives (Joiner.compareStrength + 1) us x)
      (joiner : Joiner.ofKind? t.kind = some (.compare op))
      (rhs : Derives (Joiner.compareStrength + 1) vs y) : Chain (us ++ t :: vs) [x, y] [op]
  | more {us vs : List Token} {es : List Expr} {ops : List CompareOp} {y : Expr} {t : Token}
      {op : CompareOp} (lhs : Chain us es ops)
      (joiner : Joiner.ofKind? t.kind = some (.compare op))
      (rhs : Derives (Joiner.compareStrength + 1) vs y) :
      Chain (us ++ t :: vs) (es ++ [y]) (ops ++ [op])

inductive Derives : Nat → List Token → Expr → Prop
  | postfixed {m : Nat} {us : List Token} {e : Expr} (postfixed : Postfixed us e) : Derives m us e
  | unary {m : Nat} {us : List Token} {e : Expr} {t : Token} {op : UnaryOp}
      (level : m ≤ Joiner.bracketStrength) (kind : Expr.unaryOf? t.kind = some op)
      (operand : Derives Joiner.bracketStrength us e) : Derives m (t :: us) (.unary op e)
  | binary {m : Nat} {us vs : List Token} {x y : Expr} {t : Token} {op : BinaryOp}
      (level : m ≤ op.strength) (left : op ≠ .pow) (lhs : Derives op.strength us x)
      (joiner : Joiner.ofKind? t.kind = some (.binary op)) (rhs : Derives (op.strength + 1) vs y) :
      Derives m (us ++ t :: vs) (.binary op x y)
  | power {m : Nat} {us vs : List Token} {x y : Expr} {t : Token}
      (level : m ≤ BinaryOp.pow.strength) (lhs : Derives (BinaryOp.pow.strength + 1) us x)
      (joiner : Joiner.ofKind? t.kind = some (.binary .pow))
      (rhs : Derives BinaryOp.pow.strength vs y) : Derives m (us ++ t :: vs) (.binary .pow x y)
  | assign {m : Nat} {us vs : List Token} {x y : Expr} {t : Token} {op : Option BinaryOp}
      (level : m ≤ Joiner.assignStrength) (place : Derives (Joiner.assignStrength + 1) us x)
      (joiner : Joiner.ofKind? t.kind = some (.assign op))
      (value : Derives Joiner.assignStrength vs y) : Derives m (us ++ t :: vs) (.assign op x y)
  | chain {m : Nat} {us : List Token} {es : List Expr} {ops : List CompareOp}
      (level : m ≤ Joiner.compareStrength) (chain : Chain us es ops) :
      Derives m us (.comparison es ops)
  | ternary {m : Nat} {us vs ws : List Token} {x y z : Expr} {q c : Token}
      (level : m ≤ Joiner.ternaryStrength) (cond : Derives (Joiner.ternaryStrength + 1) us x)
      (question : q.kind = .symbol .question) (yes : Derives 0 vs y)
      (colon : c.kind = .symbol .colon) (no : Derives Joiner.ternaryStrength ws z) :
      Derives m (us ++ q :: (vs ++ c :: ws)) (.ternary x y z)

end

theorem Derives.mono {m n : Nat} {us : List Token} {e : Expr} (h : Derives m us e) (hnm : n ≤ m) :
    Derives n us e := by
  cases h with
  | postfixed h => exact .postfixed h
  | unary level kind operand => exact .unary (Nat.le_trans hnm level) kind operand
  | binary level left lhs joiner rhs => exact .binary (Nat.le_trans hnm level) left lhs joiner rhs
  | power level lhs joiner rhs => exact .power (Nat.le_trans hnm level) lhs joiner rhs
  | assign level place joiner value => exact .assign (Nat.le_trans hnm level) place joiner value
  | chain level chain => exact .chain (Nat.le_trans hnm level) chain
  | ternary level cond question yes colon no =>
    exact .ternary (Nat.le_trans hnm level) cond question yes colon no

end Parlance.Grammar
