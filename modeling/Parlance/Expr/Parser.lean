import Parlance.Expr.Fault
import Parlance.Expr.Joiner
import Parlance.Token.Lexer

/-!
# From tokens to expressions

* `Reply α ts`            what reading a part of the tokens `ts` gives: the part or its faults, the
                          complaints made on the way, and the tokens that are left;
* `Expr.readExpr`         an expression all of whose joiners bind at least so tightly;
* `Expr.ofTokens`         the expression that a token list denotes;
* `Expr.ofText`           the expression that a text denotes.

An operand is read first, and then one joiner after another, each with what it needs.  A part that
fails does not end the reading: its faults take its place, the token at fault is passed over where
it was read as an operand, and the next part is read, so that one report names all that is wrong.

The tokens left are always a suffix of the tokens given, which is part of the type of a reply.
Every joiner and every comma is taken off before what follows it is read; so the measure of
`readExpr` and its companions, the number of tokens and then the nesting of the forms, decreases.
-/

namespace Parlance

/-- What reading a part of the tokens `ts` gives. -/
structure Reply (α : Type) (ts : List Token) where
  verdict : Verdict α
  /-- the complaints made on the way, in the order in which they were made -/
  log : List Fault
  /-- the tokens that are left -/
  rest : List Token
  rest_suffix : rest <:+ ts

namespace Reply

variable {α β : Type} {ts us : List Token}

/-- the reply of reading nothing -/
def idle (v : Verdict α) (ts : List Token) : Reply α ts := ⟨v, [], ts, List.suffix_refl ts⟩

/-- the same reading with another verdict -/
def map (f : Verdict α → Verdict β) (r : Reply α ts) : Reply β ts :=
  ⟨f r.verdict, r.log, r.rest, r.rest_suffix⟩

/-- a reading of a suffix of the tokens, seen as one of all of them -/
def within (h : us <:+ ts) (r : Reply α us) : Reply α ts :=
  ⟨r.verdict, r.log, r.rest, r.rest_suffix.trans h⟩

/-- one reading after another, with the verdict of the second -/
def thenOn (a : Reply α ts) (h : us <:+ a.rest) (b : Reply β us) : Reply β ts :=
  ⟨b.verdict, a.log ++ b.log, b.rest, b.rest_suffix.trans (h.trans a.rest_suffix)⟩

/-- one reading right after another, with the verdict of the second -/
def andThen (a : Reply α ts) (b : Reply β a.rest) : Reply β ts :=
  a.thenOn (List.suffix_refl a.rest) b

/-- a complaint about the token `t`, which has been passed over -/
def refuse (t : Token) (p : Problem) (ts : List Token) : Reply α ts :=
  ⟨.error [⟨t, p⟩], [⟨t, p⟩], ts, List.suffix_refl ts⟩

/-- a complaint about the next token, which stays: after the last one that is `stop` -/
def lack (stop : Token) (p : Problem) (ts : List Token) : Reply α ts := refuse (ts.headD stop) p ts

theorem rest_length_le (r : Reply α ts) : r.rest.length ≤ ts.length := r.rest_suffix.length_le

end Reply

namespace Expr

/-- the tokens after one of kind `k`, if that comes next -/
def next? (k : TokenKind) (ts : List Token) :
    Option { us : List Token // us <:+ ts ∧ us.length < ts.length } :=
  match ts with
  | [] => none
  | t :: us =>
    if t.kind = k then some ⟨us, List.suffix_cons t us, Nat.lt_succ_self us.length⟩ else none

/-- passes over the next token, which should be of kind `k` -/
def expect (stop : Token) (k : TokenKind) (p : Problem) (ts : List Token) : Reply Unit ts :=
  match next? k ts with
  | some ⟨us, h⟩ => Reply.within h.1 (.idle (.ok ()) us)
  | none => Reply.lack stop p ts

/-- The comparison of `lhs` and `rhs`.  Where `lhs` is a chain that is still being read, `rhs`
becomes its next operand. -/
def link (chained : Bool) (op : CompareOp) (lhs rhs : Expr) : Expr :=
  match chained, lhs with
  | true, comparison operands ops => comparison (operands ++ [rhs]) (ops ++ [op])
  | _, lhs => comparison [lhs, rhs] [op]

/-- the operator that a token before an operand stands for -/
def unaryOf? : TokenKind → Option UnaryOp
  | .symbol .minus => some .neg
  | .symbol .plus => some .plus
  | .symbol .bang => some .not
  | .symbol .tilde => some .bitNot
  | _ => none

/-- the variable after a dollar sign -/
def readVariable (stop : Token) (ts : List Token) : Reply Expr ts :=
  match ts with
  | [] => .refuse stop .badVariable []
  | t :: us => Reply.within (List.suffix_cons t us) <|
    match t.kind with
    | .ident => .idle (.ok (.var (.context t.literal))) us
    | .number =>
      match Literal.argument? t.literal.toList with
      | some n => .idle (.ok (.var (.arg n))) us
      | none => .refuse t .badArgument us
    | _ => .refuse t .badVariable us

/-- the name after a dot, and the member of that name -/
def readMember (stop : Token) (base : Verdict Expr) (ts : List Token) : Reply Expr ts :=
  let name : Reply String ts :=
    match ts with
    | [] => .lack stop .noMemberName []
    | t :: us =>
      if t.kind = .ident then Reply.within (List.suffix_cons t us) (.idle (.ok t.literal) us)
      else .lack stop .noMemberName (t :: us)
  name.map fun name => (base.both name).map fun (base, name) => .member base name

def readNumber (t : Token) (us : List Token) : Reply Expr us :=
  match Literal.number t.literal.toList with
  | .ok e => .idle (.ok e) us
  | .error fault => .refuse t (.badNumber fault) us

def readChar (t : Token) (us : List Token) : Reply Expr us :=
  match Literal.char? t.literal.toList with
  | some c => .idle (.ok (.char c)) us
  | none => .refuse t .badChar us

mutual

/-- An expression all of whose joiners outside brackets bind at least as tightly as `min`. -/
def readExpr (stop : Token) (min : Nat) (ts : List Token) : Reply Expr ts :=
  let head := readOperand stop ts
  have := head.rest_length_le
  head.andThen (readJoined stop min false head.verdict head.rest)
termination_by 8 * ts.length + 2
decreasing_by
  · omega
  · simp +zetaDelta only at this
    omega

/-- Reads on after the operand `lhs` as long as joiners bind at least as tightly as `min`;
`chained` says that `lhs` is a comparison read by this very loop. -/
def readJoined (stop : Token) (min : Nat) (chained : Bool) (lhs : Verdict Expr)
    (ts : List Token) : Reply Expr ts :=
  match ts with
  | [] => .idle lhs []
  | t :: us =>
    match Joiner.ofKind? t.kind with
    | none => .idle lhs (t :: us)
    | some j =>
      if j.strength < min then .idle lhs (t :: us)
      else
        let step := readAfter stop j chained lhs us
        have := step.rest_length_le
        Reply.within (List.suffix_cons t us)
          (step.andThen (readJoined stop min j.isCompare step.verdict step.rest))
termination_by 8 * ts.length + 1
decreasing_by
  · simp only [List.length_cons]
    omega
  · simp +zetaDelta only [List.length_cons] at this ⊢
    omega

/-- what the joiner `j`, which has been passed over, makes of the operand before it -/
def readAfter (stop : Token) (j : Joiner) (chained : Bool) (lhs : Verdict Expr)
    (ts : List Token) : Reply Expr ts :=
  match j with
  | .member => readMember stop lhs ts
  | .call =>
    (readItems stop (.symbol .rightParen) .noArgumentMark ts).map fun args =>
      (lhs.both args).map fun (callee, args) => .call callee args
  | .bracket => readBracket stop lhs ts
  | .binary op =>
    (readExpr stop (if op = .pow then op.strength else op.strength + 1) ts).map fun rhs =>
      (lhs.both rhs).map fun (lhs, rhs) => .binary op lhs rhs
  | .compare op =>
    (readExpr stop (Joiner.compareStrength + 1) ts).map fun rhs =>
      (lhs.both rhs).map fun (lhs, rhs) => link chained op lhs rhs
  | .assign op =>
    (readExpr stop Joiner.assignStrength ts).map fun value =>
      (lhs.both value).map fun (place, value) => .assign op place value
  | .ternary => readTernary stop lhs ts
termination_by 8 * ts.length + 6
decreasing_by all_goals omega

/-- an operand: unary operators and what they apply to -/
def readOperand (stop : Token) (ts : List Token) : Reply Expr ts :=
  match ts with
  | [] => readPrimary stop []
  | t :: us =>
    match unaryOf? t.kind with
    | none => readPrimary stop (t :: us)
    | some op => Reply.within (List.suffix_cons t us) <|
      (readExpr stop Joiner.bracketStrength us).map fun operand =>
        operand.map fun operand => .unary op operand
termination_by 8 * ts.length + 1
decreasing_by all_goals (simp only [List.length_cons, List.length_nil]; omega)

/-- A literal, a variable, or something in brackets.  The token that it starts with is passed over
also when it cannot start any of them. -/
def readPrimary (stop : Token) (ts : List Token) : Reply Expr ts :=
  match ts with
  | [] => .refuse stop .endOfInput []
  | t :: us => Reply.within (List.suffix_cons t us) <|
    match t.kind with
    | .number => readNumber t us
    | .string => .idle (.ok (.str (String.ofList (Literal.unescape t.literal.toList)))) us
    | .char => readChar t us
    | .bool => .idle (.ok (.bool (t.literal == "true"))) us
    | .ident => .idle (.ok (.var (.name t.literal))) us
    | .symbol .dollar => readVariable stop us
    | .symbol .leftParen =>
      let inner := readExpr stop 0 us
      (inner.andThen (expect stop (.symbol .rightParen) .noRightParen inner.rest)).map fun close =>
        (inner.verdict.both close).map fun (inner, _) => inner
    | .symbol .leftSquare =>
      (readItems stop (.symbol .rightSquare) .noListMark us).map fun items => items.map .list
    | .invalid cause => .refuse t (.invalidToken cause) us
    | _ => .refuse t .unexpectedToken us
termination_by 8 * ts.length
decreasing_by all_goals (simp only [List.length_cons]; omega)

/-- expressions with commas between them, up to a token of kind `close` -/
def readItems (stop : Token) (close : TokenKind) (p : Problem) (ts : List Token) :
    Reply (List Expr) ts :=
  match next? close ts with
  | some ⟨us, h⟩ => Reply.within h.1 (.idle (.ok []) us)
  | none => readItemsOn stop close p ts
termination_by 8 * ts.length + 5
decreasing_by all_goals omega

/-- the same where at least one expression is still to come; a comma may stand before `close` -/
def readItemsOn (stop : Token) (close : TokenKind) (p : Problem) (ts : List Token) :
    Reply (List Expr) ts :=
  let item := readExpr stop 0 ts
  have := item.rest_length_le
  match next? (.symbol .comma) item.rest with
  | some ⟨us, h⟩ =>
    match next? close us with
    | some ⟨vs, hv⟩ =>
      item.thenOn (hv.1.trans h.1) (.idle (item.verdict.map fun item => [item]) vs)
    | none =>
      item.thenOn h.1 <| (readItemsOn stop close p us).map fun others =>
        (item.verdict.both others).map fun (item, others) => item :: others
  | none =>
    (item.andThen (expect stop close p item.rest)).map fun close =>
      (item.verdict.both close).map fun (item, _) => [item]
termination_by 8 * ts.length + 4
decreasing_by all_goals omega

/-- a subscript or a slice, after its opening bracket -/
def readBracket (stop : Token) (base : Verdict Expr) (ts : List Token) : Reply Expr ts :=
  match next? (.symbol .colon) ts with
  | some ⟨us, h⟩ => Reply.within h.1 (readSlice stop base none us)
  | none =>
    let index := readExpr stop 0 ts
    have := index.rest_length_le
    match next? (.symbol .colon) index.rest with
    | some ⟨us, h⟩ => index.thenOn h.1 (readSlice stop base (some index.verdict) us)
    | none =>
      (index.andThen (expect stop (.symbol .rightSquare) .noSubscriptMark index.rest)).map
        fun close => (base.both (index.verdict.both close)).map
          fun (base, index, _) => .subscript base index
termination_by 8 * ts.length + 4
decreasing_by all_goals omega

/-- the rest of a slice, after its colon -/
def readSlice (stop : Token) (base : Verdict Expr) (start : Option (Verdict Expr))
    (ts : List Token) : Reply Expr ts :=
  match next? (.symbol .rightSquare) ts with
  | some ⟨us, h⟩ =>
    Reply.within h.1 <| .idle
      ((base.both (Verdict.optional start)).map fun (base, start) => .slice base start none) us
  | none =>
    let upper := readExpr stop 0 ts
    (upper.andThen (expect stop (.symbol .rightSquare) .noRightSquare upper.rest)).map fun close =>
      (base.both ((Verdict.optional start).both (upper.verdict.both close))).map
        fun (base, start, upper, _) => .slice base start (some upper)
termination_by 8 * ts.length + 3
decreasing_by all_goals omega

/-- the two expressions to choose from, after the question mark -/
def readTernary (stop : Token) (cond : Verdict Expr) (ts : List Token) : Reply Expr ts :=
  let yes := readExpr stop 0 ts
  have := yes.rest_length_le
  match next? (.symbol .colon) yes.rest with
  | some ⟨us, h⟩ =>
    yes.thenOn h.1 <| (readExpr stop Joiner.ternaryStrength us).map fun no =>
      (cond.both (yes.verdict.both no)).map fun (cond, yes, no) => .ternary cond yes no
  | none =>
    (yes.andThen (Reply.lack (α := Unit) stop .noElse yes.rest)).map fun missing =>
      (cond.both (yes.verdict.both missing)).map fun (cond, _, _) => cond
termination_by 8 * ts.length + 4
decreasing_by all_goals omega

end

/-! ## Whole texts -/

/-- The tokens before the one that marks the end, and that one.  A list without it ends where the
text does, at byte `length`. -/
def splitEnd (length : Nat) : List Token → List Token × Token
  | [] => ([], Token.atEnd length)
  | t :: ts =>
    if t.kind = .endOfText then ([], t)
    else ((t :: (splitEnd length ts).1), (splitEnd length ts).2)

def readWhole (stop : Token) (ts : List Token) : Reply Expr ts :=
  let whole := readExpr stop 0 ts
  match whole.verdict, whole.rest with
  | .ok _, t :: _ => whole.andThen (.refuse t .trailingToken whole.rest)
  | _, _ => whole

def ofTokens (length : Nat) (tokens : List Token) : Except ParseError Expr :=
  let (ts, stop) := splitEnd length tokens
  let whole := readWhole stop ts
  whole.verdict.mapError fun faults => ⟨faults, whole.log.head?⟩

def ofText (text : String) : Except ParseError Expr :=
  ofTokens text.utf8ByteSize (Token.ofText text)

end Expr

end Parlance
