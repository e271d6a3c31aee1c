import Parlance.Expr.Parser

/-!
# Reading by place

The reader of expressions takes tokens off a list, so that it cannot look beyond the last one, and its
recursion comes with a measure.  Here the same is read with a place in the list that stays as it is, and
with calls that go only so deep:

* `Walk α`            a step that gives an `α`, or breaks off where there is no token at its place
                      (`Halt.outside`), or calls deeper than it may (`Halt.unfinished`);
* `Cursor`            the place, the complaints so far, and the account of what was done so far;
* `Move`              what is taken down there: tokens looked at and passed over, and each time that one
                      of the two loops has gone round;
* `Walk.advance`      the only step that passes over a token, which it does not at the mark of the end;
* `walkExpr n`        reads an expression with calls that go `n` deep, and so do its companions;
* `walkTokens n`      reads a whole token list.
-/

namespace Parlance

/-- why a reading breaks off -/
inductive Halt where
  | outside
  | unfinished
deriving DecidableEq

/-- what a reading by place does -/
inductive Move where
  | look (place : Nat)
  | pass (place : Nat)
  /-- the loop over joiners has gone round -/
  | joiner (start stop : Nat)
  /-- the loop over items has gone round, and goes on or not -/
  | item (start stop : Nat) (more : Bool)
deriving DecidableEq

/-- the place of a move; of a loop that has gone round, the one that it came to -/
def Move.place : Move → Nat
  | look i | pass i => i
  | joiner _ stop | item _ stop _ => stop

def Move.passed? : Move → Option Nat
  | pass i => some i
  | _ => none

/-- What a move has to keep to: it looks at a token, it does not pass over the mark of the end, and a
loop that goes round has passed over something.  Only the last round over items, after which the loop
ends, may find nothing but the mark of the end. -/
def Move.Keeps (tokens : List Token) : Move → Prop
  | look i => i < tokens.length
  | pass i => ∃ t, tokens[i]? = some t ∧ t.kind ≠ .endOfText
  | joiner start stop => start < stop
  | item start stop more => start < stop ∨
      more = false ∧ stop = start ∧ ∃ t, tokens[stop]? = some t ∧ t.kind = .endOfText

/-- the place, the complaints and the account of what was done, the latest last -/
structure Cursor where
  place : Nat
  log : List Fault
  moves : List Move

def Cursor.start : Cursor := ⟨0, [], []⟩

/-- a step that gives an `α` and leaves a cursor, or breaks off -/
def Walk (α : Type) : Type := Cursor → Except Halt (α × Cursor)

namespace Walk

variable {α β : Type}

/-- the step that gives `a` -/
def give (a : α) : Walk α := fun c => .ok (a, c)

/-- a step and, unless it breaks off, one that depends on what it gave -/
def andThen (x : Walk α) (f : α → Walk β) : Walk β := fun c =>
  match x c with
  | .ok (a, c) => f a c
  | .error e => .error e

instance : Monad Walk where
  pure := give
  bind := andThen

def halt (e : Halt) : Walk α := fun _ => .error e

/-- takes down that something is done -/
def note (m : Move) : Walk Unit := fun c => .ok ((), { c with moves := c.moves ++ [m] })

def place : Walk Nat := fun c => .ok (c.place, c)

/-- a complaint about the token `t` -/
def complain (t : Token) (p : Problem) : Walk (Verdict α) := fun c =>
  .ok (.error [⟨t, p⟩], { c with log := c.log ++ [⟨t, p⟩] })

/-- passes over the token `t` at the place -/
def pass (t : Token) : Walk Token := fun c =>
  .ok (t, { c with place := c.place + 1, moves := c.moves ++ [.pass c.place] })

section
variable (tokens : List Token)

/-- the token at the place -/
def look : Walk Token := fun c =>
  match tokens[c.place]? with
  | some t => .ok (t, { c with moves := c.moves ++ [.look c.place] })
  | none => .error .outside

/-- The token at the place, which is passed over unless it marks the end. -/
def advance : Walk Token := do
  let t ← look tokens
  if t.kind = .endOfText then give t else pass t

/-- passes over the token at the place if it is of kind `k`, and says whether it was -/
def eat (k : TokenKind) : Walk Bool := do
  let t ← look tokens
  if t.kind = k then
    let _ ← advance tokens
    give true
  else give false

/-- passes over the token at the place, which should be of kind `k` -/
def demand (k : TokenKind) (p : Problem) : Walk (Verdict Unit) := do
  if ← eat tokens k then give (.ok ())
  else
    let t ← look tokens
    complain t p

end

end Walk

namespace Expr

open Walk

section
variable (tokens : List Token)

/-! ## Leaves -/

def walkVariable : Walk (Verdict Expr) := do
  let t ← advance tokens
  match t.kind with
  | .ident => give (.ok (.var (.context t.literal)))
  | .number =>
    match Literal.argument? t.literal.toList with
    | some n => give (.ok (.var (.arg n)))
    | none => complain t .badArgument
  | _ => complain t .badVariable

def walkName : Walk (Verdict String) := do
  let t ← look tokens
  if t.kind = .ident then
    let _ ← advance tokens
    give (.ok t.literal)
  else complain t .noMemberName

def walkMember (base : Verdict Expr) : Walk (Verdict Expr) := do
  let name ← walkName tokens
  give ((base.both name).map fun (base, name) => .member base name)

def walkNumber (t : Token) : Walk (Verdict Expr) :=
  match Literal.number t.literal.toList with
  | .ok e => give (.ok e)
  | .error fault => complain t (.badNumber fault)

def walkChar (t : Token) : Walk (Verdict Expr) :=
  match Literal.char? t.literal.toList with
  | some c => give (.ok (.char c))
  | none => complain t .badChar

/-! ## Expressions -/

mutual

def walkExpr : Nat → Nat → Walk (Verdict Expr)
  | 0, _ => halt .unfinished
  | n + 1, min => do
    let head ← walkOperand n
    walkJoined n min false head

def walkJoined : Nat → Nat → Bool → Verdict Expr → Walk (Verdict Expr)
  | 0, _, _, _ => halt .unfinished
  | n + 1, min, chained, lhs => do
    let t ← look tokens
    match Joiner.ofKind? t.kind with
    | none => give lhs
    | some j =>
      if j.strength < min then give lhs
      else
        let start ← place
        let _ ← advance tokens
        let step ← walkAfter n j chained lhs
        let stop ← place
        note (.joiner start stop)
        walkJoined n min j.isCompare step

def walkAfter : Nat → Joiner → Bool → Verdict Expr → Walk (Verdict Expr)
  | 0, _, _, _ => halt .unfinished
  | _ + 1, .member, _, lhs => walkMember tokens lhs
  | n + 1, .call, _, lhs => do
    let args ← walkItems n (.symbol .rightParen) .noArgumentMark
    give ((lhs.both args).map fun (callee, args) => .call callee args)
  | n + 1, .bracket, _, lhs => walkBracket n lhs
  | n + 1, .binary op, _, lhs => do
    let rhs ← walkExpr n (if op = .pow then op.strength else op.strength + 1)
    give ((lhs.both rhs).map fun (lhs, rhs) => .binary op lhs rhs)
  | n + 1, .compare op, chained, lhs => do
    let rhs ← walkExpr n (Joiner.compareStrength + 1)
    give ((lhs.both rhs).map fun (lhs, rhs) => link chained op lhs rhs)
  | n + 1, .assign op, _, lhs => do
    let value ← walkExpr n Joiner.assignStrength
    give ((lhs.both value).map fun (place, value) => .assign op place value)
  | n + 1, .ternary, _, lhs => walkTernary n lhs

def walkOperand : Nat → Walk (Verdict Expr)
  | 0 => halt .unfinished
  | n + 1 => do
    let t ← look tokens
    match unaryOf? t.kind with
    | none => walkPrimary n
    | some op =>
      let _ ← advance tokens
      let operand ← walkExpr n Joiner.bracketStrength
      give (operand.map fun operand => .unary op operand)

def walkPrimary : Nat → Walk (Verdict Expr)
  | 0 => halt .unfinished
  | n + 1 => do
    let t ← advance tokens
    match t.kind with
    | .endOfText => complain t .endOfInput
    | .number => walkNumber t
    | .string => give (.ok (.str (String.ofList (Literal.unescape t.literal.toList))))
    | .char => walkChar t
    | .bool => give (.ok (.bool (t.literal == "true")))
    | .ident => give (.ok (.var (.name t.literal)))
    | .symbol .dollar => walkVariable tokens
    | .symbol .leftParen => do
      let inner ← walkExpr n 0
      let close ← demand tokens (.symbol .rightParen) .noRightParen
      give ((inner.both close).map fun (inner, _) => inner)
    | .symbol .leftSquare => do
      let items ← walkItems n (.symbol .rightSquare) .noListMark
      give (items.map .list)
    | .invalid cause => complain t (.invalidToken cause)
    | _ => complain t .unexpectedToken

def walkItems : Nat → TokenKind → Problem → Walk (Verdict (List Expr))
  | 0, _, _ => halt .unfinished
  | n + 1, close, p => do
    if ← eat tokens close then give (.ok [])
    else walkItemsOn n close p

def walkItemsOn : Nat → TokenKind → Problem → Walk (Verdict (List Expr))
  | 0, _, _ => halt .unfinished
  | n + 1, close, p => do
    let start ← place
    let item ← walkExpr n 0
    if ← eat tokens (.symbol .comma) then
      if ← eat tokens close then
        let stop ← place
        note (.item start stop false)
        give (item.map fun item => [item])
      else
        let stop ← place
        note (.item start stop true)
        let others ← walkItemsOn n close p
        give ((item.both others).map fun (item, others) => item :: others)
    else
      let close ← demand tokens close p
      let stop ← place
      note (.item start stop false)
      give ((item.both close).map fun (item, _) => [item])

def walkBracket : Nat → Verdict Expr → Walk (Verdict Expr)
  | 0, _ => halt .unfinished
  | n + 1, base => do
    if ← eat tokens (.symbol .colon) then walkSlice n base none
    else
      let index ← walkExpr n 0
      if ← eat tokens (.symbol .colon) then walkSlice n base (some index)
      else
        let close ← demand tokens (.symbol .rightSquare) .noSubscriptMark
        give ((base.both (index.both close)).map fun (base, index, _) => .subscript base index)

def walkSlice : Nat → Verdict Expr → Option (Verdict Expr) → Walk (Verdict Expr)
  | 0, _, _ => halt .unfinished
  | n + 1, base, start => do
    if ← eat tokens (.symbol .rightSquare) then
      give ((base.both (Verdict.optional start)).map fun (base, start) => .slice base start none)
    else
      let upper ← walkExpr n 0
      let close ← demand tokens (.symbol .rightSquare) .noRightSquare
      give ((base.both ((Verdict.optional start).both (upper.both close))).map
        fun (base, start, upper, _) => .slice base start (some upper))

def walkTernary : Nat → Verdict Expr → Walk (Verdict Expr)
  | 0, _ => halt .unfinished
  | n + 1, cond => do
    let yes ← walkExpr n 0
    if ← eat tokens (.symbol .colon) then
      let no ← walkExpr n Joiner.ternaryStrength
      give ((cond.both (yes.both no)).map fun (cond, yes, no) => .ternary cond yes no)
    else
      let t ← look tokens
      let missing ← complain (α := Unit) t .noElse
      give ((cond.both (yes.both missing)).map fun (cond, _, _) => cond)

end

/-! ## Whole token lists -/

def walkTokens (n : Nat) : Walk (Verdict Expr) := do
  let whole ← walkExpr tokens n 0
  match whole with
  | .error faults => give (.error faults)
  | .ok e =>
    let t ← look tokens
    if t.kind = .endOfText then give (.ok e) else complain t .trailingToken

end

/-- the tokens, with a mark of the end at byte `length` if they do not end with one -/
def closed (length : Nat) (given : List Token) : List Token :=
  match given.getLast? with
  | some t => if t.kind = .endOfText then given else given ++ [Token.atEnd length]
  | none => [Token.atEnd length]

end Expr

end Parlance
