import Parlance.Text.Blank
import Parlance.Number.Radix
import Parlance.Token.Basic

/-!
# From text to tokens

* `Lexeme`            a kind and its text; `Lexeme.extent` puts the quotation marks back;
* `Lexeme.scan`       the lexeme at the start of a text that starts with no gap;
* `Token.listFrom`    the tokens of a text, `Token.ofText` the same of a string.

Reading never fails: what is no token becomes a token of kind `invalid`.  A lexeme is read at its
first character, and the list walks on over the characters that it covers, so that the walk is a
recursion on the text.  The only thing carried along is whether the last token was a dot: after a
dot a number has no fraction, which makes `x.0.1` two accesses.
-/

namespace Parlance

/-- a piece of text that makes one token -/
structure Lexeme where
  kind : TokenKind
  literal : List Char
deriving DecidableEq

namespace Lexeme

/-- the quotation mark that stands on either side of the literal -/
def quote (l : Lexeme) : List Char :=
  match l.kind with
  | .string => ['"']
  | .char => ['\'']
  | _ => []

/-- the characters of the text that a lexeme takes up -/
def extent (l : Lexeme) : List Char := l.quote ++ l.literal ++ l.quote

/-- the token of a lexeme whose extent starts at byte `offset` -/
def toToken (l : Lexeme) (offset : Nat) : Token :=
  ⟨l.kind, String.ofList l.literal, offset + Text.byteLength l.quote⟩

/-! ## Words -/

/-- can `c` stand first in an identifier -/
def isWordStart (c : Char) : Bool := c.isAlpha || c == '_'

/-- can `c` stand in an identifier -/
def isWordPart (c : Char) : Bool := c.isAlphanum || c == '_'

/-- what a word is: a keyword, a truth value or an identifier -/
def wordKind (word : List Char) : TokenKind :=
  match Keyword.all.find? fun k => k.spelling.toList == word with
  | some k => .keyword k
  | none =>
    if word == ['t', 'r', 'u', 'e'] || word == ['f', 'a', 'l', 's', 'e'] then .bool else .ident

/-- the word at the start of a text -/
def scanWord (cs : List Char) : Lexeme :=
  let word := cs.takeWhile isWordPart
  ⟨wordKind word, word⟩

/-! ## Numbers -/

def isExponentMark (c : Char) : Bool := c == 'e' || c == 'E'

/-- the exponent that the rest of a decimal number starts with, its mark included -/
def exponentPart : List Char → List Char
  | e :: s :: cs =>
    if isExponentMark e then
      if s == '+' || s == '-' then e :: s :: cs.takeWhile Char.isDigit
      else e :: (s :: cs).takeWhile Char.isDigit
    else []
  | [e] => if isExponentMark e then [e] else []
  | [] => []

/-- the fraction that the rest of a number starts with, its point included: a point counts only
before a digit, and not after a dot -/
def fractionPart (afterDot : Bool) : List Char → List Char
  | '.' :: d :: cs =>
    if d.isDigit && !afterDot then '.' :: (d :: cs).takeWhile Char.isDigit else []
  | _ => []

/-- the number at the start of a text that starts with a digit -/
def scanNumber (afterDot : Bool) (cs : List Char) : Lexeme :=
  let (radix, lead, body) := Radix.split cs
  let digits := body.takeWhile radix.isDigit
  let rest := body.dropWhile radix.isDigit
  if radix = .decimal then
    let exponent := exponentPart rest
    let fraction := fractionPart afterDot (rest.drop exponent.length)
    let literal := digits ++ exponent ++ fraction
    if exponent ≠ [] ∧ fraction ≠ [] then ⟨.invalid .decimalAfterExponent, literal⟩
    else ⟨.number, literal⟩
  else if rest.head?.any isExponentMark then
    ⟨.invalid .exponentInBase, lead ++ digits ++ rest.takeWhile Char.isAlphanum⟩
  else
    let fraction := fractionPart afterDot rest
    ⟨if fraction = [] then .number else .invalid .fractionInBase, lead ++ digits ++ fraction⟩

/-! ## Strings and characters -/

/-- What stands before the closing mark of a string, given the text after the opening one.  A
backslash takes the next character with it. -/
def stringBody? : List Char → Option (List Char)
  | [] => none
  | c :: cs =>
    if c == '"' then some []
    else if c == '\\' then
      match cs with
      | [] => none
      | d :: ds => (stringBody? ds).map fun body => c :: d :: body
    else (stringBody? cs).map (c :: ·)

/-- the string at the start of a text, given the text after the opening mark -/
def scanString (cs : List Char) : Lexeme :=
  match stringBody? cs with
  | some body => ⟨.string, body⟩
  | none => ⟨.invalid .unterminatedString, '"' :: cs⟩

/-- one character, or a backslash and one character -/
def charBody? : List Char → Option (List Char)
  | ['\\'] => none
  | '\\' :: c :: _ => some ['\\', c]
  | c :: _ => some [c]
  | [] => none

/-- the character literal at the start of a text, given the text after the opening mark -/
def scanChar (cs : List Char) : Lexeme :=
  match charBody? cs with
  | some body =>
    if (cs.drop body.length).head? == some '\'' then ⟨.char, body⟩
    else ⟨.invalid .unterminatedChar, '\'' :: body⟩
  | none => ⟨.invalid .unterminatedChar, ['\'']⟩

/-! ## Lexemes -/

/-- The lexeme at the start of the text `c :: cs`. -/
def scan (afterDot : Bool) (c : Char) (cs : List Char) : Lexeme :=
  match Symbol.leading? (c :: cs) with
  | some s => ⟨.symbol s, s.chars⟩
  | none =>
    if c.isDigit then scanNumber afterDot (c :: cs)
    else if c == '"' then scanString cs
    else if c == '\'' then scanChar cs
    else if isWordStart c then scanWord (c :: cs)
    else ⟨.invalid .unexpectedCharacter, [c]⟩

end Lexeme

namespace Token

/-- The tokens of a text whose first character stands at byte `offset`, and of which the first
`skip` characters belong to a lexeme that is already in the list. -/
def listFrom (offset : Nat) (afterDot : Bool) : Nat → List Char → List Token
  | _, [] => [atEnd offset]
  | skip + 1, c :: cs => listFrom (offset + c.utf8Size) afterDot skip cs
  | 0, c :: cs =>
    if Text.isGap c then listFrom (offset + c.utf8Size) afterDot 0 cs
    else
      let l := Lexeme.scan afterDot c cs
      l.toToken offset ::
        listFrom (offset + c.utf8Size) (l.kind == .symbol .dot) (l.extent.length - 1) cs

def ofChars (cs : List Char) : List Token := listFrom 0 false 0 cs

/-- the tokens of a text, the last of them the one that marks its end -/
def ofText (text : String) : List Token := ofChars text.toList

end Token

end Parlance
