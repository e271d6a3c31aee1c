import Parlance.Text.Blank

/-!
# The words of a command's body

* `Expansion.words cs`      the words that a body is cut into;
* `Expansion.Word`, `Expansion.meaning word`   a word is said as it is, or it is an expression to
                            be evaluated;
* `Expansion.literal word`  the spelling under which a word is said as it is.

A word ends at a space or a tab.  A word that starts with one backslash is an expression; its
spaces count as part of it while a bracket or a string is open.  Two backslashes stand for one
that is said.
-/

namespace Parlance.Expansion

/-- where in a string literal the reading of an expression is -/
inductive Quotation where
  | outside
  | inside
  | escaped
deriving DecidableEq

def isOpening (c : Char) : Bool := c == '(' || c == '[' || c == '\x7b'

def isClosing (c : Char) : Bool := c == ')' || c == ']' || c == '\x7d'

/-- The number of characters of an expression up to the first blank outside brackets and strings,
where `depth` brackets are open. -/
def codeLength : Int → Quotation → List Char → Nat
  | _, _, [] => 0
  | depth, .escaped, _ :: cs => codeLength depth .inside cs + 1
  | depth, .inside, c :: cs =>
    codeLength depth (if c == '\\' then .escaped else if c == '"' then .outside else .inside) cs + 1
  | depth, .outside, c :: cs =>
    if c == '"' then codeLength depth .inside cs + 1
    else if isOpening c then codeLength (depth + 1) .outside cs + 1
    else if isClosing c then codeLength (depth - 1) .outside cs + 1
    else if Text.isSpacer c && depth ≤ 0 then 0
    else codeLength depth .outside cs + 1

def wordLength : List Char → Nat
  | '\\' :: '\\' :: cs => (cs.takeWhile (!Text.isSpacer ·)).length + 2
  | '\\' :: cs => codeLength 0 .outside cs + 1
  | cs => (cs.takeWhile (!Text.isSpacer ·)).length

/-- the words of a text of which the first `skip` characters belong to a word already in the
list -/
def wordsFrom : Nat → List Char → List (List Char)
  | _, [] => []
  | skip + 1, _ :: cs => wordsFrom skip cs
  | 0, c :: cs =>
    if Text.isSpacer c then wordsFrom 0 cs
    else
      let n := wordLength (c :: cs)
      (c :: cs).take n :: wordsFrom (n - 1) cs

/-- the words that a body is cut into -/
def words (cs : List Char) : List (List Char) := wordsFrom 0 cs

def ofText (text : String) : List String := (words text.toList).map String.ofList

/-! ## What a word means -/

/-- what running a command does with a word -/
inductive Word where
  | said (text : List Char)
  | code (source : List Char)

/-- what running a command does with the word of these characters -/
def meaning : List Char → Word
  | '\\' :: '\\' :: cs => .said ('\\' :: cs)
  | '\\' :: cs => .code cs
  | cs => .said cs

/-- the spelling under which a word is said as it is -/
def literal : List Char → List Char
  | '\\' :: cs => '\\' :: '\\' :: cs
  | cs => cs

theorem meaning_literal (word : List Char) : meaning (literal word) = .said word := by
  unfold literal
  split
  · rfl
  · rename_i h
    unfold meaning
    split
    · rename_i cs
      exact absurd rfl (h _)
    · rename_i cs _
      exact absurd rfl (h _)
    · rfl

end Parlance.Expansion
