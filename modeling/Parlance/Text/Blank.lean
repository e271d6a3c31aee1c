/-!
# Blanks, words and trimming

* `Text.isBlank c`        the characters with the Unicode property `White_Space`;
* `Text.dropBlanks cs`    the text without its leading blanks, `Text.trim cs` without those at
                          either end;
* `Text.words cs`         the maximal runs of characters that are not blank;
* `Text.splitWord cs`     the first word and, without the blanks between them, what follows it;
* `Text.isGap c`          the four blanks of the expression language (space, tab and the two line
                          ends); `Text.isSpacer c` the two blanks that separate the words of a
                          command's body.

Everything works on `List Char`, so that the laws of `takeWhile` and `dropWhile` apply.
-/

namespace Parlance.Text

/-- space, the controls U+0009 to U+000D, and the other characters with property `White_Space` -/
def isBlank (c : Char) : Bool :=
  let n := c.toNat
  (0x9 ≤ n && n ≤ 0xd) || n == 0x20 || n == 0x85 || n == 0xa0 || n == 0x1680
    || (0x2000 ≤ n && n ≤ 0x200a) || n == 0x2028 || n == 0x2029 || n == 0x202f || n == 0x205f
    || n == 0x3000

/-- a blank between two tokens of an expression -/
def isGap (c : Char) : Bool := c == ' ' || c == '\t' || c == '\n' || c == '\r'

/-- a blank between two words of a command's body -/
def isSpacer (c : Char) : Bool := c == ' ' || c == '\t'

theorem isBlank_of_isGap {c : Char} (h : isGap c) : isBlank c := by
  simp only [isGap, Bool.or_eq_true, beq_iff_eq] at h
  rcases h with ((rfl | rfl) | rfl) | rfl <;> rfl

theorem isGap_of_isSpacer {c : Char} (h : isSpacer c) : isGap c := by
  simp only [isSpacer, Bool.or_eq_true, beq_iff_eq] at h
  rcases h with rfl | rfl <;> rfl

/-! ## Trimming -/

def dropBlanks (cs : List Char) : List Char := cs.dropWhile isBlank

def dropBlanksEnd (cs : List Char) : List Char := (dropBlanks cs.reverse).reverse

def trim (cs : List Char) : List Char := dropBlanksEnd (dropBlanks cs)

@[simp] theorem dropBlanks_nil : dropBlanks [] = [] := rfl

theorem dropBlanks_cons (c : Char) (cs : List Char) :
    dropBlanks (c :: cs) = if isBlank c then dropBlanks cs else c :: cs := by
  simp [dropBlanks, List.dropWhile_cons]

theorem takeWhile_append_dropBlanks (cs : List Char) :
    cs.takeWhile isBlank ++ dropBlanks cs = cs := List.takeWhile_append_dropWhile

/-! ## Words -/

/-- what has been read of the current word, in reverse, and the text still to be read -/
def wordsFrom : List Char → List Char → List (List Char)
  | word, [] => if word.isEmpty then [] else [word.reverse]
  | word, c :: cs =>
    if isBlank c then
      if word.isEmpty then wordsFrom [] cs else word.reverse :: wordsFrom [] cs
    else wordsFrom (c :: word) cs

/-- the maximal runs of characters that are not blank, in order -/
def words (cs : List Char) : List (List Char) := wordsFrom [] cs

/-- The first word of a text, and the text after it from its next character that is not blank. -/
def splitWord (cs : List Char) : List Char × List Char :=
  let cs := dropBlanks cs
  (cs.takeWhile (!isBlank ·), dropBlanks (cs.dropWhile (!isBlank ·)))

end Parlance.Text
