import Parlance.Text.Blank
import Parlance.Ty.Basic

/-!
# Reading types

* `Ty.named? word`   the type that a word names;
* `Ty.read cs`       the type at the start of a text and the text after it;
* `Ty.ofText? text`  the type that a whole text denotes.

Blanks may stand before every word and every mark.  A function type has no written form that can
be read.
-/

namespace Parlance.Ty

def named? (word : List Char) : Option Ty :=
  if word = ['i', 'n', 't'] then some int
  else if word = ['d', 'b', 'l'] then some dbl
  else if word = ['b', 'o', 'o', 'l'] then some bool
  else if word = ['c', 'h', 'a', 'r'] then some char
  else if word = ['s', 't', 'r'] then some string
  else if word = ['v', 'o', 'i', 'd'] then some void
  else none

/-- no type has an empty name -/
theorem named?_nil : named? [] = none := rfl

theorem length_dropBlanks_le (cs : List Char) : (Text.dropBlanks cs).length ≤ cs.length :=
  (List.dropWhile_suffix _).length_le

/-- what follows the mark `m`, if that is the first character that is not blank -/
def afterMark? (m : Char) (cs : List Char) :
    Option { rest : List Char // rest.length < cs.length } :=
  match h : Text.dropBlanks cs with
  | [] => none
  | c :: rest =>
    if c = m then
      some ⟨rest, by have := length_dropBlanks_le cs; rw [h] at this; exact this⟩
    else none

/-- the type named by the first word, and what follows that word -/
def readName (cs : List Char) : Option { p : Ty × List Char // p.2.length < cs.length } :=
  let word := (Text.dropBlanks cs).takeWhile Char.isAlphanum
  match h : named? word with
  | none => none
  | some ty => some ⟨(ty, (Text.dropBlanks cs).drop word.length), by
      have h1 := length_dropBlanks_le cs
      have h2 : (Text.dropBlanks cs).length ≠ 0 := by
        intro h0
        have : Text.dropBlanks cs = [] := List.length_eq_zero_iff.mp h0
        simp [word, this, named?_nil] at h
      have h3 : word.length ≠ 0 := by
        intro h0
        rw [List.length_eq_zero_iff.mp h0, named?_nil] at h
        exact absurd h (by simp)
      simp only [List.length_drop]
      omega⟩

/-- The type at the start of a text, and the text after it. -/
def read (cs : List Char) : Option { p : Ty × List Char // p.2.length < cs.length } :=
  match afterMark? '[' cs with
  | none => readName cs
  | some ⟨inner, h1⟩ => do
    let ⟨(first, rest), h2⟩ ← read inner
    match afterMark? ']' rest with
    | some ⟨rest, h3⟩ => some ⟨(.list first, rest), Nat.lt_trans h3 (Nat.lt_trans h2 h1)⟩
    | none =>
      let ⟨rest, h3⟩ ← afterMark? ':' rest
      let ⟨(second, rest), h4⟩ ← read rest
      let ⟨rest, h5⟩ ← afterMark? ']' rest
      some ⟨(.map first second, rest),
        Nat.lt_trans h5 (Nat.lt_trans h4 (Nat.lt_trans h3 (Nat.lt_trans h2 h1)))⟩
termination_by cs.length
decreasing_by
  · exact h1
  · exact Nat.lt_trans h3 (Nat.lt_trans h2 h1)

/-- the type that a text denotes, which may end with blanks -/
def ofChars? (cs : List Char) : Option Ty :=
  match read cs with
  | some ⟨(ty, rest), _⟩ => if Text.dropBlanks rest = [] then some ty else none
  | none => none

/-- the type that a text denotes -/
def ofText? (text : String) : Option Ty := ofChars? text.toList

end Parlance.Ty
