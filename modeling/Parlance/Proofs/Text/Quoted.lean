import Parlance.Proofs.Number.Digits
import Parlance.Proofs.Token.Extent
import Parlance.Text.Quoted

/-!
# What stands between quotation marks

* `Text.unescapeFirst cs`   the character that a text starts with, as it is written between marks, and
                            the text after it;
* `unescapeFirst_escape`    it reads what `Text.escape` writes;
* `quoted_append_inj`       so a quoted text says where it ends and what it quotes.
-/

namespace Parlance.Text

/-- the two quotation marks -/
def IsMark (mark : Char) : Prop := mark = '"' ∨ mark = '\''

instance (mark : Char) : Decidable (IsMark mark) := inferInstanceAs (Decidable (_ ∨ _))

/-- The first character of a text with escapes, and the text after it. -/
def unescapeFirst : List Char → Option (Char × List Char)
  | '\\' :: 'u' :: '\x7b' :: cs =>
    let digits := cs.takeWhile Radix.hexadecimal.isDigit
    some (Char.ofNat (Radix.hexadecimal.value digits), cs.drop (digits.length + 1))
  | '\\' :: 'n' :: cs => some ('\n', cs)
  | '\\' :: 't' :: cs => some ('\t', cs)
  | '\\' :: 'r' :: cs => some ('\r', cs)
  | '\\' :: '0' :: cs => some ('\x00', cs)
  | '\\' :: c :: cs => some (c, cs)
  | c :: cs => some (c, cs)
  | [] => none

section
variable {mark c d : Char} {cs ds rest more : List Char}

theorem unescapeFirst_codePoint (c : Char) (rest : List Char) :
    unescapeFirst (codePointEscape c ++ rest) = some (c, rest) := by
  have hdigits : ∀ d ∈ Nat.toDigits 16 c.toNat, Radix.hexadecimal.isDigit d = true :=
    Radix.isDigit_toDigits .hexadecimal c.toNat
  have hvalue : Radix.hexadecimal.value (Nat.toDigits 16 c.toNat) = c.toNat :=
    Radix.value_toDigits .hexadecimal c.toNat
  have hclose : ∀ d ∈ ('\x7d' :: rest).head?, Radix.hexadecimal.isDigit d = false := by
    rintro _ ⟨⟩
    decide
  have htext : codePointEscape c ++ rest =
      '\\' :: 'u' :: '\x7b' :: (Nat.toDigits 16 c.toNat ++ '\x7d' :: rest) := by
    simp only [codePointEscape, List.cons_append, List.nil_append, List.append_assoc]
  rw [htext]
  show some (Char.ofNat _, _) = some (c, rest)
  rw [Lexeme.takeWhile_exact hdigits hclose, hvalue, Char.ofNat_toNat, ← List.drop_drop,
    List.drop_left]
  rfl

theorem unescapeFirst_plain (h : c ≠ '\\') (cs : List Char) :
    unescapeFirst (c :: cs) = some (c, cs) := by
  unfold unescapeFirst
  split
  case h_7 heq => cases heq; rfl
  case h_8 heq => cases heq
  all_goals
    rename_i heq
    cases heq
    exact absurd rfl h

/-- A character is read back as it was written. -/
theorem unescapeFirst_escape (hmark : IsMark mark) (c : Char) (rest : List Char) :
    unescapeFirst (escape mark c ++ rest) = some (c, rest) := by
  unfold escape
  -- the characters that have an escape of their own
  iterate 5
    split
    · rename_i h
      rw [beq_iff_eq.mp h]
      rfl
  rename_i hslash
  split
  · rename_i h
    rw [beq_iff_eq.mp h]
    rcases hmark with rfl | rfl <;> rfl
  split
  · exact unescapeFirst_plain (fun h => hslash (beq_iff_eq.mpr h)) rest
  · exact unescapeFirst_codePoint c rest

theorem escape_append_inj (hmark : IsMark mark)
    (h : escape mark c ++ rest = escape mark d ++ more) : c = d ∧ rest = more := by
  have hread := unescapeFirst_escape hmark c rest
  rw [h, unescapeFirst_escape hmark d more] at hread
  cases hread
  exact ⟨rfl, rfl⟩

/-- What is written for a character does not start with the mark. -/
theorem head?_escape (hmark : IsMark mark) (c : Char) : ∃ d ds, escape mark c = d :: ds ∧ d ≠ mark := by
  have hslash : '\\' ≠ mark := by rcases hmark with rfl | rfl <;> decide
  unfold escape codePointEscape
  repeat' split
  all_goals try exact ⟨_, _, rfl, hslash⟩
  rename_i h _
  exact ⟨c, [], rfl, fun heq => h (beq_iff_eq.mpr heq)⟩

/-- A quoted text says where it ends and what it quotes. -/
theorem quoted_append_inj (hmark : IsMark mark)
    (h : quoted mark cs ++ rest = quoted mark ds ++ more) : cs = ds ∧ rest = more := by
  have hbody : cs.flatMap (escape mark) ++ mark :: rest = ds.flatMap (escape mark) ++ mark :: more := by
    simpa [quoted] using h
  clear h
  induction cs generalizing ds with
  | nil =>
    cases ds with
    | nil => exact ⟨rfl, (List.cons.inj hbody).2⟩
    | cons d ds =>
      obtain ⟨x, xs, hd, hx⟩ := head?_escape hmark d
      rw [List.flatMap_cons, hd] at hbody
      exact absurd (List.cons.inj hbody).1.symm hx
  | cons c cs ih =>
    cases ds with
    | nil =>
      obtain ⟨x, xs, hc, hx⟩ := head?_escape hmark c
      rw [List.flatMap_cons, hc] at hbody
      exact absurd (List.cons.inj hbody).1 hx
    | cons d ds =>
      rw [List.flatMap_cons, List.flatMap_cons, List.append_assoc, List.append_assoc] at hbody
      obtain ⟨rfl, hrest⟩ := escape_append_inj hmark hbody
      obtain ⟨rfl, hmore⟩ := ih hrest
      exact ⟨rfl, hmore⟩

theorem quotedString_inj (h : quotedString cs = quotedString ds) : cs = ds :=
  (quoted_append_inj (.inl rfl) (congrArg (· ++ []) h)).1

theorem quotedChar_inj (h : quotedChar c = quotedChar d) : c = d :=
  List.head_eq_of_cons_eq (quoted_append_inj (.inr rfl) (congrArg (· ++ []) h)).1

end

end Parlance.Text
