import Parlance.Proofs.Token.Strings

/-!
# What a lexeme is without the text after it

A lexeme is read as far as it goes, so it can depend on the text that comes next.  Where a gap comes
next it does not, and what is not invalid is read again of the piece of text that it takes up:

* `Text.Breaks rest`         the text is over or goes on with a gap;
* `Text.Gapless p`             no gap has the property `p`;
* `Lexeme.Severable read`    what is read of a text is read again where it stands before a gap;
* `severable_takeWhile`, `severable_exponentPart`, `severable_fractionPart`   so are the parts of numbers
                             and words;
* `scanNumber_severed`, `scanString_severed`, `scanChar_severed`   numbers, strings and characters that
                             are not invalid;
* `Lexeme.Steady afterDot l`   the lexeme `l` is read of its own extent;
* `steady_scan`              so is each lexeme that is not invalid.
-/

namespace Parlance

namespace Text

/-- the text is over, or goes on with a gap -/
def Breaks (rest : List Char) : Prop := ∀ d ∈ rest.head?, isGap d = true

/-- no gap has the property -/
def Gapless (p : Char → Bool) : Prop := ∀ c, isGap c = true → p c = false

variable {p : Char → Bool} {piece cs rest : List Char}

theorem gapless_of (hspace : p ' ' = false) (htab : p '\t' = false) (hfeed : p '\n' = false)
    (hreturn : p '\r' = false) : Gapless p := by
  intro c hc
  simp only [isGap, Bool.or_eq_true, beq_iff_eq] at hc
  rcases hc with ((rfl | rfl) | rfl) | rfl
  · exact hspace
  · exact htab
  · exact hfeed
  · exact hreturn

theorem Breaks.head? (h : Breaks rest) (hp : Gapless p) : ∀ d ∈ rest.head?, p d = false :=
  fun d hd => hp d (h d hd)

theorem Breaks.any_head? (h : Breaks rest) (hp : Gapless p) : rest.head?.any p = false := by
  cases rest with
  | nil => rfl
  | cons d rest => exact hp d (h d rfl)

/-- a piece of a text starts as the text does, or with the gap after it -/
theorem Breaks.head?_append (h : Breaks rest) (hp : Gapless p) (hpiece : piece <+: cs)
    (hcs : ∀ d ∈ cs.head?, p d = false) : ∀ d ∈ (piece ++ rest).head?, p d = false := by
  cases piece with
  | nil => exact h.head? hp
  | cons c piece =>
    obtain ⟨tail, rfl⟩ := hpiece
    exact hcs

/-- what has no gap in it starts a text no later than a gap after that -/
theorem Breaks.prefix_of_append (h : Breaks rest) (hpiece : piece.any isGap = false)
    (hstart : piece <+: cs ++ rest) : piece <+: cs := by
  induction piece generalizing cs with
  | nil => exact List.nil_prefix
  | cons c piece ih =>
    obtain ⟨hc, hpiece⟩ := Bool.or_eq_false_iff.mp hpiece
    cases cs with
    | nil =>
      obtain ⟨tail, rfl⟩ := hstart
      have hgap := h c rfl
      rw [hc] at hgap
      cases hgap
    | cons d cs =>
      rw [List.cons_append, List.cons_prefix_cons] at hstart
      obtain ⟨rfl, hstart⟩ := hstart
      rw [List.cons_prefix_cons]
      exact ⟨rfl, ih hpiece hstart⟩

end Text

namespace Lexeme

open Text

variable {cs rest : List Char} {afterDot : Bool}

/-! ## Symbols -/

theorem any_isGap_symbol (s : Symbol) : s.chars.any isGap = false := by
  cases s <;> rfl

theorem leading?_append (hrest : Breaks rest) (cs : List Char) :
    Symbol.leading? (cs ++ rest) = Symbol.leading? cs := by
  have hsame : ∀ s : Symbol, s.chars.isPrefixOf (cs ++ rest) = s.chars.isPrefixOf cs := by
    intro s
    rw [Bool.eq_iff_iff, List.isPrefixOf_iff_prefix, List.isPrefixOf_iff_prefix]
    constructor
    · exact hrest.prefix_of_append (any_isGap_symbol s)
    · exact fun h => h.trans (List.prefix_append cs rest)
  simp only [Symbol.leading?, hsame]

theorem leading?_chars (s : Symbol) : Symbol.leading? s.chars = some s := by
  cases s <;> rfl

/-! ## Parts of a lexeme -/

/-- What is read of a text is read again where the text is over after that or goes on with a gap. -/
def Severable (read : List Char → List Char) : Prop :=
  ∀ cs rest, Breaks rest → read (read cs ++ rest) = read cs

theorem takeWhile_all {p : Char → Bool} (cs : List Char) : ∀ c ∈ cs.takeWhile p, p c = true :=
  List.all_eq_true.mp List.all_takeWhile

theorem severable_takeWhile {p : Char → Bool} (hp : Gapless p) : Severable (List.takeWhile p) := by
  intro cs rest hrest
  exact takeWhile_exact (takeWhile_all cs) (hrest.head? hp)

theorem gapless_isDigit : Gapless Char.isDigit := gapless_of rfl rfl rfl rfl

theorem gapless_radix (r : Radix) : Gapless r.isDigit := by
  cases r <;> exact gapless_of rfl rfl rfl rfl

theorem gapless_isExponentMark : Gapless isExponentMark := gapless_of rfl rfl rfl rfl

theorem gapless_isWordPart : Gapless isWordPart := gapless_of rfl rfl rfl rfl

/-- the sign of an exponent -/
def isSign (c : Char) : Bool := c == '+' || c == '-'

theorem gapless_isSign : Gapless isSign := gapless_of rfl rfl rfl rfl

theorem exponentPart_signed {e s : Char} (he : isExponentMark e = true) (hs : isSign s = true)
    (cs : List Char) : exponentPart (e :: s :: cs) = e :: s :: cs.takeWhile Char.isDigit := by
  rw [exponentPart, if_pos he]
  exact if_pos hs

theorem exponentPart_unsigned {e : Char} (he : isExponentMark e = true)
    (hcs : ∀ d ∈ cs.head?, isSign d = false) :
    exponentPart (e :: cs) = e :: cs.takeWhile Char.isDigit := by
  cases cs with
  | nil =>
    rw [exponentPart, if_pos he]
    rfl
  | cons d cs =>
    have hd : ¬isSign d = true := by rw [hcs d rfl]; exact Bool.false_ne_true
    rw [exponentPart, if_pos he]
    exact if_neg hd

theorem exponentPart_eq_nil_iff :
    exponentPart cs = [] ↔ ∀ d ∈ cs.head?, isExponentMark d = false := by
  match cs with
  | [] => exact iff_of_true rfl fun d hd => by cases hd
  | e :: cs =>
    by_cases he : isExponentMark e = true
    · refine iff_of_false ?_ fun h => ?_
      · cases cs with
        | nil => simp [exponentPart, he]
        | cons s cs =>
          rw [exponentPart, if_pos he]
          split <;> exact List.cons_ne_nil _ _
      · rw [h e rfl] at he
        cases he
    · refine iff_of_true ?_ fun d hd => ?_
      · cases cs <;> rw [exponentPart, if_neg he]
      · cases hd
        exact Bool.eq_false_iff.mpr he

theorem exponentPart_cases (cs : List Char) : exponentPart cs = [] ∨
    ∃ e ds, isExponentMark e = true ∧ cs = e :: ds ∧
      ((∃ s es, isSign s = true ∧ ds = s :: es) ∨ ∀ d ∈ ds.head?, isSign d = false) := by
  match cs with
  | [] => exact .inl rfl
  | e :: ds =>
    cases he : isExponentMark e with
    | false =>
      refine .inl (exponentPart_eq_nil_iff.mpr fun d hd => ?_)
      cases hd
      exact he
    | true =>
      refine .inr ⟨e, ds, he, rfl, ?_⟩
      cases ds with
      | nil => exact .inr fun d hd => by cases hd
      | cons s es =>
        cases hs : isSign s with
        | true => exact .inl ⟨s, es, hs, rfl⟩
        | false =>
          refine .inr fun d hd => ?_
          cases hd
          exact hs

theorem severable_exponentPart : Severable exponentPart := by
  intro cs rest hrest
  rcases exponentPart_cases cs with hnil | ⟨e, ds, he, rfl, ⟨s, es, hs, rfl⟩ | hunsigned⟩
  · rw [hnil]
    exact exponentPart_eq_nil_iff.mpr (hrest.head? gapless_isExponentMark)
  · rw [exponentPart_signed he hs, List.cons_append, List.cons_append, exponentPart_signed he hs,
      severable_takeWhile gapless_isDigit _ _ hrest]
  · have hdigits : ∀ d ∈ (ds.takeWhile Char.isDigit ++ rest).head?, isSign d = false :=
      hrest.head?_append gapless_isSign (List.takeWhile_prefix _) hunsigned
    rw [exponentPart_unsigned he hunsigned, List.cons_append, exponentPart_unsigned he hdigits,
      severable_takeWhile gapless_isDigit _ _ hrest]

theorem fractionPart_of_breaks (afterDot : Bool) (hrest : Breaks rest) :
    fractionPart afterDot rest = [] := by
  unfold fractionPart
  split
  · cases hrest '.' rfl
  · rfl

theorem fractionPart_point {d : Char} (hd : (d.isDigit && !afterDot) = true) (cs : List Char) :
    fractionPart afterDot ('.' :: d :: cs) = '.' :: d :: cs.takeWhile Char.isDigit := by
  have hdigit : d.isDigit = true := (Bool.and_eq_true_iff.mp hd).1
  rw [fractionPart, if_pos hd, List.takeWhile_cons_of_pos hdigit]

theorem fractionPart_cases (afterDot : Bool) (cs : List Char) : fractionPart afterDot cs = [] ∨
    ∃ d ds, (d.isDigit && !afterDot) = true ∧ cs = '.' :: d :: ds := by
  unfold fractionPart
  split
  · split
    · rename_i d ds hd
      exact .inr ⟨d, ds, hd, rfl⟩
    · exact .inl rfl
  · exact .inl rfl

theorem severable_fractionPart (afterDot : Bool) : Severable (fractionPart afterDot) := by
  intro cs rest hrest
  rcases fractionPart_cases afterDot cs with hnil | ⟨d, ds, hd, rfl⟩
  · rw [hnil]
    exact fractionPart_of_breaks afterDot hrest
  · rw [fractionPart_point hd, List.cons_append, List.cons_append, fractionPart_point hd,
      severable_takeWhile gapless_isDigit _ _ hrest]

/-! ## Numbers -/

/-- a lead has no gap in it, and announces the same radix before any text -/
theorem split_lead (h : (Radix.split cs).1 ≠ .decimal) :
    (Radix.split cs).2.1.any isGap = false ∧
      ∀ body, Radix.split ((Radix.split cs).2.1 ++ body) =
        ((Radix.split cs).1, (Radix.split cs).2.1, body) := by
  unfold Radix.split at h ⊢
  split at h
  · exact ⟨rfl, fun _ => rfl⟩
  · exact ⟨rfl, fun _ => rfl⟩
  · exact ⟨rfl, fun _ => rfl⟩
  · exact ⟨rfl, fun _ => rfl⟩
  · exact absurd rfl h

/-- the start of a decimal number is decimal, since no lead ends in a gap -/
theorem split_of_prefix {piece : List Char} (hcs : (Radix.split cs).1 = .decimal)
    (hpiece : piece <+: cs) (hrest : Breaks rest) :
    Radix.split (piece ++ rest) = (.decimal, [], piece ++ rest) := by
  refine split_of_decimal (Classical.byContradiction fun hdecimal => ?_)
  obtain ⟨hgap, hlead⟩ := split_lead hdecimal
  have hstart : (Radix.split (piece ++ rest)).2.1 <+: piece ++ rest :=
    ⟨_, Radix.split_append (piece ++ rest)⟩
  obtain ⟨body, hbody⟩ := (hrest.prefix_of_append hgap hstart).trans hpiece
  have hsame := hlead body
  rw [hbody] at hsame
  rw [hsame] at hcs
  exact hdecimal hcs

/-- the digits that a text starts with, and the text after them -/
theorem exists_digits (radix : Radix) (cs : List Char) : ∃ digits more, digits ++ more = cs ∧
    (∀ c ∈ digits, radix.isDigit c = true) ∧ ∀ d ∈ more.head?, radix.isDigit d = false := by
  refine ⟨_, _, List.takeWhile_append_dropWhile, takeWhile_all cs, ?_⟩
  intro d hd
  have hnot := List.head?_dropWhile_not radix.isDigit cs
  rw [Option.mem_def.mp hd] at hnot
  simpa using hnot

section
variable {radix : Radix} {lead digits more : List Char}

/-- a decimal number by the text after its digits -/
theorem scanNumber_decimal (afterDot : Bool)
    (hsplit : Radix.split (digits ++ more) = (.decimal, [], digits ++ more))
    (hdigits : ∀ c ∈ digits, Radix.decimal.isDigit c = true)
    (hmore : ∀ d ∈ more.head?, Radix.decimal.isDigit d = false) :
    let exponent := exponentPart more
    let fraction := fractionPart afterDot (more.drop exponent.length)
    scanNumber afterDot (digits ++ more) =
      if exponent ≠ [] ∧ fraction ≠ [] then
        ⟨.invalid .decimalAfterExponent, digits ++ exponent ++ fraction⟩
      else ⟨.number, digits ++ exponent ++ fraction⟩ := by
  dsimp only
  rw [scanNumber, hsplit]
  dsimp only
  rw [if_pos rfl, takeWhile_exact hdigits hmore, dropWhile_exact hdigits hmore]

/-- a number of another radix by the text after its digits -/
theorem scanNumber_lead (afterDot : Bool) (hradix : radix ≠ .decimal)
    (hsplit : Radix.split cs = (radix, lead, digits ++ more))
    (hdigits : ∀ c ∈ digits, radix.isDigit c = true)
    (hmore : ∀ d ∈ more.head?, radix.isDigit d = false) :
    let fraction := fractionPart afterDot more
    scanNumber afterDot cs =
      if more.head?.any isExponentMark then
        ⟨.invalid .exponentInBase, lead ++ digits ++ more.takeWhile Char.isAlphanum⟩
      else ⟨if fraction = [] then .number else .invalid .fractionInBase,
        lead ++ digits ++ fraction⟩ := by
  dsimp only
  rw [scanNumber, hsplit]
  dsimp only
  rw [if_neg hradix, takeWhile_exact hdigits hmore, dropWhile_exact hdigits hmore]

/-- An exponent without a fraction is read again, and a fraction without an exponent. -/
theorem exponent_fraction_severed (afterDot : Bool) (more : List Char) (hrest : Breaks rest)
    (h : ¬(exponentPart more ≠ [] ∧
      fractionPart afterDot (more.drop (exponentPart more).length) ≠ [])) :
    let exponent := exponentPart more
    let fraction := fractionPart afterDot (more.drop exponent.length)
    exponentPart (exponent ++ fraction ++ rest) = exponent ∧
      fractionPart afterDot ((exponent ++ fraction ++ rest).drop exponent.length) = fraction := by
  dsimp only
  by_cases hexponent : exponentPart more = []
  · have hnone : exponentPart (fractionPart afterDot more ++ rest) = [] := by
      rw [exponentPart_eq_nil_iff] at hexponent ⊢
      exact hrest.head?_append gapless_isExponentMark (fractionPart_isPrefix afterDot more) hexponent
    rw [hexponent]
    exact ⟨hnone, severable_fractionPart afterDot more rest hrest⟩
  · have hfraction := Classical.not_not.mp (not_and.mp h hexponent)
    rw [hfraction, List.append_nil, List.drop_left]
    exact ⟨severable_exponentPart more rest hrest, fractionPart_of_breaks afterDot hrest⟩

end

theorem scanNumber_severed_decimal (hsplit : (Radix.split cs).1 = .decimal)
    (hvalid : ∀ cause, (scanNumber afterDot cs).kind ≠ .invalid cause) (hrest : Breaks rest) :
    scanNumber afterDot ((scanNumber afterDot cs).literal ++ rest) = scanNumber afterDot cs := by
  obtain ⟨digits, more, rfl, hdigits, hmore⟩ := exists_digits .decimal cs
  have hscan := scanNumber_decimal afterDot (split_of_decimal hsplit) hdigits hmore
  dsimp only at hscan
  split at hscan
  · exact absurd (congrArg Lexeme.kind hscan) (hvalid _)
  · rename_i hboth
    have hparts : exponentPart more ++
        fractionPart afterDot (more.drop (exponentPart more).length) <+: more :=
      prefix_append_of_drop (exponentPart_isPrefix more) (fractionPart_isPrefix afterDot _)
    obtain ⟨hexponent, hfraction⟩ := exponent_fraction_severed afterDot more hrest hboth
    generalize exponentPart more = exponent at *
    generalize fractionPart afterDot (more.drop exponent.length) = fraction at *
    have hliteral : digits ++ (exponent ++ fraction) <+: digits ++ more :=
      (List.prefix_append_right_inj digits).mpr hparts
    have hagain := @scanNumber_decimal digits (exponent ++ fraction ++ rest) afterDot
      (by rw [← List.append_assoc]; exact split_of_prefix hsplit hliteral hrest) hdigits
      (hrest.head?_append (gapless_radix .decimal) hparts hmore)
    dsimp only at hagain
    rw [hexponent, hfraction, if_neg hboth] at hagain
    rw [hscan]
    simp only [List.append_assoc] at hagain ⊢
    exact hagain

theorem scanNumber_severed_lead (hsplit : (Radix.split cs).1 ≠ .decimal)
    (hvalid : ∀ cause, (scanNumber afterDot cs).kind ≠ .invalid cause) (hrest : Breaks rest) :
    scanNumber afterDot ((scanNumber afterDot cs).literal ++ rest) = scanNumber afterDot cs := by
  obtain ⟨-, hlead⟩ := split_lead hsplit
  rcases hcs : Radix.split cs with ⟨radix, lead, body⟩
  rw [hcs] at hsplit hlead
  dsimp only at hsplit hlead
  obtain ⟨digits, more, rfl, hdigits, hmore⟩ := exists_digits radix body
  have hscan := scanNumber_lead afterDot hsplit hcs hdigits hmore
  have hagain := scanNumber_lead afterDot hsplit (hlead (digits ++ rest)) hdigits
    (hrest.head? (gapless_radix radix))
  dsimp only at hscan hagain
  rw [hrest.any_head? gapless_isExponentMark, if_neg Bool.false_ne_true,
    fractionPart_of_breaks afterDot hrest, if_pos rfl, List.append_nil] at hagain
  split at hscan
  · exact absurd (congrArg Lexeme.kind hscan) (hvalid _)
  · by_cases hfraction : fractionPart afterDot more = []
    · rw [hfraction, if_pos rfl, List.append_nil] at hscan
      rw [hscan, List.append_assoc]
      exact hagain
    · rw [if_neg hfraction] at hscan
      exact absurd (congrArg Lexeme.kind hscan) (hvalid _)

/-- A number that is not invalid is read again. -/
theorem scanNumber_severed (hvalid : ∀ cause, (scanNumber afterDot cs).kind ≠ .invalid cause)
    (hrest : Breaks rest) :
    scanNumber afterDot ((scanNumber afterDot cs).literal ++ rest) = scanNumber afterDot cs := by
  by_cases hsplit : (Radix.split cs).1 = .decimal
  · exact scanNumber_severed_decimal hsplit hvalid hrest
  · exact scanNumber_severed_lead hsplit hvalid hrest

/-! ## Strings and characters -/

theorem scanString_severed (hvalid : ∀ cause, (scanString cs).kind ≠ .invalid cause) :
    ∃ body, scanString cs = ⟨.string, body⟩ ∧
      ∀ rest, scanString (body ++ '"' :: rest) = ⟨.string, body⟩ := by
  cases hbody : stringBody? cs with
  | none =>
    refine absurd ?_ (hvalid .unterminatedString)
    rw [scanString, hbody]
  | some body =>
    refine ⟨body, by rw [scanString, hbody], fun rest => ?_⟩
    rw [scanString, stringBody?_of_quotable (stringBody?_inv cs hbody).1]

theorem charBody?_plain {c : Char} (hc : c ≠ '\\') (cs : List Char) :
    charBody? (c :: cs) = some [c] := by
  unfold charBody?
  split
  · rename_i h
    cases h
    exact absurd rfl hc
  · rename_i h
    cases h
    exact absurd rfl hc
  · rename_i h
    cases h
    rfl
  · rename_i h
    cases h

/-- what is read of a character literal is read again before any text with a mark in front -/
theorem charBody?_severed {body : List Char} (h : charBody? cs = some body) (rest : List Char) :
    charBody? (body ++ '\'' :: rest) = some body := by
  match cs with
  | [] => cases h
  | c :: cs =>
    by_cases hc : c = '\\'
    · subst hc
      cases cs with
      | nil => cases h
      | cons d cs =>
        cases h
        rfl
    · rw [charBody?_plain hc] at h
      cases h
      exact charBody?_plain hc _

theorem scanChar_severed (hvalid : ∀ cause, (scanChar cs).kind ≠ .invalid cause) :
    ∃ body, scanChar cs = ⟨.char, body⟩ ∧
      ∀ rest, scanChar (body ++ '\'' :: rest) = ⟨.char, body⟩ := by
  cases hbody : charBody? cs with
  | none =>
    refine absurd ?_ (hvalid .unterminatedChar)
    rw [scanChar, hbody]
  | some body =>
    by_cases hclosed : ((cs.drop body.length).head? == some '\'') = true
    · refine ⟨body, ?_, fun rest => ?_⟩
      · rw [scanChar, hbody]
        exact if_pos hclosed
      · rw [scanChar, charBody?_severed hbody]
        dsimp only
        rw [List.drop_left]
        rfl
    · refine absurd ?_ (hvalid .unterminatedChar)
      rw [scanChar, hbody]
      dsimp only
      rw [if_neg hclosed]

/-! ## Lexemes -/

/-- The lexeme is read of its own extent where that is all of the text or a gap follows it. -/
def Steady (afterDot : Bool) (l : Lexeme) : Prop :=
  ∃ c more, l.extent = c :: more ∧ isGap c = false ∧
    ∀ rest, Breaks rest → scan afterDot c (more ++ rest) = l

theorem scan_digit {c : Char} (h : c.isDigit = true) (afterDot : Bool) (cs : List Char) :
    scan afterDot c cs = scanNumber afterDot (c :: cs) := by
  have hsymbol : Symbol.leading? (c :: cs) = none :=
    leading?_eq_none (fun s => by cases s <;> rfl) h cs
  rw [scan, hsymbol]
  exact if_pos h

theorem scan_char (afterDot : Bool) (cs : List Char) :
    scan afterDot '\'' cs = scanChar cs := by
  have hsymbol : Symbol.leading? ('\'' :: cs) = none := rfl
  rw [scan, hsymbol]
  dsimp only
  rw [if_neg (by decide), if_neg (by decide), if_pos (by decide)]

section
variable {c : Char} (hgap : isGap c = false)
include hgap

/-- The extent starts with the character at which the lexeme was read, so what is left to show is that
it is read again there. -/
theorem steady_of {l : Lexeme} (hheads : l.Heads (c :: cs)) (hagain : ∀ more rest,
    l.extent = c :: more → Breaks rest → scan afterDot c (more ++ rest) = l) :
    Steady afterDot l := by
  obtain ⟨-, hne, hstarts⟩ := hheads
  obtain ⟨d, more, hextent⟩ := List.exists_cons_of_ne_nil hne
  rw [hextent, List.cons_prefix_cons] at hstarts
  obtain ⟨rfl, -⟩ := hstarts
  exact ⟨d, more, hextent, hgap, fun rest hrest => hagain more rest hextent hrest⟩

theorem steady_symbol {s : Symbol} (h : Symbol.leading? (c :: cs) = some s) :
    Steady afterDot (scan afterDot c cs) := by
  have hscan : scan afterDot c cs = ⟨.symbol s, s.chars⟩ := by rw [scan, h]
  refine steady_of hgap (heads_scan afterDot c cs) fun more rest hextent hrest => ?_
  rw [hscan, extent_of_bare (bare_symbol s)] at hextent
  have hagain : Symbol.leading? (c :: (more ++ rest)) = some s := by
    rw [← List.cons_append, ← hextent, leading?_append hrest, leading?_chars]
  rw [hscan, scan, hagain]

theorem steady_number (h : c.isDigit = true)
    (hvalid : ∀ cause, (scanNumber afterDot (c :: cs)).kind ≠ .invalid cause) :
    Steady afterDot (scanNumber afterDot (c :: cs)) := by
  refine steady_of hgap (heads_scanNumber h afterDot cs) fun more rest hextent hrest => ?_
  rw [extent_of_bare (bare_scanNumber afterDot _)] at hextent
  rw [scan_digit h, ← List.cons_append, ← hextent]
  exact scanNumber_severed hvalid hrest

theorem steady_word (h : isWordStart c = true) : Steady afterDot (scanWord (c :: cs)) := by
  refine steady_of hgap (heads_scanWord h cs) fun more rest hextent hrest => ?_
  rw [extent_of_bare (bare_wordKind _)] at hextent
  have hword : (c :: (more ++ rest)).takeWhile isWordPart = (c :: cs).takeWhile isWordPart := by
    rw [← List.cons_append, ← hextent]
    exact severable_takeWhile gapless_isWordPart _ _ hrest
  rw [scan_word h, scanWord, hword]
  rfl

end

theorem steady_string (hvalid : ∀ cause, (scanString cs).kind ≠ .invalid cause) :
    Steady afterDot (scanString cs) := by
  obtain ⟨body, hscan, hagain⟩ := scanString_severed hvalid
  refine ⟨'"', body ++ ['"'], by rw [hscan]; rfl, rfl, fun rest _ => ?_⟩
  rw [hscan, scan_string, List.append_assoc]
  exact hagain rest

theorem steady_char (hvalid : ∀ cause, (scanChar cs).kind ≠ .invalid cause) :
    Steady afterDot (scanChar cs) := by
  obtain ⟨body, hscan, hagain⟩ := scanChar_severed hvalid
  refine ⟨'\'', body ++ ['\''], by rw [hscan]; rfl, rfl, fun rest _ => ?_⟩
  rw [hscan, scan_char, List.append_assoc]
  exact hagain rest

/-- **A lexeme that is not invalid does not depend on the text after it.** -/
theorem steady_scan {c : Char} (hgap : isGap c = false)
    (hvalid : ∀ cause, (scan afterDot c cs).kind ≠ .invalid cause) :
    Steady afterDot (scan afterDot c cs) := by
  cases hsymbol : Symbol.leading? (c :: cs) with
  | some s => exact steady_symbol hgap hsymbol
  | none =>
    by_cases hdigit : c.isDigit = true
    · rw [scan_digit hdigit] at hvalid ⊢
      exact steady_number hgap hdigit hvalid
    by_cases hmark : c = '"'
    · subst hmark
      rw [scan_string] at hvalid ⊢
      exact steady_string hvalid
    by_cases hquote : c = '\''
    · subst hquote
      rw [scan_char] at hvalid ⊢
      exact steady_char hvalid
    by_cases hstart : isWordStart c = true
    · rw [scan_word hstart]
      exact steady_word hgap hstart
    · refine absurd ?_ (hvalid .unexpectedCharacter)
      rw [scan, hsymbol]
      dsimp only
      rw [if_neg hdigit, if_neg (by rwa [beq_iff_eq]), if_neg (by rwa [beq_iff_eq]), if_neg hstart]

end Lexeme

end Parlance
