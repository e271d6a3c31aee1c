import Parlance.Token.Lexer

/-!
# The stretch of text that a lexeme takes up

Each way of reading cuts a piece off the start of the text, and it is the extent of the lexeme read:

* `Lexeme.Heads l cs`     the lexeme `l` has an extent, and the text `cs` starts with that;
* `Lexeme.Quotable cs`    `cs` can stand between the marks of a string;
* `heads_scanNumber`, `heads_scanString`, `heads_scanChar`, `heads_scanWord`   one for each way;
* `heads_scan`            the lexeme read at a character takes up that character at least.
-/

namespace Parlance.Lexeme

/-- The text starts with the extent of the lexeme, which is more than nothing. -/
structure Heads (l : Lexeme) (cs : List Char) : Prop where
  kind : l.kind ≠ .endOfText
  ne_nil : l.extent ≠ []
  starts : l.extent <+: cs

/-- kinds of lexemes without quotation marks -/
structure Bare (k : TokenKind) : Prop where
  not_string : k ≠ .string
  not_char : k ≠ .char
  not_end : k ≠ .endOfText

theorem bare_ident : Bare .ident :=
  ⟨TokenKind.noConfusion, TokenKind.noConfusion, TokenKind.noConfusion⟩
theorem bare_bool : Bare .bool :=
  ⟨TokenKind.noConfusion, TokenKind.noConfusion, TokenKind.noConfusion⟩
theorem bare_number : Bare .number :=
  ⟨TokenKind.noConfusion, TokenKind.noConfusion, TokenKind.noConfusion⟩
theorem bare_keyword (k : Keyword) : Bare (.keyword k) :=
  ⟨TokenKind.noConfusion, TokenKind.noConfusion, TokenKind.noConfusion⟩
theorem bare_symbol (s : Symbol) : Bare (.symbol s) :=
  ⟨TokenKind.noConfusion, TokenKind.noConfusion, TokenKind.noConfusion⟩
theorem bare_invalid (cause : LexError) : Bare (.invalid cause) :=
  ⟨TokenKind.noConfusion, TokenKind.noConfusion, TokenKind.noConfusion⟩

theorem extent_of_bare {l : Lexeme} (h : Bare l.kind) : l.extent = l.literal := by
  obtain ⟨kind, literal⟩ := l
  cases kind with
  | string => exact absurd rfl h.not_string
  | char => exact absurd rfl h.not_char
  | _ => simp [extent, quote]

theorem heads_of_bare {l : Lexeme} {cs : List Char} (h : Bare l.kind) (hne : l.literal ≠ [])
    (hstarts : l.literal <+: cs) : l.Heads cs := by
  refine ⟨h.not_end, ?_, ?_⟩
  · rwa [extent_of_bare h]
  · rwa [extent_of_bare h]

/-- two pieces, one after the other -/
theorem prefix_append_of_drop {as bs cs : List Char} (ha : as <+: cs)
    (hb : bs <+: cs.drop as.length) : as ++ bs <+: cs := by
  obtain ⟨rest, rfl⟩ := ha
  rw [List.drop_left] at hb
  exact (List.prefix_append_right_inj as).mpr hb

theorem ne_nil_of_takeWhile {p : Char → Bool} {c : Char} (h : p c = true) (cs : List Char) :
    (c :: cs).takeWhile p ≠ [] := by
  simp [h]

/-- a piece of characters with `p` that stands before one without it, or at the end -/
theorem takeWhile_exact {p : Char → Bool} {piece rest : List Char} (h : ∀ c ∈ piece, p c = true)
    (hrest : ∀ d ∈ rest.head?, p d = false) : (piece ++ rest).takeWhile p = piece := by
  have hstop : rest.takeWhile p = [] := by
    cases rest with
    | nil => rfl
    | cons d rest => simp [hrest d rfl]
  rw [List.takeWhile_append_of_pos h, hstop, List.append_nil]

theorem dropWhile_exact {p : Char → Bool} {piece rest : List Char} (h : ∀ c ∈ piece, p c = true)
    (hrest : ∀ d ∈ rest.head?, p d = false) : (piece ++ rest).dropWhile p = rest := by
  have hall := List.takeWhile_append_dropWhile (p := p) (l := piece ++ rest)
  rw [takeWhile_exact h hrest] at hall
  exact List.append_cancel_left hall

/-! ## Words -/

theorem wordKind_cases (word : List Char) :
    (∃ k, wordKind word = .keyword k) ∨ wordKind word = .bool ∨ wordKind word = .ident := by
  unfold wordKind
  split
  · exact .inl ⟨_, rfl⟩
  · split
    · exact .inr (.inl rfl)
    · exact .inr (.inr rfl)

theorem bare_wordKind (word : List Char) : Bare (wordKind word) := by
  rcases wordKind_cases word with ⟨k, h⟩ | h | h
  · rw [h]
    exact bare_keyword k
  · rw [h]
    exact bare_bool
  · rw [h]
    exact bare_ident

theorem isWordPart_of_isWordStart {c : Char} (h : isWordStart c = true) : isWordPart c = true := by
  simp only [isWordStart, isWordPart, Char.isAlphanum, Bool.or_eq_true] at h ⊢
  exact h.imp_left Or.inl

theorem heads_scanWord {c : Char} (h : isWordStart c = true) (cs : List Char) :
    (scanWord (c :: cs)).Heads (c :: cs) :=
  heads_of_bare (bare_wordKind _) (ne_nil_of_takeWhile (isWordPart_of_isWordStart h) cs)
    (List.takeWhile_prefix isWordPart)

/-! ## Numbers -/

theorem exponentPart_isPrefix (cs : List Char) : exponentPart cs <+: cs := by
  unfold exponentPart
  split
  · rename_i e s cs
    split
    · split
      · exact (List.prefix_append_right_inj [e, s]).mpr (List.takeWhile_prefix Char.isDigit)
      · exact (List.prefix_append_right_inj [e]).mpr
          (List.takeWhile_prefix (l := s :: cs) Char.isDigit)
    · exact List.nil_prefix
  · split
    · exact List.prefix_refl _
    · exact List.nil_prefix
  · exact List.nil_prefix

theorem fractionPart_isPrefix (afterDot : Bool) (cs : List Char) :
    fractionPart afterDot cs <+: cs := by
  unfold fractionPart
  split
  · rename_i d cs
    split
    · exact (List.prefix_append_right_inj ['.']).mpr
        (List.takeWhile_prefix (l := d :: cs) Char.isDigit)
    · exact List.nil_prefix
  · exact List.nil_prefix

theorem split_of_decimal {cs : List Char} (h : (Radix.split cs).1 = .decimal) :
    Radix.split cs = (.decimal, [], cs) := by
  unfold Radix.split at h ⊢
  split at h
  all_goals first | rfl | cases h

theorem lead_ne_nil {cs : List Char} (h : (Radix.split cs).1 ≠ .decimal) :
    (Radix.split cs).2.1 ≠ [] := by
  unfold Radix.split at h ⊢
  split at h
  all_goals first | exact absurd rfl h | simp

theorem decimal_isDigit {c : Char} (h : c.isDigit = true) : Radix.decimal.isDigit c = true := by
  have hrange : '0' ≤ c ∧ c ≤ '9' := by simpa [Char.isDigit, Char.le_def] using h
  have hlt : c.toNat - '0'.toNat < Radix.decimal.base := by
    have hle : c.toNat ≤ '9'.toNat := hrange.2
    have hnine : '9'.toNat - '0'.toNat < Radix.decimal.base := by decide
    omega
  rw [Radix.isDigit, Radix.digit?, Radix.hexDigit?, if_pos hrange, Option.filter_some,
    if_pos (decide_eq_true hlt)]
  rfl

theorem kind_scanNumber (afterDot : Bool) (cs : List Char) :
    (scanNumber afterDot cs).kind = .number ∨ ∃ cause, (scanNumber afterDot cs).kind = .invalid cause := by
  unfold scanNumber
  dsimp only
  split
  · split
    · exact .inr ⟨_, rfl⟩
    · exact .inl rfl
  · split
    · exact .inr ⟨_, rfl⟩
    · dsimp only
      split
      · exact .inl rfl
      · exact .inr ⟨_, rfl⟩

theorem bare_scanNumber (afterDot : Bool) (cs : List Char) : Bare (scanNumber afterDot cs).kind := by
  rcases kind_scanNumber afterDot cs with h | ⟨cause, h⟩
  · rw [h]
    exact bare_number
  · rw [h]
    exact bare_invalid cause

/-- A number is its lead, the digits after that and what its radix lets follow them. -/
theorem literal_scanNumber {cs lead body : List Char} {radix : Radix} (afterDot : Bool)
    (h : Radix.split cs = (radix, lead, body)) :
    ∃ tail, tail <+: body.dropWhile radix.isDigit ∧
      (scanNumber afterDot cs).literal = lead ++ body.takeWhile radix.isDigit ++ tail := by
  unfold scanNumber
  simp only [h]
  by_cases hradix : radix = .decimal
  · subst hradix
    obtain rfl : lead = [] := by
      rw [split_of_decimal (congrArg Prod.fst h)] at h
      cases h
      rfl
    rw [if_pos rfl]
    refine ⟨_, prefix_append_of_drop (exponentPart_isPrefix _) (fractionPart_isPrefix afterDot _), ?_⟩
    split <;> simp
  · rw [if_neg hradix]
    split
    · exact ⟨_, List.takeWhile_prefix Char.isAlphanum, rfl⟩
    · exact ⟨_, fractionPart_isPrefix afterDot _, rfl⟩

theorem heads_scanNumber {c : Char} (h : c.isDigit = true) (afterDot : Bool) (cs : List Char) :
    (scanNumber afterDot (c :: cs)).Heads (c :: cs) := by
  rcases hsplit : Radix.split (c :: cs) with ⟨radix, lead, body⟩
  obtain ⟨tail, htail, hliteral⟩ := literal_scanNumber afterDot hsplit
  refine heads_of_bare (bare_scanNumber afterDot _) ?_ ?_
  · rw [hliteral]
    by_cases hradix : radix = .decimal
    · subst hradix
      rw [split_of_decimal (congrArg Prod.fst hsplit)] at hsplit
      cases hsplit
      simp [ne_nil_of_takeWhile (decimal_isDigit h) cs]
    · have hlead := @lead_ne_nil (c :: cs) (by rw [hsplit]; exact hradix)
      rw [hsplit] at hlead
      simp [hlead]
  · have happend := Radix.split_append (c :: cs)
    rw [hsplit] at happend
    rw [hliteral, ← happend, List.append_assoc, List.prefix_append_right_inj]
    obtain ⟨rest, hrest⟩ := htail
    exact ⟨rest, by rw [List.append_assoc, hrest, List.takeWhile_append_dropWhile]⟩

/-! ## Strings and characters -/

/-- What can stand between the marks of a string: a backslash takes the next character with it. -/
inductive Quotable : List Char → Prop
  | nil : Quotable []
  | escaped (d : Char) {body : List Char} (others : Quotable body) : Quotable ('\\' :: d :: body)
  | plain {c : Char} {body : List Char} (mark : c ≠ '"') (slash : c ≠ '\\')
      (others : Quotable body) : Quotable (c :: body)

theorem stringBody?_inv (cs : List Char) {body : List Char} (h : stringBody? cs = some body) :
    Quotable body ∧ body ++ ['"'] <+: cs := by
  induction cs using stringBody?.induct generalizing body with
  | case1 => cases h
  | case2 c cs hmark =>
    unfold stringBody? at h
    rw [if_pos hmark] at h
    cases h
    rw [beq_iff_eq.mp hmark]
    exact ⟨.nil, cs, rfl⟩
  | case3 c hmark hescape =>
    rw [stringBody?, if_neg hmark, if_pos hescape] at h
    cases h
  | case4 c hmark hescape d ds ih =>
    rw [stringBody?, if_neg hmark, if_pos hescape, Option.map_eq_some_iff] at h
    obtain ⟨inner, hinner, rfl⟩ := h
    obtain ⟨hbody, hprefix⟩ := ih hinner
    rw [beq_iff_eq.mp hescape]
    exact ⟨.escaped d hbody, (List.prefix_append_right_inj ['\\', d]).mpr hprefix⟩
  | case5 c cs hmark hescape ih =>
    unfold stringBody? at h
    rw [if_neg hmark, if_neg hescape, Option.map_eq_some_iff] at h
    obtain ⟨inner, hinner, rfl⟩ := h
    obtain ⟨hbody, hprefix⟩ := ih hinner
    rw [beq_iff_eq] at hmark hescape
    exact ⟨.plain hmark hescape hbody, (List.prefix_append_right_inj [c]).mpr hprefix⟩

theorem heads_scanString (cs : List Char) : (scanString cs).Heads ('"' :: cs) := by
  unfold scanString
  split
  · rename_i body hbody
    refine ⟨TokenKind.noConfusion, by simp [extent, quote], ?_⟩
    show '"' :: body ++ ['"'] <+: '"' :: cs
    exact (List.prefix_append_right_inj ['"']).mpr (stringBody?_inv cs hbody).2
  · exact heads_of_bare (bare_invalid _) (List.cons_ne_nil _ _) (List.prefix_refl _)

theorem charBody?_isPrefix {cs body : List Char} (h : charBody? cs = some body) : body <+: cs := by
  unfold charBody? at h
  split at h
  · cases h
  · cases h
    exact (List.prefix_append_right_inj ['\\', _]).mpr List.nil_prefix
  · cases h
    exact (List.prefix_append_right_inj [_]).mpr List.nil_prefix
  · cases h

theorem heads_scanChar (cs : List Char) : (scanChar cs).Heads ('\'' :: cs) := by
  unfold scanChar
  split
  · rename_i body hbody
    have hprefix := charBody?_isPrefix hbody
    split
    · rename_i hclosed
      refine ⟨TokenKind.noConfusion, by simp [extent, quote], ?_⟩
      show '\'' :: (body ++ ['\'']) <+: '\'' :: cs
      refine (List.prefix_append_right_inj ['\'']).mpr (prefix_append_of_drop hprefix ?_)
      rw [beq_iff_eq, List.head?_eq_some_iff] at hclosed
      obtain ⟨rest, hrest⟩ := hclosed
      rw [hrest]
      exact ⟨rest, rfl⟩
    · exact heads_of_bare (bare_invalid _) (List.cons_ne_nil _ _)
        ((List.prefix_append_right_inj ['\'']).mpr hprefix)
  · exact heads_of_bare (bare_invalid _) (List.cons_ne_nil _ _) ⟨cs, rfl⟩

/-! ## Lexemes -/

/-- **A lexeme takes up a piece of the text from the character at which it is read.** -/
theorem heads_scan (afterDot : Bool) (c : Char) (cs : List Char) :
    (scan afterDot c cs).Heads (c :: cs) := by
  unfold scan
  split
  · rename_i s hs
    exact heads_of_bare (bare_symbol s) s.chars_ne_nil (Symbol.chars_isPrefix_of_leading? hs)
  split
  · rename_i hdigit
    exact heads_scanNumber hdigit afterDot cs
  split
  · rename_i hquote
    obtain rfl := beq_iff_eq.mp hquote
    exact heads_scanString cs
  split
  · rename_i hquote
    obtain rfl := beq_iff_eq.mp hquote
    exact heads_scanChar cs
  split
  · rename_i hstart
    exact heads_scanWord hstart cs
  · exact heads_of_bare (bare_invalid _) (List.cons_ne_nil _ _) ⟨cs, rfl⟩

end Parlance.Lexeme
