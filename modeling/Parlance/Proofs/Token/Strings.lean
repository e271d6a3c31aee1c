import Parlance.Expr.Literal
import Parlance.Proofs.Token.Layout

/-!
# Strings and names as they are written

* `Literal.escape cs`      a text as it stands between double quotation marks: a backslash before each
                           backslash and mark;
* `unescape_escape`        it stands for the text;
* `scan_quoted`            between marks it is one lexeme;
* `scan_word`, `wordKind_eq_ident`   a word is one, too, and an identifier unless it is a word of the
                           language;
* `Token.Spelled P cs rest`    up to `rest`, the text has tokens with `P`;
* `spelled_lexeme`, `spelled_word`, `spelled_gap`, `Spelled.append`   how such texts are put together.
-/

namespace Parlance

namespace Literal

/-- a character as it is written between double quotation marks -/
def escapeOne (c : Char) : List Char := if c = '\\' ∨ c = '"' then ['\\', c] else [c]

/-- a text as it is written between double quotation marks -/
def escape (cs : List Char) : List Char := cs.flatMap escapeOne

/-- a text between double quotation marks -/
def quoted (cs : List Char) : List Char := '"' :: (escape cs ++ ['"'])

theorem escape_cons (c : Char) (cs : List Char) : escape (c :: cs) = escapeOne c ++ escape cs := rfl

/-- A character is written with a backslash before it, or is neither a backslash nor a mark. -/
theorem escapeOne_cases (c : Char) :
    ((c = '\\' ∨ c = '"') ∧ escapeOne c = ['\\', c]) ∨
      (c ≠ '\\' ∧ c ≠ '"' ∧ escapeOne c = [c]) := by
  by_cases h : c = '\\' ∨ c = '"'
  · exact .inl ⟨h, if_pos h⟩
  · rw [not_or] at h
    exact .inr ⟨h.1, h.2, if_neg (not_or.mpr h)⟩

theorem unescape_cons {c : Char} (h : c ≠ '\\') (cs : List Char) :
    unescape (c :: cs) = c :: unescape cs := by
  cases cs with
  | nil => rfl
  | cons d cs =>
    have hc : ¬(c == '\\') = true := by rwa [beq_iff_eq]
    rw [unescape, if_neg hc]

theorem unescape_escaped {c : Char} (h : c = '\\' ∨ c = '"') (cs : List Char) :
    unescape ('\\' :: c :: cs) = c :: unescape cs := by
  rcases h with rfl | rfl <;> rfl

/-- what is written for a text stands for it -/
theorem unescape_escape (cs : List Char) : unescape (escape cs) = cs := by
  induction cs with
  | nil => rfl
  | cons c cs ih =>
    rw [escape_cons]
    rcases escapeOne_cases c with ⟨hc, hone⟩ | ⟨hbackslash, -, hone⟩
    · rw [hone]
      show unescape ('\\' :: c :: escape cs) = c :: cs
      rw [unescape_escaped hc, ih]
    · rw [hone]
      show unescape (c :: escape cs) = c :: cs
      rw [unescape_cons hbackslash, ih]

end Literal

namespace Lexeme

/-! ## Strings -/

theorem stringBody?_mark (rest : List Char) : stringBody? ('"' :: rest) = some [] := by
  unfold stringBody?
  exact if_pos rfl

theorem stringBody?_escaped (c : Char) (cs : List Char) :
    stringBody? ('\\' :: c :: cs) = (stringBody? cs).map fun body => '\\' :: c :: body := by
  rw [stringBody?, if_neg (by decide), if_pos (by decide)]

theorem stringBody?_plain {c : Char} (hbackslash : c ≠ '\\') (hmark : c ≠ '"') (cs : List Char) :
    stringBody? (c :: cs) = (stringBody? cs).map (c :: ·) := by
  have hbackslash : ¬(c == '\\') = true := by rwa [beq_iff_eq]
  have hmark : ¬(c == '"') = true := by rwa [beq_iff_eq]
  rw [stringBody?.eq_def]
  dsimp only
  rw [if_neg hmark, if_neg hbackslash]

/-- what can stand between the marks of a string ends at the next mark -/
theorem stringBody?_of_quotable {body : List Char} (h : Quotable body) (rest : List Char) :
    stringBody? (body ++ '"' :: rest) = some body := by
  induction h with
  | nil => exact stringBody?_mark rest
  | @escaped d body _ ih =>
    rw [List.cons_append, List.cons_append, stringBody?_escaped, ih]
    rfl
  | @plain c body hmark hbackslash _ ih =>
    rw [List.cons_append, stringBody?_plain hbackslash hmark, ih]
    rfl

theorem quotable_escape (cs : List Char) : Quotable (Literal.escape cs) := by
  induction cs with
  | nil => exact .nil
  | cons c cs ih =>
    rw [Literal.escape_cons]
    rcases Literal.escapeOne_cases c with ⟨-, hone⟩ | ⟨hbackslash, hmark, hone⟩
    · rw [hone]
      exact .escaped c ih
    · rw [hone]
      exact .plain hmark hbackslash ih

/-- no mark in an escaped text closes it -/
theorem stringBody?_escape (cs rest : List Char) :
    stringBody? (Literal.escape cs ++ '"' :: rest) = some (Literal.escape cs) :=
  stringBody?_of_quotable (quotable_escape cs) rest

theorem scan_string (afterDot : Bool) (cs : List Char) :
    scan afterDot '"' cs = scanString cs := by
  have hsymbol : Symbol.leading? ('"' :: cs) = none := rfl
  rw [scan, hsymbol]
  dsimp only
  rw [if_neg (by decide), if_pos (by decide)]

theorem scan_quoted (afterDot : Bool) (cs rest : List Char) :
    scan afterDot '"' (Literal.escape cs ++ '"' :: rest) = ⟨.string, Literal.escape cs⟩ := by
  rw [scan_string, scanString, stringBody?_escape]

/-! ## Words -/

theorem within_iff (lo hi : UInt32) (c : Char) :
    (decide (lo ≤ c.val) && decide (c.val ≤ hi)) = true ↔
      lo.toNat ≤ c.toNat ∧ c.toNat ≤ hi.toNat := by
  rw [Bool.and_eq_true, decide_eq_true_eq, decide_eq_true_eq]
  exact Iff.rfl

theorem isDigit_iff (c : Char) : c.isDigit = true ↔ 48 ≤ c.toNat ∧ c.toNat ≤ 57 :=
  within_iff 48 57 c

theorem isWordStart_iff (c : Char) : isWordStart c = true ↔
    (65 ≤ c.toNat ∧ c.toNat ≤ 90) ∨ (97 ≤ c.toNat ∧ c.toNat ≤ 122) ∨ c.toNat = 95 := by
  have hupper : c.isUpper = true ↔ 65 ≤ c.toNat ∧ c.toNat ≤ 90 := decide_eq_true_iff
  have hlower : c.isLower = true ↔ 97 ≤ c.toNat ∧ c.toNat ≤ 122 := within_iff 97 122 c
  have halpha : c.isAlpha = true ↔ c.isUpper = true ∨ c.isLower = true := Bool.or_eq_true_iff
  have hunderscore : c = '_' ↔ c.toNat = 95 := by
    rw [← Char.toNat_inj]
    rfl
  rw [isWordStart, Bool.or_eq_true, halpha, hupper, hlower, beq_iff_eq, hunderscore, or_assoc]

theorem isWordPart_iff (c : Char) :
    isWordPart c = true ↔ isWordStart c = true ∨ c.isDigit = true := by
  rw [isWordPart, isWordStart, Char.isAlphanum, Bool.or_eq_true, Bool.or_eq_true, Bool.or_eq_true,
    or_right_comm]

theorem not_isDigit_of_isWordStart {c : Char} (h : isWordStart c = true) : c.isDigit = false := by
  rw [isWordStart_iff] at h
  rw [← Bool.not_eq_true, isDigit_iff]
  omega

theorem not_isBlank_of_isWordPart {c : Char} (h : isWordPart c = true) :
    Text.isBlank c = false := by
  rw [isWordPart_iff, isWordStart_iff, isDigit_iff] at h
  rw [← Bool.not_eq_true]
  intro hblank
  simp only [Text.isBlank, Bool.or_eq_true, Bool.and_eq_true, decide_eq_true_eq,
    beq_iff_eq] at hblank
  omega

/-- no symbol is found at a character that none starts with -/
theorem leading?_eq_none {p : Char → Bool} (hp : ∀ s : Symbol, s.chars.head?.any p = false)
    {c : Char} (h : p c = true) (cs : List Char) : Symbol.leading? (c :: cs) = none := by
  cases hs : Symbol.leading? (c :: cs) with
  | none => rfl
  | some s =>
    obtain ⟨tail, htail⟩ := Symbol.chars_isPrefix_of_leading? hs
    obtain ⟨d, ds, hchars⟩ := List.exists_cons_of_ne_nil s.chars_ne_nil
    have hnot := hp s
    rw [hchars] at htail hnot
    cases htail
    have hc : p c = false := hnot
    rw [hc] at h
    cases h

/-- no symbol starts with a character that can stand first in an identifier -/
theorem leading?_word {c : Char} (h : isWordStart c = true) (cs : List Char) :
    Symbol.leading? (c :: cs) = none :=
  leading?_eq_none (fun s => by cases s <;> rfl) h cs

theorem scan_word {c : Char} (h : isWordStart c = true) (afterDot : Bool) (cs : List Char) :
    scan afterDot c cs = scanWord (c :: cs) := by
  have hmark : ¬(c == '"') = true := by
    intro hc
    rw [beq_iff_eq.mp hc] at h
    cases h
  have hquote : ¬(c == '\'') = true := by
    intro hc
    rw [beq_iff_eq.mp hc] at h
    cases h
  rw [scan, leading?_word h]
  dsimp only
  rw [not_isDigit_of_isWordStart h, if_neg Bool.false_ne_true, if_neg hmark, if_neg hquote,
    if_pos h]

/-- a word that is neither a keyword nor a truth value is an identifier -/
theorem wordKind_eq_ident {name : String} (hkeyword : ∀ k : Keyword, k.spelling ≠ name)
    (htrue : name ≠ "true") (hfalse : name ≠ "false") : wordKind name.toList = .ident := by
  have hnone : (Keyword.all.find? fun k => k.spelling.toList == name.toList) = none := by
    rw [List.find?_eq_none]
    intro k _ hk
    exact hkeyword k (String.toList_inj.mp (beq_iff_eq.mp hk))
  have hbool : ¬(name.toList == ['t', 'r', 'u', 'e'] || name.toList == ['f', 'a', 'l', 's', 'e']) =
      true := by
    rw [Bool.or_eq_true, beq_iff_eq, beq_iff_eq]
    rintro (h | h)
    · exact htrue (String.toList_inj.mp h)
    · exact hfalse (String.toList_inj.mp h)
  rw [wordKind, hnone]
  dsimp only
  rw [if_neg hbool]

end Lexeme

namespace Token

/-! ## Texts with given tokens -/

/-- Up to `rest`, wherever it stands, the text has tokens with `P`, none of which marks its end. -/
def Spelled (P : List Token → Prop) (cs rest : List Char) : Prop :=
  ∀ offset, ∃ ts n, listFrom offset false 0 cs = ts ++ listFrom n false 0 rest ∧
    (∀ t ∈ ts, t.kind ≠ .endOfText) ∧ P ts

variable {P Q : List Token → Prop} {cs ds rest : List Char}

theorem spelled_nil (h : P []) : Spelled P rest rest := by
  intro offset
  refine ⟨[], offset, rfl, ?_, h⟩
  intro t ht
  cases ht

theorem Spelled.append (h : Spelled P cs ds) (h' : Spelled Q ds rest) :
    Spelled (fun ts => ∃ us vs, ts = us ++ vs ∧ P us ∧ Q vs) cs rest := by
  intro offset
  obtain ⟨us, n, hus, hkinds, hP⟩ := h offset
  obtain ⟨vs, n', hvs, hkinds', hQ⟩ := h' n
  refine ⟨us ++ vs, n', ?_, ?_, us, vs, rfl, hP, hQ⟩
  · rw [hus, hvs, List.append_assoc]
  · intro t ht
    rcases List.mem_append.mp ht with ht | ht
    · exact hkinds t ht
    · exact hkinds' t ht

theorem Spelled.weaken (h : Spelled P cs rest) (hPQ : ∀ ts, P ts → Q ts) : Spelled Q cs rest := by
  intro offset
  obtain ⟨ts, n, hts, hkinds, hP⟩ := h offset
  exact ⟨ts, n, hts, hkinds, hPQ ts hP⟩

theorem spelled_gap {c : Char} (hgap : Text.isGap c = true) (h : Spelled P cs rest) :
    Spelled P (c :: cs) rest := by
  intro offset
  obtain ⟨ts, n, hts, hkinds, hP⟩ := h (offset + c.utf8Size)
  refine ⟨ts, n, ?_, hkinds, hP⟩
  rw [listFrom, if_pos hgap, hts]

/-- A lexeme other than a dot that is read at the start of the text is a token of it. -/
theorem spelled_lexeme {c : Char} {l : Lexeme} (hgap : Text.isGap c = false)
    (hscan : Lexeme.scan false c cs = l) (hextent : c :: cs = l.extent ++ rest)
    (hdot : l.kind ≠ .symbol .dot) (h : ∀ n, P [l.toToken n]) : Spelled P (c :: cs) rest := by
  intro offset
  have hkind : l.kind ≠ .endOfText := hscan ▸ (Lexeme.heads_scan false c cs).kind
  have hdot : (l.kind == .symbol .dot) = false := beq_eq_false_iff_ne.mpr hdot
  have hlist := listFrom_lexeme hgap hscan hextent offset
  rw [hdot] at hlist
  refine ⟨[l.toToken offset], _, hlist, ?_, h offset⟩
  intro t ht
  rw [List.mem_singleton.mp ht]
  exact hkind

/-- A word is one token, up to the first character that can be no part of it. -/
theorem spelled_word {c : Char} (hstart : Lexeme.isWordStart c = true)
    (hpart : ∀ d ∈ cs, Lexeme.isWordPart d = true)
    (hrest : ∀ d ∈ rest.head?, Lexeme.isWordPart d = false)
    (h : ∀ n, P [(⟨Lexeme.wordKind (c :: cs), c :: cs⟩ : Lexeme).toToken n]) :
    Spelled P (c :: cs ++ rest) rest := by
  have hall : ∀ d ∈ c :: cs, Lexeme.isWordPart d = true :=
    List.forall_mem_cons.mpr ⟨Lexeme.isWordPart_of_isWordStart hstart, hpart⟩
  have hword : (c :: (cs ++ rest)).takeWhile Lexeme.isWordPart = c :: cs :=
    Lexeme.takeWhile_exact hall hrest
  have hscan : Lexeme.scan false c (cs ++ rest) = ⟨Lexeme.wordKind (c :: cs), c :: cs⟩ := by
    rw [Lexeme.scan_word hstart, Lexeme.scanWord, hword]
  have hgap : Text.isGap c = false := by
    rw [← Bool.not_eq_true]
    intro hgap
    have hblank := Text.isBlank_of_isGap hgap
    rw [Lexeme.not_isBlank_of_isWordPart (Lexeme.isWordPart_of_isWordStart hstart)] at hblank
    cases hblank
  have hextent : c :: (cs ++ rest) =
      (⟨Lexeme.wordKind (c :: cs), c :: cs⟩ : Lexeme).extent ++ rest := by
    rw [Lexeme.extent_of_bare (Lexeme.bare_wordKind _)]
    rfl
  have hdot : Lexeme.wordKind (c :: cs) ≠ .symbol .dot := by
    rcases Lexeme.wordKind_cases (c :: cs) with ⟨k, h⟩ | h | h
    all_goals
      rw [h]
      exact TokenKind.noConfusion
  exact spelled_lexeme hgap hscan hextent hdot h

end Token

end Parlance
