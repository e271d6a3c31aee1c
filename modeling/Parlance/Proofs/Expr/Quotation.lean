import Parlance.Proofs.Expr.Spelling
import Parlance.Proofs.Expr.Tokens

/-!
# String and character literals

The lexer looks for the mark that closes a literal, and the parser puts characters in place of the
escapes.  Both go by pairs: a backslash takes the next character with it.

* `Literal.Paired cs`          no backslash of `cs` is without a character that it takes with it;
* `Literal.slashes cs`         the number of backslashes that `cs` ends with;
* `Literal.unescapeEnding last cs`   escapes undone, with `last` for a backslash that has nothing after it;
* `Paired.slashes_dvd`, `Paired.unescapeEnding_eq`   such a backslash is not in a paired text;
* `paired_of_ofText`           nor in the string and character tokens of any text;
* `Literal.Spells c body`      the character `c` is written `body` between single marks;
* `quotation_round_trip`       strings and characters are read back as they were written.
-/

namespace Parlance

namespace Literal

/-- Every backslash has a character after it, which it takes with it. -/
inductive Paired : List Char → Prop
  | nil : Paired []
  | escaped (d : Char) {cs : List Char} (others : Paired cs) : Paired ('\\' :: d :: cs)
  | plain {c : Char} {cs : List Char} (slash : c ≠ '\\') (others : Paired cs) : Paired (c :: cs)

/-- the number of backslashes that a text ends with -/
def slashes (cs : List Char) : Nat := (cs.reverse.takeWhile (· == '\\')).length

/-- The characters that a text with escapes stands for, where `last` stands for a backslash with nothing
after it. -/
def unescapeEnding (last : List Char) : List Char → List Char
  | [] => []
  | [c] => if c == '\\' then last else [c]
  | c :: d :: cs =>
    if c == '\\' then unescapeOne d ++ unescapeEnding last cs else c :: unescapeEnding last (d :: cs)

/-- `c` is written `body` between single marks: a backslash is escaped, and either mark may be. -/
inductive Spells (c : Char) : List Char → Prop
  | plain (slash : c ≠ '\\') : Spells c [c]
  | escaped (special : c = '\\' ∨ c = '\'' ∨ c = '"') : Spells c ['\\', c]

section
variable {c : Char} {cs body : List Char}

/-! ## Backslashes at the end -/

theorem slashes_le (cs : List Char) : slashes cs ≤ cs.length := by
  have hprefix := List.takeWhile_prefix (· == '\\') (l := cs.reverse)
  have hle := hprefix.length_le
  rwa [List.length_reverse] at hle

theorem slashes_cons (c : Char) (cs : List Char) :
    slashes (c :: cs) = if slashes cs = cs.length ∧ c = '\\' then cs.length + 1 else slashes cs := by
  rw [slashes, List.reverse_cons, List.takeWhile_append, List.length_reverse]
  show List.length (if slashes cs = cs.length then _ else _) = _
  by_cases hall : slashes cs = cs.length
  · by_cases hc : c = '\\'
    · rw [if_pos hall, if_pos ⟨hall, hc⟩, hc]
      simp
    · rw [if_pos hall, if_neg fun h => hc h.2, hall]
      simp [hc]
  · rw [if_neg hall, if_neg fun h => hall h.1]
    rfl

/-- The backslashes at the end of a paired text are pairs. -/
theorem Paired.slashes_dvd (h : Paired cs) : 2 ∣ slashes cs := by
  induction h with
  | nil => exact Nat.dvd_zero 2
  | @escaped d cs _ ih =>
    have hle := slashes_le cs
    rw [slashes_cons, slashes_cons, List.length_cons]
    by_cases hd : slashes cs = cs.length ∧ d = '\\'
    · rw [if_pos hd, if_pos ⟨rfl, rfl⟩]
      omega
    · rw [if_neg hd, if_neg fun h => by omega]
      exact ih
  | plain slash _ ih =>
    rw [slashes_cons, if_neg fun h => slash h.2]
    exact ih

/-! ## Escapes -/

theorem unescapeEnding_slash (cs : List Char) : unescapeEnding ['\\'] cs = unescape cs := by
  induction cs using unescape.induct with
  | case1 => rfl
  | case2 c =>
    rw [unescapeEnding, unescape]
    split
    · rename_i hc
      rw [beq_iff_eq.mp hc]
    · rfl
  | case3 c d cs hc ih => rw [unescapeEnding, unescape, if_pos hc, if_pos hc, ih]
  | case4 c d cs hc ih => rw [unescapeEnding, unescape, if_neg hc, if_neg hc, ih]

theorem unescapeEnding_cons (hc : c ≠ '\\') (last cs : List Char) :
    unescapeEnding last (c :: cs) = c :: unescapeEnding last cs := by
  have hc : ¬(c == '\\') = true := by rwa [beq_iff_eq]
  cases cs with
  | nil => exact if_neg hc
  | cons d cs => rw [unescapeEnding, if_neg hc]

/-- What a backslash at the very end would stand for is no matter in a paired text. -/
theorem Paired.unescapeEnding_eq (h : Paired cs) (last : List Char) :
    unescapeEnding last cs = unescape cs := by
  induction h with
  | nil => rfl
  | @escaped d cs _ ih =>
    show unescapeOne d ++ unescapeEnding last cs = unescapeOne d ++ unescape cs
    rw [ih]
  | plain slash _ ih => rw [unescapeEnding_cons slash, unescape_cons slash, ih]

theorem char?_of_spells (h : Spells c body) : char? body = some c := by
  cases h with
  | plain => rfl
  | escaped special => rcases special with rfl | rfl | rfl <;> rfl

end

end Literal

namespace Lexeme

open Literal

section
variable {c : Char} {cs body : List Char}

theorem Quotable.paired (h : Quotable body) : Paired body := by
  induction h with
  | nil => exact .nil
  | escaped d _ ih => exact .escaped d ih
  | plain _ slash _ ih => exact .plain slash ih

theorem paired_of_charBody? (h : charBody? cs = some body) : Paired body := by
  match cs with
  | [] => cases h
  | c :: cs =>
    by_cases hc : c = '\\'
    · subst hc
      cases cs with
      | nil => cases h
      | cons d cs =>
        cases h
        exact .escaped d .nil
    · rw [charBody?_plain hc] at h
      cases h
      exact .plain hc .nil

/-- A lexeme is paired if it stands between marks. -/
theorem bare_or_paired (afterDot : Bool) (c : Char) (cs : List Char) :
    Bare (scan afterDot c cs).kind ∨ Paired (scan afterDot c cs).literal := by
  rw [scan]
  split
  · exact .inl (bare_symbol _)
  split
  · exact .inl (bare_scanNumber afterDot (c :: cs))
  split
  · rw [scanString]
    split
    · rename_i body hbody
      exact .inr (stringBody?_inv cs hbody).1.paired
    · exact .inl (bare_invalid _)
  split
  · rw [scanChar]
    split
    · rename_i body hbody
      split
      · exact .inr (paired_of_charBody? hbody)
      · exact .inl (bare_invalid _)
    · exact .inl (bare_invalid _)
  split
  · exact .inl (bare_wordKind _)
  · exact .inl (bare_invalid _)

theorem scan_spelled (h : Spells c body) : scan false '\'' (body ++ ['\'']) = ⟨.char, body⟩ := by
  have hbody : charBody? (body ++ ['\'']) = some body := by
    cases h with
    | plain slash => exact charBody?_plain slash _
    | escaped => rfl
  rw [scan_char, scanChar, hbody]
  dsimp only
  rw [List.drop_left]
  rfl

end

end Lexeme

namespace Grammar

open Literal

/-- In a string or character token every backslash takes a character with it. -/
theorem paired_of_ofText (text : String) : ∀ t ∈ Token.ofText text, t.kind = .string ∨ t.kind = .char →
    Paired t.literal.toList := by
  refine Token.listFrom_induction (P := fun _ _ _ ts =>
    ∀ t ∈ ts, t.kind = .string ∨ t.kind = .char → Paired t.literal.toList) ?_ ?_ ?_ 0 false text.toList
  · intro n _ t ht hkind
    rw [List.mem_singleton.mp ht] at hkind
    rcases hkind with h | h <;> cases h
  · exact fun _ _ _ _ _ _ hothers => hothers
  · intro n afterDot c cs rest ts _ _ hothers
    refine List.forall_mem_cons.mpr ⟨fun hkind => ?_, hothers⟩
    show Paired (String.ofList _).toList
    rw [String.toList_ofList]
    exact (Lexeme.bare_or_paired afterDot c cs).resolve_left fun hbare =>
      hkind.elim hbare.not_string hbare.not_char

/-- the tokens of the string literal of a text -/
theorem ofText_quotedText (s : String) : Token.ofText (Expr.quotedText s) =
    [⟨.string, String.ofList (escape s.toList), 1⟩, Token.atEnd (Expr.quotedText s).utf8ByteSize] :=
  ofText_of_scan rfl (Lexeme.scan_quoted false s.toList []) rfl

/-- **Strings and characters are read back as they were written.**  The string literal of a text is one
token, and denotes the text.  A character between single marks is denoted by that, whether or not a mark
is escaped.  And since no string or character token ends in a backslash without a partner, what that
would stand for is no matter to what is read of them. -/
theorem quotation_round_trip :
    (∀ s : String, Token.ofText (Expr.quotedText s) = [⟨.string, String.ofList (escape s.toList), 1⟩,
        Token.atEnd (Expr.quotedText s).utf8ByteSize] ∧
      Expr.ofText (Expr.quotedText s) = .ok (.str s)) ∧
    (∀ (c : Char) (body : List Char), Spells c body →
      Expr.ofText (String.ofList ('\'' :: (body ++ ['\'']))) = .ok (.char c)) ∧
    (∀ cs, unescapeEnding ['\\'] cs = unescape cs) ∧
    ∀ (text : String), ∀ t ∈ Token.ofText text, t.kind = .string ∨ t.kind = .char →
      2 ∣ slashes t.literal.toList ∧
      ∀ last, unescapeEnding last t.literal.toList = unescape t.literal.toList := by
  refine ⟨fun s => ⟨ofText_quotedText s, ?_⟩, fun c body h => ?_, unescapeEnding_slash,
    fun text t ht hkind => ?_⟩
  · rw [ofText_single_iff (ofText_quotedText s) TokenKind.noConfusion]
    have hderives := derives_escaped (t := ⟨.string, String.ofList (escape s.toList), 1⟩) rfl rfl
    rwa [String.ofList_toList] at hderives
  · have htokens := ofText_of_scan rfl (Lexeme.scan_spelled h) rfl
    rw [ofText_single_iff htokens TokenKind.noConfusion]
    refine .postfixed (.primary (.char rfl ?_))
    show char? (String.ofList body).toList = some c
    rw [String.toList_ofList]
    exact char?_of_spells h
  · have hpaired := paired_of_ofText text t ht hkind
    exact ⟨hpaired.slashes_dvd, hpaired.unescapeEnding_eq⟩

/-- a text that ends with a backslash, and a mark that is escaped though it need not be -/
theorem escaped_marks_read :
    let text := Expr.quotedText "\"\\"
    let t : Token := ⟨.string, "\\\"\\\\", 1⟩
    Expr.ofText text = .ok (.str "\"\\") ∧
      (Spells '"' ['\\', '"'] ∧ Expr.ofText "'\\\"'" = .ok (.char '"')) ∧
      (t ∈ Token.ofText text ∧ t.kind = .string) ∧ 2 ∣ slashes t.literal.toList := by
  intro text t
  have hspells : Spells '"' ['\\', '"'] := .escaped (by decide)
  have hmem : t ∈ Token.ofText text := by
    rw [(quotation_round_trip.1 "\"\\").1]
    exact List.mem_cons_self
  exact ⟨(quotation_round_trip.1 "\"\\").2, ⟨hspells, quotation_round_trip.2.1 '"' ['\\', '"'] hspells⟩,
    ⟨hmem, rfl⟩, (quotation_round_trip.2.2.2 text t hmem (.inl rfl)).1⟩

end Grammar

end Parlance
