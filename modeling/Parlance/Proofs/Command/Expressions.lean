import Parlance.Command.Expansion
import Parlance.Proofs.Token.Brackets
import Parlance.Proofs.Token.Strings

/-!
# Expressions among the words of a body

A body is cut into words by a reading that knows strings and brackets, but no other tokens.  It takes
the literal of a character for a part of the text around it.

* `Expansion.next?`, `follow?`   what is open after one more character of an expression, or after a
                             piece of it, unless the word ends there;
* `Expansion.Whole e`        the reading comes to the end of `e` and has nothing open there;
* `expression_cut_iff`       exactly then `e` is cut off at a space behind it;
* `isPlain c`                the character means nothing to the reading;
* `follow?_scan`             the reading goes over a token by its weight, if this is no character or a
                             plain one;
* `follow?_of_layout`        and so over tokens that lie tight, one after another;
* `expression_cut`           so an expression with nested brackets is a word, if its character literals
                             are plain.
-/

namespace Parlance

namespace Expansion

/-! ## The reading of an expression -/

/-- The number of open brackets and where in a string the reading is, after one more character.  There
is nothing after a character that ends the word. -/
def next? : Int × Quotation → Char → Option (Int × Quotation)
  | (depth, .escaped), _ => some (depth, .inside)
  | (depth, .inside), c =>
    some (depth, if c == '\\' then .escaped else if c == '"' then .outside else .inside)
  | (depth, .outside), c =>
    if c == '"' then some (depth, .inside)
    else if isOpening c then some (depth + 1, .outside)
    else if isClosing c then some (depth - 1, .outside)
    else if Text.isSpacer c && depth ≤ 0 then none
    else some (depth, .outside)

/-- the same after a piece of an expression -/
def follow? (state : Int × Quotation) (cs : List Char) : Option (Int × Quotation) :=
  cs.foldlM next? state

/-- The reading comes to the end of the expression, and neither a string nor a bracket is open there. -/
def Whole (e : List Char) : Prop := ∃ depth ≤ 0, follow? (0, .outside) e = some (depth, .outside)

section
variable {state state' : Int × Quotation} {cs : List Char}

theorem follow?_cons (state : Int × Quotation) (c : Char) (cs : List Char) :
    follow? state (c :: cs) = (next? state c).bind (follow? · cs) := List.foldlM_cons

theorem follow?_append (state : Int × Quotation) (cs ds : List Char) :
    follow? state (cs ++ ds) = (follow? state cs).bind (follow? · ds) := List.foldlM_append

theorem codeLength_cons (state : Int × Quotation) (c : Char) (cs : List Char) :
    codeLength state.1 state.2 (c :: cs) =
      (next? state c).elim 0 fun after => codeLength after.1 after.2 cs + 1 := by
  obtain ⟨depth, q⟩ := state
  cases q with
  | escaped | inside => rfl
  | outside =>
    rw [codeLength, next?]
    split
    · rfl
    split
    · rfl
    split
    · rfl
    split <;> rfl

/-- The length of an expression counts the characters that the reading has followed. -/
theorem codeLength_append (h : follow? state cs = some state') (rest : List Char) :
    codeLength state.1 state.2 (cs ++ rest) = cs.length + codeLength state'.1 state'.2 rest := by
  induction cs generalizing state with
  | nil =>
    cases h
    exact (Nat.zero_add _).symm
  | cons c cs ih =>
    rw [follow?_cons, Option.bind_eq_some_iff] at h
    obtain ⟨after, hnext, h⟩ := h
    rw [List.cons_append, codeLength_cons, hnext, Option.elim_some, ih h, List.length_cons]
    omega

theorem codeLength_lt (h : follow? state cs = none) (rest : List Char) :
    codeLength state.1 state.2 (cs ++ rest) < cs.length := by
  induction cs generalizing state with
  | nil => cases h
  | cons c cs ih =>
    rw [List.cons_append, codeLength_cons]
    cases hnext : next? state c with
    | none => exact Nat.succ_pos _
    | some after =>
      rw [follow?_cons, hnext] at h
      exact Nat.succ_lt_succ (ih h)

/-- a blank opens and closes nothing -/
theorem marks_of_isGap {c : Char} (hc : Text.isGap c = true) :
    (c == '"') = false ∧ isOpening c = false ∧ isClosing c = false := by
  simp only [Text.isGap, Bool.or_eq_true, beq_iff_eq] at hc
  rcases hc with ((rfl | rfl) | rfl) | rfl <;> decide

/-- Only a spacer ends an expression, and only where nothing is open. -/
theorem next?_eq_none_iff (state : Int × Quotation) (c : Char) :
    next? state c = none ↔ Text.isSpacer c = true ∧ state.1 ≤ 0 ∧ state.2 = .outside := by
  obtain ⟨depth, q⟩ := state
  cases q with
  | escaped | inside => exact iff_of_false (Option.some_ne_none _) fun h => by cases h.2.2
  | outside =>
    by_cases hc : Text.isSpacer c = true
    · have hmark := marks_of_isGap (Text.isGap_of_isSpacer hc)
      rw [next?, hmark.1, hmark.2.1, hmark.2.2, hc]
      by_cases hdepth : depth ≤ 0 <;> simp [hdepth]
    · refine iff_of_false ?_ fun h => hc h.1
      rw [next?, eq_false_of_ne_true hc]
      split
      · exact Option.some_ne_none _
      split
      · exact Option.some_ne_none _
      split <;> exact Option.some_ne_none _

/-- A word before this text is over: there is nothing, or a spacer. -/
def Ends (cs : List Char) : Prop := ∀ c ∈ cs.head?, Text.isSpacer c = true

theorem ends_nil : Ends [] := nofun

theorem ends_cons_iff {c : Char} : Ends (c :: cs) ↔ Text.isSpacer c = true := by
  simp [Ends]

theorem ends_space (cs : List Char) : Ends (' ' :: cs) := ends_cons_iff.mpr rfl

/-- The reading stops at once at the end, or at a spacer if nothing is open. -/
theorem codeLength_eq_zero_iff (state : Int × Quotation) :
    codeLength state.1 state.2 cs = 0 ↔
      Ends cs ∧ (cs = [] ∨ state.1 ≤ 0 ∧ state.2 = .outside) := by
  cases cs with
  | nil => exact iff_of_true rfl ⟨ends_nil, .inl rfl⟩
  | cons c cs =>
    have hnext := next?_eq_none_iff state c
    rw [codeLength_cons, ends_cons_iff, or_iff_right (List.cons_ne_nil c cs), ← hnext]
    cases next? state c with
    | none => exact iff_of_true rfl rfl
    | some after => exact iff_of_false (Nat.succ_ne_zero _) (Option.some_ne_none _)

end

/-- The space behind an expression ends it exactly if the reading has nothing open there. -/
theorem codeLength_eq_length_iff (e rest : List Char) :
    codeLength 0 .outside (e ++ ' ' :: rest) = e.length ↔ Whole e := by
  unfold Whole
  cases h : follow? (0, .outside) e with
  | none =>
    have hlt := codeLength_lt h (' ' :: rest)
    exact iff_of_false (Nat.ne_of_lt hlt) fun ⟨_, _, h⟩ => by cases h
  | some state =>
    rw [codeLength_append h, Nat.add_eq_left, codeLength_eq_zero_iff,
      and_iff_right (ends_space rest), or_iff_right (List.cons_ne_nil ' ' rest)]
    constructor
    · rintro ⟨hdepth, hq⟩
      exact ⟨state.1, hdepth, by rw [← hq]⟩
    · rintro ⟨depth, hdepth, heq⟩
      cases heq
      exact ⟨hdepth, rfl⟩

/-! ## Words -/

theorem wordsFrom_skip (skip : Nat) (cs : List Char) :
    wordsFrom skip cs = words (cs.drop skip) := by
  induction cs generalizing skip with
  | nil => cases skip <;> rfl
  | cons c cs ih =>
    cases skip with
    | zero => rfl
    | succ skip => exact ih skip

theorem words_spacer {c : Char} (hc : Text.isSpacer c = true) (cs : List Char) :
    words (c :: cs) = words cs := if_pos hc

theorem wordLength_expression {cs : List Char} (h : cs.head? ≠ some '\\') :
    wordLength ('\\' :: cs) = codeLength 0 .outside cs + 1 := by
  unfold wordLength
  split
  · rename_i heq
    cases heq
    exact absurd rfl h
  · rename_i heq
    cases heq
    rfl
  · rename_i hnot
    exact absurd rfl (hnot _)

theorem words_expression {cs : List Char} (h : cs.head? ≠ some '\\') :
    words ('\\' :: cs) = ('\\' :: cs.take (codeLength 0 .outside cs)) ::
      words (cs.drop (codeLength 0 .outside cs)) := by
  rw [words, wordsFrom, if_neg (by decide)]
  dsimp only
  rw [wordLength_expression h, List.take_succ_cons, Nat.add_sub_cancel, wordsFrom_skip]

/-- **The expression is cut off at a space behind it exactly if it is read whole.** -/
theorem expression_cut_iff {e : List Char} (hslash : e.head? ≠ some '\\') (rest : List Char) :
    words ('\\' :: (e ++ ' ' :: rest)) = ('\\' :: e) :: words rest ↔ Whole e := by
  have hhead : (e ++ ' ' :: rest).head? ≠ some '\\' := by
    cases e with
    | nil => simp
    | cons c e => exact hslash
  rw [← codeLength_eq_length_iff e rest, words_expression hhead]
  generalize codeLength 0 .outside (e ++ ' ' :: rest) = n
  constructor
  · intro h
    obtain ⟨-, htake⟩ := List.cons.inj (List.cons.inj h).1
    have hlength := congrArg List.length htake
    rw [List.length_take, List.length_append, List.length_cons] at hlength
    omega
  · rintro rfl
    rw [List.take_left, List.drop_left, words_spacer rfl]

/-! ## Characters that mean nothing to the reading -/

/-- the characters that open or close something, or end a word -/
def marks : List Char := ['"', '(', '[', '\x7b', ')', ']', '\x7d', ' ', '\t']

def isPlain (c : Char) : Bool := !marks.contains c

theorem isPlain_of {p : Char → Bool} (hp : marks.all (!p ·) = true) {c : Char} (h : p c = true) :
    isPlain c = true := by
  rw [isPlain, Bool.not_eq_true', ← Bool.not_eq_true, List.contains_iff_mem]
  intro hmem
  have := List.all_eq_true.mp hp c hmem
  rw [h] at this
  cases this

theorem next?_plain {c : Char} (h : isPlain c = true) (depth : Int) :
    next? (depth, .outside) c = some (depth, .outside) := by
  have hall : c ∉ marks := by
    rwa [isPlain, Bool.not_eq_true', ← Bool.not_eq_true, List.contains_iff_mem] at h
  simp only [marks, List.mem_cons, not_or] at hall
  simp [next?, isOpening, isClosing, Text.isSpacer, hall]

theorem follow?_plain {cs : List Char} (h : cs.all isPlain = true) (depth : Int) :
    follow? (depth, .outside) cs = some (depth, .outside) := by
  induction cs with
  | nil => rfl
  | cons c cs ih =>
    rw [List.all_cons, Bool.and_eq_true] at h
    rw [follow?_cons, next?_plain h.1, Option.bind_some, ih h.2]

theorem plain_takeWhile {p : Char → Bool} (hp : marks.all (!p ·) = true) (cs : List Char) :
    (cs.takeWhile p).all isPlain = true := by
  rw [List.all_eq_true]
  intro c hc
  exact isPlain_of hp (List.all_eq_true.mp List.all_takeWhile c hc)

/-! ## Numbers -/

theorem plain_lead (cs : List Char) : (Radix.split cs).2.1.all isPlain = true := by
  unfold Radix.split
  split <;> rfl

theorem marks_digit (r : Radix) : marks.all (!r.isDigit ·) = true := by
  cases r <;> decide

theorem plain_exponentPart (cs : List Char) : (Lexeme.exponentPart cs).all isPlain = true := by
  have hmark : marks.all (!Lexeme.isExponentMark ·) = true := by decide
  have hsign : marks.all (fun s => !(s == '+' || s == '-')) = true := by decide
  have hdigits := @plain_takeWhile Char.isDigit (by decide)
  unfold Lexeme.exponentPart
  split
  · rename_i e s cs
    split
    · rename_i he
      split
      · rename_i hs
        rw [List.all_cons, List.all_cons, isPlain_of hmark he, isPlain_of hsign hs, hdigits]
        rfl
      · rw [List.all_cons, isPlain_of hmark he, hdigits]
        rfl
    · rfl
  · split
    · rename_i he
      rw [List.all_cons, isPlain_of hmark he]
      rfl
    · rfl
  · rfl

theorem plain_fractionPart (afterDot : Bool) (cs : List Char) :
    (Lexeme.fractionPart afterDot cs).all isPlain = true := by
  unfold Lexeme.fractionPart
  split
  · split
    · exact plain_takeWhile (by decide) _
    · rfl
  · rfl

theorem plain_scanNumber (afterDot : Bool) (cs : List Char) :
    (Lexeme.scanNumber afterDot cs).literal.all isPlain = true := by
  have hlead := plain_lead cs
  have hdigits := fun r : Radix => @plain_takeWhile r.isDigit (marks_digit r)
  have hword := @plain_takeWhile Char.isAlphanum (by decide)
  have hexponent := plain_exponentPart
  have hfraction := plain_fractionPart afterDot
  unfold Lexeme.scanNumber
  dsimp only
  split
  · split <;> simp only [List.all_append, hdigits, hexponent, hfraction] <;> rfl
  · split <;> simp only [List.all_append, hlead, hdigits, hword, hfraction] <;> rfl

/-! ## Tokens -/

theorem follow?_quotable {body : List Char} (h : Lexeme.Quotable body) (depth : Int) :
    follow? (depth, .inside) (body ++ ['"']) = some (depth, .outside) := by
  induction h with
  | nil => rfl
  | escaped d _ ih => exact ih
  | @plain c body mark slash _ ih =>
    have hc : next? (depth, .inside) c = some (depth, .inside) := by simp [next?, mark, slash]
    rw [List.cons_append, follow?_cons, hc]
    exact ih

theorem symbol_cases (s : Symbol) : (s.chars.all isPlain = true ∧ s.weight = 0) ∨
    ∃ c, s.chars = [c] ∧ ∀ depth, next? (depth, .outside) c = some (depth + s.weight, .outside) := by
  cases s <;> first | exact .inl ⟨rfl, rfl⟩ | exact .inr ⟨_, rfl, fun _ => rfl⟩

theorem follow?_symbol (s : Symbol) (depth : Int) :
    follow? (depth, .outside) s.chars = some (depth + s.weight, .outside) := by
  rcases symbol_cases s with ⟨hplain, hweight⟩ | ⟨c, hc, hnext⟩
  · rw [follow?_plain hplain, hweight, Int.add_zero]
  · rw [hc, follow?_cons, hnext]
    rfl

theorem weight_scanNumber (afterDot : Bool) (cs : List Char) :
    (Lexeme.scanNumber afterDot cs).kind.weight = 0 := by
  rcases Lexeme.kind_scanNumber afterDot cs with h | ⟨cause, h⟩ <;> rw [h] <;> rfl

theorem weight_wordKind (word : List Char) : (Lexeme.wordKind word).weight = 0 := by
  rcases Lexeme.wordKind_cases word with ⟨k, h⟩ | h | h <;> rw [h] <;> rfl

theorem follow?_bare {l : Lexeme} (hbare : Lexeme.Bare l.kind) (hplain : l.literal.all isPlain = true)
    (hweight : l.kind.weight = 0) (depth : Int) :
    follow? (depth, .outside) l.extent = some (depth + l.kind.weight, .outside) := by
  rw [Lexeme.extent_of_bare hbare, follow?_plain hplain, hweight, Int.add_zero]

theorem follow?_string {body : List Char} (h : Lexeme.Quotable body) (depth : Int) :
    follow? (depth, .outside) (⟨.string, body⟩ : Lexeme).extent =
      some (depth + TokenKind.string.weight, .outside) := by
  have hmark : next? (depth, .outside) '"' = some (depth, .inside) := rfl
  show follow? (depth, .outside) ('"' :: (body ++ ['"'])) = some (depth + 0, .outside)
  rw [follow?_cons, hmark, Option.bind_some, follow?_quotable h, Int.add_zero]

theorem follow?_char {body : List Char} (h : body.all isPlain = true) (depth : Int) :
    follow? (depth, .outside) (⟨.char, body⟩ : Lexeme).extent =
      some (depth + TokenKind.char.weight, .outside) := by
  have hplain : ('\'' :: (body ++ ['\''])).all isPlain = true := by
    rw [List.all_cons, List.all_append, h]
    rfl
  show follow? (depth, .outside) ('\'' :: (body ++ ['\''])) = some (depth + 0, .outside)
  rw [follow?_plain hplain, Int.add_zero]

/-- **The reading of an expression goes over a token by its weight**, unless the token is a character
that means something to the reading. -/
theorem follow?_scan {l : Lexeme} {afterDot : Bool} {c : Char} {cs : List Char}
    (hl : l = Lexeme.scan afterDot c cs) (hvalid : ∀ cause, l.kind ≠ .invalid cause)
    (hchar : l.kind = .char → l.literal.all isPlain = true) (depth : Int) :
    follow? (depth, .outside) l.extent = some (depth + l.kind.weight, .outside) := by
  -- one case for each way of scanning, in the order in which they are tried
  unfold Lexeme.scan at hl
  split at hl
  · rename_i s hs
    rw [hl, Lexeme.extent_of_bare (Lexeme.bare_symbol s)]
    exact follow?_symbol s depth
  split at hl
  · rw [hl]
    exact follow?_bare (Lexeme.bare_scanNumber _ _) (plain_scanNumber _ _) (weight_scanNumber _ _) depth
  split at hl
  · rw [Lexeme.scanString] at hl
    split at hl
    · rename_i body hbody
      rw [hl]
      exact follow?_string (Lexeme.stringBody?_inv cs hbody).1 depth
    · exact absurd (congrArg Lexeme.kind hl) (hvalid _)
  split at hl
  · rw [Lexeme.scanChar] at hl
    split at hl
    · split at hl
      · rw [hl] at hchar ⊢
        exact follow?_char (hchar rfl) depth
      · exact absurd (congrArg Lexeme.kind hl) (hvalid _)
    · exact absurd (congrArg Lexeme.kind hl) (hvalid _)
  split at hl
  · rw [hl]
    exact follow?_bare (Lexeme.bare_wordKind _) (plain_takeWhile (by decide) _) (weight_wordKind _) depth
  · exact absurd (congrArg Lexeme.kind hl) (hvalid _)

/-- the reading of an expression goes over the token by its weight -/
def Followed (t : Token) : Prop :=
  ∀ depth, follow? (depth, .outside) t.extent = some (depth + t.kind.weight, .outside)

theorem followed_of_mem {t : Token} {e : List Char} (h : t ∈ Token.ofChars e)
    (hvalid : ∀ cause, t.kind ≠ .invalid cause)
    (hchar : t.kind = .char → t.literal.toList.all isPlain = true) : Followed t := by
  intro depth
  rcases Token.scan_of_mem_listFrom h with ⟨n, rfl⟩ | ⟨afterDot, c, cs, hscan⟩
  · show follow? (depth, .outside) [] = some (depth + 0, .outside)
    rw [Int.add_zero]
    rfl
  · exact follow?_scan hscan hvalid hchar depth

/-! ## Expressions -/

theorem next?_gap {c : Char} (hc : Text.isGap c = true) {depth : Int} (hdepth : 0 < depth) :
    next? (depth, .outside) c = some (depth, .outside) := by
  have hopen := marks_of_isGap hc
  have hspacer : (Text.isSpacer c && decide (depth ≤ 0)) = false := by
    rw [decide_eq_false (Int.not_le.mpr hdepth), Bool.and_false]
  rw [next?, hopen.1, hopen.2.1, hopen.2.2, hspacer]
  rfl

/-- **Over tokens that lie tight, the reading adds up their weights.** -/
theorem follow?_of_layout {n p : Nat} {cs : List Char} {ts : List Token} {depth : Int}
    (h : Token.Layout n cs ts) (hp : p ≤ n) (htight : Token.tight p depth ts = true)
    (hfollowed : ∀ t ∈ ts, Followed t) :
    follow? (depth, .outside) cs = some (depth + Token.totalWeight ts, .outside) := by
  induction h generalizing p depth with
  | done n =>
    show some (depth, _) = some (depth + 0, _)
    rw [Int.add_zero]
  | @gap n c cs ts hgap others ih =>
    -- the next token starts behind the gap, so some bracket is open
    obtain ⟨t, ts, rfl⟩ := List.exists_cons_of_ne_nil others.ne_nil
    have hstart := others.start_ge t List.mem_cons_self
    have hsize := c.utf8Size_pos
    have hdepth : 0 < depth := by
      rw [Token.tight, Bool.and_eq_true, Bool.or_eq_true, beq_iff_eq, decide_eq_true_eq] at htight
      omega
    rw [follow?_cons, next?_gap hgap hdepth]
    exact ih (by omega) htight hfollowed
  | @token n l cs ts _ _ others ih =>
    obtain ⟨hl, hothers⟩ := List.forall_mem_cons.mp hfollowed
    have hextent := hl depth
    rw [Token.extent_toToken] at hextent
    rw [Token.tight, Bool.and_eq_true, Token.stop_toToken] at htight
    rw [follow?_append, hextent, Option.bind_some, ih (Nat.le_refl _) htight.2 hothers,
      Token.totalWeight, Int.add_assoc]

/-- An expression whose brackets are nested and that has gaps inside brackets only is read whole. -/
theorem whole_of_nested {e : List Char} (hnested : Token.nested (Token.ofChars e) = true)
    (htight : Token.tight 0 0 (Token.ofChars e) = true)
    (hfollowed : ∀ t ∈ Token.ofChars e, Followed t) : Whole e := by
  have hlayout : Token.Layout 0 e (Token.ofChars e) := Token.layout_listFrom 0 false e
  refine ⟨0, Int.le_refl 0, ?_⟩
  rw [follow?_of_layout hlayout (Nat.le_refl 0) htight hfollowed,
    Token.totalWeight_of_nested hnested, Int.add_zero]

/-- A backslash is no token. -/
theorem head_ne_slash {e : List Char}
    (hvalid : ∀ t ∈ Token.ofChars e, ∀ cause, t.kind ≠ .invalid cause) : e.head? ≠ some '\\' := by
  cases e with
  | nil => exact nofun
  | cons c cs =>
    rintro ⟨⟩
    have hmem : (Lexeme.scan false '\\' cs).toToken 0 ∈ Token.ofChars ('\\' :: cs) :=
      List.mem_cons_self
    exact hvalid _ hmem .unexpectedCharacter rfl

/-- **An expression is a word of its own exactly if it is read whole.**  It is, if its tokens are valid,
its brackets nested, all of its gaps inside brackets, and if no character literal holds a bracket, a
double quotation mark, a space or a tab. -/
theorem expression_cut {e : String} (hvalid : ∀ t ∈ Token.ofText e, ∀ cause, t.kind ≠ .invalid cause)
    (hnested : Token.nested (Token.ofText e) = true)
    (htight : Token.tight 0 0 (Token.ofText e) = true) (w : String) :
    (ofText ("\\" ++ e ++ " " ++ w) = ("\\" ++ e) :: ofText w ↔ Whole e.toList) ∧
    ((∀ t ∈ Token.ofText e, t.kind = .char → t.literal.toList.all isPlain = true) →
      ofText ("\\" ++ e ++ " " ++ w) = ("\\" ++ e) :: ofText w) := by
  have hiff : ofText ("\\" ++ e ++ " " ++ w) = ("\\" ++ e) :: ofText w ↔ Whole e.toList := by
    have htext : ("\\" ++ e ++ " " ++ w).toList = '\\' :: (e.toList ++ ' ' :: w.toList) := by
      simp
    have hword : "\\" ++ e = String.ofList ('\\' :: e.toList) := by
      rw [← String.toList_inj]
      simp
    rw [← expression_cut_iff (head_ne_slash hvalid) w.toList, ofText, ofText, htext, hword,
      ← List.map_cons]
    exact List.map_inj_right fun a b h => String.ofList_injective h
  refine ⟨hiff, fun hchars => hiff.mpr ?_⟩
  exact whole_of_nested hnested htight fun t ht =>
    followed_of_mem ht (hvalid t ht) (hchars t ht)

/-- A bracket in a string and a gap between brackets do not end the expression. -/
theorem call_cut :
    (∀ t ∈ Token.ofText "f(\"a )\", 'c')", ∀ cause, t.kind ≠ .invalid cause) ∧
    Token.nested (Token.ofText "f(\"a )\", 'c')") = true ∧
    Token.tight 0 0 (Token.ofText "f(\"a )\", 'c')") = true ∧
    (∀ t ∈ Token.ofText "f(\"a )\", 'c')", t.kind = .char →
      t.literal.toList.all isPlain = true) ∧
    ofText ("\\" ++ "f(\"a )\", 'c')" ++ " " ++ "is it") =
      ("\\" ++ "f(\"a )\", 'c')") :: ofText "is it" := by
  have hkinds : ∀ t ∈ Token.ofText "f(\"a )\", 'c')", t.kind ∈
      [.ident, .symbol .leftParen, .string, .symbol .comma, .char, .symbol .rightParen,
        .endOfText] := by
    decide +kernel
  have hvalid : ∀ t ∈ Token.ofText "f(\"a )\", 'c')", ∀ cause, t.kind ≠ .invalid cause := by
    intro t ht cause hkind
    have hmem := hkinds t ht
    rw [hkind] at hmem
    simp at hmem
  have hnested : Token.nested (Token.ofText "f(\"a )\", 'c')") = true := by decide +kernel
  have htight : Token.tight 0 0 (Token.ofText "f(\"a )\", 'c')") = true := by decide +kernel
  have hchars : ∀ t ∈ Token.ofText "f(\"a )\", 'c')", t.kind = .char →
      t.literal.toList.all isPlain = true := by
    decide +kernel
  obtain ⟨-, hcut⟩ := expression_cut hvalid hnested htight "is it"
  exact ⟨hvalid, hnested, htight, hchars, hcut hchars⟩

/-- The reading takes the bracket in `'('` for one that is open, and so the rest of the text for a part
of the expression. -/
theorem bracket_literal_not_cut :
    (∀ t ∈ Token.ofText "'('", ∀ cause, t.kind ≠ .invalid cause) ∧
    Token.nested (Token.ofText "'('") = true ∧ Token.tight 0 0 (Token.ofText "'('") = true ∧
    ofText ("\\" ++ "'('" ++ " " ++ "w") = ["\\'(' w"] ∧
    ofText ("\\" ++ "'('" ++ " " ++ "w") ≠ ("\\" ++ "'('") :: ofText "w" := by
  have hkinds : ∀ t ∈ Token.ofText "'('", t.kind = .char ∨ t.kind = .endOfText := by
    decide +kernel
  refine ⟨?_, by decide +kernel, by decide +kernel, by decide +kernel, by decide +kernel⟩
  intro t ht cause hkind
  rcases hkinds t ht with h | h
  · rw [h] at hkind
    cases hkind
  · rw [h] at hkind
    cases hkind

end Expansion

end Parlance
