import Parlance.Proofs.Expr.Acceptance
import Parlance.Proofs.Token.Strings
import Parlance.Session

/-!
# Calls and words as they are written

* `Expr.quotedText s`        the string literal of a text;
* `Expr.callText name texts` the call of a function with such literals;
* `spelled_name`, `spelled_string`, `spelled_items`, `spelled_call`   the tokens of these and what they
                             denote;
* `ofText_iff_of_spelled`    a text denotes what its tokens do;
* `ofText_callText`          the call is read back;
* `ofText_word`, `not_derives_keyword`   what a single word denotes, if anything.
-/

namespace Parlance

namespace Expr

/-- the string literal of a text -/
def quotedText (text : String) : String := String.ofList (Literal.quoted text.toList)

/-- the call of the function of this name with string literals -/
def callText (name : String) (texts : List String) : String :=
  name ++ "(" ++ ", ".intercalate (texts.map quotedText) ++ ")"

theorem toList_callText (name : String) (texts : List String) :
    (callText name texts).toList = name.toList ++ '(' ::
      ([',', ' '].intercalate (texts.map fun text => Literal.quoted text.toList) ++ [')']) := by
  have hmap : (texts.map quotedText).map String.toList =
      texts.map fun text => Literal.quoted text.toList := by
    rw [List.map_map]
    refine List.map_congr_left ?_
    intro text _
    exact String.toList_ofList
  rw [callText, String.toList_append, String.toList_append, String.toList_append,
    String.toList_intercalate, hmap, List.append_assoc, List.append_assoc]
  rfl

end Expr

namespace Grammar

open Token

theorem spelled_symbol {P : List Token → Prop} {c : Char} {s : Symbol} {rest : List Char}
    (hscan : Lexeme.scan false c rest = ⟨.symbol s, [c]⟩) (hgap : Text.isGap c = false)
    (hdot : s ≠ .dot) (h : ∀ n, P [⟨.symbol s, String.ofList [c], n⟩]) :
    Spelled P (c :: rest) rest := by
  refine spelled_lexeme hgap hscan rfl ?_ ?_
  · intro hkind
    cases hkind
    exact hdot rfl
  · exact fun n => h _

theorem spelled_name {c : Char} {cs rest : List Char} (hstart : Lexeme.isWordStart c = true)
    (hpart : ∀ d ∈ cs, Lexeme.isWordPart d = true)
    (hkind : Lexeme.wordKind (c :: cs) = .ident)
    (hrest : ∀ d ∈ rest.head?, Lexeme.isWordPart d = false) :
    Spelled (fun ts => Postfixed ts (.var (.name (String.ofList (c :: cs))))) (c :: cs ++ rest)
      rest :=
  spelled_word hstart hpart hrest fun _ => .primary (.name hkind)

/-- a string token denotes the text that was escaped -/
theorem derives_escaped {t : Token} {cs : List Char} (kind : t.kind = .string)
    (hliteral : t.literal = String.ofList (Literal.escape cs)) :
    Derives 0 [t] (.str (String.ofList cs)) := by
  have hstring := Primary.string kind
  rw [hliteral, String.toList_ofList, Literal.unescape_escape] at hstring
  exact .postfixed (.primary hstring)

theorem spelled_string (cs rest : List Char) :
    Spelled (fun ts => Derives 0 ts (.str (String.ofList cs))) (Literal.quoted cs ++ rest) rest := by
  have htext : Literal.quoted cs ++ rest = '"' :: (Literal.escape cs ++ '"' :: rest) := by
    rw [Literal.quoted, List.cons_append, List.append_assoc]
    rfl
  rw [htext]
  refine spelled_lexeme rfl (Lexeme.scan_quoted false cs rest) ?_ TokenKind.noConfusion ?_
  · show '"' :: (Literal.escape cs ++ '"' :: rest) = ['"'] ++ Literal.escape cs ++ ['"'] ++ rest
    simp
  · exact fun n => derives_escaped rfl rfl

theorem spelled_items (texts : List (List Char)) (rest : List Char) :
    Spelled (fun ts => Items ts (texts.map fun cs => .str (String.ofList cs)))
      ([',', ' '].intercalate (texts.map Literal.quoted) ++ rest) rest := by
  induction texts with
  | nil => exact spelled_nil .none
  | cons cs texts ih =>
    cases texts with
    | nil =>
      show Spelled _ ([',', ' '].intercalate [Literal.quoted cs] ++ rest) rest
      rw [List.intercalate_singleton]
      exact (spelled_string cs rest).weaken fun ts h => .last h
    | cons ds texts =>
      show Spelled _ ([',', ' '].intercalate (Literal.quoted cs :: Literal.quoted ds ::
        texts.map Literal.quoted) ++ rest) rest
      rw [List.intercalate_cons_cons, List.append_assoc, List.append_assoc]
      have hcomma : Spelled (fun ts => ∃ c, ts = [c] ∧ c.kind = .symbol .comma)
          (',' :: ' ' :: ([',', ' '].intercalate ((ds :: texts).map Literal.quoted) ++ rest))
          (' ' :: ([',', ' '].intercalate ((ds :: texts).map Literal.quoted) ++ rest)) :=
        spelled_symbol rfl rfl Symbol.noConfusion fun n => ⟨_, rfl, rfl⟩
      refine ((spelled_string cs _).append (hcomma.append (spelled_gap rfl ih))).weaken ?_
      rintro _ ⟨us, _, rfl, hitem, _, vs, rfl, ⟨c, rfl, hc⟩, hothers⟩
      exact .more hitem hc hothers

theorem spelled_call {c : Char} {cs : List Char} (hstart : Lexeme.isWordStart c = true)
    (hpart : ∀ d ∈ cs, Lexeme.isWordPart d = true)
    (hkind : Lexeme.wordKind (c :: cs) = .ident) (texts : List (List Char)) :
    Spelled (fun ts => Derives 0 ts (.call (.var (.name (String.ofList (c :: cs))))
        (texts.map fun cs => .str (String.ofList cs))))
      (c :: cs ++ '(' :: ([',', ' '].intercalate (texts.map Literal.quoted) ++ [')'])) [] := by
  have hname : Spelled (fun ts => Postfixed ts (.var (.name (String.ofList (c :: cs)))))
      (c :: cs ++ '(' :: ([',', ' '].intercalate (texts.map Literal.quoted) ++
      [')'])) ('(' :: ([',', ' '].intercalate (texts.map Literal.quoted) ++ [')'])) := by
    refine spelled_name hstart hpart hkind ?_
    intro d hd
    cases hd
    rfl
  have hleft : Spelled (fun ts => ∃ l, ts = [l] ∧ l.kind = .symbol .leftParen)
      ('(' :: ([',', ' '].intercalate (texts.map Literal.quoted) ++ [')']))
      ([',', ' '].intercalate (texts.map Literal.quoted) ++ [')']) :=
    spelled_symbol rfl rfl Symbol.noConfusion fun n => ⟨_, rfl, rfl⟩
  have hright : Spelled (fun ts => ∃ r, ts = [r] ∧ r.kind = .symbol .rightParen) [')'] [] :=
    spelled_symbol rfl rfl Symbol.noConfusion fun n => ⟨_, rfl, rfl⟩
  refine (hname.append (hleft.append ((spelled_items texts _).append hright))).weaken ?_
  rintro _ ⟨us, _, rfl, hcallee, _, _, rfl, ⟨l, rfl, hl⟩, vs, _, rfl, hargs, r, rfl, hr⟩
  exact .postfixed (.call hcallee hl hargs hr)

/-- A text denotes what its tokens are of the grammar. -/
theorem ofText_iff_of_spelled {text : String} {e : Expr} {Q : Prop}
    (h : Spelled (fun ts => Derives 0 ts e ↔ Q) text.toList []) : Expr.ofText text = .ok e ↔ Q := by
  obtain ⟨ts, n, hts, hkinds, hderives⟩ := h 0
  have hend : listFrom n false 0 [] = [Token.atEnd n] := by
    rw [listFrom]
  rw [hend] at hts
  rw [Expr.ofText]
  show Expr.ofTokens text.utf8ByteSize (listFrom 0 false 0 text.toList) = .ok e ↔ Q
  rw [hts, ← hderives]
  exact ofTokens_iff hkinds text.utf8ByteSize n e

theorem ofText_of_spelled {text : String} {e : Expr}
    (h : Spelled (fun ts => Derives 0 ts e) text.toList []) : Expr.ofText text = .ok e :=
  (ofText_iff_of_spelled (h.weaken fun _ => iff_true_intro)).mpr trivial

/-- a keyword starts no expression -/
theorem not_derives_keyword {t : Token} {k : Keyword} (hkind : t.kind = .keyword k) (e : Expr) :
    ¬Derives 0 [t] e := by
  intro h
  have hread := (readExpr_iff (Token.atEnd 0) [t] e).mpr h
  have hunary : Expr.unaryOf? t.kind = none := by
    rw [hkind]
    rfl
  have hprimary : (Expr.readPrimary (Token.atEnd 0) [t]).result? = none := by
    rw [Expr.readPrimary]
    simp only [hkind]
    rfl
  rw [Expr.readExpr_result, Expr.readOperand_primary _ hunary, hprimary] at hread
  cases hread

end Grammar

namespace Expr

theorem exists_of_isIdentifier {name : String} (h : Session.isIdentifier name = true) :
    ∃ c cs, name.toList = c :: cs ∧ Lexeme.isWordStart c = true ∧
      ∀ d ∈ cs, Lexeme.isWordPart d = true := by
  unfold Session.isIdentifier at h
  cases hname : name.toList with
  | nil =>
    rw [hname] at h
    cases h
  | cons c cs =>
    rw [hname] at h
    obtain ⟨hstart, hpart⟩ := Bool.and_eq_true_iff.mp h
    exact ⟨c, cs, rfl, hstart, List.all_eq_true.mp hpart⟩

/-- what a word denotes that stands alone, by what kind of word it is -/
theorem ofText_word {name : String} (hname : Session.isIdentifier name = true) {e : Expr} {Q : Prop}
    (h : ∀ n, Grammar.Derives 0 [⟨Lexeme.wordKind name.toList, name, n⟩] e ↔ Q) :
    Expr.ofText name = .ok e ↔ Q := by
  obtain ⟨c, cs, hchars, hstart, hpart⟩ := exists_of_isIdentifier hname
  refine Grammar.ofText_iff_of_spelled ?_
  have hspelled : Token.Spelled (fun ts => Grammar.Derives 0 ts e ↔ Q) (c :: cs ++ []) [] := by
    refine Token.spelled_word hstart hpart (fun d hd => by cases hd) fun n => ?_
    have hliteral : name = String.ofList (c :: cs) := by rw [← hchars, String.ofList_toList]
    rw [hchars, hliteral] at h
    exact h _
  rw [List.append_nil] at hspelled
  rw [hchars]
  exact hspelled

/-- **A call that is written out is read back**, whatever the texts that it is given. -/
theorem ofText_callText {name : String} (hname : Session.isIdentifier name = true)
    (hkind : Lexeme.wordKind name.toList = .ident) (texts : List String) :
    Expr.ofText (callText name texts) = .ok (.call (.var (.name name)) (texts.map .str)) := by
  obtain ⟨c, cs, hchars, hstart, hpart⟩ := exists_of_isIdentifier hname
  rw [hchars] at hkind
  have hspelled := Grammar.spelled_call hstart hpart hkind (texts.map String.toList)
  have hback : (texts.map String.toList).map (fun cs => Expr.str (String.ofList cs)) =
      texts.map .str := by
    rw [List.map_map]
    refine List.map_congr_left ?_
    intro text _
    exact congrArg Expr.str String.ofList_toList
  rw [hback, ← hchars, String.ofList_toList, List.map_map] at hspelled
  refine Grammar.ofText_of_spelled ?_
  rw [toList_callText]
  exact hspelled

/-- marks and backslashes, and a comma and a mark in a text -/
example : callText "say" ["C:\\dir", "a\", \"b"] =
    "say(\"C:\\\\dir\", \"a\\\", \\\"b\")" := by
  decide +kernel

end Expr

end Parlance
