import Parlance.Proofs.Expr.Acceptance
import Parlance.Proofs.Token.Severing

/-!
# The tokens of an expression

* `Token.Usable t`           `t` is not invalid, and if it is a number, that denotes something;
* `Derives.usable`           all tokens of an expression are usable, by induction on the grammar;
* `usable_of_ofText`         so are all tokens of a text that denotes one;
* `error_of_not_usable`      with one that is not, the text denotes nothing;
* `ofText_cons`, `ofText_of_scan`   the first token of a text, and the tokens of one that is a single lexeme;
* `ofText_single_iff`, `derives_number_iff`   what such a text denotes.
-/

namespace Parlance

namespace Token

/-- The token is not invalid.  If it is a number, that is one of the language or the number of an
argument. -/
structure Usable (t : Token) : Prop where
  valid : ∀ cause, t.kind ≠ .invalid cause
  number : t.kind = .number → (∃ e, Literal.number t.literal.toList = .ok e) ∨
    ∃ n, Literal.argument? t.literal.toList = some n

def AllUsable (ts : List Token) : Prop := ∀ t ∈ ts, Usable t

section
variable {t : Token} {ts us : List Token}

theorem usable_of_kind {k : TokenKind} (h : t.kind = k) (hvalid : ∀ cause, k ≠ .invalid cause)
    (hnumber : k ≠ .number) : Usable t :=
  ⟨fun cause => h ▸ hvalid cause, fun hkind => absurd (h.symm.trans hkind) hnumber⟩

theorem usable_symbol {s : Symbol} (h : t.kind = .symbol s) : Usable t :=
  usable_of_kind h (fun _ => TokenKind.noConfusion) TokenKind.noConfusion

theorem usable_name (h : t.kind = .ident) : Usable t :=
  usable_of_kind h (fun _ => TokenKind.noConfusion) TokenKind.noConfusion

theorem usable_number (h : t.kind = .number) (hvalue : (∃ e, Literal.number t.literal.toList = .ok e) ∨
    ∃ n, Literal.argument? t.literal.toList = some n) : Usable t := by
  refine ⟨fun cause hkind => ?_, fun _ => hvalue⟩
  rw [h] at hkind
  cases hkind

/-- a token that joins two operands is a symbol -/
theorem usable_joiner {j : Joiner} (h : Joiner.ofKind? t.kind = some j) : Usable t := by
  cases hkind : t.kind with
  | symbol s => exact usable_symbol hkind
  | _ =>
    rw [hkind] at h
    cases h

theorem usable_unary {op : UnaryOp} (h : Expr.unaryOf? t.kind = some op) : Usable t := by
  cases hkind : t.kind with
  | symbol s => exact usable_symbol hkind
  | _ =>
    rw [hkind] at h
    cases h

theorem allUsable_nil : AllUsable [] := fun _ ht => absurd ht List.not_mem_nil

theorem allUsable_cons (ht : Usable t) (hts : AllUsable ts) : AllUsable (t :: ts) :=
  List.forall_mem_cons.mpr ⟨ht, hts⟩

theorem allUsable_single (ht : Usable t) : AllUsable [t] := allUsable_cons ht allUsable_nil

/-- tokens, one more, and tokens again -/
theorem allUsable_around (hts : AllUsable ts) (ht : Usable t) (hus : AllUsable us) :
    AllUsable (ts ++ t :: us) :=
  List.forall_mem_append.mpr ⟨hts, allUsable_cons ht hus⟩

end

end Token

namespace Grammar

open Token

mutual

theorem Primary.usable {us : List Token} {e : Expr} (h : Primary us e) : AllUsable us := by
  match h with
  | .number kind value => exact allUsable_single (usable_number kind (.inl ⟨_, value⟩))
  | .string kind | .char kind _ | .bool kind | .name kind =>
    exact allUsable_single
      (usable_of_kind kind (fun _ => TokenKind.noConfusion) TokenKind.noConfusion)
  | .context dollar kind =>
    exact allUsable_cons (usable_symbol dollar) (allUsable_single (usable_name kind))
  | .arg dollar kind value =>
    exact allUsable_cons (usable_symbol dollar)
      (allUsable_single (usable_number kind (.inr ⟨_, value⟩)))
  | .paren left inner right =>
    exact allUsable_cons (usable_symbol left)
      (allUsable_around inner.usable (usable_symbol right) allUsable_nil)
  | .list left items right =>
    exact allUsable_cons (usable_symbol left)
      (allUsable_around items.usable (usable_symbol right) allUsable_nil)

theorem Items.usable {us : List Token} {es : List Expr} (h : Items us es) : AllUsable us := by
  match h with
  | .none => exact allUsable_nil
  | .last item => exact item.usable
  | .more item comma others => exact allUsable_around item.usable (usable_symbol comma) others.usable

theorem Bound.usable {us : List Token} {o : Option Expr} (h : Bound us o) : AllUsable us := by
  match h with
  | .none => exact allUsable_nil
  | .some bound => exact bound.usable

theorem Postfixed.usable {us : List Token} {e : Expr} (h : Postfixed us e) : AllUsable us := by
  match h with
  | .primary primary => exact primary.usable
  | .member base dot kind =>
    exact allUsable_around base.usable (usable_symbol dot) (allUsable_single (usable_name kind))
  | .call callee left args right =>
    exact allUsable_around callee.usable (usable_symbol left)
      (allUsable_around args.usable (usable_symbol right) allUsable_nil)
  | .subscript base left index right =>
    exact allUsable_around base.usable (usable_symbol left)
      (allUsable_around index.usable (usable_symbol right) allUsable_nil)
  | .slice base left start colon stop right =>
    exact allUsable_around base.usable (usable_symbol left)
      (allUsable_around start.usable (usable_symbol colon)
        (allUsable_around stop.usable (usable_symbol right) allUsable_nil))

theorem Chain.usable {us : List Token} {es : List Expr} {ops : List CompareOp} (h : Chain us es ops) :
    AllUsable us := by
  match h with
  | .pair lhs joiner rhs => exact allUsable_around lhs.usable (usable_joiner joiner) rhs.usable
  | .more lhs joiner rhs => exact allUsable_around lhs.usable (usable_joiner joiner) rhs.usable

/-- Every token of an expression is usable. -/
theorem Derives.usable {m : Nat} {us : List Token} {e : Expr} (h : Derives m us e) :
    AllUsable us := by
  match h with
  | .postfixed postfixed => exact postfixed.usable
  | .unary _ kind operand => exact allUsable_cons (usable_unary kind) operand.usable
  | .binary _ _ lhs joiner rhs | .power _ lhs joiner rhs | .assign _ lhs joiner rhs =>
    exact allUsable_around lhs.usable (usable_joiner joiner) rhs.usable
  | .chain _ chain => exact chain.usable
  | .ternary _ cond question yes colon no =>
    exact allUsable_around cond.usable (usable_symbol question)
      (allUsable_around yes.usable (usable_symbol colon) no.usable)

end

/-! ## Texts -/

section
variable {c : Char} {cs : List Char} {l : Lexeme} {t : Token} {text : String} {e : Expr} {n : Nat}

/-- All tokens of a text that denotes an expression are usable. -/
theorem usable_of_ofText (h : Expr.ofText text = .ok e) : AllUsable (Token.ofText text) := by
  obtain ⟨ts, n, hts, hkinds⟩ := listFrom_eq text.toList 0 false 0
  have htokens : Token.ofText text = ts ++ [Token.atEnd n] := hts
  rw [Expr.ofText, htokens] at h
  rw [htokens]
  have hend : Usable (Token.atEnd n) :=
    usable_of_kind rfl (fun _ => TokenKind.noConfusion) TokenKind.noConfusion
  exact allUsable_around ((ofTokens_iff hkinds text.utf8ByteSize n e).mp h).usable hend allUsable_nil

/-- a text with a token that is not usable denotes nothing -/
theorem error_of_not_usable (ht : t ∈ Token.ofText text) (h : ¬Usable t) :
    ∃ fault, Expr.ofText text = .error fault := by
  cases hread : Expr.ofText text with
  | error fault => exact ⟨fault, rfl⟩
  | ok e => exact absurd (usable_of_ofText hread t ht) h

/-- a text starts with the token of its first lexeme -/
theorem ofText_cons (hgap : Text.isGap c = false) (cs : List Char) :
    (Lexeme.scan false c cs).toToken 0 ∈ Token.ofText (String.ofList (c :: cs)) := by
  obtain ⟨-, -, rest, hrest⟩ := Lexeme.heads_scan false c cs
  rw [Token.ofText, Token.ofChars, String.toList_ofList, listFrom_lexeme hgap rfl hrest.symm]
  exact List.mem_cons_self

/-- the tokens of a text that is one lexeme -/
theorem ofText_of_scan (hgap : Text.isGap c = false) (hscan : Lexeme.scan false c cs = l)
    (hextent : c :: cs = l.extent) : Token.ofText (String.ofList (c :: cs)) =
      [l.toToken 0, Token.atEnd (String.ofList (c :: cs)).utf8ByteSize] := by
  have hlist := listFrom_lexeme hgap hscan (hextent.trans (List.append_nil _).symm) 0
  rw [Token.ofText, Token.ofChars, String.toList_ofList, hlist, ← hextent, Nat.zero_add,
    ← Text.byteLength_ofList]
  rfl

theorem ofText_single_iff (h : Token.ofText text = [t, Token.atEnd n]) (hkind : t.kind ≠ .endOfText) :
    Expr.ofText text = .ok e ↔ Derives 0 [t] e := by
  rw [Expr.ofText, h]
  exact ofTokens_iff (List.forall_mem_singleton.mpr hkind) text.utf8ByteSize n e

/-- A number that stands alone is an expression only as a number of the language. -/
theorem derives_number_iff (kind : t.kind = .number) :
    Derives 0 [t] e ↔ Literal.number t.literal.toList = .ok e := by
  constructor
  · intro h
    have hread := (readExpr_iff (Token.atEnd 0) [t] e).mpr h
    rw [Expr.readExpr_result, Expr.readOperand_primary _ (by rw [kind]; rfl), Expr.readPrimary] at hread
    simp only [kind, Reply.result?_within] at hread
    rw [Expr.readNumber_result] at hread
    cases hvalue : Literal.number t.literal.toList with
    | error fault =>
      rw [hvalue] at hread
      cases hread
    | ok e' =>
      have hderives : Derives 0 [t] e' := .postfixed (.primary (.number kind hvalue))
      rw [derives_unique h hderives]
  · intro h
    exact .postfixed (.primary (.number kind h))

end

end Grammar

end Parlance
