import Mathlib.Data.List.TakeWhile
import Parlance.Proofs.Expr.Numerals
import Parlance.Proofs.Number.Digits
import Parlance.Proofs.Number.Parts

/-!
# What the expressions of texts are made of

* `Expr.Forall P e`     it is so of the expression and of every part of it;
* `Lexeme.Sound l`      an identifier is a name, and a number starts with a digit;
* `sound_of_ofText`     so it is with every token of a text;
* `Expr.Made e`         variables and members have names, chains have an operator between every two
                        operands, and no double is a NaN;
* `made_of_ofText`      so it is everywhere in the expression of a text.
-/

namespace Parlance

namespace Expr

mutual

/-- It is so of the expression and of every part of it. -/
def Forall (P : Expr → Prop) : Expr → Prop
  | int i => P (int i)
  | dbl d => P (dbl d)
  | bool b => P (bool b)
  | char c => P (char c)
  | str s => P (str s)
  | list items => P (list items) ∧ ForallItems P items
  | var ref => P (var ref)
  | unary op operand => P (unary op operand) ∧ operand.Forall P
  | binary op lhs rhs => P (binary op lhs rhs) ∧ lhs.Forall P ∧ rhs.Forall P
  | assign op place value => P (assign op place value) ∧ place.Forall P ∧ value.Forall P
  | ternary cond yes no => P (ternary cond yes no) ∧ cond.Forall P ∧ yes.Forall P ∧ no.Forall P
  | comparison operands ops => P (comparison operands ops) ∧ ForallItems P operands
  | call callee args => P (call callee args) ∧ callee.Forall P ∧ ForallItems P args
  | subscript base index => P (subscript base index) ∧ base.Forall P ∧ index.Forall P
  | slice base start stop =>
    P (slice base start stop) ∧ base.Forall P ∧ ForallBound P start ∧ ForallBound P stop
  | member base name => P (member base name) ∧ base.Forall P

def ForallItems (P : Expr → Prop) : List Expr → Prop
  | [] => True
  | item :: items => item.Forall P ∧ ForallItems P items

def ForallBound (P : Expr → Prop) : Option Expr → Prop
  | none => True
  | some bound => bound.Forall P

end

section
variable {P Q : Expr → Prop}

theorem forallItems_append {es fs : List Expr} (hes : ForallItems P es) (hfs : ForallItems P fs) :
    ForallItems P (es ++ fs) := by
  induction es with
  | nil => exact hfs
  | cons e es ih => exact ⟨hes.1, ih hes.2⟩

mutual

theorem Forall.and {e : Expr} (h : e.Forall P) (h' : e.Forall Q) :
    e.Forall fun e => P e ∧ Q e := by
  match e with
  | int _ | dbl _ | bool _ | char _ | str _ | var _ => exact ⟨h, h'⟩
  | list _ | comparison _ _ => exact ⟨⟨h.1, h'.1⟩, forallItems_and h.2 h'.2⟩
  | unary _ _ | member _ _ => exact ⟨⟨h.1, h'.1⟩, Forall.and h.2 h'.2⟩
  | binary _ _ _ | assign _ _ _ | subscript _ _ =>
    exact ⟨⟨h.1, h'.1⟩, Forall.and h.2.1 h'.2.1, Forall.and h.2.2 h'.2.2⟩
  | ternary _ _ _ =>
    exact ⟨⟨h.1, h'.1⟩, Forall.and h.2.1 h'.2.1, Forall.and h.2.2.1 h'.2.2.1, Forall.and h.2.2.2 h'.2.2.2⟩
  | call _ _ => exact ⟨⟨h.1, h'.1⟩, Forall.and h.2.1 h'.2.1, forallItems_and h.2.2 h'.2.2⟩
  | slice _ _ _ =>
    exact ⟨⟨h.1, h'.1⟩, Forall.and h.2.1 h'.2.1, forallBound_and h.2.2.1 h'.2.2.1,
      forallBound_and h.2.2.2 h'.2.2.2⟩

theorem forallItems_and {es : List Expr} (h : ForallItems P es) (h' : ForallItems Q es) :
    ForallItems (fun e => P e ∧ Q e) es := by
  match es with
  | [] => exact trivial
  | e :: es => exact ⟨Forall.and h.1 h'.1, forallItems_and h.2 h'.2⟩

theorem forallBound_and {o : Option Expr} (h : ForallBound P o) (h' : ForallBound Q o) :
    ForallBound (fun e => P e ∧ Q e) o := by
  match o with
  | none => exact trivial
  | some e => exact Forall.and (e := e) h h'

end

end

end Expr

/-! ## Tokens -/

namespace Lexeme

/-- The text is a word of the language that is neither a keyword nor a truth value. -/
structure IsName (cs : List Char) : Prop where
  starts : ∃ c ∈ cs.head?, isWordStart c = true
  parts : ∀ c ∈ cs, isWordPart c = true
  kind : wordKind cs = .ident

theorem IsName.head_ne {cs : List Char} {c : Char} (h : IsName cs) (hc : isWordStart c = false) :
    cs.head? ≠ some c := by
  obtain ⟨d, hd, hstart⟩ := h.starts
  intro heq
  rw [Option.some.inj (hd.symm.trans heq), hc] at hstart
  cases hstart

/-- An identifier is a name, and a number starts with a digit. -/
structure Sound (l : Lexeme) : Prop where
  name : l.kind = .ident → IsName l.literal
  number : l.kind = .number → ∃ c ∈ l.literal.head?, c.isDigit = true

section
variable {l : Lexeme} {c : Char} {cs : List Char}

theorem sound_of_kind (hname : l.kind ≠ .ident) (hnumber : l.kind ≠ .number) : l.Sound :=
  ⟨fun h => absurd h hname, fun h => absurd h hnumber⟩

theorem sound_scanNumber (h : c.isDigit = true) (afterDot : Bool) (cs : List Char) :
    (scanNumber afterDot (c :: cs)).Sound := by
  have hheads := heads_scanNumber h afterDot cs
  have hextent := extent_of_bare (bare_scanNumber afterDot (c :: cs))
  refine ⟨fun hkind => ?_, fun _ => ?_⟩
  · obtain hnumber | ⟨cause, hinvalid⟩ := kind_scanNumber afterDot (c :: cs)
    · cases hkind.symm.trans hnumber
    · cases hkind.symm.trans hinvalid
  · obtain ⟨d, ds, hliteral⟩ := List.exists_cons_of_ne_nil hheads.ne_nil
    obtain ⟨rest, hrest⟩ := hheads.starts
    rw [hliteral] at hrest
    rw [← hextent, hliteral, (List.cons.inj hrest).1]
    exact ⟨c, rfl, h⟩

theorem sound_scanWord (h : isWordStart c = true) (cs : List Char) : (scanWord (c :: cs)).Sound := by
  have hcons : (c :: cs).takeWhile isWordPart = c :: cs.takeWhile isWordPart :=
    List.takeWhile_cons_of_pos (isWordPart_of_isWordStart h)
  refine ⟨fun hkind => ⟨?_, ?_, hkind⟩, fun hkind => ?_⟩
  · show ∃ d ∈ ((c :: cs).takeWhile isWordPart).head?, isWordStart d = true
    rw [hcons]
    exact ⟨c, rfl, h⟩
  · exact fun d hd => List.mem_takeWhile_imp hd
  · obtain ⟨k, hword⟩ | hword | hword := wordKind_cases ((c :: cs).takeWhile isWordPart)
    · cases hkind.symm.trans hword
    · cases hkind.symm.trans hword
    · cases hkind.symm.trans hword

theorem sound_scan (afterDot : Bool) (c : Char) (cs : List Char) : (scan afterDot c cs).Sound := by
  rw [scan]
  split
  · exact sound_of_kind TokenKind.noConfusion TokenKind.noConfusion
  split
  · rename_i hdigit
    exact sound_scanNumber hdigit afterDot cs
  split
  · rw [scanString]
    split <;> exact sound_of_kind TokenKind.noConfusion TokenKind.noConfusion
  split
  · rw [scanChar]
    split
    · split <;> exact sound_of_kind TokenKind.noConfusion TokenKind.noConfusion
    · exact sound_of_kind TokenKind.noConfusion TokenKind.noConfusion
  split
  · rename_i hstart
    exact sound_scanWord hstart cs
  · exact sound_of_kind TokenKind.noConfusion TokenKind.noConfusion

end

end Lexeme

namespace Token

def AllSound (ts : List Token) : Prop := ∀ t ∈ ts, t.lexeme.Sound

/-- All tokens of a text are sound. -/
theorem sound_of_ofText (text : String) : AllSound (Token.ofText text) := by
  refine listFrom_induction (P := fun _ _ _ ts => AllSound ts) ?_ ?_ ?_ 0 false text.toList
  · intro n _ t ht
    rw [List.mem_singleton.mp ht]
    exact Lexeme.sound_of_kind TokenKind.noConfusion TokenKind.noConfusion
  · exact fun _ _ _ _ _ _ hothers => hothers
  · intro n afterDot c cs rest ts _ _ hothers
    refine List.forall_mem_cons.mpr ⟨?_, hothers⟩
    have hsound := Lexeme.sound_scan afterDot c cs
    show Lexeme.Sound ⟨_, (String.ofList _).toList⟩
    rw [String.toList_ofList]
    exact hsound

end Token

/-! ## Literals -/

namespace Numeral

theorem isNaN_scaled (negative : Bool) (m : Nat) (e : Int) : (scaled negative m e).isNaN = false := by
  unfold scaled
  dsimp only
  split
  · exact Double.isNaN_ofParts (Nat.zero_le _) negative
  split
  · exact Double.isNaN_ofParts (Nat.le_refl _) negative
  · exact Double.isNaN_round negative _ _

theorem isNaN_decimal? {negative : Bool} {cs : List Char} {d : Double}
    (h : decimal? negative cs = some d) : d.isNaN = false := by
  unfold decimal? at h
  dsimp only at h
  -- with a point and without
  split at h
  all_goals
    split at h
    · cases h
    · obtain ⟨e, -, rfl⟩ := Option.map_eq_some_iff.mp h
      exact isNaN_scaled negative _ _

theorem toLower_of_isDigit {c : Char} (h : c.isDigit = true) : c.toLower = c := by
  have hdigit := (Lexeme.isDigit_iff c).mp h
  unfold Char.toLower
  rw [dif_neg]
  rintro ⟨hupper, -⟩
  have hle : 65 ≤ c.toNat := hupper
  omega

/-- A numeral that starts with a digit is not the word for what is no number. -/
theorem isNaN_double? {cs : List Char} {d : Double} (hstart : ∃ c ∈ cs.head?, c.isDigit = true)
    (h : double? cs = some d) : d.isNaN = false := by
  obtain ⟨c, hc, hdigit⟩ := hstart
  obtain ⟨ds, rfl⟩ := List.head?_eq_some_iff.mp hc
  have hsign : splitSign (c :: ds) = (false, c :: ds) := by
    obtain hsign | ⟨_, heq, -⟩ | ⟨_, heq, -⟩ := splitSign_cases (c :: ds)
    · exact hsign
    · cases heq
      cases hdigit
    · cases heq
      cases hdigit
  rw [double?, hsign] at h
  dsimp only at h
  split at h
  · cases h
    exact Double.isNaN_ofParts (Nat.le_refl _) false
  split at h
  · rename_i hword
    have hhead : c.toLower = 'n' := (List.cons.inj hword).1
    rw [toLower_of_isDigit hdigit] at hhead
    subst hhead
    cases hdigit
  · exact isNaN_decimal? h

end Numeral

namespace Expr

/-- Variables and members have names, chains have an operator between every two operands, and no double
is a NaN. -/
def Made : Expr → Prop
  | dbl d => d.isNaN = false
  | var (.name name) | var (.context name) | member _ name => Lexeme.IsName name.toList
  | comparison operands ops => ops ≠ [] ∧ operands.length = ops.length + 1
  | _ => True

/-- A number is an integer or a double. -/
theorem made_number {cs : List Char} {e : Expr} (hstart : ∃ c ∈ cs.head?, c.isDigit = true)
    (h : Literal.number cs = .ok e) : e.Forall Made := by
  rw [Literal.number] at h
  dsimp only at h
  split at h
  · split at h
    · rename_i d hd
      cases h
      exact Numeral.isNaN_double? hstart hd
    · cases h
  · obtain ⟨i, -, rfl⟩ := Literal.map_int_eq_ok h
    exact trivial

end Expr

namespace Grammar

open Parlance.Expr Token

section
variable {t : Token} {ts us : List Token}

theorem sound_cons (h : AllSound (t :: us)) : t.lexeme.Sound ∧ AllSound us :=
  List.forall_mem_cons.mp h

theorem sound_append (h : AllSound (ts ++ us)) : AllSound ts ∧ AllSound us :=
  List.forall_mem_append.mp h

/-- tokens, one more, and tokens again -/
theorem sound_around (h : AllSound (ts ++ t :: us)) : AllSound ts ∧ t.lexeme.Sound ∧ AllSound us :=
  ⟨(sound_append h).1, sound_cons (sound_append h).2⟩

end

mutual

theorem Primary.made {us : List Token} {e : Expr} (h : Primary us e) (hus : AllSound us) :
    e.Forall Made := by
  match h with
  | .number kind value => exact made_number ((sound_cons hus).1.number kind) value
  | .string _ | .char _ _ | .bool _ | .arg _ _ _ => exact trivial
  | .name kind => exact (sound_cons hus).1.name kind
  | .context dollar kind => exact (sound_cons (sound_cons hus).2).1.name kind
  | .paren left inner right => exact inner.made (sound_append (sound_cons hus).2).1
  | .list left items right => exact ⟨trivial, items.made (sound_append (sound_cons hus).2).1⟩

theorem Items.made {us : List Token} {es : List Expr} (h : Items us es) (hus : AllSound us) :
    ForallItems Made es := by
  match h with
  | .none => exact trivial
  | .last item => exact ⟨item.made hus, trivial⟩
  | .more item comma others =>
    obtain ⟨hitem, -, hothers⟩ := sound_around hus
    exact ⟨item.made hitem, others.made hothers⟩

theorem Bound.made {us : List Token} {o : Option Expr} (h : Bound us o) (hus : AllSound us) :
    ForallBound Made o := by
  match h with
  | .none => exact trivial
  | .some bound => exact bound.made hus

theorem Postfixed.made {us : List Token} {e : Expr} (h : Postfixed us e) (hus : AllSound us) :
    e.Forall Made := by
  match h with
  | .primary primary => exact primary.made hus
  | .member base dot kind =>
    obtain ⟨hbase, -, hname⟩ := sound_around hus
    exact ⟨(sound_cons hname).1.name kind, base.made hbase⟩
  | .call callee left args right =>
    obtain ⟨hcallee, -, hargs⟩ := sound_around hus
    exact ⟨trivial, callee.made hcallee, args.made (sound_append hargs).1⟩
  | .subscript base left index right =>
    obtain ⟨hbase, -, hindex⟩ := sound_around hus
    exact ⟨trivial, base.made hbase, index.made (sound_append hindex).1⟩
  | .slice base left start colon stop right =>
    obtain ⟨hbase, -, hbounds⟩ := sound_around hus
    obtain ⟨hstart, -, hstop⟩ := sound_around hbounds
    exact ⟨trivial, base.made hbase, start.made hstart, stop.made (sound_append hstop).1⟩

theorem Chain.made {us : List Token} {es : List Expr} {ops : List CompareOp} (h : Chain us es ops)
    (hus : AllSound us) : (ops ≠ [] ∧ es.length = ops.length + 1) ∧ ForallItems Made es := by
  match h with
  | .pair lhs joiner rhs =>
    obtain ⟨hlhs, -, hrhs⟩ := sound_around hus
    exact ⟨⟨List.cons_ne_nil _ _, rfl⟩, lhs.made hlhs, rhs.made hrhs, trivial⟩
  | .more lhs joiner rhs =>
    obtain ⟨hlhs, -, hrhs⟩ := sound_around hus
    obtain ⟨⟨-, hlength⟩, hes⟩ := lhs.made hlhs
    refine ⟨⟨List.concat_ne_nil _ _, ?_⟩, forallItems_append hes ⟨rhs.made hrhs, trivial⟩⟩
    rw [List.length_append, List.length_append, hlength]
    rfl

/-- The expression of sound tokens is made of names, chains and numbers. -/
theorem Derives.made {m : Nat} {us : List Token} {e : Expr} (h : Derives m us e) (hus : AllSound us) :
    e.Forall Made := by
  match h with
  | .postfixed postfixed => exact postfixed.made hus
  | .unary _ kind operand => exact ⟨trivial, operand.made (sound_cons hus).2⟩
  | .binary _ _ lhs joiner rhs | .power _ lhs joiner rhs | .assign _ lhs joiner rhs =>
    obtain ⟨hlhs, -, hrhs⟩ := sound_around hus
    exact ⟨trivial, lhs.made hlhs, rhs.made hrhs⟩
  | .chain _ chain => exact chain.made hus
  | .ternary _ cond question yes colon no =>
    obtain ⟨hcond, -, hothers⟩ := sound_around hus
    obtain ⟨hyes, -, hno⟩ := sound_around hothers
    exact ⟨trivial, cond.made hcond, yes.made hyes, no.made hno⟩

end

/-- So it is everywhere in the expression of a text. -/
theorem made_of_ofText {text : String} {e : Expr} (h : Expr.ofText text = .ok e) : e.Forall Made := by
  obtain ⟨ts, n, hts, hkinds⟩ := listFrom_eq text.toList 0 false 0
  have htokens : Token.ofText text = ts ++ [Token.atEnd n] := hts
  have hsound := sound_of_ofText text
  rw [Expr.ofText, htokens] at h
  rw [htokens] at hsound
  exact ((ofTokens_iff hkinds text.utf8ByteSize n e).mp h).made (sound_append hsound).1

end Grammar

end Parlance
