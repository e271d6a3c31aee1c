import Mathlib.Data.List.Forall2
import Parlance.Proofs.Token.Severing

/-!
# Tokens with gaps between them

Whether a number has a fraction depends on what was read before it, and where a token ends on what
comes next.  Tokens that are set apart by gaps stay what they are:

* `Token.Alike t u`          the tokens differ in their place at most;
* `Token.Steady afterDot ts`   each token is read of its own extent;
* `steady_listFrom`          so are the tokens of a text, if none is invalid;
* `Token.Spacing gaps ts`    gaps to be put before the tokens `ts`;
* `Token.spread gaps ts`     the text that comes of it;
* `listFrom_spread`          steady tokens are read again of that;
* `Token.respaced gaps text`   the text with other gaps, of which the same tokens are read.
-/

namespace Parlance

namespace Token

open Text

/-- two tokens that differ in their place at most -/
structure Alike (t u : Token) : Prop where
  kind : t.kind = u.kind
  literal : t.literal = u.literal

/-- Each token is read of its own extent, after a dot or not as it stands in the list. -/
inductive Steady : Bool → List Token → Prop
  | done (afterDot : Bool) (n : Nat) : Steady afterDot [atEnd n]
  | lexeme {afterDot : Bool} {l : Lexeme} {ts : List Token} (n : Nat) (head : l.Steady afterDot)
      (others : Steady (l.kind == .symbol .dot) ts) : Steady afterDot (l.toToken n :: ts)

theorem Steady.ne_nil {afterDot : Bool} {ts : List Token} (h : Steady afterDot ts) : ts ≠ [] := by
  cases h <;> exact List.cons_ne_nil _ _

theorem steady_listFrom (offset : Nat) (afterDot : Bool) (cs : List Char)
    (hvalid : ∀ t ∈ listFrom offset afterDot 0 cs, ∀ cause, t.kind ≠ .invalid cause) :
    Steady afterDot (listFrom offset afterDot 0 cs) := by
  revert hvalid
  apply listFrom_induction (P := fun _ afterDot _ ts =>
    (∀ t ∈ ts, ∀ cause, t.kind ≠ .invalid cause) → Steady afterDot ts)
  · exact fun n afterDot _ => .done afterDot n
  · exact fun _ _ _ _ _ _ hothers => hothers
  · intro n afterDot c cs rest ts hgap _ hothers hvalid
    obtain ⟨hlexeme, hvalid⟩ := List.forall_mem_cons.mp hvalid
    exact .lexeme n (Lexeme.steady_scan hgap hlexeme) (hothers hvalid)

/-! ## Tokens with gaps between them -/

/-- Gaps to be put before the tokens of a text, of which the last one marks its end. -/
structure Spacing (gaps : List (List Char)) (ts : List Token) : Prop where
  length : gaps.length = ts.length
  blank : ∀ gap ∈ gaps, ∀ c ∈ gap, isGap c = true
  /-- there is a gap between any two tokens of the text -/
  apart : ∀ gap ∈ gaps.tail.dropLast, gap ≠ []

/-- the tokens with the gaps before them -/
def spread (gaps : List (List Char)) (ts : List Token) : List Char :=
  (List.zipWith (fun gap t => gap ++ t.extent) gaps ts).flatten

theorem listFrom_gap {gap : List Char} (h : ∀ c ∈ gap, isGap c = true) (offset : Nat)
    (afterDot : Bool) (rest : List Char) : listFrom offset afterDot 0 (gap ++ rest) =
      listFrom (offset + byteLength gap) afterDot 0 rest := by
  induction gap generalizing offset with
  | nil => rfl
  | cons c gap ih =>
    rw [List.forall_mem_cons] at h
    rw [List.cons_append, listFrom, if_pos h.1, ih h.2, byteLength_cons, Nat.add_assoc]

theorem breaks_gap {gap rest : List Char} (hblank : ∀ c ∈ gap, isGap c = true)
    (h : gap ≠ [] ∨ rest = []) : Breaks (gap ++ rest) := by
  cases gap with
  | nil =>
    rcases h with h | rfl
    · exact absurd rfl h
    · intro d hd
      cases hd
  | cons c gap =>
    intro d hd
    cases hd
    exact hblank c List.mem_cons_self

section
variable {gap : List Char} {gaps : List (List Char)} {t : Token} {ts : List Token} {afterDot : Bool}

theorem spread_cons : spread (gap :: gaps) (t :: ts) = gap ++ (t.extent ++ spread gaps ts) := by
  rw [spread, List.zipWith_cons_cons, List.flatten_cons, List.append_assoc]
  rfl

theorem Spacing.tail (h : Spacing (gap :: gaps) (t :: ts)) : Spacing gaps ts := by
  refine ⟨Nat.succ.inj h.length, (List.forall_mem_cons.mp h.blank).2, fun g hg => h.apart g ?_⟩
  cases gaps with
  | nil => exact hg
  | cons g' gaps =>
    have hne : gaps ≠ [] := List.ne_nil_of_mem (List.dropLast_subset _ hg)
    rw [List.tail_cons, List.dropLast_cons_of_ne_nil hne]
    exact List.mem_cons_of_mem g' hg

/-- After a token the text is over, or goes on with a gap. -/
theorem Spacing.breaks (h : Spacing (gap :: gaps) (t :: ts)) (hsteady : Steady afterDot ts) :
    Breaks (spread gaps ts) := by
  obtain ⟨hlength, hblank, -⟩ := h.tail
  cases hsteady with
  | done n =>
    obtain ⟨g, rfl⟩ := List.length_eq_one_iff.mp hlength
    rw [spread_cons]
    exact breaks_gap (hblank g List.mem_cons_self) (.inr rfl)
  | @lexeme _ l ts n _ others =>
    obtain ⟨g, gaps, rfl⟩ := List.exists_cons_of_length_eq_add_one hlength
    have hne : gaps ≠ [] := by
      rintro rfl
      exact others.ne_nil (List.length_eq_zero_iff.mp (Nat.succ.inj hlength).symm)
    have hg : g ≠ [] := h.apart g (by
      rw [List.tail_cons, List.dropLast_cons_of_ne_nil hne]
      exact List.mem_cons_self)
    rw [spread_cons]
    exact breaks_gap (hblank g List.mem_cons_self) (.inl hg)

end

/-- **Steady tokens with gaps between them are read again**, whatever gaps these are. -/
theorem listFrom_spread {afterDot : Bool} {ts : List Token} (h : Steady afterDot ts)
    {gaps : List (List Char)} (hspacing : Spacing gaps ts) (offset : Nat) :
    List.Forall₂ Alike (listFrom offset afterDot 0 (spread gaps ts)) ts := by
  induction h generalizing gaps offset with
  | done afterDot n =>
    obtain ⟨gap, rfl⟩ := List.length_eq_one_iff.mp hspacing.length
    rw [spread_cons, listFrom_gap (hspacing.blank gap List.mem_cons_self)]
    exact .cons ⟨rfl, rfl⟩ .nil
  | @lexeme afterDot l ts n head others ih =>
    obtain ⟨gap, gaps, rfl⟩ := List.exists_cons_of_length_eq_add_one hspacing.length
    obtain ⟨c, more, hextent, hgap, hagain⟩ := head
    have hscan := hagain (spread gaps ts) (hspacing.breaks others)
    have htext : c :: (more ++ spread gaps ts) = l.extent ++ spread gaps ts := by
      rw [hextent, List.cons_append]
    rw [spread_cons, listFrom_gap (hspacing.blank gap List.mem_cons_self), extent_toToken, ← htext,
      listFrom_lexeme hgap hscan htext]
    exact .cons ⟨rfl, rfl⟩ (ih hspacing.tail _)

/-- the text with these gaps between its tokens in place of its own -/
def respaced (gaps : List (List Char)) (text : String) : String :=
  String.ofList (spread gaps (ofText text))

theorem ofText_respaced {text : String} (hvalid : ∀ t ∈ ofText text, ∀ cause, t.kind ≠ .invalid cause)
    {gaps : List (List Char)} (hspacing : Spacing gaps (ofText text)) :
    List.Forall₂ Alike (ofText (respaced gaps text)) (ofText text) := by
  rw [respaced, ofText, ofChars, String.toList_ofList]
  exact listFrom_spread (steady_listFrom 0 false text.toList hvalid) hspacing 0

end Token

end Parlance
