import Parlance.Proofs.Token.Extent

/-!
# How the tokens of a text lie in it

A token takes up its literal and, where that stands between quotation marks, these.  What the tokens
leave of a text is gaps:

* `Text.Between text n m piece`   `piece` stands in the text from byte `n` to byte `m`;
* `Token.start t`, `Token.stop t`   the bytes between which the extent of a token stands;
* `Token.Layout n cs ts`          the tokens `ts` make up the text `cs`, whose first byte is byte
                                  `n`, one after another and with nothing but gaps between them;
* `listFrom_lexeme`               a lexeme, and then the tokens of the text after it;
* `listFrom_induction`            so texts are gone through by gaps and lexemes;
* `layout_listFrom`               the tokens that are read make up the text;
* `ofText_covers`                 tokens and gaps together are the text, and nothing is in two tokens.
-/

namespace Parlance

namespace Text

/-- `piece` stands in the text from byte `start` to byte `stop` -/
def Between (text : List Char) (start stop : Nat) (piece : List Char) : Prop :=
  ∃ before after, text = before ++ piece ++ after ∧
    byteLength before = start ∧ start + byteLength piece = stop

theorem byteLength_pos {cs : List Char} (h : cs ≠ []) : 0 < byteLength cs := by
  cases cs with
  | nil => exact absurd rfl h
  | cons c cs =>
    have := c.utf8Size_pos
    simp only [byteLength_cons]
    omega

end Text

namespace Token

open Text

/-! ## Extents -/

def lexeme (t : Token) : Lexeme := ⟨t.kind, t.literal.toList⟩

/-- the characters of the text that a token takes up -/
def extent (t : Token) : List Char := t.lexeme.extent

/-- the width of the quotation mark on either side of the literal -/
def margin (t : Token) : Nat := if t.kind = .string ∨ t.kind = .char then 1 else 0

/-- the first byte that a token takes up -/
def start (t : Token) : Nat := t.offset - t.margin

/-- the byte after those that a token takes up -/
def stop (t : Token) : Nat := t.offset + t.literal.utf8ByteSize + t.margin

theorem byteLength_quote (t : Token) : byteLength t.lexeme.quote = t.margin := by
  obtain ⟨kind, literal, offset⟩ := t
  cases kind <;> rfl

theorem extent_eq (t : Token) :
    t.extent = t.lexeme.quote ++ t.literal.toList ++ t.lexeme.quote := rfl

theorem byteLength_extent (t : Token) :
    byteLength t.extent = t.margin + t.literal.utf8ByteSize + t.margin := by
  simp only [extent_eq, byteLength_append, byteLength_quote, byteLength_toList]

section
variable {cs before after : List Char} {t : Token}

theorem between_extent (h : cs = before ++ t.extent ++ after)
    (hoffset : byteLength before + t.margin = t.offset) : Between cs t.start t.stop t.extent := by
  refine ⟨before, after, h, ?_, ?_⟩
  · rw [start]
    omega
  · rw [start, stop, byteLength_extent]
    omega

theorem between_literal (h : cs = before ++ t.extent ++ after)
    (hoffset : byteLength before + t.margin = t.offset) :
    Between cs t.offset (t.offset + t.literal.utf8ByteSize) t.literal.toList := by
  refine ⟨before ++ t.lexeme.quote, t.lexeme.quote ++ after, ?_, ?_, ?_⟩
  · rw [h, extent_eq]
    simp only [List.append_assoc]
  · rw [byteLength_append, byteLength_quote, hoffset]
  · rw [byteLength_toList]

end

section
variable (l : Lexeme) (n : Nat)

theorem lexeme_toToken : (l.toToken n).lexeme = l := by
  show (⟨l.kind, (String.ofList l.literal).toList⟩ : Lexeme) = l
  rw [String.toList_ofList]

theorem extent_toToken : (l.toToken n).extent = l.extent := by rw [extent, lexeme_toToken]

theorem offset_toToken : (l.toToken n).offset = n + (l.toToken n).margin := by
  rw [← byteLength_quote, lexeme_toToken]
  rfl

theorem start_toToken : (l.toToken n).start = n := by
  rw [start, offset_toToken, Nat.add_sub_cancel]

theorem stop_toToken : (l.toToken n).stop = n + byteLength l.extent := by
  have := byteLength_extent (l.toToken n)
  rw [extent_toToken] at this
  rw [stop, offset_toToken, this]
  omega

end

/-! ## Layouts -/

/-- The tokens make up the text, whose first byte is byte `n`, with nothing but gaps between. -/
inductive Layout : Nat → List Char → List Token → Prop
  | done (n : Nat) : Layout n [] [atEnd n]
  | gap {n : Nat} {c : Char} {cs : List Char} {ts : List Token} (gap : isGap c = true)
      (others : Layout (n + c.utf8Size) cs ts) : Layout n (c :: cs) ts
  | token {n : Nat} {l : Lexeme} {cs : List Char} {ts : List Token} (kind : l.kind ≠ .endOfText)
      (ne_nil : l.extent ≠ []) (others : Layout (n + byteLength l.extent) cs ts) :
      Layout n (l.extent ++ cs) (l.toToken n :: ts)

/-- the characters that belong to a lexeme already in the list are passed over -/
theorem listFrom_skip (cs : List Char) (offset : Nat) (afterDot : Bool) (skip : Nat) :
    listFrom offset afterDot skip cs =
      listFrom (offset + byteLength (cs.take skip)) afterDot 0 (cs.drop skip) := by
  induction cs generalizing offset skip with
  | nil =>
    rw [List.take_nil, List.drop_nil]
    cases skip <;> rfl
  | cons c cs ih =>
    cases skip with
    | zero => rfl
    | succ skip =>
      rw [listFrom, ih, List.take_succ_cons, List.drop_succ_cons, byteLength_cons, Nat.add_assoc]

/-- The lexeme read at the start of the text is its first token, and the rest of the text is read on
from the byte after its extent. -/
theorem listFrom_lexeme {afterDot : Bool} {c : Char} {cs rest : List Char} {l : Lexeme}
    (hgap : isGap c = false) (hscan : Lexeme.scan afterDot c cs = l)
    (hextent : c :: cs = l.extent ++ rest) (offset : Nat) :
    listFrom offset afterDot 0 (c :: cs) = l.toToken offset ::
      listFrom (offset + byteLength l.extent) (l.kind == .symbol .dot) 0 rest := by
  have hne : l.extent ≠ [] := hscan ▸ (Lexeme.heads_scan afterDot c cs).ne_nil
  obtain ⟨d, others, hcons⟩ := List.exists_cons_of_ne_nil hne
  -- the first character of the extent is `c`, and the walk passes over the others
  rw [hcons, List.cons_append] at hextent
  obtain ⟨rfl, rfl⟩ := List.cons.inj hextent
  have hgap : ¬isGap c = true := by rw [hgap]; exact Bool.false_ne_true
  rw [listFrom, if_neg hgap, hscan]
  dsimp only
  rw [hcons, List.length_cons, Nat.add_sub_cancel, listFrom_skip, List.take_left, List.drop_left,
    byteLength_cons, Nat.add_assoc]

/-- What is so at the end of a text, and of a text if it is so of what is left after a gap or a lexeme, is
so of every text and its tokens. -/
theorem listFrom_induction {P : Nat → Bool → List Char → List Token → Prop}
    (hdone : ∀ n afterDot, P n afterDot [] [atEnd n])
    (hgap : ∀ n afterDot c cs ts, isGap c = true → P (n + c.utf8Size) afterDot cs ts →
      P n afterDot (c :: cs) ts)
    (hlexeme : ∀ n afterDot c cs rest ts, isGap c = false →
      c :: cs = (Lexeme.scan afterDot c cs).extent ++ rest →
      P (n + byteLength (Lexeme.scan afterDot c cs).extent)
        ((Lexeme.scan afterDot c cs).kind == .symbol .dot) rest ts →
      P n afterDot (c :: cs) ((Lexeme.scan afterDot c cs).toToken n :: ts))
    (offset : Nat) (afterDot : Bool) (cs : List Char) :
    P offset afterDot cs (listFrom offset afterDot 0 cs) := by
  match cs with
  | [] => exact hdone offset afterDot
  | c :: cs =>
    cases hc : isGap c with
    | true =>
      rw [listFrom, if_pos hc]
      exact hgap offset afterDot c cs _ hc (listFrom_induction hdone hgap hlexeme _ _ cs)
    | false =>
      obtain ⟨-, hne, rest, hrest⟩ := Lexeme.heads_scan afterDot c cs
      have hshorter : rest.length < (c :: cs).length := by
        have hpos := List.length_pos_iff.mpr hne
        rw [← hrest, List.length_append]
        omega
      rw [listFrom_lexeme hc rfl hrest.symm]
      exact hlexeme offset afterDot c cs rest _ hc hrest.symm
        (listFrom_induction hdone hgap hlexeme _ _ rest)
termination_by cs.length
decreasing_by
  · exact hshorter
  · exact Nat.lt_succ_self cs.length

theorem layout_listFrom (offset : Nat) (afterDot : Bool) (cs : List Char) :
    Layout offset cs (listFrom offset afterDot 0 cs) := by
  apply listFrom_induction (P := fun n _ cs ts => Layout n cs ts)
  · exact fun n _ => .done n
  · exact fun n _ c cs ts hc hothers => .gap hc hothers
  · intro n afterDot c cs rest ts _ hrest hothers
    obtain ⟨hkind, hne, -⟩ := Lexeme.heads_scan afterDot c cs
    rw [hrest]
    exact .token hkind hne hothers

namespace Layout

variable {n : Nat} {cs : List Char} {ts : List Token}

/-! ## What is so in a layout -/

/-- The last token, and no other, is the mark of the end, at the byte after the text. -/
theorem closed (h : Layout n cs ts) : ∃ body, ts = body ++ [atEnd (n + byteLength cs)] ∧
    ∀ t ∈ body, t.kind ≠ .endOfText ∧ t.start < t.stop := by
  induction h with
  | done n => exact ⟨[], rfl, fun t ht => by cases ht⟩
  | gap _ _ ih =>
    obtain ⟨body, rfl, hbody⟩ := ih
    exact ⟨body, by rw [byteLength_cons, Nat.add_assoc], hbody⟩
  | @token n l cs ts kind ne_nil _ ih =>
    obtain ⟨body, rfl, hbody⟩ := ih
    refine ⟨l.toToken n :: body, by rw [byteLength_append, Nat.add_assoc]; rfl, ?_⟩
    refine List.forall_mem_cons.mpr ⟨⟨kind, ?_⟩, hbody⟩
    have := byteLength_pos ne_nil
    rw [start_toToken, stop_toToken]
    omega

theorem ne_nil (h : Layout n cs ts) : ts ≠ [] := by
  obtain ⟨body, rfl, -⟩ := h.closed
  exact List.append_ne_nil_of_right_ne_nil _ (List.cons_ne_nil _ _)

/-- The extent of a token stands in the text, where the token says. -/
theorem mem (h : Layout n cs ts) : ∀ t ∈ ts, ∃ before after,
    cs = before ++ t.extent ++ after ∧ n + byteLength before + t.margin = t.offset := by
  induction h with
  | done n =>
    intro t ht
    rw [List.mem_singleton] at ht
    subst ht
    exact ⟨[], [], rfl, rfl⟩
  | @gap n c cs ts _ _ ih =>
    intro t ht
    obtain ⟨before, after, rfl, hoffset⟩ := ih t ht
    exact ⟨c :: before, after, rfl, by rw [byteLength_cons, ← Nat.add_assoc]; exact hoffset⟩
  | @token n l cs ts _ _ _ ih =>
    intro t ht
    rcases List.mem_cons.mp ht with rfl | ht
    · exact ⟨[], cs, by rw [extent_toToken]; rfl, (offset_toToken l n).symm⟩
    · obtain ⟨before, after, rfl, hoffset⟩ := ih t ht
      refine ⟨l.extent ++ before, after, by simp only [List.append_assoc], ?_⟩
      rw [byteLength_append, ← Nat.add_assoc]
      exact hoffset

theorem start_ge (h : Layout n cs ts) : ∀ t ∈ ts, n ≤ t.start := by
  intro t ht
  obtain ⟨before, after, -, hoffset⟩ := h.mem t ht
  rw [start]
  omega

/-- Each token stops before the next ones start. -/
theorem pairwise (h : Layout n cs ts) : ts.Pairwise fun t u => t.stop ≤ u.start := by
  induction h with
  | done n => exact List.pairwise_singleton _ _
  | gap _ _ ih => exact ih
  | @token n l cs ts _ _ others ih =>
    refine List.pairwise_cons.mpr ⟨?_, ih⟩
    intro u hu
    rw [stop_toToken]
    exact others.start_ge u hu

/-- What no token takes up is a gap. -/
theorem covered (h : Layout n cs ts) (before : List Char) (c : Char) (after : List Char)
    (hcs : cs = before ++ c :: after) : isGap c = true ∨
      ∃ t ∈ ts, t.start ≤ n + byteLength before ∧ n + byteLength before < t.stop := by
  induction h generalizing before with
  | done n => simp at hcs
  | @gap n d cs ts gap _ ih =>
    cases before with
    | nil =>
      cases hcs
      exact .inl gap
    | cons b before =>
      cases hcs
      have := ih before rfl
      rwa [Nat.add_assoc] at this
  | @token n l cs ts _ _ _ ih =>
    by_cases hin : byteLength before < byteLength l.extent
    · refine .inr ⟨_, List.mem_cons_self, ?_⟩
      rw [start_toToken, stop_toToken]
      omega
    · -- the character stands after the extent, so in the text that is left
      rcases List.append_eq_append_iff.mp hcs with ⟨more, rfl, hmore⟩ | ⟨more, hextent, hmore⟩
      · rcases ih more hmore with hgap | ⟨t, ht, hstart, hstop⟩
        · exact .inl hgap
        · refine .inr ⟨t, List.mem_cons_of_mem _ ht, ?_⟩
          rw [byteLength_append]
          omega
      · -- no more of the extent is left after `before`, or it would hold the character
        obtain rfl : more = [] := by
          refine Classical.byContradiction fun hmore => ?_
          have := byteLength_pos hmore
          rw [hextent, byteLength_append] at hin
          omega
        rw [List.nil_append] at hmore
        rw [List.append_nil] at hextent
        rcases ih [] hmore.symm with hgap | ⟨t, ht, hstart, hstop⟩
        · exact .inl hgap
        · refine .inr ⟨t, List.mem_cons_of_mem _ ht, ?_⟩
          rw [← hextent]
          exact ⟨hstart, hstop⟩

/-- Gaps and extents in turn are the text. -/
theorem interleaved (h : Layout n cs ts) : ∃ gaps : List (List Char), gaps.length = ts.length ∧
    (∀ gap ∈ gaps, ∀ c ∈ gap, isGap c = true) ∧
    cs = (List.zipWith (fun gap t => gap ++ t.extent) gaps ts).flatten := by
  induction h with
  | done n => exact ⟨[[]], rfl, by simp, rfl⟩
  | @gap n c cs ts hc others ih =>
    obtain ⟨gaps, hlength, hgaps, htext⟩ := ih
    -- some token stops the gap, so the character can be put before it
    obtain ⟨t, ts, rfl⟩ := List.exists_cons_of_ne_nil others.ne_nil
    obtain ⟨g, gaps, rfl⟩ := List.exists_cons_of_length_eq_add_one hlength
    rw [List.forall_mem_cons] at hgaps
    refine ⟨(c :: g) :: gaps, hlength, ?_, ?_⟩
    · exact List.forall_mem_cons.mpr ⟨List.forall_mem_cons.mpr ⟨hc, hgaps.1⟩, hgaps.2⟩
    · rw [htext]
      rfl
  | @token n l cs ts _ _ _ ih =>
    obtain ⟨gaps, hlength, hgaps, htext⟩ := ih
    refine ⟨[] :: gaps, congrArg (· + 1) hlength, ?_, ?_⟩
    · exact List.forall_mem_cons.mpr ⟨fun _ hc => absurd hc List.not_mem_nil, hgaps⟩
    · rw [List.zipWith_cons_cons, List.flatten_cons, extent_toToken, List.nil_append, ← htext]

end Layout

/-! ## The tokens of a text -/

theorem layout_ofText (text : String) : Layout 0 text.toList (ofText text) :=
  layout_listFrom 0 false text.toList

/-- **Tokens and gaps are the text.**  The last token, and no other, is the mark of the end.  Every
literal and every extent stands in the text where its token says, the extents one after another and
none of them empty but that of the mark.  What is in no extent is a gap, and gaps and extents in turn
give the text back. -/
theorem ofText_covers (text : String) :
    ofText text = (ofText text).dropLast ++ [atEnd text.utf8ByteSize] ∧
    (∀ t ∈ (ofText text).dropLast, t.kind ≠ .endOfText ∧ t.start < t.stop) ∧
    (∀ t ∈ ofText text,
      Between text.toList t.offset (t.offset + t.literal.utf8ByteSize) t.literal.toList ∧
      Between text.toList t.start t.stop t.extent) ∧
    (ofText text).Pairwise (fun t u => t.stop ≤ u.start) ∧
    (∀ before c after, text.toList = before ++ c :: after → isGap c = true ∨
      ∃ t ∈ ofText text, t.start ≤ byteLength before ∧ byteLength before < t.stop) ∧
    ∃ gaps : List (List Char), gaps.length = (ofText text).length ∧
      (∀ gap ∈ gaps, ∀ c ∈ gap, isGap c = true) ∧
      text.toList = (List.zipWith (fun gap t => gap ++ t.extent) gaps (ofText text)).flatten := by
  have hlayout := layout_ofText text
  obtain ⟨body, hbody, hkinds⟩ := hlayout.closed
  rw [byteLength_toList, Nat.zero_add] at hbody
  have hdrop : (ofText text).dropLast = body := by rw [hbody, List.dropLast_concat]
  refine ⟨by rw [hdrop, hbody], hdrop ▸ hkinds, ?_, hlayout.pairwise, ?_, hlayout.interleaved⟩
  · intro t ht
    obtain ⟨before, after, htext, hoffset⟩ := hlayout.mem t ht
    rw [Nat.zero_add] at hoffset
    exact ⟨between_literal htext hoffset, between_extent htext hoffset⟩
  · intro before c after htext
    have := hlayout.covered before c after htext
    rwa [Nat.zero_add] at this

end Token

end Parlance
