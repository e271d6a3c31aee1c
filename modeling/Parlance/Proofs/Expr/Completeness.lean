import Parlance.Proofs.Expr.Grammar
import Parlance.Proofs.Expr.Reading

/-!
# Every expression of the grammar is read

An expression of level `m` is read on from in the same way whether the reading has it as its
operand or reads its tokens: that is what `derives_reads` says, of every reading that goes on with
joiners of level `m` or less.  What may come next after an expression of level `m` is

* `Follow m ts`   a joiner that binds less tightly than `m`, or an operator of strength `m` that
                  joins from the left.

The recursion is on the derivation; the expressions in brackets are read at level 0, and their
bracket is no joiner.
-/

namespace Parlance.Grammar

open Parlance.Expr Parlance.Reply

variable {m n : Nat} {ts us rest : List Token} {e : Expr}

/-! ## What may come next -/

/-- What comes next joins an expression of level `m` from the right, if it joins it at all. -/
def Follow (m : Nat) (ts : List Token) : Prop :=
  ∀ j, nextJoiner? ts = some j →
    j.strength < m ∨ ∃ op : BinaryOp, j = .binary op ∧ op ≠ .pow ∧ op.strength = m

theorem Follow.of_stops (h : Stops m ts) : Follow m ts := fun j hj => Or.inl (h j hj)

theorem Follow.mono (h : Follow m ts) (hmn : m ≤ n) : Follow n ts := by
  intro j hj
  rcases h j hj with hlt | ⟨op, rfl, hpow, rfl⟩
  · exact Or.inl (Nat.lt_of_lt_of_le hlt hmn)
  · rcases Nat.lt_or_eq_of_le hmn with hlt | rfl
    · exact Or.inl hlt
    · exact Or.inr ⟨op, rfl, hpow, rfl⟩

theorem Follow.stops_succ (h : Follow m ts) : Stops (m + 1) ts := by
  intro j hj
  rcases h j hj with hlt | ⟨op, rfl, hpow, rfl⟩
  · exact Nat.lt_succ_of_lt hlt
  · exact Nat.lt_succ_self _

/-- At a level of which no operator joins from the left only what binds less tightly comes next. -/
theorem Follow.stops (h : Follow m ts) (hm : ∀ op : BinaryOp, op ≠ .pow → op.strength ≠ m) :
    Stops m ts := by
  intro j hj
  rcases h j hj with hlt | ⟨op, rfl, hpow, heq⟩
  · exact hlt
  · exact absurd heq (hm op hpow)

theorem ofKind?_of_kind {t : Token} {s : Symbol} (h : t.kind = .symbol s) :
    Joiner.ofKind? t.kind = Joiner.ofSymbol? s := by
  rw [h]
  rfl

theorem stops_of_ofKind?_none {t : Token} (h : Joiner.ofKind? t.kind = none) (m : Nat)
    (us : List Token) : Stops m (t :: us) := by
  intro j hj
  rw [nextJoiner?, h] at hj
  cases hj

theorem stops_cons {t : Token} {j : Joiner} (hj : Joiner.ofKind? t.kind = some j)
    (h : j.strength < m) (us : List Token) : Stops m (t :: us) := by
  intro j' hj'
  obtain rfl : j = j' := Option.some.inj (hj.symm.trans hj')
  exact h

theorem follow_cons {t : Token} {j : Joiner} (hj : Joiner.ofKind? t.kind = some j)
    (h : j.strength < m) (us : List Token) : Follow m (t :: us) := by
  intro j' hj'
  rw [nextJoiner?, hj] at hj'
  cases hj'
  exact Or.inl h

theorem follow_cons_left {t : Token} {op : BinaryOp}
    (hj : Joiner.ofKind? t.kind = some (.binary op)) (hpow : op ≠ .pow) (us : List Token) :
    Follow op.strength (t :: us) := by
  intro j' hj'
  rw [nextJoiner?, hj] at hj'
  cases hj'
  exact Or.inr ⟨op, rfl, hpow, rfl⟩

/-- the marks at which an expression in brackets ends -/
def Closer (k : TokenKind) : Prop :=
  k = .symbol .rightParen ∨ k = .symbol .rightSquare ∨ k = .symbol .colon

theorem Closer.ofKind?_eq_none {k : TokenKind} (h : Closer k) : Joiner.ofKind? k = none := by
  rcases h with rfl | rfl | rfl <;> rfl

theorem Closer.ne_comma {k : TokenKind} (h : Closer k) : k ≠ .symbol .comma := by
  rcases h with rfl | rfl | rfl <;> decide

/-! ## Steps of a reading -/

section
variable (stop : Token)

theorem readExpr_closer {t : Token} (h : Closer t.kind) (min : Nat) (us : List Token) :
    (readExpr stop min (t :: us)).result? = none := by
  have hunary : unaryOf? t.kind = none := by
    rcases h with h | h | h <;> rw [h] <;> rfl
  rw [readExpr_result, readOperand_primary stop hunary, readPrimary, result?_within]
  rcases h with h | h | h <;> simp only [h] <;> rfl

theorem after?_of_readExpr {k : TokenKind} (hk : Closer k) {min : Nat} {p : Expr × List Token}
    (h : (readExpr stop min ts).result? = some p) : after? k ts = none := by
  cases ts with
  | nil => rfl
  | cons t us =>
    refine if_neg ?_
    rintro rfl
    rw [readExpr_closer stop hk] at h
    cases h

theorem readItems_item {k : TokenKind} (hk : Closer k) {p : Problem}
    (h : (readExpr stop 0 ts).result? = some (e, rest)) :
    (readItems stop k p ts).result? =
      match after? (.symbol .comma) rest with
      | some us => (readItems stop k p us).result?.map fun (es, vs) => (e :: es, vs)
      | none => (after? k rest).map fun us => ([e], us) := by
  rw [readItems_result, after?_of_readExpr stop hk h]
  dsimp only
  rw [readItemsOn_result, h]
  rfl

/-- The tokens `us` are read as the bound `o` of a slice, which the token `c` ends. -/
def ReadsBound (us : List Token) (c : Token) (rest : List Token) : Option Expr → Prop
  | none => us = []
  | some e => (readExpr stop 0 (us ++ c :: rest)).result? = some (e, c :: rest)

theorem readBracket_bound {lo : Option Expr} {c : Token} (colon : c.kind = .symbol .colon)
    (h : ReadsBound stop us c rest lo) (base : Expr) :
    (readBracket stop (.ok base) (us ++ c :: rest)).result? =
      (readSlice stop (.ok base) (lo.map .ok) rest).result? := by
  cases lo with
  | none =>
    obtain rfl : us = [] := h
    simp only [List.nil_append, readBracket_result, after?_cons_of_eq colon, Option.map_none]
  | some e =>
    rw [ReadsBound] at h
    have hfirst := after?_of_readExpr stop (Or.inr (Or.inr rfl)) h
    simp only [readBracket_result, hfirst, h, Option.bind_some, after?_cons_of_eq colon,
      Option.map_some]

theorem readSlice_bound {hi : Option Expr} {r : Token} (right : r.kind = .symbol .rightSquare)
    (h : ReadsBound stop us r rest hi) (base : Expr) (lo : Option Expr) :
    (readSlice stop (.ok base) (lo.map .ok) (us ++ r :: rest)).result? =
      some (.slice base lo hi, rest) := by
  cases hi with
  | none =>
    obtain rfl : us = [] := h
    simp only [List.nil_append, readSlice_result, after?_cons_of_eq right]
  | some e =>
    rw [ReadsBound] at h
    have hfirst := after?_of_readExpr stop (Or.inr (Or.inl rfl)) h
    simp only [readSlice_result, hfirst, h, Option.bind_some, after?_cons_of_eq right,
      Option.map_some]

theorem readJoined_step {t : Token} {j : Joiner} {min : Nat} {chained : Bool} {e' : Expr}
    (hj : Joiner.ofKind? t.kind = some j) (hmin : min ≤ j.strength)
    (h : (readAfter stop j chained (.ok e) us).result? = some (e', rest)) :
    (readJoined stop min chained (.ok e) (t :: us)).result? =
      (readJoined stop min j.isCompare (.ok e') rest).result? := by
  rw [readJoined_cons stop hj hmin, h]
  rfl

/-- An expression before a token that is no joiner ends there. -/
theorem readExpr_before {c : Token} (hc : Joiner.ofKind? c.kind = none) (rest : List Token)
    (h : Follow 0 (c :: rest) → (readExpr stop 0 (us ++ c :: rest)).result? =
      (readJoined stop 0 false (.ok e) (c :: rest)).result?) :
    (readExpr stop 0 (us ++ c :: rest)).result? = some (e, c :: rest) := by
  have hstops := stops_of_ofKind?_none hc 0 rest
  rw [h (Follow.of_stops hstops), readJoined_stop stop hstops]

/-- That the operand is a chain matters to a comparison only. -/
theorem readJoined_chained {min : Nat}
    (h : ∀ j, nextJoiner? ts = some j → j.isCompare = false) (e : Expr) :
    (readJoined stop min true (.ok e) ts).result? =
      (readJoined stop min false (.ok e) ts).result? := by
  cases ts with
  | nil =>
    rw [readJoined, readJoined]
  | cons t us =>
    cases hj : Joiner.ofKind? t.kind with
    | none =>
      have hstops := stops_of_ofKind?_none hj min us
      rw [readJoined_stop stop hstops, readJoined_stop stop hstops]
    | some j =>
      rcases Nat.lt_or_ge j.strength min with hlt | hge
      · have hstops : Stops min (t :: us) := by
          intro j' hj'
          obtain rfl : j = j' := Option.some.inj (hj.symm.trans hj')
          exact hlt
        rw [readJoined_stop stop hstops, readJoined_stop stop hstops]
      · rw [readJoined_cons stop hj hge, readJoined_cons stop hj hge]
        have hcompare := h j hj
        cases j with
        | compare op => cases hcompare
        | _ => rw [readAfter, readAfter]

/-! ## Derivations are read

The recursion is on the derivations, which is why they are matched on and not split by `cases`. -/

theorem bracketStrength_ne {op : BinaryOp} : op.strength ≠ Joiner.bracketStrength := by
  cases op <;> decide

theorem pow_strength_ne {op : BinaryOp} (h : op ≠ .pow) :
    op.strength ≠ BinaryOp.pow.strength := by
  cases op with
  | pow => exact absurd rfl h
  | _ => decide

theorem assignStrength_ne {op : BinaryOp} : op.strength ≠ Joiner.assignStrength := by
  cases op <;> decide

theorem ternaryStrength_ne {op : BinaryOp} : op.strength ≠ Joiner.ternaryStrength := by
  cases op <;> decide

theorem strength_lt_bracketStrength (op : BinaryOp) : op.strength < Joiner.bracketStrength := by
  cases op <;> decide

mutual

theorem Primary.reads {us : List Token} {e : Expr} (h : Primary us e) (rest : List Token) :
    (readOperand stop (us ++ rest)).result? = some (e, rest) := by
  match h with
  | @Primary.number t _ kind value =>
    rw [List.singleton_append, readOperand_primary stop (by rw [kind]; rfl), readPrimary]
    simp only [kind, result?_within]
    rw [readNumber_result, value]
    rfl
  | @Primary.string t kind =>
    rw [List.singleton_append, readOperand_primary stop (by rw [kind]; rfl), readPrimary]
    simp only [kind]
    rfl
  | @Primary.char t _ kind value =>
    rw [List.singleton_append, readOperand_primary stop (by rw [kind]; rfl), readPrimary]
    simp only [kind, result?_within]
    rw [readChar_result, value]
    rfl
  | @Primary.bool t kind =>
    rw [List.singleton_append, readOperand_primary stop (by rw [kind]; rfl), readPrimary]
    simp only [kind]
    rfl
  | @Primary.name t kind =>
    rw [List.singleton_append, readOperand_primary stop (by rw [kind]; rfl), readPrimary]
    simp only [kind]
    rfl
  | @Primary.context d t dollar kind =>
    rw [List.cons_append, readOperand_primary stop (by rw [dollar]; rfl), readPrimary]
    simp only [dollar, result?_within]
    rw [readVariable_result]
    simp only [List.singleton_append, kind]
  | @Primary.arg d t n dollar kind value =>
    rw [List.cons_append, readOperand_primary stop (by rw [dollar]; rfl), readPrimary]
    simp only [dollar, result?_within]
    rw [readVariable_result]
    simp only [List.singleton_append, kind, value, Option.map_some]
  | @Primary.paren l r us _ left inner right =>
    have hright : Joiner.ofKind? r.kind = none := ofKind?_of_kind right
    have hinner := readExpr_before stop hright rest (inner.reads (Nat.le_refl 0) (Nat.zero_le _))
    rw [List.cons_append, List.cons_append, List.append_assoc, List.singleton_append,
      readOperand_primary stop (by rw [left]; rfl), readPrimary_paren stop left, hinner]
    simp only [Option.bind_some, after?_cons_of_eq right, Option.map_some]
  | @Primary.list l r us es left items right =>
    have hitems := items.reads (Or.inr (Or.inl rfl)) right .noListMark rest
    rw [List.cons_append, List.cons_append, List.append_assoc, List.singleton_append,
      readOperand_primary stop (by rw [left]; rfl), readPrimary_list stop left, hitems]
    rfl

theorem Items.reads {us : List Token} {es : List Expr} (h : Items us es) {k : TokenKind}
    (hk : Closer k) {r : Token} (close : r.kind = k) (p : Problem) (rest : List Token) :
    (readItems stop k p (us ++ r :: rest)).result? = some (es, rest) := by
  have hclose : Joiner.ofKind? r.kind = none := by
    rw [close]
    exact hk.ofKind?_eq_none
  match h with
  | .none =>
    simp only [List.nil_append, readItems_result, after?_cons_of_eq close]
  | @Items.last _ e item =>
    have hitem := readExpr_before stop hclose rest (item.reads (Nat.le_refl 0) (Nat.zero_le _))
    have hcomma : r.kind ≠ .symbol .comma := by
      rw [close]
      exact hk.ne_comma
    simp only [readItems_item stop hk hitem, after?_cons_of_ne hcomma, after?_cons_of_eq close,
      Option.map_some]
  | @Items.more us vs e es c item comma others =>
    have hothers := others.reads hk close p rest
    have hcomma : Joiner.ofKind? c.kind = none := ofKind?_of_kind comma
    have hitem := readExpr_before stop hcomma (vs ++ r :: rest)
      (item.reads (Nat.le_refl 0) (Nat.zero_le _))
    rw [List.append_assoc, List.cons_append]
    simp only [readItems_item stop hk hitem, after?_cons_of_eq comma, hothers, Option.map_some]

theorem Bound.reads {us : List Token} {o : Option Expr} (h : Bound us o) {c : Token}
    (hc : Joiner.ofKind? c.kind = none) (rest : List Token) : ReadsBound stop us c rest o := by
  match h with
  | .none => rfl
  | .some bound =>
    exact readExpr_before stop hc rest (bound.reads (Nat.le_refl 0) (Nat.zero_le _))

theorem Postfixed.reads {us : List Token} {e : Expr} (h : Postfixed us e) {min : Nat}
    (hb : min ≤ Joiner.bracketStrength) (rest : List Token) :
    (readExpr stop min (us ++ rest)).result? =
      (readJoined stop min false (.ok e) rest).result? := by
  match h with
  | @Postfixed.primary us e primary =>
    rw [readExpr_result, primary.reads rest]
    rfl
  | @Postfixed.member us e d t base dot kind =>
    have hj : Joiner.ofKind? d.kind = some .member := ofKind?_of_kind dot
    have hafter : (readAfter stop .member false (.ok e) (t :: rest)).result? =
        some (.member e t.literal, rest) := by
      rw [readAfter, readMember_result]
      exact if_pos kind
    rw [List.append_assoc, base.reads hb]
    exact readJoined_step stop hj (Nat.le_trans hb (by decide)) hafter
  | @Postfixed.call us vs e es l r callee left args right =>
    have hj : Joiner.ofKind? l.kind = some .call := ofKind?_of_kind left
    have hafter : (readAfter stop .call false (.ok e) (vs ++ r :: rest)).result? =
        some (.call e es, rest) := by
      rw [readAfter_call, args.reads (Or.inl rfl) right]
      rfl
    rw [List.append_assoc, callee.reads hb, List.cons_append, List.append_assoc]
    exact readJoined_step stop hj (Nat.le_trans hb (by decide)) hafter
  | @Postfixed.subscript us vs e i l r base left index right =>
    have hj : Joiner.ofKind? l.kind = some .bracket := ofKind?_of_kind left
    have hright : Joiner.ofKind? r.kind = none := ofKind?_of_kind right
    have hindex := readExpr_before stop hright rest (index.reads (Nat.le_refl 0) (Nat.zero_le _))
    have hcolon : r.kind ≠ .symbol .colon := by
      rw [right]
      decide
    have hafter : (readAfter stop .bracket false (.ok e) (vs ++ r :: rest)).result? =
        some (.subscript e i, rest) := by
      rw [readAfter]
      simp only [readBracket_result, after?_of_readExpr stop (Or.inr (Or.inr rfl)) hindex, hindex,
        Option.bind_some, after?_cons_of_ne hcolon, after?_cons_of_eq right, Option.map_some]
    rw [List.append_assoc, base.reads hb, List.cons_append, List.append_assoc]
    exact readJoined_step stop hj hb hafter
  | @Postfixed.slice us vs ws e lo hi l c r base left start colon bound right =>
    have hj : Joiner.ofKind? l.kind = some .bracket := ofKind?_of_kind left
    have hcolon : Joiner.ofKind? c.kind = none := ofKind?_of_kind colon
    have hright : Joiner.ofKind? r.kind = none := ofKind?_of_kind right
    have hafter : (readAfter stop .bracket false (.ok e) (vs ++ c :: (ws ++ r :: rest))).result? =
        some (.slice e lo hi, rest) := by
      rw [readAfter, readBracket_bound stop colon (start.reads hcolon _),
        readSlice_bound stop right (bound.reads hright _)]
    rw [List.append_assoc, base.reads hb, List.cons_append, List.append_assoc, List.cons_append,
      List.append_assoc]
    exact readJoined_step stop hj hb hafter

theorem Chain.reads {us : List Token} {es : List Expr} {ops : List CompareOp} (h : Chain us es ops)
    {min : Nat} (hmin : min ≤ Joiner.compareStrength) {rest : List Token}
    (hs : Stops (Joiner.compareStrength + 1) rest) :
    (readExpr stop min (us ++ rest)).result? =
      (readJoined stop min true (.ok (.comparison es ops)) rest).result? := by
  match h with
  | @Chain.pair us vs x y t op lhs joiner rhs =>
    have hstep : (readAfter stop (.compare op) false (.ok x) (vs ++ rest)).result? =
        some (.comparison [x, y] [op], rest) := by
      rw [readAfter_compare, rhs.reads (Nat.le_refl _) (by decide) (Follow.of_stops hs),
        readJoined_stop stop hs]
      rfl
    rw [List.append_assoc, List.cons_append, lhs.reads (Nat.le_succ_of_le hmin)
      (Nat.le_trans hmin (by decide)) (follow_cons joiner (Nat.lt_succ_self _) _)]
    exact readJoined_step stop joiner hmin hstep
  | @Chain.more us vs es ops y t op lhs joiner rhs =>
    have hstep :
        (readAfter stop (.compare op) true (.ok (.comparison es ops)) (vs ++ rest)).result? =
          some (.comparison (es ++ [y]) (ops ++ [op]), rest) := by
      rw [readAfter_compare, rhs.reads (Nat.le_refl _) (by decide) (Follow.of_stops hs),
        readJoined_stop stop hs]
      rfl
    rw [List.append_assoc, List.cons_append,
      lhs.reads hmin (stops_cons joiner (Nat.lt_succ_self _) _)]
    exact readJoined_step stop joiner hmin hstep

theorem Derives.reads {m : Nat} {us : List Token} {e : Expr} (h : Derives m us e) {min : Nat}
    (hmin : min ≤ m) (hb : min ≤ Joiner.bracketStrength) {rest : List Token}
    (hf : Follow m rest) :
    (readExpr stop min (us ++ rest)).result? =
      (readJoined stop min false (.ok e) rest).result? := by
  match h with
  | .postfixed postfixed => exact postfixed.reads hb rest
  | @Derives.unary m us e t op level kind operand =>
    -- no operator has the strength of brackets, so that nothing goes on with the operand alone
    have hf' := hf.mono level
    have hs := hf'.stops fun op _ => bracketStrength_ne
    have hoperand :
        (readExpr stop Joiner.bracketStrength (us ++ rest)).result? = some (e, rest) := by
      rw [operand.reads (Nat.le_refl _) (Nat.le_refl _) hf', readJoined_stop stop hs]
    rw [List.cons_append, readExpr_result, readOperand_unary stop kind, hoperand]
    rfl
  | @Derives.binary m us vs x y t op level left lhs joiner rhs =>
    have hs : Stops (op.strength + 1) rest := (hf.mono level).stops_succ
    have hrhs : (readExpr stop (op.strength + 1) (vs ++ rest)).result? = some (y, rest) := by
      rw [rhs.reads (Nat.le_refl _) (strength_lt_bracketStrength op) (Follow.of_stops hs),
        readJoined_stop stop hs]
    have hstep : (readAfter stop (.binary op) false (.ok x) (vs ++ rest)).result? =
        some (.binary op x y, rest) := by
      rw [readAfter_binary, if_neg left, hrhs]
      rfl
    rw [List.append_assoc, List.cons_append,
      lhs.reads (Nat.le_trans hmin level) hb (follow_cons_left joiner left _)]
    exact readJoined_step stop joiner (Nat.le_trans hmin level) hstep
  | @Derives.power m us vs x y t level lhs joiner rhs =>
    have hf' := hf.mono level
    have hs := hf'.stops fun op hop => pow_strength_ne hop
    have hrhs : (readExpr stop BinaryOp.pow.strength (vs ++ rest)).result? = some (y, rest) := by
      rw [rhs.reads (Nat.le_refl _) (by decide) hf', readJoined_stop stop hs]
    have hstep : (readAfter stop (.binary .pow) false (.ok x) (vs ++ rest)).result? =
        some (.binary .pow x y, rest) := by
      rw [readAfter_binary, if_pos rfl, hrhs]
      rfl
    have hmin' := Nat.le_trans hmin level
    rw [List.append_assoc, List.cons_append,
      lhs.reads (Nat.le_succ_of_le hmin') hb (follow_cons joiner (Nat.lt_succ_self _) _)]
    exact readJoined_step stop joiner hmin' hstep
  | @Derives.assign m us vs x y t op level place joiner value =>
    have hf' := hf.mono level
    have hs := hf'.stops fun op _ => assignStrength_ne
    have hvalue : (readExpr stop Joiner.assignStrength (vs ++ rest)).result? = some (y, rest) := by
      rw [value.reads (Nat.le_refl _) (by decide) hf', readJoined_stop stop hs]
    have hstep : (readAfter stop (.assign op) false (.ok x) (vs ++ rest)).result? =
        some (.assign op x y, rest) := by
      rw [readAfter_assign, hvalue]
      rfl
    have hmin' := Nat.le_trans hmin level
    rw [List.append_assoc, List.cons_append,
      place.reads (Nat.le_succ_of_le hmin') hb (follow_cons joiner (Nat.lt_succ_self _) _)]
    exact readJoined_step stop joiner hmin' hstep
  | @Derives.chain m us es ops level chain =>
    have hs : Stops (Joiner.compareStrength + 1) rest := (hf.mono level).stops_succ
    rw [chain.reads (Nat.le_trans hmin level) hs]
    -- a comparison after the chain would be a part of it
    refine readJoined_chained stop ?_ _
    intro j hj
    rcases hf.mono level j hj with hlt | ⟨op, rfl, hpow, heq⟩
    · cases j with
      | compare op => exact absurd hlt (Nat.lt_irrefl _)
      | _ => rfl
    · rfl
  | @Derives.ternary m us vs ws x y z q c level cond question yes colon no =>
    have hj : Joiner.ofKind? q.kind = some .ternary := ofKind?_of_kind question
    have hcolon : Joiner.ofKind? c.kind = none := ofKind?_of_kind colon
    have hyes := readExpr_before stop hcolon (ws ++ rest)
      (yes.reads (Nat.le_refl 0) (Nat.zero_le _))
    have hf' := hf.mono level
    have hs := hf'.stops fun op _ => ternaryStrength_ne
    have hno : (readExpr stop Joiner.ternaryStrength (ws ++ rest)).result? = some (z, rest) := by
      rw [no.reads (Nat.le_refl _) (by decide) hf', readJoined_stop stop hs]
    have hstep : (readAfter stop .ternary false (.ok x) (vs ++ c :: (ws ++ rest))).result? =
        some (.ternary x y z, rest) := by
      rw [readAfter, readTernary_result, hyes]
      simp only [Option.bind_some, after?_cons_of_eq colon, hno, Option.map_some]
    have hmin' := Nat.le_trans hmin level
    rw [List.append_assoc, List.cons_append, List.append_assoc, List.cons_append,
      cond.reads (Nat.le_succ_of_le hmin') hb (follow_cons hj (Nat.lt_succ_self _) _)]
    exact readJoined_step stop hj hmin' hstep

end

end

end Parlance.Grammar
