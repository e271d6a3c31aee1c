import Parlance.Proofs.Expr.Grammar
import Parlance.Proofs.Expr.Reading

/-!
# What is read is an expression of the grammar

The invariant of the loop over joiners:

* `Fits chained us e j`         the tokens `us` before the joiner `j` are such as it joins from the
                                left, where `chained` says that they are a chain still open;
* `Ready min chained us e ts`   `us` are an expression of level `min`, and fit what comes next.

A step keeps a reading ready, because an operand is only left when what comes next binds less
tightly than the level at which it was read.  The recursion is on the number of tokens: `Sound ts`
says of every reading of `ts` that it is right, and each function is right on the tokens that it
gets if all readings of fewer tokens are.
-/

namespace Parlance.Grammar

open Parlance.Expr Parlance.Reply

variable {m n : Nat} {ts us rest : List Token} {e : Expr}

/-! ## Joiners and levels -/

/-- the level of what a joiner joins from the left -/
def leftLevel : Joiner → Nat
  | .binary op => if op = .pow then op.strength + 1 else op.strength
  | j => j.strength + 1

theorem leftLevel_le (j : Joiner) : leftLevel j ≤ j.strength + 1 := by
  cases j with
  | binary op =>
    rw [leftLevel]
    split
    · exact Nat.le_refl _
    · exact Nat.le_succ _
  | _ => exact Nat.le_refl _

theorem leftLevel_of_strength_eq {op : BinaryOp} (hpow : op ≠ .pow) {j : Joiner}
    (h : j.strength = op.strength) : leftLevel j = op.strength := by
  cases j with
  | binary op' =>
    have hpow' : op' ≠ .pow := by
      rintro rfl
      revert h hpow
      cases op <;> decide
    rw [leftLevel, if_neg hpow']
    exact h
  | _ =>
    revert h
    cases op <;> intro h <;> cases h

theorem isCompare_of_strength_eq {j : Joiner} (h : j.strength = Joiner.compareStrength) :
    j.isCompare = true := by
  cases j with
  | binary op =>
    revert h
    cases op <;> decide
  | compare op => rfl
  | _ => cases h

theorem kind_of_ofKind? {k : TokenKind} {j : Joiner} (h : Joiner.ofKind? k = some j) :
    match j with
    | .member => k = .symbol .dot
    | .call => k = .symbol .leftParen
    | .bracket => k = .symbol .leftSquare
    | .ternary => k = .symbol .question
    | _ => True := by
  cases k with
  | symbol s => cases s <;> cases h <;> trivial
  | _ => cases h

/-- Where the tokens `us` of `e` are joined by `j`, they are such as it joins from the left. -/
def Fits (chained : Bool) (us : List Token) (e : Expr) : Joiner → Prop
  | .member | .call | .bracket => Postfixed us e
  | .compare op =>
    if chained then ∃ es ops, e = .comparison es ops ∧ Chain us es ops
    else Derives (leftLevel (.compare op)) us e
  | j => Derives (leftLevel j) us e

theorem fits_of_postfixed (h : Postfixed us e) (j : Joiner) : Fits false us e j := by
  cases j with
  | member | call | bracket => exact h
  | _ => exact .postfixed h

theorem fits_of_derives (h : Derives n us e) {j : Joiner} (hj : j.strength < Joiner.bracketStrength)
    (hn : leftLevel j ≤ n) : Fits false us e j := by
  cases j with
  | member | call | bracket => exact absurd hj (by decide)
  | _ => exact h.mono hn

/-- The tokens `us` of `e` are an expression of level `min`, and fit a joiner that comes next. -/
structure Ready (min : Nat) (chained : Bool) (us : List Token) (e : Expr) (ts : List Token) :
    Prop where
  derives : Derives min us e
  fits : ∀ j, nextJoiner? ts = some j → min ≤ j.strength → Fits chained us e j

theorem ready_of_postfixed (h : Postfixed us e) (min : Nat) (ts : List Token) :
    Ready min false us e ts :=
  ⟨.postfixed h, fun j _ _ => fits_of_postfixed h j⟩

theorem ready_of_stops {min : Nat} (h : Derives n us e) (hmin : min ≤ n)
    (hn : n ≤ Joiner.bracketStrength) (hs : Stops n ts) : Ready min false us e ts := by
  refine ⟨h.mono hmin, ?_⟩
  intro j hj _
  have hlt := hs j hj
  exact fits_of_derives h (Nat.lt_of_lt_of_le hlt hn) (Nat.le_trans (leftLevel_le j) hlt)

theorem ready_of_binary {op : BinaryOp} (hpow : op ≠ .pow) {min : Nat}
    (h : Derives op.strength us e) (hmin : min ≤ op.strength) (hs : Stops (op.strength + 1) ts) :
    Ready min false us e ts := by
  refine ⟨h.mono hmin, ?_⟩
  intro j hj _
  have hle : j.strength ≤ op.strength := Nat.le_of_lt_succ (hs j hj)
  have hlt : j.strength < Joiner.bracketStrength :=
    Nat.lt_of_le_of_lt hle (by cases op <;> decide)
  refine fits_of_derives h hlt ?_
  rcases Nat.lt_or_eq_of_le hle with hlt | heq
  · exact Nat.le_trans (leftLevel_le j) hlt
  · exact Nat.le_of_eq (leftLevel_of_strength_eq hpow heq)

theorem ready_of_chain {es : List Expr} {ops : List CompareOp} {min : Nat} (h : Chain us es ops)
    (hmin : min ≤ Joiner.compareStrength) (hs : Stops (Joiner.compareStrength + 1) ts) :
    Ready min true us (.comparison es ops) ts := by
  refine ⟨.chain hmin h, ?_⟩
  intro j hj _
  cases hcompare : j.isCompare with
  | true =>
    cases j with
    | compare op => exact ⟨es, ops, rfl, h⟩
    | _ => cases hcompare
  | false =>
    have hlt : j.strength < Joiner.compareStrength := by
      rcases Nat.lt_or_eq_of_le (Nat.le_of_lt_succ (hs j hj)) with hlt | heq
      · exact hlt
      · rw [isCompare_of_strength_eq heq] at hcompare
        cases hcompare
    -- what is no comparison takes the chain as any other expression of its level
    have hfits : Fits false us (.comparison es ops) j :=
      fits_of_derives (.chain (Nat.le_refl _) h) (Nat.lt_trans hlt (by decide))
        (Nat.le_trans (leftLevel_le j) hlt)
    cases j with
    | compare op => cases hcompare
    | _ => exact hfits

/-! ## The reading functions -/

theorem after?_eq_some_iff {k : TokenKind} :
    after? k ts = some us ↔ ∃ t, ts = t :: us ∧ t.kind = k := by
  constructor
  · intro h
    cases ts with
    | nil => cases h
    | cons t vs =>
      rw [after?] at h
      split at h
      · rename_i hk
        cases h
        exact ⟨t, rfl, hk⟩
      · cases h
  · rintro ⟨t, rfl, hk⟩
    exact after?_cons_of_eq hk us

/-- What any reading of the tokens `ts` has read is an expression of its level. -/
def Sound (stop : Token) (ts : List Token) : Prop :=
  ∀ min, min ≤ Joiner.bracketStrength → ∀ e rest,
    (readExpr stop min ts).result? = some (e, rest) →
      ∃ us, ts = us ++ rest ∧ Derives min us e ∧ Stops min rest

theorem readVariable_sound {stop d : Token} (dollar : d.kind = .symbol .dollar)
    (h : (readVariable stop ts).result? = some (e, rest)) :
    ∃ us, d :: ts = us ++ rest ∧ Primary us e := by
  rw [readVariable_result] at h
  split at h
  · cases h
  · rename_i t us
    split at h
    · rename_i hkind
      cases h
      exact ⟨[d, t], rfl, .context dollar hkind⟩
    · rename_i hkind
      obtain ⟨n, hvalue, heq⟩ := Option.map_eq_some_iff.mp h
      cases heq
      exact ⟨[d, t], rfl, .arg dollar hkind hvalue⟩
    · cases h

section
variable {stop : Token} (hsound : ∀ ts : List Token, ts.length < n → Sound stop ts)
include hsound

theorem readItems_sound {k : TokenKind} {p : Problem} {es : List Expr} {ts rest : List Token}
    (hlt : ts.length < n) (h : (readItems stop k p ts).result? = some (es, rest)) :
    ∃ us r, ts = us ++ r :: rest ∧ Items us es ∧ r.kind = k := by
  rw [readItems_result] at h
  split at h
  · rename_i us hclose
    cases h
    obtain ⟨r, rfl, hr⟩ := after?_eq_some_iff.mp hclose
    exact ⟨[], r, rfl, .none, hr⟩
  · rw [readItemsOn_result] at h
    obtain ⟨⟨e, mid⟩, he, hmid⟩ := Option.bind_eq_some_iff.mp h
    obtain ⟨us, hts, hitem, -⟩ := hsound ts hlt 0 (Nat.zero_le _) e mid he
    dsimp only at hmid
    split at hmid
    · rename_i vs hcomma
      obtain ⟨c, rfl, hc⟩ := after?_eq_some_iff.mp hcomma
      obtain ⟨⟨es', rest'⟩, hitems, heq⟩ := Option.map_eq_some_iff.mp hmid
      cases heq
      have hshort : vs.length < ts.length := by
        rw [hts, List.length_append, List.length_cons]
        omega
      obtain ⟨ws, r, rfl, hothers, hr⟩ := readItems_sound (Nat.lt_trans hshort hlt) hitems
      exact ⟨us ++ c :: ws, r, by simp [hts], .more hitem hc hothers, hr⟩
    · obtain ⟨vs, hclose, heq⟩ := Option.map_eq_some_iff.mp hmid
      cases heq
      obtain ⟨r, rfl, hr⟩ := after?_eq_some_iff.mp hclose
      exact ⟨us, r, hts, .last hitem, hr⟩
termination_by ts.length
decreasing_by exact hshort

theorem readSlice_sound {base : Expr} (lo : Option Expr) (hlt : ts.length < n)
    (h : (readSlice stop (.ok base) (lo.map .ok) ts).result? = some (e, rest)) :
    ∃ us r hi, ts = us ++ r :: rest ∧ Bound us hi ∧ r.kind = .symbol .rightSquare ∧
      e = .slice base lo hi := by
  rw [readSlice_result] at h
  split at h
  · rename_i us hright
    cases h
    obtain ⟨r, rfl, hr⟩ := after?_eq_some_iff.mp hright
    exact ⟨[], r, none, rfl, .none, hr, rfl⟩
  · obtain ⟨⟨hi, mid⟩, hhi, hmid⟩ := Option.bind_eq_some_iff.mp h
    obtain ⟨us, rfl, hbound, -⟩ := hsound ts hlt 0 (Nat.zero_le _) hi mid hhi
    obtain ⟨vs, hright, heq⟩ := Option.map_eq_some_iff.mp hmid
    cases heq
    obtain ⟨r, rfl, hr⟩ := after?_eq_some_iff.mp hright
    exact ⟨us, r, some hi, rfl, .some hbound, hr, rfl⟩

theorem readBracket_sound {base : Expr} (hlt : ts.length < n)
    (h : (readBracket stop (.ok base) ts).result? = some (e, rest)) {vs : List Token} {l : Token}
    (hbase : Postfixed vs base) (hl : l.kind = .symbol .leftSquare) :
    ∃ us, ts = us ++ rest ∧ Postfixed (vs ++ l :: us) e := by
  rw [readBracket_result] at h
  split at h
  · rename_i us hcolon
    obtain ⟨c, rfl, hc⟩ := after?_eq_some_iff.mp hcolon
    obtain ⟨ws, r, hi, rfl, hstop, hr, rfl⟩ :=
      readSlice_sound hsound none (Nat.lt_of_succ_lt hlt) h
    exact ⟨c :: (ws ++ [r]), by simp, .slice hbase hl .none hc hstop hr⟩
  · obtain ⟨⟨i, mid⟩, hi, hmid⟩ := Option.bind_eq_some_iff.mp h
    obtain ⟨us, rfl, hindex, -⟩ := hsound ts hlt 0 (Nat.zero_le _) i mid hi
    dsimp only at hmid
    split at hmid
    · rename_i ws hcolon
      obtain ⟨c, rfl, hc⟩ := after?_eq_some_iff.mp hcolon
      obtain ⟨ws, r, hi, rfl, hstop, hr, rfl⟩ :=
        readSlice_sound hsound (some i) (by simp at hlt; omega) hmid
      exact ⟨us ++ c :: (ws ++ [r]), by simp, .slice hbase hl (.some hindex) hc hstop hr⟩
    · obtain ⟨ws, hright, heq⟩ := Option.map_eq_some_iff.mp hmid
      cases heq
      obtain ⟨r, rfl, hr⟩ := after?_eq_some_iff.mp hright
      exact ⟨us ++ [r], by simp, .subscript hbase hl hindex hr⟩

theorem readPrimary_sound (hle : ts.length ≤ n)
    (h : (readPrimary stop ts).result? = some (e, rest)) :
    ∃ us, ts = us ++ rest ∧ Primary us e := by
  cases ts with
  | nil =>
    rw [readPrimary_nil] at h
    cases h
  | cons t us =>
    cases hkind : t.kind with
    | number =>
      rw [readPrimary, result?_within] at h
      simp only [hkind, readNumber_result] at h
      obtain ⟨e', hvalue, heq⟩ := Option.map_eq_some_iff.mp h
      cases heq
      cases hnumber : Literal.number t.literal.toList with
      | ok e' =>
        rw [hnumber] at hvalue
        cases hvalue
        exact ⟨[t], rfl, .number hkind hnumber⟩
      | error fault =>
        rw [hnumber] at hvalue
        cases hvalue
    | char =>
      rw [readPrimary, result?_within] at h
      simp only [hkind, readChar_result] at h
      obtain ⟨c, hvalue, heq⟩ := Option.map_eq_some_iff.mp h
      cases heq
      exact ⟨[t], rfl, .char hkind hvalue⟩
    | string =>
      rw [readPrimary, result?_within] at h
      simp only [hkind] at h
      cases h
      exact ⟨[t], rfl, .string hkind⟩
    | bool =>
      rw [readPrimary, result?_within] at h
      simp only [hkind] at h
      cases h
      exact ⟨[t], rfl, .bool hkind⟩
    | ident =>
      rw [readPrimary, result?_within] at h
      simp only [hkind] at h
      cases h
      exact ⟨[t], rfl, .name hkind⟩
    | invalid cause | endOfText | keyword k =>
      rw [readPrimary, result?_within] at h
      simp only [hkind] at h
      cases h
    | symbol s =>
      cases s with
      | dollar =>
        rw [readPrimary, result?_within] at h
        simp only [hkind] at h
        exact readVariable_sound hkind h
      | leftParen =>
        rw [readPrimary_paren stop hkind] at h
        obtain ⟨⟨e', mid⟩, he, hmid⟩ := Option.bind_eq_some_iff.mp h
        obtain ⟨vs, hright, heq⟩ := Option.map_eq_some_iff.mp hmid
        cases heq
        obtain ⟨r, rfl, hr⟩ := after?_eq_some_iff.mp hright
        obtain ⟨ws, rfl, hinner, -⟩ := hsound us hle 0 (Nat.zero_le _) _ _ he
        exact ⟨t :: ws ++ [r], by simp, .paren hkind hinner hr⟩
      | leftSquare =>
        rw [readPrimary_list stop hkind] at h
        obtain ⟨⟨es, rest'⟩, hitems, heq⟩ := Option.map_eq_some_iff.mp h
        cases heq
        obtain ⟨ws, r, rfl, hes, hr⟩ := readItems_sound hsound hle hitems
        exact ⟨t :: ws ++ [r], by simp, .list hkind hes hr⟩
      | _ =>
        rw [readPrimary, result?_within] at h
        simp only [hkind] at h
        cases h

theorem readOperand_sound (hle : ts.length ≤ n)
    (h : (readOperand stop ts).result? = some (e, rest)) {min : Nat}
    (hmin : min ≤ Joiner.bracketStrength) : ∃ us, ts = us ++ rest ∧ Ready min false us e rest := by
  cases ts with
  | nil =>
    rw [readOperand, readPrimary_nil] at h
    cases h
  | cons t us =>
    cases hunary : unaryOf? t.kind with
    | none =>
      rw [readOperand_primary stop hunary] at h
      obtain ⟨vs, hvs, hprimary⟩ := readPrimary_sound hsound hle h
      exact ⟨vs, hvs, ready_of_postfixed (.primary hprimary) min rest⟩
    | some op =>
      rw [readOperand_unary stop hunary] at h
      obtain ⟨⟨e', rest'⟩, he, heq⟩ := Option.map_eq_some_iff.mp h
      cases heq
      obtain ⟨vs, rfl, hoperand, hs⟩ := hsound us hle _ (Nat.le_refl _) _ _ he
      have hop := Derives.unary (Nat.le_refl _) hunary hoperand
      exact ⟨t :: vs, rfl, ready_of_stops hop hmin (Nat.le_refl _) hs⟩

theorem readAfter_sound {t : Token} {j : Joiner} {min : Nat} {chained : Bool} {vs : List Token}
    {e' : Expr} (hj : Joiner.ofKind? t.kind = some j) (hmin : min ≤ j.strength)
    (hfits : Fits chained vs e j) (hlt : ts.length < n)
    (h : (readAfter stop j chained (.ok e) ts).result? = some (e', rest)) :
    ∃ us, ts = us ++ rest ∧ Ready min j.isCompare (vs ++ t :: us) e' rest := by
  have hkind := kind_of_ofKind? hj
  cases j with
  | member =>
    rw [readAfter, readMember_result] at h
    split at h
    · cases h
    · rename_i d us
      split at h
      · rename_i hident
        cases h
        exact ⟨[d], rfl, ready_of_postfixed (.member hfits hkind hident) min _⟩
      · cases h
  | call =>
    rw [readAfter_call] at h
    obtain ⟨⟨es, rest'⟩, hitems, heq⟩ := Option.map_eq_some_iff.mp h
    cases heq
    obtain ⟨us, r, rfl, hes, hr⟩ := readItems_sound hsound hlt hitems
    exact ⟨us ++ [r], by simp, ready_of_postfixed (.call hfits hkind hes hr) min _⟩
  | bracket =>
    rw [readAfter] at h
    obtain ⟨us, hus, hpostfixed⟩ := readBracket_sound hsound hlt h hfits hkind
    exact ⟨us, hus, ready_of_postfixed hpostfixed min _⟩
  | binary op =>
    rw [readAfter_binary] at h
    obtain ⟨⟨rhs, rest'⟩, hread, heq⟩ := Option.map_eq_some_iff.mp h
    cases heq
    by_cases hpow : op = .pow
    · subst hpow
      obtain ⟨us, rfl, hrhs, hs⟩ := hsound ts hlt _ (by decide) _ _ hread
      have hpower := Derives.power (Nat.le_refl _) hfits hj hrhs
      exact ⟨us, rfl, ready_of_stops hpower hmin (by decide) hs⟩
    · rw [if_neg hpow] at hread
      have hlevel : op.strength + 1 ≤ Joiner.bracketStrength := by cases op <;> decide
      obtain ⟨us, rfl, hrhs, hs⟩ := hsound ts hlt _ hlevel _ _ hread
      have hlhs : Derives op.strength vs e := by
        have hleft : leftLevel (.binary op) = op.strength := if_neg hpow
        rw [← hleft]
        exact hfits
      have hbinary := Derives.binary (Nat.le_refl _) hpow hlhs hj hrhs
      exact ⟨us, rfl, ready_of_binary hpow hbinary hmin hs⟩
  | compare op =>
    rw [readAfter_compare] at h
    obtain ⟨⟨rhs, rest'⟩, hread, heq⟩ := Option.map_eq_some_iff.mp h
    cases heq
    obtain ⟨us, rfl, hrhs, hs⟩ := hsound ts hlt _ (by decide) _ _ hread
    refine ⟨us, rfl, ?_⟩
    cases chained with
    | true =>
      obtain ⟨es, ops, rfl, hchain⟩ := hfits
      exact ready_of_chain (.more hchain hj hrhs) hmin hs
    | false => exact ready_of_chain (.pair hfits hj hrhs) hmin hs
  | assign op =>
    rw [readAfter_assign] at h
    obtain ⟨⟨value, rest'⟩, hread, heq⟩ := Option.map_eq_some_iff.mp h
    cases heq
    obtain ⟨us, rfl, hvalue, hs⟩ := hsound ts hlt _ (by decide) _ _ hread
    have hassign := Derives.assign (Nat.le_refl _) hfits hj hvalue
    exact ⟨us, rfl, ready_of_stops hassign hmin (by decide) hs⟩
  | ternary =>
    rw [readAfter, readTernary_result] at h
    obtain ⟨⟨yes, mid⟩, hyes, hmid⟩ := Option.bind_eq_some_iff.mp h
    obtain ⟨ws, hcolon, hws⟩ := Option.bind_eq_some_iff.mp hmid
    obtain ⟨⟨no, rest'⟩, hno, heq⟩ := Option.map_eq_some_iff.mp hws
    cases heq
    obtain ⟨c, rfl, hc⟩ := after?_eq_some_iff.mp hcolon
    obtain ⟨us, rfl, hd, -⟩ := hsound ts hlt 0 (Nat.zero_le _) _ _ hyes
    have hlt' : ws.length < n := by
      simp at hlt
      omega
    obtain ⟨xs, rfl, hd', hs⟩ := hsound ws hlt' _ (by decide) _ _ hno
    have hternary := Derives.ternary (Nat.le_refl _) hfits hkind hd hc hd'
    exact ⟨us ++ c :: xs, by simp, ready_of_stops hternary hmin (by decide) hs⟩

theorem readJoined_sound {min : Nat} {chained : Bool} {vs ts rest : List Token} {e e' : Expr}
    (hle : ts.length ≤ n) (hready : Ready min chained vs e ts)
    (h : (readJoined stop min chained (.ok e) ts).result? = some (e', rest)) :
    ∃ us, ts = us ++ rest ∧ Derives min (vs ++ us) e' ∧ Stops min rest := by
  induction hlen : ts.length using Nat.strongRecOn generalizing chained vs ts e with
  | ind k ih =>
    by_cases hstops : Stops min ts
    · rw [readJoined_stop stop hstops] at h
      cases h
      exact ⟨[], rfl, by simpa using hready.derives, hstops⟩
    · obtain ⟨j, hstrength⟩ := Classical.not_forall.mp hstops
      obtain ⟨hj, hmin⟩ := Classical.not_imp.mp hstrength
      have hmin' := Nat.le_of_not_lt hmin
      cases ts with
      | nil => cases hj
      | cons t us =>
        rw [readJoined_cons stop hj hmin'] at h
        obtain ⟨⟨e₁, mid⟩, hafter, hmid⟩ := Option.bind_eq_some_iff.mp h
        obtain ⟨ws, rfl, hready'⟩ :=
          readAfter_sound hsound hj hmin' (hready.fits j hj hmin') hle hafter
        simp only [List.length_cons, List.length_append] at hle hlen
        obtain ⟨xs, rfl, hd, hs⟩ := ih mid.length (by omega) (by omega) hready' hmid rfl
        exact ⟨t :: (ws ++ xs), by simp, by simpa using hd, hs⟩

end

theorem sound (stop : Token) (ts : List Token) : Sound stop ts := by
  have hsound : ∀ us : List Token, us.length < ts.length → Sound stop us :=
    fun us _ => sound stop us
  intro min hmin e rest h
  rw [readExpr_result] at h
  obtain ⟨⟨e₁, mid⟩, hoperand, hmid⟩ := Option.bind_eq_some_iff.mp h
  obtain ⟨us, hus, hready⟩ := readOperand_sound hsound (Nat.le_refl _) hoperand hmin
  have hle : mid.length ≤ ts.length := by
    rw [hus, List.length_append]
    omega
  obtain ⟨vs, rfl, hd, hs⟩ := readJoined_sound hsound hle hready hmid
  exact ⟨us ++ vs, by simp [hus], hd, hs⟩
termination_by ts.length

end Parlance.Grammar
