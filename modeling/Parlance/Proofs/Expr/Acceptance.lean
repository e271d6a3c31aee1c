import Parlance.Expr.Printer
import Parlance.Proofs.Expr.Completeness
import Parlance.Proofs.Expr.Soundness
import Parlance.Proofs.Token.Layout

/-!
# Texts and the grammar

The tokens of a text end with the mark of its end, and no other token is that mark.  So a text
denotes an expression exactly if the tokens before the mark are one of level 0, and then it denotes
that expression and no other.
-/

namespace Parlance.Grammar

open Parlance.Expr Parlance.Reply

/-! ## The end of a token list -/

/-- A token list is tokens of the text and then the mark of its end. -/
theorem listFrom_eq (cs : List Char) : ∀ (offset : Nat) (afterDot : Bool) (skip : Nat),
    ∃ (ts : List Token) (n : Nat), Token.listFrom offset afterDot skip cs = ts ++ [Token.atEnd n] ∧
      ∀ t ∈ ts, t.kind ≠ .endOfText := by
  intro offset afterDot skip
  rw [Token.listFrom_skip]
  obtain ⟨ts, hts, hkinds⟩ := (Token.layout_listFrom _ afterDot (cs.drop skip)).closed
  exact ⟨ts, _, hts, fun t ht => (hkinds t ht).1⟩

theorem splitEnd_append {ts : List Token} (h : ∀ t ∈ ts, t.kind ≠ .endOfText) (length n : Nat) :
    splitEnd length (ts ++ [Token.atEnd n]) = (ts, Token.atEnd n) := by
  induction ts with
  | nil => rfl
  | cons t ts ih =>
    have hts := ih fun u hu => h u (List.mem_cons_of_mem t hu)
    rw [List.cons_append, splitEnd, if_neg (h t List.mem_cons_self), hts]

/-! ## Readings and derivations -/

theorem stops_nil (m : Nat) : Stops m [] := fun j hj => by cases hj

theorem readExpr_iff (stop : Token) (ts : List Token) (e : Expr) :
    (readExpr stop 0 ts).result? = some (e, []) ↔ Derives 0 ts e := by
  constructor
  · intro h
    obtain ⟨us, rfl, hd, -⟩ := sound stop ts 0 (Nat.zero_le _) e [] h
    rw [List.append_nil]
    exact hd
  · intro h
    have hreads := h.reads stop (Nat.le_refl 0) (Nat.zero_le _) (Follow.of_stops (stops_nil 0))
    rw [List.append_nil] at hreads
    rw [hreads, readJoined_stop stop (stops_nil 0)]

theorem readWhole_iff (stop : Token) (ts : List Token) (e : Expr) :
    (readWhole stop ts).verdict = .ok e ↔ (readExpr stop 0 ts).result? = some (e, []) := by
  rw [result?_eq_some_iff, readWhole]
  split
  · rename_i a t us hverdict hrest
    refine iff_of_false (fun h => by cases h) ?_
    rintro ⟨-, hnil⟩
    rw [hnil] at hrest
    cases hrest
  · rename_i hnone
    constructor
    · intro h
      refine ⟨h, ?_⟩
      cases hrest : (readExpr stop 0 ts).rest with
      | nil => rfl
      | cons t us => exact absurd hrest (hnone e t us h)
    · rintro ⟨h, -⟩
      exact h

theorem derives_unique {ts : List Token} {e₁ e₂ : Expr} (h₁ : Derives 0 ts e₁)
    (h₂ : Derives 0 ts e₂) : e₁ = e₂ := by
  have hread := (readExpr_iff (Token.atEnd 0) ts e₁).mpr h₁
  rw [(readExpr_iff (Token.atEnd 0) ts e₂).mpr h₂] at hread
  cases hread
  rfl

theorem ofTokens_iff {ts : List Token} (h : ∀ t ∈ ts, t.kind ≠ .endOfText) (length n : Nat)
    (e : Expr) : ofTokens length (ts ++ [Token.atEnd n]) = .ok e ↔ Derives 0 ts e := by
  rw [← readExpr_iff (Token.atEnd n), ← readWhole_iff, ofTokens, splitEnd_append h]
  dsimp only
  cases (readWhole (Token.atEnd n) ts).verdict with
  | ok a =>
    constructor
    · intro h
      cases h
      rfl
    · intro h
      cases h
      rfl
  | error fs => exact iff_of_false (fun h => by cases h) (fun h => by cases h)

/-- **A text denotes an expression exactly if its tokens are one of the grammar, and the grammar
gives them one at most.** -/
theorem ofText_eq_ok_iff (text : String) :
    (∃ n, Token.ofText text = (Token.ofText text).dropLast ++ [Token.atEnd n]) ∧
    (∀ e, Expr.ofText text = .ok e ↔ Derives 0 (Token.ofText text).dropLast e) ∧
    ∀ e₁ e₂, Derives 0 (Token.ofText text).dropLast e₁ →
      Derives 0 (Token.ofText text).dropLast e₂ → e₁ = e₂ := by
  obtain ⟨ts, n, hts, hkinds⟩ := listFrom_eq text.toList 0 false 0
  have hdrop : (Token.ofText text).dropLast = ts := by
    show (Token.listFrom 0 false 0 text.toList).dropLast = ts
    rw [hts, List.dropLast_concat]
  rw [hdrop]
  refine ⟨⟨n, hts⟩, ?_, fun e₁ e₂ => derives_unique⟩
  intro e
  rw [← ofTokens_iff hkinds text.utf8ByteSize n e, ← hts]
  rfl

theorem bracketed_chain_derives :
    ∃ e, e.display = "(a < (b < c) < (** (- d) 2))" ∧
      Derives 0 (Token.ofText "a < (b < c) < -d ** 2").dropLast e ∧
      ∀ e', Derives 0 (Token.ofText "a < (b < c) < -d ** 2").dropLast e' → e' = e := by
  have hread : ((Expr.ofText "a < (b < c) < -d ** 2").toOption.map Expr.display) =
      some "(a < (b < c) < (** (- d) 2))" := by
    decide +kernel
  obtain ⟨-, hiff, hunique⟩ := ofText_eq_ok_iff "a < (b < c) < -d ** 2"
  cases he : Expr.ofText "a < (b < c) < -d ** 2" with
  | ok e =>
    rw [he] at hread
    have hd := (hiff e).mp he
    exact ⟨e, Option.some.inj hread, hd, fun e' hd' => hunique e' e hd' hd⟩
  | error err =>
    rw [he] at hread
    cases hread

end Parlance.Grammar
