import Parlance.Proofs.Expr.Tokens
import Parlance.Proofs.Number.Positional
import Parlance.Proofs.Number.Range

/-!
# Integer literals

* `scanNumber_digits`      a lead and digits after it are one number;
* `number_eq_ok_iff`       which denotes what the digits are worth by their places, if 64 bits hold that;
* `number_bare`, `argument?_bare`   a lead without a digit after it denotes nothing;
* `scanNumber_bare`        where a text starts with one, so does its first token, or that is invalid;
* `integer_literals`       so integer literals denote their positional value.
-/

namespace Parlance

namespace Lexeme

section
variable {r : Radix} {c : Char} {lead digits rest cs : List Char}

/-- a numeral starts with a decimal digit -/
theorem exists_digit (hlead : lead ∈ r.leads) (hne : lead ++ digits ≠ [])
    (hdigits : r = .decimal → ∀ c ∈ digits, Radix.worth c < 10) :
    ∃ c cs, lead ++ digits = c :: cs ∧ c.isDigit = true := by
  cases r with
  | decimal =>
    obtain rfl := List.mem_singleton.mp hlead
    obtain ⟨c, cs, rfl⟩ := List.exists_cons_of_ne_nil hne
    exact ⟨c, cs, rfl, Radix.isDigit_of_worth (hdigits rfl c List.mem_cons_self)⟩
  | binary | hexadecimal =>
    simp only [Radix.leads, List.mem_cons, List.not_mem_nil, or_false] at hlead
    rcases hlead with rfl | rfl <;> exact ⟨_, _, rfl, rfl⟩

/-- A lead and digits of its radix are a number with nothing after it. -/
theorem scanNumber_digits (hlead : lead ∈ r.leads) (hdigits : ∀ c ∈ digits, Radix.worth c < r.base) :
    scanNumber false (lead ++ digits) = ⟨.number, lead ++ digits⟩ := by
  have hsplit := Radix.split_lead_append hlead hdigits
  have hall : ∀ c ∈ digits, r.isDigit c = true := fun c hc => Radix.isDigit_iff_worth.mpr (hdigits c hc)
  have hend : ∀ d ∈ ([] : List Char).head?, r.isDigit d = false := fun d hd => by cases hd
  rw [← List.append_nil digits] at hsplit
  by_cases hr : r = .decimal
  · subst hr
    obtain rfl := List.mem_singleton.mp hlead
    simpa [exponentPart, fractionPart] using @scanNumber_decimal digits [] false hsplit hall hend
  · simpa [fractionPart] using @scanNumber_lead _ r lead digits [] false hr hsplit hall hend

/-- Where no digit follows a lead, it is all there is of the number, which may be invalid. -/
theorem scanNumber_bare (hr : r ≠ .decimal) (hlead : lead ∈ r.leads)
    (hrest : ∀ d ∈ rest.head?, r.base ≤ Radix.worth d) :
    scanNumber false (lead ++ rest) = ⟨.number, lead⟩ ∨
      ∃ cause, (scanNumber false (lead ++ rest)).kind = .invalid cause := by
  have hmore : ∀ d ∈ rest.head?, r.isDigit d = false := fun d hd => by
    rw [← Bool.not_eq_true, Radix.isDigit_iff_worth]
    exact Nat.not_lt.mpr (hrest d hd)
  have hscan := @scanNumber_lead _ r lead [] rest false hr (Radix.split_lead hr hlead rest)
    (fun c hc => absurd hc List.not_mem_nil) hmore
  dsimp only at hscan
  rw [hscan, List.append_nil]
  by_cases hexponent : rest.head?.any isExponentMark = true
  · rw [if_pos hexponent]
    exact .inr ⟨_, rfl⟩
  · rw [if_neg hexponent]
    by_cases hfraction : fractionPart false rest = []
    · rw [hfraction, if_pos rfl, List.append_nil]
      exact .inl rfl
    · rw [if_neg hfraction]
      exact .inr ⟨_, rfl⟩

theorem not_isGap_of_isDigit (h : c.isDigit = true) : Text.isGap c = false := by
  rw [← Bool.not_eq_true]
  intro hgap
  rw [gapless_isDigit c hgap] at h
  cases h

end

end Lexeme

namespace Literal

section
variable {r : Radix} {lead digits rest : List Char}

theorem isFractional_of_worth (h : ∀ c ∈ digits, Radix.worth c < 10) : isFractional digits = false := by
  rw [isFractional, List.any_eq_false]
  intro c hc hmark
  have hworth := h c hc
  simp only [Bool.or_eq_true, beq_iff_eq] at hmark
  rcases hmark with (rfl | rfl) | rfl <;> exact absurd hworth (by decide)

/-- An integer literal denotes an integer if it is digits of its radix and 64 bits hold what they
denote. -/
theorem integer_eq_ok_iff {i : Int64} :
    integer r digits = .ok i ↔ digits ≠ [] ∧ ∃ n : Nat, Numeral.nat? r digits = some n ∧ i.toInt = n := by
  fun_cases integer r digits with
  | case1 h => exact iff_of_false (fun h => by cases h) fun hread => hread.1 h
  | case2 h hnone =>
    refine iff_of_false (fun h => by cases h) ?_
    rintro ⟨-, n, hsome, -⟩
    rw [hnone] at hsome
    cases hsome
  | case3 h n hn j hj =>
    rw [Integer.toInt64?_eq_some_iff] at hj
    constructor
    · intro heq
      cases heq
      exact ⟨h, n, hn, hj.symm⟩
    · rintro ⟨-, m, hm, hi⟩
      cases hn.symm.trans hm
      rw [Int64.toInt_inj.mp (hj.symm.trans hi.symm)]
  | case4 h n hn hnone =>
    refine iff_of_false (fun h => by cases h) ?_
    rintro ⟨-, m, hm, hi⟩
    cases hn.symm.trans hm
    exact Integer.toInt64?_eq_none_iff.mp hnone (hi ▸ Integer.inRange_toInt _)

theorem map_int_eq_ok {v : Except NumberFault Int64} {e : Expr} (h : v.map Expr.int = .ok e) :
    ∃ i, v = .ok i ∧ e = .int i := by
  cases v with
  | error fault => cases h
  | ok i =>
    cases h
    exact ⟨i, rfl, rfl⟩

/-- Digits denote what they are worth by their places, if 64 bits hold that. -/
theorem number_eq_ok_iff (hlead : lead ∈ r.leads) (hne : digits ≠ [])
    (hdigits : ∀ c ∈ digits, Radix.worth c < r.base) {e : Expr} : number (lead ++ digits) = .ok e ↔
      ∃ i : Int64, i.toInt = (Nat.ofDigits r.base (digits.reverse.map Radix.worth) : Nat) ∧ e = .int i := by
  have hall : digits.all r.isDigit = true :=
    List.all_eq_true.mpr fun c hc => Radix.isDigit_iff_worth.mpr (hdigits c hc)
  have hnat : Numeral.nat? r digits = some (Nat.ofDigits r.base (digits.reverse.map Radix.worth)) := by
    rw [Numeral.nat?, if_pos ⟨hne, hall⟩, Radix.value_eq_ofDigits hdigits]
  have hwhole : ¬(r = .decimal ∧ isFractional (lead ++ digits) = true) := by
    rintro ⟨rfl, h⟩
    obtain rfl := List.mem_singleton.mp hlead
    rw [List.nil_append, isFractional_of_worth hdigits] at h
    cases h
  rw [number, Radix.split_lead_append hlead hdigits]
  dsimp only
  rw [if_neg hwhole]
  constructor
  · intro h
    obtain ⟨i, hi, rfl⟩ := map_int_eq_ok h
    obtain ⟨-, n, hn, hvalue⟩ := integer_eq_ok_iff.mp hi
    cases hnat.symm.trans hn
    exact ⟨i, hvalue, rfl⟩
  · rintro ⟨i, hi, rfl⟩
    rw [integer_eq_ok_iff.mpr ⟨hne, _, hnat, hi⟩]
    rfl

/-- A lead with no digit of its radix after it denotes no number. -/
theorem number_bare (hr : r ≠ .decimal) (hlead : lead ∈ r.leads)
    (hrest : ∀ d ∈ rest.head?, r.base ≤ Radix.worth d) (e : Expr) : number (lead ++ rest) ≠ .ok e := by
  rw [number, Radix.split_lead hr hlead]
  dsimp only
  rw [if_neg fun h => hr h.1]
  intro h
  obtain ⟨i, hi, -⟩ := map_int_eq_ok h
  obtain ⟨hne, n, hn, -⟩ := integer_eq_ok_iff.mp hi
  obtain ⟨d, ds, rfl⟩ := List.exists_cons_of_ne_nil hne
  rw [Numeral.nat?] at hn
  split at hn
  · rename_i hall
    have hd := Radix.isDigit_iff_worth.mp (List.all_eq_true.mp hall.2 d List.mem_cons_self)
    exact absurd hd (Nat.not_lt.mpr (hrest d rfl))
  · cases hn

/-- and it is not the number of an argument -/
theorem argument?_bare (hr : r ≠ .decimal) (hlead : lead ∈ r.leads) (rest : List Char) :
    argument? (lead ++ rest) = none := by
  have hletter {c : Char} (hc : Radix.decimal.isDigit c = false) : argument? ('0' :: c :: rest) = none := by
    have hnone : Numeral.nat? .decimal ('0' :: c :: rest) = none := by
      refine if_neg fun h => ?_
      have hdigit := List.all_eq_true.mp h.2 c (by simp)
      rw [hc] at hdigit
      cases hdigit
    show ((Numeral.nat? .decimal ('0' :: c :: rest)).bind _).map _ = none
    rw [hnone]
    rfl
  cases r with
  | decimal => exact absurd rfl hr
  | binary | hexadecimal =>
    simp only [Radix.leads, List.mem_cons, List.not_mem_nil, or_false] at hlead
    rcases hlead with rfl | rfl <;> exact hletter rfl

end

end Literal

namespace Grammar

open Token

section
variable {r : Radix} {lead digits rest : List Char} {t : Token} {text : String}

/-- the tokens of digits after a lead -/
theorem ofText_digits (hlead : lead ∈ r.leads) (hne : digits ≠ [])
    (hdigits : ∀ c ∈ digits, Radix.worth c < r.base) :
    let text := String.ofList (lead ++ digits)
    Token.ofText text = [⟨.number, text, 0⟩, Token.atEnd text.utf8ByteSize] := by
  have hdecimal : r = .decimal → ∀ c ∈ digits, Radix.worth c < 10 := by
    rintro rfl
    exact hdigits
  obtain ⟨c, cs, hcons, hc⟩ := Lexeme.exists_digit hlead (List.append_ne_nil_of_right_ne_nil lead hne) hdecimal
  have hscan : Lexeme.scan false c cs = ⟨.number, c :: cs⟩ := by
    rw [Lexeme.scan_digit hc, ← hcons, Lexeme.scanNumber_digits hlead hdigits]
  rw [hcons]
  exact ofText_of_scan (Lexeme.not_isGap_of_isDigit hc) hscan (List.append_nil _).symm

/-- A number that is a lead with no digit after it is of no use to an expression. -/
theorem not_usable_bare (hr : r ≠ .decimal) (hlead : lead ∈ r.leads)
    (hrest : ∀ d ∈ rest.head?, r.base ≤ Radix.worth d) (kind : t.kind = .number)
    (hliteral : t.literal = String.ofList (lead ++ rest)) : ¬Usable t := by
  intro h
  have hvalue := h.number kind
  rw [hliteral, String.toList_ofList] at hvalue
  obtain ⟨e, he⟩ | ⟨n, hn⟩ := hvalue
  · exact Literal.number_bare hr hlead hrest e he
  · rw [Literal.argument?_bare hr hlead rest] at hn
    cases hn

theorem ofText_bare (hr : r ≠ .decimal) (hlead : lead ∈ r.leads)
    (hrest : ∀ d ∈ rest.head?, r.base ≤ Radix.worth d) :
    ∃ fault, Expr.ofText (String.ofList (lead ++ rest)) = .error fault := by
  have hne : lead ≠ [] := by
    rintro rfl
    cases r with
    | decimal => exact hr rfl
    | binary | hexadecimal => exact absurd hlead (by decide)
  obtain ⟨c, cs, hcons, hc⟩ := Lexeme.exists_digit hlead (List.append_ne_nil_of_left_ne_nil hne rest)
    fun h => absurd h hr
  have hfirst := ofText_cons (Lexeme.not_isGap_of_isDigit hc) cs
  rw [Lexeme.scan_digit hc, ← hcons] at hfirst
  refine error_of_not_usable hfirst fun husable => ?_
  obtain hscan | ⟨cause, hcause⟩ := Lexeme.scanNumber_bare hr hlead hrest
  · rw [hscan] at husable
    exact not_usable_bare hr hlead (fun d hd => by cases hd) rfl
      (congrArg String.ofList (List.append_nil lead).symm) husable
  · exact husable.valid cause hcause

end

/-- **Integer literals denote their positional value.**  Digits of a radix after what announces it, in
any number and with any zeros in front, are one number token, and the text denotes the sum of what they
are worth, each times the power of the base for its place, if that is at most `2 ^ 63 - 1`.  Otherwise
it denotes nothing.  Nor does a text that starts with a lead and no digit after it, or one with such a
number among its tokens, valid or not. -/
theorem integer_literals :
    (∀ (r : Radix) (lead digits : List Char), lead ∈ r.leads → digits ≠ [] →
      (∀ c ∈ digits, Radix.worth c < r.base) →
      let text := String.ofList (lead ++ digits)
      let n := Nat.ofDigits r.base (digits.reverse.map Radix.worth)
      Token.ofText text = [⟨.number, text, 0⟩, Token.atEnd text.utf8ByteSize] ∧
      (n ≤ 2 ^ 63 - 1 → ∃ i : Int64, i.toInt = n ∧ Expr.ofText text = .ok (.int i)) ∧
      (2 ^ 63 - 1 < n → ∃ fault, Expr.ofText text = .error fault)) ∧
    ∀ (r : Radix) (lead rest : List Char), r ≠ .decimal → lead ∈ r.leads →
      (∀ d ∈ rest.head?, r.base ≤ Radix.worth d) →
      (∃ fault, Expr.ofText (String.ofList (lead ++ rest)) = .error fault) ∧
      ∀ (text : String), ∀ t ∈ Token.ofText text, (t.kind = .number ∨ ∃ cause, t.kind = .invalid cause) →
        t.literal = String.ofList (lead ++ rest) → ∃ fault, Expr.ofText text = .error fault := by
  constructor
  · intro r lead digits hlead hne hdigits text n
    have htokens : Token.ofText text = [⟨.number, text, 0⟩, Token.atEnd text.utf8ByteSize] :=
      ofText_digits hlead hne hdigits
    have hread (e : Expr) : Expr.ofText text = .ok e ↔ ∃ i : Int64, i.toInt = (n : Nat) ∧ e = .int i := by
      rw [ofText_single_iff htokens TokenKind.noConfusion, derives_number_iff rfl, String.toList_ofList]
      exact Literal.number_eq_ok_iff hlead hne hdigits
    refine ⟨htokens, fun hn => ?_, fun hn => ?_⟩
    · have hvalue : (Int64.ofInt n).toInt = n := Int64.toInt_ofInt_of_le (by omega) (by omega)
      exact ⟨Int64.ofInt n, hvalue, (hread _).mpr ⟨_, hvalue, rfl⟩⟩
    · cases hresult : Expr.ofText text with
      | error fault => exact ⟨fault, rfl⟩
      | ok e =>
        obtain ⟨i, hi, -⟩ := (hread e).mp hresult
        have := i.toInt_lt
        omega
  · intro r lead rest hr hlead hrest
    refine ⟨ofText_bare hr hlead hrest, fun text t ht hkind hliteral => error_of_not_usable ht ?_⟩
    rcases hkind with hkind | ⟨cause, hkind⟩
    · exact not_usable_bare hr hlead hrest hkind hliteral
    · exact fun husable => husable.valid cause hkind

/-- zeros in front and both cases of the letters, and leads before a digit of another base -/
theorem hexadecimal_read :
    ((∀ c ∈ ['0', '0', 'f', 'F'], Radix.worth c < 16) ∧
      ∃ i : Int64, i.toInt = 255 ∧ Expr.ofText "0X00fF" = .ok (.int i)) ∧
    2 ≤ Radix.worth '2' ∧ (∃ fault, Expr.ofText "0b2" = .error fault) ∧
    ⟨.number, "0b", 2⟩ ∈ Token.ofText "1+0b2" ∧ ∃ fault, Expr.ofText "1+0b2" = .error fault := by
  have hdigits : ∀ c ∈ ['0', '0', 'f', 'F'], Radix.worth c < Radix.hexadecimal.base :=
    fun c hc => Radix.isDigit_iff_worth.mp (List.all_eq_true.mp rfl c hc)
  have hmem : ⟨.number, "0b", 2⟩ ∈ Token.ofText "1+0b2" := by decide +kernel
  refine ⟨⟨hdigits, ?_⟩, by decide, ?_, hmem, ?_⟩
  · exact (integer_literals.1 .hexadecimal ['0', 'X'] _ (by decide) (by decide) hdigits).2.1 (by decide)
  · exact (integer_literals.2 .binary ['0', 'b'] ['2'] (by decide) (by decide)
      (by rintro _ ⟨⟩; decide)).1
  · exact (integer_literals.2 .binary ['0', 'b'] [] (by decide) (by decide)
      (by rintro _ ⟨⟩)).2 _ _ hmem (.inl rfl) rfl

end Grammar

end Parlance
