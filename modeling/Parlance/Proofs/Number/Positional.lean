import Mathlib.Data.List.Induction
import Mathlib.Data.Nat.Digits.Defs
import Parlance.Number.Radix
import Parlance.Proofs.Token.Strings

/-!
# The value of digits by their places

* `Radix.worth c`           the place of `c`, in either case, among the sixteen digits;
* `Radix.leads r`           what may stand before the digits of radix `r`;
* `digit?_eq`               a digit of a radix is a character worth less than its base;
* `value_eq_ofDigits`       digits denote the sum of what they are worth, each times the power of the base
                            that belongs to its place;
* `split_lead_append`       a numeral is split after its lead.
-/

namespace Parlance.Radix

/-- the sixteen digits, the letters among them in lower case -/
def digitChars : List Char :=
  ['0', '1', '2', '3', '4', '5', '6', '7', '8', '9', 'a', 'b', 'c', 'd', 'e', 'f']

/-- what a character is worth as a digit: its place among the digits, or sixteen if it is none -/
def worth (c : Char) : Nat := digitChars.idxOf c.toLower

/-- what may stand before the digits of a numeral, to announce its radix -/
def leads : Radix → List (List Char)
  | binary => [['0', 'b'], ['0', 'B']]
  | decimal => [[]]
  | hexadecimal => [['0', 'x'], ['0', 'X']]

section
variable {r : Radix} {c : Char} {lead digits : List Char}

/-! ## Digits -/

theorem hexDigit?_of_ascii : ∀ n < 128, hexDigit? (Char.ofNat n) =
    if worth (Char.ofNat n) < 16 then some (worth (Char.ofNat n)) else none := by
  decide +kernel

theorem worth_of_not_ascii (h : 128 ≤ c.toNat) : worth c = 16 := by
  have hlower : c.toLower = c := by
    unfold Char.toLower
    split
    · rename_i hupper
      have : c.toNat ≤ 90 := hupper.2
      omega
    · rfl
  have hnot : c ∉ digitChars := by
    intro hmem
    have hall : digitChars.all (·.toNat < 128) = true := by decide
    have hlt := of_decide_eq_true (List.all_eq_true.mp hall c hmem)
    omega
  rw [worth, hlower, List.idxOf_eq_length hnot]
  rfl

theorem hexDigit?_of_not_ascii (h : 128 ≤ c.toNat) : hexDigit? c = none := by
  have habove {d : Char} (hd : d.toNat < 128) : ¬c ≤ d := by
    intro hle
    have : c.toNat ≤ d.toNat := hle
    omega
  rw [hexDigit?, if_neg fun hc => habove (by decide) hc.2, if_neg fun hc => habove (by decide) hc.2,
    if_neg fun hc => habove (by decide) hc.2]

theorem hexDigit?_eq (c : Char) : hexDigit? c = if worth c < 16 then some (worth c) else none := by
  by_cases hascii : c.toNat < 128
  · rw [← Char.ofNat_toNat c]
    exact hexDigit?_of_ascii c.toNat hascii
  · have hnot := Nat.le_of_not_lt hascii
    rw [hexDigit?_of_not_ascii hnot, worth_of_not_ascii hnot]
    rfl

theorem base_le (r : Radix) : r.base ≤ 16 := by
  cases r <;> decide

theorem digit?_eq (r : Radix) (c : Char) : r.digit? c = if worth c < r.base then some (worth c) else none := by
  rw [digit?, hexDigit?_eq]
  have := r.base_le
  by_cases h16 : worth c < 16
  · rw [if_pos h16, Option.filter_some]
    simp
  · rw [if_neg h16, if_neg (by omega)]
    rfl

theorem isDigit_iff_worth : r.isDigit c = true ↔ worth c < r.base := by
  rw [isDigit, digit?_eq]
  split <;> simp_all

theorem isDigit_of_worth_of_ascii :
    ∀ n < 128, worth (Char.ofNat n) < 10 → (Char.ofNat n).isDigit = true := by
  decide +kernel

theorem isDigit_of_worth (h : worth c < 10) : c.isDigit = true := by
  by_cases hascii : c.toNat < 128
  · rw [← Char.ofNat_toNat c] at h ⊢
    exact isDigit_of_worth_of_ascii c.toNat hascii h
  · rw [worth_of_not_ascii (Nat.le_of_not_lt hascii)] at h
    omega

/-! ## Leads -/

theorem split_lead (hr : r ≠ .decimal) (hlead : lead ∈ r.leads) (cs : List Char) :
    split (lead ++ cs) = (r, lead, cs) := by
  cases r with
  | decimal => exact absurd rfl hr
  | binary | hexadecimal =>
    simp only [leads, List.mem_cons, List.not_mem_nil, or_false] at hlead
    rcases hlead with rfl | rfl <;> rfl

/-- Decimal digits announce no radix, since none of them is a letter. -/
theorem split_of_worth (h : ∀ c ∈ digits, worth c < 10) : split digits = (.decimal, [], digits) := by
  unfold split
  split
  · exact absurd (h 'x' (by simp)) (by decide)
  · exact absurd (h 'X' (by simp)) (by decide)
  · exact absurd (h 'b' (by simp)) (by decide)
  · exact absurd (h 'B' (by simp)) (by decide)
  · rfl

/-- A numeral is split after its lead. -/
theorem split_lead_append (hlead : lead ∈ r.leads) (h : ∀ c ∈ digits, worth c < r.base) :
    split (lead ++ digits) = (r, lead, digits) := by
  by_cases hr : r = .decimal
  · subst hr
    rw [List.mem_singleton.mp hlead]
    exact split_of_worth h
  · exact split_lead hr hlead digits

/-! ## Values -/

theorem value_concat (r : Radix) (cs : List Char) (c : Char) :
    r.value (cs ++ [c]) = r.value cs * r.base + (r.digit? c).getD 0 := by
  rw [value, value, List.foldl_append]
  rfl

/-- Digits denote what they are worth, each of them times the power of the base for its place. -/
theorem value_eq_ofDigits (h : ∀ c ∈ digits, worth c < r.base) :
    r.value digits = Nat.ofDigits r.base (digits.reverse.map worth) := by
  induction digits using List.reverseRecOn with
  | nil => rfl
  | append_singleton cs c ih =>
    obtain ⟨hcs, hc⟩ := List.forall_mem_append.mp h
    rw [value_concat, ih hcs, digit?_eq, if_pos (hc c List.mem_cons_self), Option.getD_some,
      List.reverse_concat, List.map_cons, Nat.ofDigits_cons, Nat.mul_comm, Nat.add_comm]

end

end Parlance.Radix
