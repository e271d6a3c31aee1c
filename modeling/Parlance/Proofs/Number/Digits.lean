import Mathlib.Tactic.Ring
import Parlance.Number.Integer
import Parlance.Proofs.Number.Positional
import Parlance.Proofs.Number.Range

/-!
# Numbers written in digits

* `toDigits_induction`     the digits of a number, one after another from the left;
* `value_toDigits`         they denote the number, in each radix;
* `value_append`           digits before others are worth the power of the base for the number of these;
* `Numeral.Decimal cs n`   the text is decimal digits that are worth `n`;
* `Numeral.Signed cs i`    the same with a sign before them or not;
* `int?_eq_some_iff`       such texts are read as integers, and no others;
* `signed_display`         the text of an integer is one of them.
-/

namespace Parlance

namespace Radix

variable {r : Radix} {m n : Nat} {c : Char}

theorem one_lt_base (r : Radix) : 1 < r.base := by
  cases r <;> decide

theorem digit?_digitChar (h : n < r.base) : r.digit? (Nat.digitChar n) = some n := by
  have hall : ∀ d < 16, hexDigit? (Nat.digitChar d) = some d := by decide
  have hhex : n < 16 := Nat.lt_of_lt_of_le h r.base_le
  rw [digit?, hall n hhex, Option.filter_some, if_pos (decide_eq_true h)]

/-- What holds of single digits, and of a number with one digit more, holds of all numbers and their
digits. -/
theorem toDigits_induction {P : Nat → List Char → Prop}
    (single : ∀ d < r.base, P d [Nat.digitChar d])
    (more : ∀ m, ∀ d < r.base, P m (Nat.toDigits r.base m) →
      P (m * r.base + d) (Nat.toDigits r.base m ++ [Nat.digitChar d])) (n : Nat) :
    P n (Nat.toDigits r.base n) := by
  induction n using Nat.strongRecOn with
  | ind n ih =>
    by_cases h : n < r.base
    · rw [Nat.toDigits_of_lt_base h]
      exact single n h
    · have hle : r.base ≤ n := Nat.le_of_not_lt h
      have hbase := r.one_lt_base
      have hlt : n / r.base < n := Nat.div_lt_self (by omega) hbase
      have hsplit := more (n / r.base) (n % r.base) (Nat.mod_lt n (by omega)) (ih _ hlt)
      rw [Nat.div_add_mod'] at hsplit
      rwa [Nat.toDigits_of_base_le hbase hle]

theorem isDigit_toDigits (r : Radix) (n : Nat) : ∀ c ∈ Nat.toDigits r.base n, r.isDigit c = true := by
  have hdigit : ∀ d < r.base, r.isDigit (Nat.digitChar d) = true := by
    intro d hd
    rw [isDigit, digit?_digitChar hd]
    rfl
  refine toDigits_induction (P := fun _ cs => ∀ c ∈ cs, r.isDigit c = true) ?_ ?_ n
  · intro d hd
    exact List.forall_mem_singleton.mpr (hdigit d hd)
  · intro m d hd ih
    exact List.forall_mem_append.mpr ⟨ih, List.forall_mem_singleton.mpr (hdigit d hd)⟩

/-- The digits of a number denote it. -/
theorem value_toDigits (r : Radix) (n : Nat) : r.value (Nat.toDigits r.base n) = n := by
  refine toDigits_induction (P := fun n cs => r.value cs = n) ?_ ?_ n
  · intro d hd
    show 0 * r.base + (r.digit? (Nat.digitChar d)).getD 0 = d
    rw [digit?_digitChar hd, Nat.zero_mul, Nat.zero_add, Option.getD_some]
  · intro m d hd ih
    rw [value_concat, ih, digit?_digitChar hd, Option.getD_some]

theorem toDigits_inj (h : Nat.toDigits r.base m = Nat.toDigits r.base n) : m = n := by
  rw [← value_toDigits r m, h, value_toDigits]

theorem value_append (r : Radix) (cs ds : List Char) :
    r.value (cs ++ ds) = r.value cs * r.base ^ ds.length + r.value ds := by
  induction ds using List.reverseRecOn with
  | nil =>
    show r.value (cs ++ []) = r.value cs * 1 + 0
    rw [List.append_nil, Nat.mul_one, Nat.add_zero]
  | append_singleton ds d ih =>
    rw [← List.append_assoc, value_concat, ih, value_concat, List.length_append, List.length_singleton,
      Nat.pow_succ]
    ring

/-! ## Decimal digits -/

theorem digit?_decimal (h : c.isDigit = true) : decimal.digit? c = some (c.toNat - '0'.toNat) := by
  have hrange : '0' ≤ c ∧ c ≤ '9' := by simpa [Char.isDigit, Char.le_def] using h
  have hle : c.toNat ≤ '9'.toNat := hrange.2
  have hnine : '9'.toNat - '0'.toNat < decimal.base := by decide
  have hlt : c.toNat - '0'.toNat < decimal.base := by omega
  rw [digit?, hexDigit?, if_pos hrange, Option.filter_some, if_pos (decide_eq_true hlt)]

theorem isDigit_decimal_iff : decimal.isDigit c = true ↔ c.isDigit = true := by
  constructor
  · intro h
    exact isDigit_of_worth (isDigit_iff_worth.mp h)
  · intro h
    rw [isDigit, digit?_decimal h]
    rfl

theorem value_eq_ofDigitChars {cs : List Char} (h : ∀ c ∈ cs, c.isDigit = true) :
    decimal.value cs = Nat.ofDigitChars 10 cs 0 := by
  induction cs using List.reverseRecOn with
  | nil => rfl
  | append_singleton cs c ih =>
    obtain ⟨hcs, hc⟩ := List.forall_mem_append.mp h
    have hdigit : c.isDigit = true := hc c List.mem_cons_self
    rw [value_concat, ih hcs, digit?_decimal hdigit, Nat.ofDigitChars_append]
    show _ * 10 + (c.toNat - '0'.toNat) = 10 * _ + (c.toNat - '0'.toNat)
    rw [Nat.mul_comm]

end Radix

namespace Numeral

variable {cs ds : List Char} {n : Nat} {i : Int} {j : Int64}

/-- The text is decimal digits that are worth `n`, each ten times as much as the one after it. -/
def Decimal (cs : List Char) (n : Nat) : Prop :=
  cs ≠ [] ∧ (∀ c ∈ cs, c.isDigit = true) ∧ Nat.ofDigitChars 10 cs 0 = n

/-- The text is decimal digits, with a sign before them or not, that are worth `i`. -/
inductive Signed : List Char → Int → Prop
  | plain {ds : List Char} {n : Nat} (digits : Decimal ds n) : Signed ds n
  | plus {ds : List Char} {n : Nat} (digits : Decimal ds n) : Signed ('+' :: ds) n
  | minus {ds : List Char} {n : Nat} (digits : Decimal ds n) : Signed ('-' :: ds) (-n)

theorem nat?_eq_some_iff : nat? .decimal cs = some n ↔ Decimal cs n := by
  have hall : cs.all Radix.decimal.isDigit = true ↔ ∀ c ∈ cs, c.isDigit = true := by
    rw [List.all_eq_true]
    exact forall₂_congr fun c _ => Radix.isDigit_decimal_iff
  rw [nat?]
  split
  · rename_i h
    have hdigits := hall.mp h.2
    rw [Option.some.injEq, Radix.value_eq_ofDigitChars hdigits]
    exact ⟨fun hn => ⟨h.1, hdigits, hn⟩, fun hn => hn.2.2⟩
  · rename_i h
    exact iff_of_false (fun h => by cases h) fun hn => h ⟨hn.1, hall.mpr hn.2.1⟩

theorem int?_eq (cs : List Char) : int? cs = (nat? .decimal (splitSign cs).2).map fun n : Nat =>
    if (splitSign cs).1 = true then -(n : Int) else (n : Int) := by
  rw [int?]
  rcases splitSign cs with ⟨negative, digits⟩
  dsimp only
  cases nat? .decimal digits <;> rfl

theorem splitSign_cases (cs : List Char) : splitSign cs = (false, cs) ∨
    (∃ ds, cs = '+' :: ds ∧ splitSign cs = (false, ds)) ∨
    ∃ ds, cs = '-' :: ds ∧ splitSign cs = (true, ds) := by
  unfold splitSign
  split
  · exact .inr (.inr ⟨_, rfl, rfl⟩)
  · exact .inr (.inl ⟨_, rfl, rfl⟩)
  · exact .inl rfl

theorem Decimal.splitSign_eq (h : Decimal cs n) : splitSign cs = (false, cs) := by
  obtain ⟨-, hdigits, -⟩ := h
  unfold splitSign
  split
  · exact absurd (hdigits '-' List.mem_cons_self) (by decide)
  · exact absurd (hdigits '+' List.mem_cons_self) (by decide)
  · rfl

/-- Decimal digits with a sign before them or not are read as an integer, and nothing else is. -/
theorem int?_eq_some_iff : int? cs = some i ↔ Signed cs i := by
  rw [int?_eq]
  constructor
  · intro h
    obtain ⟨n, hn, hi⟩ := Option.map_eq_some_iff.mp h
    rw [nat?_eq_some_iff] at hn
    rcases splitSign_cases cs with hsign | ⟨ds, rfl, hsign⟩ | ⟨ds, rfl, hsign⟩
    · rw [hsign] at hn hi
      subst hi
      exact .plain hn
    · rw [hsign] at hn hi
      subst hi
      exact .plus hn
    · rw [hsign] at hn hi
      subst hi
      exact .minus hn
  · intro h
    cases h with
    | plain digits =>
      rw [digits.splitSign_eq, nat?_eq_some_iff.mpr digits]
      rfl
    | @plus ds n digits =>
      have hsign : splitSign ('+' :: ds) = (false, ds) := rfl
      rw [hsign, nat?_eq_some_iff.mpr digits]
      rfl
    | @minus ds n digits =>
      have hsign : splitSign ('-' :: ds) = (true, ds) := rfl
      rw [hsign, nat?_eq_some_iff.mpr digits]
      rfl

theorem int64?_eq_some_iff : int64? cs = some j ↔ Signed cs j.toInt := by
  rw [int64?, Option.bind_eq_some_iff]
  constructor
  · rintro ⟨i, hi, hj⟩
    rw [Integer.toInt64?_eq_some_iff] at hj
    rw [← hj]
    exact int?_eq_some_iff.mp hi
  · intro h
    exact ⟨j.toInt, int?_eq_some_iff.mpr h, toInt64?_toInt j⟩

theorem decimal_toDigits (n : Nat) : Decimal (Nat.toDigits 10 n) n := by
  have hdigits : ∀ c ∈ Nat.toDigits 10 n, c.isDigit = true := fun c hc =>
    Radix.isDigit_decimal_iff.mp (Radix.isDigit_toDigits .decimal n c hc)
  refine ⟨Nat.toDigits_ne_nil, hdigits, ?_⟩
  rw [← Radix.value_eq_ofDigitChars hdigits]
  exact Radix.value_toDigits .decimal n

/-- The text of an integer is digits that are worth it, after a minus sign if it is negative. -/
theorem signed_display (j : Int64) : Signed (Integer.display j).toList j.toInt := by
  have hdigits := decimal_toDigits j.toInt.natAbs
  rw [Integer.display]
  split
  · rename_i hneg
    have hminus := Signed.minus hdigits
    have hj : -(j.toInt.natAbs : Int) = j.toInt := by omega
    rw [hj] at hminus
    rw [String.toList_append, String.toList_ofList, String.toList_ofList]
    exact hminus
  · rename_i hneg
    have hplain := Signed.plain hdigits
    have hj : (j.toInt.natAbs : Int) = j.toInt := by omega
    rw [hj] at hplain
    rwa [String.toList_ofList]

end Numeral

end Parlance
