import Mathlib.Algebra.Order.Field.Basic
import Mathlib.Data.Rat.Cast.Order
import Mathlib.Tactic.FieldSimp
import Parlance.Proofs.Number.Digits
import Parlance.Proofs.Number.Intervals
import Parlance.Proofs.Number.Parts

/-!
# The texts of doubles tell them apart

* `onGrid?_holds`      what the search finds on a grid is in the interval;
* `onGrid?_finest`     on the finest grid it finds something, so that it never ends without a result;
* `shortest_holds`     the shortest decimal of a double rounds to it;
* `Numeral.worth cs`   the number that a decimal text denotes;
* `worth_positional`, `worth_scientific`   both ways to write a decimal denote it;
* `exactText_inj`      so finite doubles with the same text are the same.
-/

namespace Parlance

namespace Double

/-- the number of quarters of a unit in one -/
def quartersPerOne : Nat := 4 * unitsPerOne

section
variable {x y : Double} {i : Interval} {k : Int} {d : Nat}

/-! ## The shortest decimal -/

theorem contains_iff {scale : Nat} (hscale : 0 < scale) (n : Nat) :
    i.contains scale n = true ↔ i.Holds ((n : ℚ) / scale) := by
  have hpos : (0 : ℚ) < scale := Nat.cast_pos.mpr hscale
  unfold Interval.contains Interval.Holds
  split
  · rw [Bool.and_eq_true, decide_eq_true_eq, decide_eq_true_eq, le_div_iff₀ hpos, div_le_iff₀ hpos]
    norm_cast
  · rw [Bool.and_eq_true, decide_eq_true_eq, decide_eq_true_eq, lt_div_iff₀ hpos, div_lt_iff₀ hpos]
    norm_cast

theorem zpow_ten (k : Int) : (10 : ℚ) ^ k = 10 ^ k.toNat / 10 ^ (-k).toNat := by
  obtain ⟨n, rfl | rfl⟩ := k.eq_nat_or_neg
  · simp
  · simp

theorem onGrid?_contains (h : i.onGrid? k = some d) :
    i.contains (10 ^ (-k).toNat) (d * (10 ^ k.toNat * quartersPerOne)) = true := by
  unfold Interval.onGrid? at h
  dsimp only at h
  split at h
  · rename_i hboth
    obtain ⟨hdown, hup⟩ := Bool.and_eq_true_iff.mp hboth
    split at h <;> cases h
    · exact hdown
    · exact hup
  · split at h
    · rename_i hdown
      cases h
      exact hdown
    · split at h
      · rename_i hup
        cases h
        exact hup
      · cases h

/-- What is found on a grid is in the interval. -/
theorem onGrid?_holds (h : i.onGrid? k = some d) :
    i.Holds ((d : ℚ) * 10 ^ k * quartersPerOne) := by
  have hcontains := (contains_iff (Nat.pow_pos (by decide)) _).mp (onGrid?_contains h)
  have heq : ((d * (10 ^ k.toNat * quartersPerOne) : Nat) : ℚ) / (10 ^ (-k).toNat : Nat) =
      (d : ℚ) * 10 ^ k * quartersPerOne := by
    rw [zpow_ten]
    push_cast
    ring
  rwa [heq] at hcontains

theorem contains_floor {scale gap : Nat} (hlow : i.low + 2 ≤ i.value) (hhigh : i.value < i.high)
    (hgap : 0 < gap) (hle : gap ≤ scale) : i.contains scale (i.value * scale / gap * gap) = true := by
  -- the multiple below the value is less than a gap away, and the interval reaches two quarters down
  have hdown : i.value * scale / gap * gap ≤ i.value * scale := Nat.div_mul_le_self _ _
  have hnear : i.value * scale < i.value * scale / gap * gap + gap := Nat.lt_div_mul_add hgap
  have hbelow : (i.low + 2) * scale ≤ i.value * scale := Nat.mul_le_mul_right scale hlow
  have habove : i.value * scale < i.high * scale := Nat.mul_lt_mul_of_pos_right hhigh (by omega)
  rw [Nat.add_mul] at hbelow
  unfold Interval.contains
  split
  · exact Bool.and_eq_true_iff.mpr ⟨decide_eq_true (by omega), decide_eq_true (by omega)⟩
  · exact Bool.and_eq_true_iff.mpr ⟨decide_eq_true (by omega), decide_eq_true (by omega)⟩

theorem isSome_onGrid? (h : i.contains (10 ^ (-k).toNat) (i.value * 10 ^ (-k).toNat /
      (10 ^ k.toNat * quartersPerOne) * (10 ^ k.toNat * quartersPerOne)) = true) :
    (i.onGrid? k).isSome = true := by
  fun_cases Interval.onGrid? i k with
  | case1 | case2 | case3 => rfl
  | case4 _ _ _ _ _ _ hdown => exact absurd h hdown

/-- On the finest grid there is a multiple in the interval. -/
theorem onGrid?_finest {m : Nat} (h : x.magnitude = m + 1) :
    (x.interval.onGrid? (-343)).isSome = true := by
  have hle : 10 ^ (-343 : Int).toNat * quartersPerOne ≤ 10 ^ (-(-343 : Int)).toNat := by decide +kernel
  have hgap : 0 < 10 ^ (-343 : Int).toNat * quartersPerOne := by decide +kernel
  have hstep := stepAt_pos m
  have hlow : x.interval.low + 2 ≤ x.interval.value := by
    rw [interval_low h, ceilingAt]
    show _ ≤ 4 * x.units
    rw [units_eq, h, unitsAt_succ]
    omega
  have hhigh : x.interval.value < x.interval.high := by
    have hpos := stepAt_pos x.magnitude
    show 4 * x.units < 4 * x.units + 2 * x.step
    rw [step_eq]
    omega
  exact isSome_onGrid? (contains_floor hlow hhigh hgap hle)

/-- If there is something on one of the grids, the search finds something on one. -/
theorem coarsest_spec {n j : Nat} (hj : j < n) (h : (i.onGrid? ((j : Int) - 343)).isSome = true) :
    ∃ d k, i.coarsest n = (d, k) ∧ i.onGrid? k = some d := by
  induction n with
  | zero => exact absurd hj (Nat.not_lt_zero j)
  | succ n ih =>
    rw [Interval.coarsest]
    cases hgrid : i.onGrid? ((n : Int) - 343) with
    | some d => exact ⟨d, _, rfl, hgrid⟩
    | none =>
      have hne : j ≠ n := by
        rintro rfl
        rw [hgrid] at h
        cases h
      exact ih (by omega)

/-- The shortest decimal of a double rounds to it. -/
theorem shortest_holds (h : x.magnitude ≠ 0) :
    x.interval.Holds ((x.shortest.1 : ℚ) * 10 ^ x.shortest.2 * quartersPerOne) := by
  obtain ⟨m, hm⟩ := Nat.exists_eq_succ_of_ne_zero h
  obtain ⟨d, k, hcoarsest, hgrid⟩ := coarsest_spec (n := 653) (j := 0) (by decide) (onGrid?_finest hm)
  rw [shortest, hcoarsest]
  exact onGrid?_holds hgrid

theorem interval_zero (h : x.magnitude = 0) : x.interval.Holds 0 := by
  have hvalue : x.interval.low = 0 := by
    show 4 * x.units - _ = 0
    rw [units_eq, h]
    exact Nat.zero_sub _
  have hclosed : x.interval.closed = true := by
    rw [interval_closed, h]
    rfl
  rw [Interval.Holds, if_pos hclosed, hvalue]
  exact ⟨le_refl _, Nat.cast_nonneg _⟩

end

end Double

/-! ## The texts of decimals -/

namespace Numeral

/-- the digits after a point, and the text after those -/
def fractionOf : List Char → List Char × List Char
  | '.' :: ds => (ds.takeWhile Char.isDigit, ds.dropWhile Char.isDigit)
  | ds => ([], ds)

/-- The number that a decimal text denotes: its digits before and after a point, times the power of ten
that follows. -/
def worth (cs : List Char) : ℚ :=
  let whole := cs.takeWhile Char.isDigit
  let (fraction, tail) := fractionOf (cs.dropWhile Char.isDigit)
  Radix.decimal.value (whole ++ fraction) * 10 ^ ((exponent? tail).getD 0 - (fraction.length : Int))

section
variable {whole fraction tail ds : List Char} {e : Int}

theorem head_of_not_isDigit {c : Char} (h : c.isDigit = false) (cs : List Char) :
    ∀ d ∈ (c :: cs).head?, d.isDigit = false := by
  rintro _ ⟨⟩
  exact h

theorem worth_point (hwhole : ∀ c ∈ whole, c.isDigit = true) (hfraction : ∀ c ∈ fraction, c.isDigit = true)
    (htail : ∀ c ∈ tail.head?, c.isDigit = false) : worth (whole ++ '.' :: (fraction ++ tail)) =
      Radix.decimal.value (whole ++ fraction) * 10 ^ ((exponent? tail).getD 0 - (fraction.length : Int)) := by
  have hpoint := head_of_not_isDigit (c := '.') rfl (fraction ++ tail)
  have hparts : fractionOf ('.' :: (fraction ++ tail)) = (fraction, tail) := by
    rw [fractionOf, Lexeme.takeWhile_exact hfraction htail, Lexeme.dropWhile_exact hfraction htail]
  rw [worth, Lexeme.takeWhile_exact hwhole hpoint, Lexeme.dropWhile_exact hwhole hpoint, hparts]

theorem worth_fixed (hwhole : ∀ c ∈ whole, c.isDigit = true) (hfraction : ∀ c ∈ fraction, c.isDigit = true) :
    worth (whole ++ '.' :: fraction) =
      Radix.decimal.value (whole ++ fraction) * 10 ^ (-(fraction.length : Int)) := by
  have hnone : ∀ c ∈ ([] : List Char).head?, c.isDigit = false := fun c hc => by cases hc
  have hpoint := worth_point hwhole hfraction hnone
  rwa [List.append_nil, exponent?, Option.getD_some, Int.zero_sub] at hpoint

theorem worth_point_exponent (hwhole : ∀ c ∈ whole, c.isDigit = true)
    (hfraction : ∀ c ∈ fraction, c.isDigit = true) (he : int? ds = some e) :
    worth (whole ++ '.' :: (fraction ++ 'e' :: ds)) =
      Radix.decimal.value (whole ++ fraction) * 10 ^ (e - (fraction.length : Int)) := by
  have hmark := head_of_not_isDigit (c := 'e') rfl ds
  have hexponent : exponent? ('e' :: ds) = some e := he
  rw [worth_point hwhole hfraction hmark, hexponent, Option.getD_some]

theorem worth_exponent (hwhole : ∀ c ∈ whole, c.isDigit = true) (he : int? ds = some e) :
    worth (whole ++ 'e' :: ds) = Radix.decimal.value whole * 10 ^ e := by
  have hmark := head_of_not_isDigit (c := 'e') rfl ds
  have hparts : fractionOf ('e' :: ds) = ([], 'e' :: ds) := rfl
  have hexponent : exponent? ('e' :: ds) = some e := he
  rw [worth, Lexeme.takeWhile_exact hwhole hmark, Lexeme.dropWhile_exact hwhole hmark, hparts]
  dsimp only
  rw [hexponent, Option.getD_some, List.append_nil, List.length_nil, Nat.cast_zero, sub_zero]

/-- digits with the point before the last `n` of them -/
theorem worth_split {n : Nat} (hds : ∀ c ∈ ds, c.isDigit = true) (hn : n ≤ ds.length) :
    worth (ds.take (ds.length - n) ++ '.' :: ds.drop (ds.length - n)) =
      Radix.decimal.value ds * 10 ^ (-(n : Int)) := by
  have hwhole : ∀ c ∈ ds.take (ds.length - n), c.isDigit = true := fun c hc =>
    hds c (List.mem_of_mem_take hc)
  have hfraction : ∀ c ∈ ds.drop (ds.length - n), c.isDigit = true := fun c hc =>
    hds c (List.mem_of_mem_drop hc)
  have hlength : (ds.drop (ds.length - n)).length = n := by
    rw [List.length_drop]
    omega
  rw [worth_fixed hwhole hfraction, List.take_append_drop, hlength]

theorem value_zeros (n : Nat) : Radix.decimal.value (List.replicate n '0') = 0 := by
  induction n with
  | zero => rfl
  | succ n ih =>
    rw [List.replicate_succ', Radix.value_concat, ih]
    rfl

end

end Numeral

namespace Double

open Numeral Radix

section
variable {x y : Double} (d : Nat) (k : Int)

theorem isDigit_digitsOf (d : Nat) : ∀ c ∈ digitsOf d, c.isDigit = true := fun c hc =>
  isDigit_decimal_iff.mp (isDigit_toDigits .decimal d c hc)

theorem isDigit_zeros (n : Nat) : ∀ c ∈ List.replicate n '0', c.isDigit = true := fun c hc => by
  rw [List.eq_of_mem_replicate hc]
  rfl

theorem value_digitsOf (d : Nat) : decimal.value (digitsOf d) = d := value_toDigits .decimal d

theorem worth_positional : worth (positional (digitsOf d) k) = (d : ℚ) * 10 ^ k := by
  have hdigits := isDigit_digitsOf d
  unfold positional
  split
  · rename_i hk
    obtain ⟨n, rfl⟩ := Int.eq_ofNat_of_zero_le hk
    have hwhole : ∀ c ∈ digitsOf d ++ List.replicate n '0', c.isDigit = true :=
      List.forall_mem_append.mpr ⟨hdigits, isDigit_zeros n⟩
    have htext : (['.', '0'] : List Char) = '.' :: List.replicate 1 '0' := rfl
    have hvalue : decimal.value (digitsOf d ++ List.replicate n '0' ++ List.replicate 1 '0') =
        d * 10 ^ (n + 1) := by
      rw [List.append_assoc, List.replicate_append_replicate, value_append, value_zeros, value_digitsOf,
        List.length_replicate]
      rfl
    rw [Int.toNat_natCast, htext, worth_fixed hwhole (isDigit_zeros 1), hvalue, List.length_replicate,
      zpow_natCast, Nat.pow_succ]
    push_cast
    field_simp
  · rename_i hk
    obtain ⟨n, rfl⟩ : ∃ n : Nat, k = -(n : Int) := ⟨(-k).toNat, by omega⟩
    have hpadded : ∀ c ∈ List.replicate (n + 1 - (digitsOf d).length) '0' ++ digitsOf d,
        c.isDigit = true := List.forall_mem_append.mpr ⟨isDigit_zeros _, hdigits⟩
    have hlength : n ≤ (List.replicate (n + 1 - (digitsOf d).length) '0' ++ digitsOf d).length := by
      rw [List.length_append, List.length_replicate]
      omega
    rw [Int.neg_neg, Int.toNat_natCast]
    dsimp only
    rw [worth_split hpadded hlength, value_append, value_zeros, Nat.zero_mul, Nat.zero_add, value_digitsOf]

/-- the exponent of a decimal in scientific notation -/
theorem int?_exponent (e : Int) :
    int? (if e < 0 then '-' :: digitsOf e.natAbs else digitsOf e.natAbs) = some e := by
  rw [int?_eq_some_iff]
  have hdigits : Decimal (digitsOf e.natAbs) e.natAbs := decimal_toDigits e.natAbs
  split
  · rename_i hneg
    have hminus := Signed.minus hdigits
    have he : -(e.natAbs : Int) = e := by omega
    rwa [he] at hminus
  · rename_i hneg
    have hplain := Signed.plain hdigits
    have he : (e.natAbs : Int) = e := by omega
    rwa [he] at hplain

theorem worth_scientific : worth (scientific (digitsOf d) k) = (d : ℚ) * 10 ^ k := by
  have hdigits := isDigit_digitsOf d
  have hwhole : ∀ c ∈ (digitsOf d).take 1, c.isDigit = true := fun c hc =>
    hdigits c (List.mem_of_mem_take hc)
  have hfraction : ∀ c ∈ (digitsOf d).drop 1, c.isDigit = true := fun c hc =>
    hdigits c (List.mem_of_mem_drop hc)
  have hexponent := int?_exponent (k + ((digitsOf d).length - 1 : Nat))
  have hlength : ((digitsOf d).drop 1).length = (digitsOf d).length - 1 := List.length_drop
  have hvalue : decimal.value ((digitsOf d).take 1 ++ (digitsOf d).drop 1) = d := by
    rw [List.take_append_drop, value_digitsOf]
  unfold scientific
  dsimp only
  split
  · rename_i hnone
    rw [hnone, List.append_nil] at hvalue
    rw [hnone, List.length_nil] at hlength
    rw [List.append_nil, worth_exponent hwhole hexponent, hvalue, ← hlength, Nat.cast_zero, Int.add_zero]
  · rw [List.append_assoc, List.cons_append, worth_point_exponent hwhole hfraction hexponent, hvalue,
      hlength, Int.add_sub_cancel]

/-! ## The texts of doubles -/

/-- The text is digits with marks of a decimal between them, and a number with a point or an exponent. -/
structure IsDecimal (text : List Char) : Prop where
  starts : ∃ c ∈ text.head?, c.isDigit = true
  chars : ∀ c ∈ text, c.isDigit = true ∨ c = '.' ∨ c = 'e' ∨ c = '-'
  marked : '.' ∈ text ∨ 'e' ∈ text

theorem isDecimal_of_whole {whole : List Char} {mark : Char} {rest : List Char} (hne : whole ≠ [])
    (hwhole : ∀ c ∈ whole, c.isDigit = true) (hmark : mark = '.' ∨ mark = 'e')
    (hrest : ∀ c ∈ rest, c.isDigit = true ∨ c = '.' ∨ c = 'e' ∨ c = '-') :
    IsDecimal (whole ++ mark :: rest) := by
  have hmem : mark ∈ whole ++ mark :: rest := List.mem_append_right whole List.mem_cons_self
  refine ⟨?_, List.forall_mem_append.mpr ⟨fun c hc => .inl (hwhole c hc), ?_⟩, ?_⟩
  · obtain ⟨c, cs, rfl⟩ := List.exists_cons_of_ne_nil hne
    exact ⟨c, rfl, hwhole c List.mem_cons_self⟩
  · exact List.forall_mem_cons.mpr ⟨.inr (hmark.imp_right Or.inl), hrest⟩
  · rcases hmark with rfl | rfl
    · exact .inl hmem
    · exact .inr hmem

theorem isDecimal_positional : IsDecimal (positional (digitsOf d) k) := by
  have hne : digitsOf d ≠ [] := Nat.toDigits_ne_nil
  unfold positional
  split
  · have hwhole : ∀ c ∈ digitsOf d ++ List.replicate k.toNat '0', c.isDigit = true :=
      List.forall_mem_append.mpr ⟨isDigit_digitsOf d, isDigit_zeros _⟩
    exact isDecimal_of_whole (List.append_ne_nil_of_left_ne_nil hne _) hwhole (.inl rfl)
      (List.forall_mem_singleton.mpr (.inl rfl))
  · dsimp only
    have hpadded : ∀ c ∈ List.replicate ((-k).toNat + 1 - (digitsOf d).length) '0' ++ digitsOf d,
        c.isDigit = true := List.forall_mem_append.mpr ⟨isDigit_zeros _, isDigit_digitsOf d⟩
    refine isDecimal_of_whole ?_ (fun c hc => hpadded c (List.mem_of_mem_take hc)) (.inl rfl)
      fun c hc => .inl (hpadded c (List.mem_of_mem_drop hc))
    rw [Ne, ← List.length_eq_zero_iff, List.length_take, List.length_append, List.length_replicate]
    omega

theorem isDecimal_scientific : IsDecimal (scientific (digitsOf d) k) := by
  have hdigits := isDigit_digitsOf d
  have hne : (digitsOf d).take 1 ≠ [] := by
    rw [Ne, List.take_eq_nil_iff, not_or]
    exact ⟨Nat.one_ne_zero, Nat.toDigits_ne_nil⟩
  have hwhole : ∀ c ∈ (digitsOf d).take 1, c.isDigit = true := fun c hc =>
    hdigits c (List.mem_of_mem_take hc)
  have hexponent : ∀ e : Int, ∀ c ∈ if e < 0 then '-' :: digitsOf e.natAbs else digitsOf e.natAbs,
      c.isDigit = true ∨ c = '.' ∨ c = 'e' ∨ c = '-' := by
    intro e
    split
    · exact List.forall_mem_cons.mpr ⟨.inr (.inr (.inr rfl)), fun c hc => .inl (isDigit_digitsOf _ c hc)⟩
    · exact fun c hc => .inl (isDigit_digitsOf _ c hc)
  unfold scientific
  dsimp only
  split
  · rw [List.append_nil]
    exact isDecimal_of_whole hne hwhole (.inr rfl) (hexponent _)
  · rw [List.append_assoc, List.cons_append]
    refine isDecimal_of_whole hne hwhole (.inl rfl) (List.forall_mem_append.mpr ⟨?_, ?_⟩)
    · exact fun c hc => .inl (hdigits c (List.mem_of_mem_drop hc))
    · exact List.forall_mem_cons.mpr ⟨.inr (.inr (.inl rfl)), hexponent _⟩

/-- The text of a finite double is a decimal that rounds to it, after a sign if it is negative. -/
theorem exactText_spec (hnan : x.isNaN = false) (hinfinite : x.isInfinite = false) :
    ∃ text, x.exactText = x.withSign text ∧ IsDecimal text ∧
      x.interval.Holds (worth text * quartersPerOne) := by
  rw [exactText, if_neg (by rw [hnan]; exact Bool.false_ne_true),
    if_neg (by rw [hinfinite]; exact Bool.false_ne_true)]
  split
  · rename_i hzero
    have hmagnitude : x.magnitude = 0 := beq_iff_eq.mp hzero
    have htext : positional (digitsOf 0) 0 = ['0', '.', '0'] := by decide
    refine ⟨positional (digitsOf 0) 0, congrArg x.withSign htext.symm, isDecimal_positional 0 0, ?_⟩
    rw [worth_positional, Nat.cast_zero, zero_mul, zero_mul]
    exact interval_zero hmagnitude
  · rename_i hzero
    have hmagnitude : x.magnitude ≠ 0 := fun h => hzero (beq_iff_eq.mpr h)
    have hholds := shortest_holds hmagnitude
    generalize x.shortest = decimal at hholds ⊢
    obtain ⟨d, k⟩ := decimal
    refine ⟨_, rfl, ?_⟩
    split
    · exact ⟨isDecimal_positional d k, by rw [worth_positional]; exact hholds⟩
    · exact ⟨isDecimal_scientific d k, by rw [worth_scientific]; exact hholds⟩

/-- A decimal without its sign does not start with one. -/
theorem withSign_inj {text text' : List Char} (h : IsDecimal text) (h' : IsDecimal text')
    (heq : x.withSign text = y.withSign text') : x.negative = y.negative ∧ text = text' := by
  have hplain : ∀ {cs ds : List Char}, IsDecimal cs → cs ≠ '-' :: ds := by
    rintro cs ds hcs rfl
    obtain ⟨_, ⟨⟩, hc⟩ := hcs.starts
    cases hc
  unfold withSign at heq
  cases hx : x.negative <;> cases hy : y.negative <;> simp only [hx, hy] at heq
  · exact ⟨rfl, heq⟩
  · exact absurd heq (hplain h)
  · exact absurd heq.symm (hplain h')
  · exact ⟨rfl, (List.cons.inj heq).2⟩

/-- Finite doubles with the same text are the same. -/
theorem exactText_inj (hx : x.isNaN = false ∧ x.isInfinite = false)
    (hy : y.isNaN = false ∧ y.isInfinite = false) (h : x.exactText = y.exactText) : x = y := by
  obtain ⟨text, htext, hdecimal, hholds⟩ := exactText_spec hx.1 hx.2
  obtain ⟨text', htext', hdecimal', hholds'⟩ := exactText_spec hy.1 hy.2
  rw [htext, htext'] at h
  obtain ⟨hnegative, rfl⟩ := withSign_inj hdecimal hdecimal' h
  exact eq_of_parts hnegative (magnitude_of_holds hholds hholds')

end

end Double

end Parlance
