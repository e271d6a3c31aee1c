import Mathlib.Algebra.GroupWithZero.Nat
import Mathlib.Data.List.Forall2
import Parlance.Command.Overload
import Parlance.Proofs.Ty.Conversion

/-!
# The candidate that is chosen

* `Candidate.Suits args c`    each argument has a parameter of its own and a conversion to it;
* `Candidate.price args c`    what these conversions cost together;
* `Candidate.Foremost args cs c`   `c` suits and stands in the list where none costs less, and none
                              before it as little;
* `cost?_eq_some_iff`         the cost of a candidate that suits is its price;
* `foremost_cheapest?`        what is found is foremost, by induction on the list;
* `Foremost.unique`           nothing else is;
* `price_eq_zero_iff`         only parameters of the arguments' own types cost nothing;
* `choose?_foremost`          so the choice is the first one of the least price.
-/

namespace Parlance

namespace Ty

theorem castDistAll_cons (a p : Ty) (as ps : List Ty) :
    castDistAll (a :: as) (p :: ps) =
      (castDist a p).bind fun m => (castDistAll as ps).map fun n => m + n := by
  rw [castDistAll]
  cases castDist a p <;> cases castDistAll as ps <;> rfl

/-- The cost of a list is defined if that of each argument is, and it is the sum of these. -/
theorem castDistAll_eq_some_iff (as ps : List Ty) (n : Nat) : castDistAll as ps = some n ↔
    List.Forall₂ (fun a p => ∃ n, castDist a p = some n) as ps ∧
      (List.zipWith (fun a p => (castDist a p).getD 0) as ps).sum = n := by
  induction as generalizing ps n with
  | nil =>
    cases ps with
    | nil => simp [castDistAll]
    | cons p ps => simp [castDistAll]
  | cons a as ih =>
    cases ps with
    | nil => simp [castDistAll]
    | cons p ps =>
      rw [castDistAll_cons, List.forall₂_cons, List.zipWith_cons_cons, List.sum_cons]
      cases ha : castDist a p with
      | none => simp
      | some m =>
        rw [Option.bind_some, Option.map_eq_some_iff, Option.getD_some]
        constructor
        · rintro ⟨k, hk, rfl⟩
          obtain ⟨hsuits, hsum⟩ := (ih ps k).mp hk
          exact ⟨⟨⟨m, rfl⟩, hsuits⟩, by rw [hsum]⟩
        · rintro ⟨⟨-, hsuits⟩, hsum⟩
          exact ⟨_, (ih ps _).mpr ⟨hsuits, rfl⟩, hsum⟩

end Ty

namespace Candidate

variable {args : List Ty} {cs : List Candidate} {c d : Candidate} {n : Nat}

/-- There are as many arguments as parameters, and each has a conversion to its own. -/
def Suits (args : List Ty) (c : Candidate) : Prop :=
  List.Forall₂ (fun a p => ∃ n, Ty.castDist a p = some n) args c.signature.params

/-- what the conversions of the arguments to the parameters cost together -/
def price (args : List Ty) (c : Candidate) : Nat :=
  (List.zipWith (fun a p => (Ty.castDist a p).getD 0) args c.signature.params).sum

/-- The candidate suits, all that suit and stand before it cost more, and none after it costs less. -/
def Foremost (args : List Ty) (cs : List Candidate) (c : Candidate) : Prop :=
  ∃ before after, cs = before ++ c :: after ∧ Suits args c ∧
    (∀ d ∈ before, Suits args d → price args c < price args d) ∧
    ∀ d ∈ after, Suits args d → price args c ≤ price args d

/-! ## Prices -/

theorem cost?_eq_some_iff : c.cost? args = some n ↔ Suits args c ∧ price args c = n :=
  Ty.castDistAll_eq_some_iff args c.signature.params n

theorem cost?_of_suits (h : Suits args c) : c.cost? args = some (price args c) :=
  cost?_eq_some_iff.mpr ⟨h, rfl⟩

theorem cost?_of_not_suits (h : ¬Suits args c) : c.cost? args = none := by
  cases hcost : c.cost? args with
  | none => rfl
  | some n => exact absurd (cost?_eq_some_iff.mp hcost).1 h

theorem price_le (args : List Ty) (c : Candidate) : price args c ≤ 3 * args.length := by
  unfold price
  generalize c.signature.params = ps
  induction args generalizing ps with
  | nil => simp
  | cons a args ih =>
    cases ps with
    | nil => simp
    | cons p ps =>
      rw [List.zipWith_cons_cons, List.sum_cons, List.length_cons]
      have hone : (Ty.castDist a p).getD 0 ≤ 3 := by
        cases hcost : Ty.castDist a p with
        | none => exact Nat.zero_le 3
        | some n =>
          rcases Ty.castDist_cases hcost with ⟨-, rfl⟩ | ⟨-, -, hn⟩
          · exact Nat.zero_le 3
          · exact hn
      have hothers := ih ps
      omega

/-- Nothing is to be paid exactly if no argument has to be converted. -/
theorem price_eq_zero_iff (h : Suits args c) : price args c = 0 ↔ c.signature.params = args := by
  unfold Suits at h
  unfold price
  generalize c.signature.params = ps at h ⊢
  induction h with
  | nil => simp
  | @cons a p as ps hone _ ih =>
    obtain ⟨n, hn⟩ := hone
    rw [List.zipWith_cons_cons, List.sum_cons, Nat.add_eq_zero_iff, ih, hn, Option.getD_some,
      List.cons.injEq]
    refine and_congr_left fun _ => ?_
    rcases Ty.castDist_cases hn with ⟨rfl, rfl⟩ | ⟨hne, hpos, -⟩
    · exact iff_of_true rfl rfl
    · exact iff_of_false (Nat.ne_of_gt hpos) (Ne.symm hne)

theorem suits_of_params_eq (h : c.signature.params = args) : Suits args c := by
  unfold Suits
  rw [h]
  exact List.forall₂_same.mpr fun a _ => ⟨0, Ty.castDist_self a⟩

/-! ## The one that is found -/

theorem foremost_cons (hc : Suits args c) (h : ∀ d ∈ cs, Suits args d → price args c ≤ price args d) :
    Foremost args (c :: cs) c :=
  ⟨[], cs, rfl, hc, fun _ hd => absurd hd List.not_mem_nil, h⟩

theorem Foremost.later (h : Foremost args cs c) (hd : Suits args d → price args c < price args d) :
    Foremost args (d :: cs) c := by
  obtain ⟨before, after, rfl, hc, hbefore, hafter⟩ := h
  exact ⟨d :: before, after, rfl, hc, List.forall_mem_cons.mpr ⟨hd, hbefore⟩, hafter⟩

theorem Foremost.suits (h : Foremost args cs c) : Suits args c := by
  obtain ⟨-, -, -, hc, -, -⟩ := h
  exact hc

theorem Foremost.mem (h : Foremost args cs c) : c ∈ cs := by
  obtain ⟨before, after, rfl, -, -, -⟩ := h
  exact List.mem_append_right before List.mem_cons_self

/-- nothing that suits costs less -/
theorem Foremost.le (h : Foremost args cs c) : ∀ d ∈ cs, Suits args d → price args c ≤ price args d := by
  obtain ⟨before, after, rfl, -, hbefore, hafter⟩ := h
  intro d hd hsuits
  rcases List.mem_append.mp hd with hd | hd
  · exact Nat.le_of_lt (hbefore d hd hsuits)
  · rcases List.mem_cons.mp hd with rfl | hd
    · exact Nat.le_refl _
    · exact hafter d hd hsuits

/-- Of two that are foremost neither stands before the other. -/
theorem Foremost.unique (hc : Foremost args cs c) (hd : Foremost args cs d) : c = d := by
  have hcd := hc.le d hd.mem hd.suits
  have hdc := hd.le c hc.mem hc.suits
  obtain ⟨before, after, rfl, hsuits, hbefore, -⟩ := hc
  obtain ⟨before', after', hsplit, hsuits', hbefore', -⟩ := hd
  rcases List.append_eq_append_iff.mp hsplit with ⟨more, rfl, hmore⟩ | ⟨more, rfl, hmore⟩
  · cases more with
    | nil => exact (List.cons.inj hmore).1
    | cons x more =>
      obtain ⟨rfl, -⟩ := List.cons.inj hmore
      have := hbefore' c (by simp) hsuits
      omega
  · cases more with
    | nil => exact (List.cons.inj hmore).1.symm
    | cons x more =>
      obtain ⟨rfl, -⟩ := List.cons.inj hmore
      have := hbefore d (by simp) hsuits'
      omega

/-- Nothing is found where none suits, and otherwise the one that is foremost, with its price. -/
theorem foremost_cheapest? (args : List Ty) (cs : List Candidate) :
    (cheapest? args cs = none ∧ ∀ d ∈ cs, ¬Suits args d) ∨
      ∃ c, cheapest? args cs = some (price args c, c) ∧ Foremost args cs c := by
  induction cs with
  | nil => exact .inl ⟨rfl, fun _ hd => absurd hd List.not_mem_nil⟩
  | cons c cs ih =>
    rw [cheapest?]
    by_cases hc : Suits args c
    · rw [cost?_of_suits hc]
      rcases ih with ⟨hnone, hothers⟩ | ⟨d, hd, hfirst⟩
      · rw [hnone]
        exact .inr ⟨c, rfl, foremost_cons hc fun d hd hsuits => absurd hsuits (hothers d hd)⟩
      · rw [hd]
        dsimp only
        -- the new candidate stands before the others, so it wins also where the prices are equal
        by_cases hle : price args c ≤ price args d
        · rw [if_pos hle]
          exact .inr ⟨c, rfl, foremost_cons hc fun e he hsuits =>
            Nat.le_trans hle (hfirst.le e he hsuits)⟩
        · rw [if_neg hle]
          exact .inr ⟨d, rfl, hfirst.later fun _ => Nat.lt_of_not_le hle⟩
    · rw [cost?_of_not_suits hc]
      rcases ih with ⟨hnone, hothers⟩ | ⟨d, hd, hfirst⟩
      · exact .inl ⟨hnone, List.forall_mem_cons.mpr ⟨hc, hothers⟩⟩
      · exact .inr ⟨d, hd, hfirst.later fun hsuits => absurd hsuits hc⟩

theorem choose?_eq_none_iff : choose? cs args = none ↔ ∀ c ∈ cs, ¬Suits args c := by
  rw [choose?]
  rcases foremost_cheapest? args cs with ⟨hnone, hothers⟩ | ⟨d, hd, hfirst⟩
  · rw [hnone]
    exact iff_of_true rfl hothers
  · rw [hd]
    exact iff_of_false (fun h => by cases h) fun h => h d hfirst.mem hfirst.suits

theorem choose?_eq_some_iff : choose? cs args = some c ↔ Foremost args cs c := by
  rw [choose?]
  rcases foremost_cheapest? args cs with ⟨hnone, hothers⟩ | ⟨d, hd, hfirst⟩
  · rw [hnone]
    exact iff_of_false (fun h => by cases h) fun h => hothers c h.mem h.suits
  · rw [hd]
    constructor
    · intro h
      cases h
      exact hfirst
    · intro h
      rw [h.unique hfirst]
      rfl

/-- Where a candidate takes the arguments as they are, so does the one that is foremost. -/
theorem Foremost.params_eq (h : Foremost args cs c) (hd : d ∈ cs) (hexact : d.signature.params = args) :
    c.signature.params = args := by
  have hsuits := suits_of_params_eq hexact
  have hle := h.le d hd hsuits
  rw [(price_eq_zero_iff hsuits).mpr hexact] at hle
  exact (price_eq_zero_iff h.suits).mp (Nat.le_zero.mp hle)

/-- **The choice is the first candidate of the least price.**  There is none exactly if no candidate has
as many parameters as there are arguments and a conversion for each of them.  Otherwise it is the one
that costs no more than any that suits and less than all that suit and stand before it.  One whose
parameters are of the arguments' own types is preferred to all that need a conversion.  No price is more
than three for each argument. -/
theorem choose?_foremost (cs : List Candidate) (args : List Ty) :
    (choose? cs args = none ↔ ∀ c ∈ cs, ¬Suits args c) ∧
    (∀ c, choose? cs args = some c ↔ ∃ before after, cs = before ++ c :: after ∧ Suits args c ∧
      (∀ d ∈ before, Suits args d → price args c < price args d) ∧
      ∀ d ∈ after, Suits args d → price args c ≤ price args d) ∧
    (∀ d ∈ cs, d.signature.params = args →
      ∃ c, choose? cs args = some c ∧ c.signature.params = args) ∧
    ∀ c, price args c ≤ 3 * args.length := by
  refine ⟨choose?_eq_none_iff, fun c => choose?_eq_some_iff, ?_, price_le args⟩
  intro d hd hexact
  cases hchoice : choose? cs args with
  | none => exact absurd (suits_of_params_eq hexact) (choose?_eq_none_iff.mp hchoice d hd)
  | some c => exact ⟨c, rfl, (choose?_eq_some_iff.mp hchoice).params_eq hd hexact⟩

/-- a map of integers by name, which two candidates take with its keys or its items left open and a
third one as it is -/
theorem open_map_passed_over :
    let named : Ty := .map .string .int
    let cs : List Candidate := [⟨⟨[.map .void .int], .int⟩, .len⟩,
      ⟨⟨[.map .string .void], .int⟩, .len⟩, ⟨⟨[named], .string⟩, .strOfContainer⟩]
    ⟨⟨[named], .string⟩, .strOfContainer⟩ ∈ cs ∧
      ∃ c, choose? cs [named] = some c ∧ c.signature.params = [named] := by
  intro named cs
  have hmem : (⟨⟨[named], .string⟩, .strOfContainer⟩ : Candidate) ∈ cs := by simp [cs]
  exact ⟨hmem, (choose?_foremost cs [named]).2.2.1 _ hmem rfl⟩

/-- of the first two alone, which cost the same, the choice is the one that stands first -/
example : choose? [⟨⟨[.map .void .int], .int⟩, .len⟩, ⟨⟨[.map .string .void], .int⟩, .strOfContainer⟩]
    [.map .string .int] = some ⟨⟨[.map .void .int], .int⟩, .len⟩ := by
  decide

end Candidate

end Parlance
