import Parlance.Command.Standard
import Parlance.Proofs.Command.Choice
import Parlance.Proofs.Number.Range

/-!
# The functions that the language comes with

Which function of a name is run is settled by what conversions cost, and each function looks at its
argument once more.

* `Command.chosen?_isSome_iff`   some function of a set is run exactly for one argument that passes for
                           one of their parameters;
* `Command.Meets p x`      the value has the type of the parameter, or is a list or a map where one of
                           anything is taken: what looking at the argument again asks for;
* `meets_of_chosen?`       the function that is chosen has a parameter that its argument meets, although
                           a dearer one may have a parameter that it only passes for;
* `Command.Refuses name x` a text that is no numeral, or more items than can be counted;
* `answer_of_chosen?`      nothing else is refused, and what is answered has the type of the set.
-/

namespace Parlance

namespace Value

/-- what the values of a type are made of -/
def Shape (x : Value) : Ty → Prop
  | .void => x = void
  | .bool => ∃ b, x = bool b
  | .char => ∃ c, x = char c
  | .int => ∃ i, x = int i
  | .dbl => ∃ d, x = dbl d
  | .list elem => ∃ items, x = list elem items
  | .map key elem => ∃ entries, x = map key elem entries
  | .fn _ _ => ∃ c, x = function c

theorem shape_of_ty {x : Value} {t : Ty} (h : x.ty = t) : x.Shape t := by
  subst h
  cases x with
  | void => rfl
  | bool | char | int | dbl | list | map | function => exact ⟨_, rfl⟩

end Value

namespace Primitive

theorem answer_intOfStr (v : Value) : intOfStr.answer v =
    v.chars?.bind fun cs => (Numeral.int64? (Text.dropBlanks cs)).map Value.int := by
  unfold answer
  rfl

theorem answer_dblOfStr (v : Value) : dblOfStr.answer v =
    v.chars?.bind fun cs => (Numeral.double? (Text.trim cs)).map Value.dbl := by
  unfold answer
  rfl

theorem answer_len (v : Value) : len.answer v =
    v.size?.bind fun n => (Numeral.toInt64? n).map Value.int := by
  unfold answer
  rfl

end Primitive

namespace Command

variable {c : Command} {d : Candidate} {args : List Value} {x v : Value} {p : Ty}

/-- the functions of the set, none for any other command -/
def candidates (c : Command) : List Candidate :=
  match c.body with
  | .overloads cs => cs
  | _ => []

/-- the function of the set that is run for the arguments -/
def chosen? (c : Command) (args : List Value) : Option Candidate :=
  Candidate.choose? c.candidates (args.map Value.ty)

/-! ## Which arguments are taken -/

/-- what the parameters of the functions of the language are -/
theorem params_of_standard : ∀ c ∈ standard, ∀ d ∈ c.candidates, ∃ p ∈
    [Ty.int, .string, .dbl, .bool, .char, anyList, anyMap], d.signature.params = [p] := by
  decide

/-- a set that takes doubles takes integers as they are -/
theorem int_of_dbl : ∀ c ∈ standard, ∀ d ∈ c.candidates, d.signature.params = [.dbl] →
    ∃ e ∈ c.candidates, e.signature.params = [.int] := by
  decide

theorem suits_iff (hp : d.signature.params = [p]) :
    Candidate.Suits (args.map Value.ty) d ↔ ∃ x, args = [x] ∧ ∃ n, Ty.castDist x.ty p = some n := by
  rw [Candidate.Suits, hp]
  cases args with
  | nil => simp
  | cons y ys =>
    cases ys with
    | nil => simp
    | cons z zs => simp

theorem chosen?_isSome_iff : (c.chosen? args).isSome ↔
    ∃ d ∈ c.candidates, Candidate.Suits (args.map Value.ty) d := by
  rw [chosen?, ← Option.ne_none_iff_isSome, ne_eq, Candidate.choose?_eq_none_iff]
  simp only [not_forall, not_not, exists_prop]

/-- The value has the type of the parameter, or it is a list or a map where one of anything is
taken. -/
def Meets (p : Ty) (x : Value) : Prop :=
  p = x.ty ∨ (p = anyList ∧ ∃ elem, x.ty = .list elem) ∨
    (p = anyMap ∧ ∃ key elem, x.ty = .map key elem)

theorem chosen?_inv (h : c.chosen? args = some d) :
    d ∈ c.candidates ∧ Candidate.Suits (args.map Value.ty) d :=
  have hfirst := Candidate.choose?_eq_some_iff.mp h
  ⟨hfirst.mem, hfirst.suits⟩

/-- **The function that is chosen has a parameter that its argument meets.**  An integer passes for a
double too, but every set that takes doubles takes integers for less. -/
theorem meets_of_chosen? (hc : c ∈ standard) (h : c.chosen? args = some d) :
    ∃ x p, args = [x] ∧ d.signature.params = [p] ∧ Meets p x := by
  obtain ⟨hmem, hsuits⟩ := chosen?_inv h
  obtain ⟨p, hp, hparams⟩ := params_of_standard c hc d hmem
  obtain ⟨x, rfl, n, hcost⟩ := (suits_iff hparams).mp hsuits
  refine ⟨x, p, rfl, hparams, ?_⟩
  unfold Meets
  generalize htype : x.ty = t at hcost ⊢
  cases Ty.passes_of_castDist hcost with
  | same => exact .inl rfl
  | widened =>
    obtain ⟨e, he, hint⟩ := int_of_dbl c hc d hmem hparams
    have hexact := (Candidate.choose?_eq_some_iff.mp h).params_eq he (hint.trans (by simp [htype]))
    rw [hparams] at hexact
    simp [htype] at hexact
  | openItems => exact .inr (.inl ⟨rfl, _, rfl⟩)
  | openKeys _ kept => exact absurd hp (by simp [Ty.string, anyList, anyMap, kept])
  | openEntries kept => exact absurd hp (by simp [Ty.string, anyList, anyMap, kept])
  | openBoth => exact .inr (.inr ⟨rfl, _, _, rfl⟩)

/-! ## What they answer -/

/-- The text of the argument is no numeral, or there is more in the argument than can be counted, which
would be more than any memory holds. -/
def Refuses (name : String) (x : Value) : Prop :=
  (name = "int" ∧ ∃ cs, x.chars? = some cs ∧ Numeral.int64? (Text.dropBlanks cs) = none) ∨
  (name = "dbl" ∧ ∃ cs, x.chars? = some cs ∧ Numeral.double? (Text.trim cs) = none) ∨
  (name = "len" ∧ ∃ n, x.size? = some n ∧ 0x8000000000000000 ≤ n)

/-- Exactly what is refused is not answered, and an answer is of the type that the command declares. -/
structure Sound (c : Command) (x : Value) (answer : Option Value) : Prop where
  none_iff : answer = none ↔ Refuses c.name x
  ty_eq : ∀ v, answer = some v → v.ty = c.signature.ret

theorem sound_some (hty : v.ty = c.signature.ret) (h : ¬Refuses c.name x) : Sound c x (some v) where
  none_iff := iff_of_false (fun h => by cases h) h
  ty_eq := by
    rintro _ ⟨⟩
    exact hty

/-- numbers, truth values and characters are never refused -/
theorem not_refuses (hchars : x.chars? = none) (hsize : x.size? = none) (name : String) :
    ¬Refuses name x := by
  rintro (⟨-, cs, h, -⟩ | ⟨-, cs, h, -⟩ | ⟨-, n, h, -⟩)
  · rw [hchars] at h
    cases h
  · rw [hchars] at h
    cases h
  · rw [hsize] at h
    cases h

theorem ty_of_meets (h : Meets p x) (hlist : p ≠ anyList) (hmap : p ≠ anyMap) : x.ty = p := by
  rcases h with rfl | ⟨hp, -⟩ | ⟨hp, -⟩
  · rfl
  · exact absurd hp hlist
  · exact absurd hp hmap

theorem shape_of_meets (h : Meets p x) (hlist : p ≠ anyList) (hmap : p ≠ anyMap) : x.Shape p :=
  Value.shape_of_ty (ty_of_meets h hlist hmap)

theorem list_of_meets (h : Meets anyList x) : ∃ elem items, x = .list elem items := by
  have hty : ∃ elem, x.ty = .list elem := by
    rcases h with h | ⟨-, h⟩ | ⟨h, -⟩
    · exact ⟨.void, h.symm⟩
    · exact h
    · cases h
  obtain ⟨elem, hty⟩ := hty
  exact ⟨elem, Value.shape_of_ty hty⟩

theorem map_of_meets (h : Meets anyMap x) : ∃ key elem entries, x = .map key elem entries := by
  have hty : ∃ key elem, x.ty = .map key elem := by
    rcases h with h | ⟨h, -⟩ | ⟨-, h⟩
    · exact ⟨.void, .void, h.symm⟩
    · cases h
    · exact h
  obtain ⟨key, elem, hty⟩ := hty
  exact ⟨key, elem, Value.shape_of_ty hty⟩

theorem toInt64?_natCast_eq_none_iff (n : Nat) :
    Numeral.toInt64? n = none ↔ 0x8000000000000000 ≤ n := by
  rw [Integer.toInt64?_eq_none_iff, Integer.InRange]
  omega

/-- What is read from a part of the argument is refused where it cannot be read. -/
theorem sound_bind {α β : Type} {part : Option α} {a : α} {read : α → Option β} {wrap : β → Value}
    (hpart : part = some a) (hrefuses : Refuses c.name x ↔ read a = none)
    (hty : ∀ b, (wrap b).ty = c.signature.ret) :
    Sound c x (part.bind fun a => (read a).map wrap) where
  none_iff := by
    rw [hpart, Option.bind_some, Option.map_eq_none_iff, hrefuses]
  ty_eq := by
    intro v h
    rw [hpart, Option.bind_some] at h
    obtain ⟨b, -, rfl⟩ := Option.map_eq_some_iff.mp h
    exact hty b

theorem sound_intOfStr {cs : List Char} (hname : c.name = "int") (hret : c.signature.ret = .int)
    (h : x.chars? = some cs) : Sound c x (Primitive.intOfStr.answer x) := by
  rw [Primitive.answer_intOfStr]
  exact sound_bind h (by simp [Refuses, hname, h]) fun _ => hret.symm

theorem sound_dblOfStr {cs : List Char} (hname : c.name = "dbl") (hret : c.signature.ret = .dbl)
    (h : x.chars? = some cs) : Sound c x (Primitive.dblOfStr.answer x) := by
  rw [Primitive.answer_dblOfStr]
  exact sound_bind h (by simp [Refuses, hname, h]) fun _ => hret.symm

theorem sound_len {n : Nat} (hname : c.name = "len") (hret : c.signature.ret = .int)
    (h : x.size? = some n) : Sound c x (Primitive.len.answer x) := by
  rw [Primitive.answer_len]
  exact sound_bind h (by simp [Refuses, hname, h, toInt64?_natCast_eq_none_iff]) fun _ => hret.symm

theorem not_refuses_str (x : Value) : ¬Refuses "str" x := by simp [Refuses]

/-- The functions of a set are sound for the arguments that meet their parameters. -/
def AllSound (c : Command) : Prop :=
  ∀ d ∈ c.candidates, ∀ p, d.signature.params = [p] → ∀ x, Meets p x → Sound c x (d.action.answer x)

theorem allSound_int : AllSound ⟨"int", .overloads
    [candidate .int .int .intOfInt, candidate .int .string .intOfStr, candidate .int .dbl .intOfDbl,
      candidate .int .bool .intOfBool, candidate .int .char .intOfChar]⟩ := by
  intro d hd p hparams x h
  simp only [candidates, List.mem_cons, List.not_mem_nil, or_false] at hd
  rcases hd with rfl | rfl | rfl | rfl | rfl <;> cases hparams
  case inr.inl =>
    obtain ⟨items, rfl⟩ := shape_of_meets h (by decide) (by decide)
    exact sound_intOfStr rfl rfl rfl
  all_goals
    obtain ⟨_, rfl⟩ := shape_of_meets h (by decide) (by decide)
    exact sound_some rfl (not_refuses rfl rfl _)

theorem allSound_str : AllSound ⟨"str", .overloads
    [candidate .string .string .strOfStr, candidate .string .int .strOfScalar,
      candidate .string .dbl .strOfScalar, candidate .string .bool .strOfScalar,
      candidate .string .char .strOfScalar, candidate .string anyList .strOfContainer,
      candidate .string anyMap .strOfContainer]⟩ := by
  intro d hd p hparams x h
  simp only [candidates, List.mem_cons, List.not_mem_nil, or_false] at hd
  rcases hd with rfl | rfl | rfl | rfl | rfl | rfl | rfl <;> cases hparams
  case inr.inr.inr.inr.inr.inl =>
    obtain ⟨elem, items, rfl⟩ := list_of_meets h
    exact sound_some rfl (not_refuses_str _)
  case inr.inr.inr.inr.inr.inr =>
    obtain ⟨key, elem, entries, rfl⟩ := map_of_meets h
    exact sound_some rfl (not_refuses_str _)
  all_goals
    obtain ⟨_, rfl⟩ := shape_of_meets h (by decide) (by decide)
    exact sound_some rfl (not_refuses_str _)

theorem allSound_dbl : AllSound ⟨"dbl", .overloads
    [candidate .dbl .dbl .dblOfDbl, candidate .dbl .int .dblOfInt,
      candidate .dbl .string .dblOfStr]⟩ := by
  intro d hd p hparams x h
  simp only [candidates, List.mem_cons, List.not_mem_nil, or_false] at hd
  rcases hd with rfl | rfl | rfl <;> cases hparams
  case inr.inr =>
    obtain ⟨items, rfl⟩ := shape_of_meets h (by decide) (by decide)
    exact sound_dblOfStr rfl rfl rfl
  all_goals
    obtain ⟨_, rfl⟩ := shape_of_meets h (by decide) (by decide)
    exact sound_some rfl (not_refuses rfl rfl _)

theorem allSound_len : AllSound ⟨"len", .overloads
    [candidate .int anyList .len, candidate .int anyMap .len]⟩ := by
  intro d hd p hparams x h
  simp only [candidates, List.mem_cons, List.not_mem_nil, or_false] at hd
  have hcount : d.action = .len ∧ ∃ n, x.size? = some n := by
    rcases hd with rfl | rfl <;> cases hparams
    · obtain ⟨elem, items, rfl⟩ := list_of_meets h
      exact ⟨rfl, items.length, rfl⟩
    · obtain ⟨key, elem, entries, rfl⟩ := map_of_meets h
      exact ⟨rfl, entries.length, rfl⟩
  obtain ⟨haction, n, hsize⟩ := hcount
  rw [haction]
  exact sound_len rfl rfl hsize

theorem allSound_of_standard : ∀ c ∈ standard, AllSound c := by
  intro c hc
  simp only [standard, List.mem_cons, List.not_mem_nil, or_false] at hc
  rcases hc with rfl | rfl | rfl | rfl
  · exact allSound_int
  · exact allSound_str
  · exact allSound_dbl
  · exact allSound_len

/-- **The function that is chosen refuses what its set refuses and nothing else**, and its answer has
the type that the set declares. -/
theorem answer_of_chosen? (hc : c ∈ standard) (h : c.chosen? args = some d) :
    ∃ x, args = [x] ∧ Sound c x (d.action.apply args) := by
  obtain ⟨x, p, rfl, hparams, hmeets⟩ := meets_of_chosen? hc h
  exact ⟨x, rfl, allSound_of_standard c hc d (chosen?_inv h).1 p hparams x hmeets⟩

/-! ## Which arguments are taken, by name -/

/-- One of the functions of this name is chosen for the arguments. -/
def Resolves (name : String) (args : List Value) : Prop :=
  ∃ c d, standard? name = some c ∧ c.chosen? args = some d

theorem suits_candidate_iff (ret p t : Ty) (action : Primitive) :
    Candidate.Suits [t] (candidate ret p action) ↔ ∃ n, Ty.castDist t p = some n := by
  rw [Candidate.Suits, candidate, List.forall₂_cons, and_iff_left .nil]

theorem resolves_iff {name : String} (hc : standard? name = some c) : Resolves name args ↔
    ∃ x, args = [x] ∧ ∃ d ∈ c.candidates, Candidate.Suits [x.ty] d := by
  have hstandard : c ∈ standard := List.mem_of_find?_eq_some hc
  constructor
  · rintro ⟨c', d, hc', hd⟩
    rw [hc] at hc'
    cases hc'
    obtain ⟨hmem, hsuits⟩ := chosen?_inv hd
    obtain ⟨x, p, rfl, -⟩ := meets_of_chosen? hstandard hd
    exact ⟨x, rfl, d, hmem, hsuits⟩
  · rintro ⟨x, rfl, hd⟩
    have hsome : (c.chosen? [x]).isSome := chosen?_isSome_iff.mpr hd
    obtain ⟨d, hd⟩ := Option.isSome_iff_exists.mp hsome
    exact ⟨c, d, hc, hd⟩

theorem resolves_int_iff : Resolves "int" args ↔
    ∃ x, args = [x] ∧ x.ty ∈ [Ty.int, .string, .dbl, .bool, .char] := by
  have hc : standard? "int" = some _ := rfl
  rw [resolves_iff hc]
  refine exists_congr fun x => and_congr_right fun _ => ?_
  simp (disch := decide) only [candidates, List.exists_mem_cons_iff, suits_candidate_iff,
    Ty.converts_iff_eq, Ty.converts_dbl_iff]
  grind

theorem resolves_str_iff : Resolves "str" args ↔
    ∃ x, args = [x] ∧ (x.ty ∈ [Ty.int, .dbl, .bool, .char] ∨ (∃ elem, x.ty = .list elem) ∨
      ∃ key elem, x.ty = .map key elem) := by
  have hc : standard? "str" = some _ := rfl
  rw [resolves_iff hc]
  refine exists_congr fun x => and_congr_right fun _ => ?_
  simp (disch := decide) only [candidates, List.exists_mem_cons_iff, suits_candidate_iff,
    Ty.converts_iff_eq, Ty.converts_dbl_iff, anyList, anyMap,
    Ty.converts_list_void_iff, Ty.converts_map_void_iff]
  -- a text is a list of characters
  grind [Ty.string]

theorem resolves_dbl_iff : Resolves "dbl" args ↔
    ∃ x, args = [x] ∧ x.ty ∈ [Ty.dbl, .int, .string] := by
  have hc : standard? "dbl" = some _ := rfl
  rw [resolves_iff hc]
  refine exists_congr fun x => and_congr_right fun _ => ?_
  simp (disch := decide) only [candidates, List.exists_mem_cons_iff, suits_candidate_iff,
    Ty.converts_iff_eq, Ty.converts_dbl_iff]
  grind

theorem resolves_len_iff : Resolves "len" args ↔
    ∃ x, args = [x] ∧ ((∃ elem, x.ty = .list elem) ∨ ∃ key elem, x.ty = .map key elem) := by
  have hc : standard? "len" = some _ := rfl
  rw [resolves_iff hc]
  refine exists_congr fun x => and_congr_right fun _ => ?_
  simp (disch := decide) only [candidates, List.exists_mem_cons_iff, suits_candidate_iff, anyList,
    anyMap, Ty.converts_list_void_iff, Ty.converts_map_void_iff]
  grind

end Command

end Parlance
