import Parlance.Proofs.Command.Expressions
import Parlance.Proofs.Text.Words

/-!
# A body and its words

Where a word ends is settled by the word alone and by something ending it: what else follows does not
matter.  So words with one space between them are cut as they were.

* `Local len`            a way to find the end of a word that is like this; `local_run` and `local_code`
                       are the two that there are;
* `Stands w rest`        a text that is a word before the rest;
* `Stands.move`          the rest may be exchanged for another one;
* `words_induction`      a text is nothing, or a spacer before a text, or a word before a text;
* `Laid ws cs`           the text is the words, laid out with spacers around them; `laid_words`;
* `words_joined`         joined by spaces, the words of a text have the same words again;
* `getLast?_joined`      and they end with the same character, if that is no spacer.
-/

namespace Parlance

namespace Expansion

variable {w rest rest' cs : List Char} {ws : List (List Char)}

/-! ## Where a word ends -/

/-- Where a word ends does not depend on what ends it, unless there is nothing behind it. -/
structure Local (len : List Char → Nat) : Prop where
  ends : ∀ {w rest}, len (w ++ rest) = w.length → Ends rest
  move : ∀ {w rest rest'}, len (w ++ rest) = w.length → Ends rest' → (rest = [] → rest' = []) →
    len (w ++ rest') = w.length

/-- the number of characters up to the first spacer -/
def run (cs : List Char) : Nat := (cs.takeWhile (!Text.isSpacer ·)).length

theorem run_cons (c : Char) (cs : List Char) :
    run (c :: cs) = if Text.isSpacer c then 0 else run cs + 1 := by
  rw [run, List.takeWhile_cons]
  cases Text.isSpacer c <;> rfl

theorem run_eq_length_iff :
    run (w ++ rest) = w.length ↔ (∀ c ∈ w, Text.isSpacer c = false) ∧ Ends rest := by
  induction w with
  | nil =>
    cases rest with
    | nil => exact iff_of_true rfl ⟨nofun, ends_nil⟩
    | cons c rest =>
      rw [List.nil_append, run_cons, ends_cons_iff]
      cases Text.isSpacer c with
      | true => exact iff_of_true rfl ⟨nofun, rfl⟩
      | false => exact iff_of_false (Nat.succ_ne_zero _) fun h => Bool.false_ne_true h.2
  | cons c w ih =>
    rw [List.cons_append, run_cons, List.forall_mem_cons]
    cases Text.isSpacer c with
    | true => exact iff_of_false (Nat.succ_ne_zero _).symm fun h => Bool.false_ne_true h.1.1.symm
    | false =>
      rw [if_neg Bool.false_ne_true, List.length_cons, Nat.add_right_cancel_iff, ih, and_assoc]
      exact (and_iff_right rfl).symm

theorem local_run : Local run where
  ends h := (run_eq_length_iff.mp h).2
  move h hends _ := run_eq_length_iff.mpr ⟨(run_eq_length_iff.mp h).1, hends⟩

theorem local_code (state : Int × Quotation) : Local (codeLength state.1 state.2) := by
  have hstop : ∀ {w rest : List Char}, codeLength state.1 state.2 (w ++ rest) = w.length →
      ∃ after, follow? state w = some after ∧ codeLength after.1 after.2 rest = 0 := by
    intro w rest h
    cases hafter : follow? state w with
    | none => exact absurd h (Nat.ne_of_lt (codeLength_lt hafter rest))
    | some after =>
      rw [codeLength_append hafter, Nat.add_eq_left] at h
      exact ⟨after, rfl, h⟩
  constructor
  · intro w rest h
    obtain ⟨after, -, hzero⟩ := hstop h
    exact ((codeLength_eq_zero_iff after).mp hzero).1
  · intro w rest rest' h hends hnil
    obtain ⟨after, hafter, hzero⟩ := hstop h
    have hzero' : codeLength after.1 after.2 rest' = 0 :=
      (codeLength_eq_zero_iff after).mpr
        ⟨hends, ((codeLength_eq_zero_iff after).mp hzero).2.imp_left hnil⟩
    rw [codeLength_append hafter, hzero', Nat.add_zero]

theorem codeLength_le (state : Int × Quotation) (cs : List Char) :
    codeLength state.1 state.2 cs ≤ cs.length := by
  induction cs generalizing state with
  | nil => exact Nat.le_refl 0
  | cons c cs ih =>
    rw [codeLength_cons]
    cases next? state c with
    | none => exact Nat.zero_le _
    | some after => exact Nat.succ_le_succ (ih after)

/-! ## A word before the rest of a text -/

theorem wordLength_said (h : cs.head? ≠ some '\\') : wordLength cs = run cs := by
  unfold wordLength
  split
  · exact absurd rfl h
  · exact absurd rfl h
  · rfl

theorem wordLength_pos {c : Char} (hc : Text.isSpacer c = false) (cs : List Char) :
    0 < wordLength (c :: cs) := by
  unfold wordLength
  split
  · exact Nat.succ_pos _
  · exact Nat.succ_pos _
  · show 0 < run (c :: cs)
    rw [run_cons, hc]
    exact Nat.succ_pos _

theorem wordLength_le (cs : List Char) : wordLength cs ≤ cs.length := by
  unfold wordLength
  split
  · rename_i cs
    have hrun := (List.takeWhile_prefix (l := cs) (!Text.isSpacer ·)).length_le
    rw [List.length_cons, List.length_cons]
    omega
  · rename_i cs _
    exact Nat.succ_le_succ (codeLength_le (0, .outside) cs)
  · rename_i cs _ _
    exact (List.takeWhile_prefix (!Text.isSpacer ·)).length_le

/-- The text is a word before the rest. -/
structure Stands (w rest : List Char) : Prop where
  starts : ∃ c, w.head? = some c ∧ Text.isSpacer c = false
  length_eq : wordLength (w ++ rest) = w.length

/-- There are three kinds of words: two backslashes and a text, an expression, and any other text. -/
theorem wordLength_eq_length_iff (hw : w ≠ []) : wordLength (w ++ rest) = w.length ↔
    (∃ v, w = '\\' :: '\\' :: v ∧ run (v ++ rest) = v.length) ∨
    (∃ v, w = '\\' :: v ∧ v.head? ≠ some '\\' ∧ codeLength 0 .outside (v ++ rest) = v.length) ∨
    (w.head? ≠ some '\\' ∧ run (w ++ rest) = w.length) := by
  obtain ⟨c, w, rfl⟩ := List.exists_cons_of_ne_nil hw
  by_cases hc : c ≠ '\\'
  · have hhead : (c :: (w ++ rest)).head? ≠ some '\\' := fun h => hc (Option.some.inj h)
    rw [List.cons_append, wordLength_said hhead]
    simp [hc]
  obtain rfl : c = '\\' := Decidable.not_not.mp hc
  by_cases hescaped : (w ++ rest).head? = some '\\'
  · cases w with
    | nil =>
      -- a backslash that the rest starts with would belong to the word
      obtain ⟨rest, rfl⟩ : ∃ cs, rest = '\\' :: cs := by
        cases rest with
        | nil => cases hescaped
        | cons d rest => exact ⟨rest, by cases hescaped; rfl⟩
      have hlong : wordLength ('\\' :: '\\' :: rest) ≠ 1 := by
        show run rest + 2 ≠ 1
        omega
      have hcode : codeLength 0 .outside ('\\' :: rest) ≠ 0 := Nat.succ_ne_zero _
      simp [hlong, hcode]
    | cons d w =>
      cases hescaped
      show run (w ++ rest) + 2 = w.length + 2 ↔ _
      simp
  · rw [List.cons_append, wordLength_expression hescaped, List.length_cons, Nat.add_right_cancel_iff]
    cases w with
    | nil => simp
    | cons d w =>
      have hd : d ≠ '\\' := fun h => hescaped (congrArg some h)
      simp [hd]

theorem Stands.ne_nil (h : Stands w rest) : w ≠ [] := by
  rintro rfl
  obtain ⟨c, hc, -⟩ := h.starts
  cases hc

theorem Stands.ends (h : Stands w rest) : Ends rest := by
  rcases (wordLength_eq_length_iff h.ne_nil).mp h.length_eq with ⟨v, -, hv⟩ | ⟨v, -, -, hv⟩ | ⟨-, hw⟩
  · exact local_run.ends hv
  · exact (local_code (0, .outside)).ends hv
  · exact local_run.ends hw

/-- **What stands behind a word does not matter**, as long as it ends the word and is not put behind one
that came last: nothing would end an expression there in which something is open. -/
theorem Stands.move (h : Stands w rest) (hends : Ends rest') (hnil : rest = [] → rest' = []) :
    Stands w rest' := by
  refine ⟨h.starts, (wordLength_eq_length_iff h.ne_nil).mpr ?_⟩
  rcases (wordLength_eq_length_iff h.ne_nil).mp h.length_eq with ⟨v, rfl, hv⟩ | ⟨v, rfl, hhead, hv⟩ | ⟨hhead, hw⟩
  · exact .inl ⟨v, rfl, local_run.move hv hends hnil⟩
  · exact .inr (.inl ⟨v, rfl, hhead, (local_code (0, .outside)).move hv hends hnil⟩)
  · exact .inr (.inr ⟨hhead, local_run.move hw hends hnil⟩)

theorem exists_stands {c : Char} (hc : Text.isSpacer c = false) (cs : List Char) :
    ∃ w rest, c :: cs = w ++ rest ∧ Stands w rest := by
  have hpos := wordLength_pos hc cs
  have hle := wordLength_le (c :: cs)
  refine ⟨(c :: cs).take (wordLength (c :: cs)), (c :: cs).drop (wordLength (c :: cs)),
    (List.take_append_drop _ _).symm, ⟨c, ?_, hc⟩, ?_⟩
  · rw [List.head?_take, if_neg (Nat.ne_of_gt hpos)]
    rfl
  · rw [List.take_append_drop, List.length_take, Nat.min_eq_left hle]

/-! ## The words of a text -/

theorem Stands.words_append (h : Stands w rest) : words (w ++ rest) = w :: words rest := by
  obtain ⟨c, hc, hspacer⟩ := h.starts
  have hlength := h.length_eq
  cases w with
  | nil => cases hc
  | cons d w =>
    cases hc
    have hc' : ¬Text.isSpacer c = true := by
      rw [hspacer]
      exact Bool.false_ne_true
    rw [List.cons_append] at hlength ⊢
    rw [words, wordsFrom, if_neg hc']
    dsimp only
    rw [hlength, wordsFrom_skip, ← List.cons_append, List.take_left, List.length_cons,
      Nat.add_sub_cancel, List.drop_left]

/-- Every text is nothing, or a spacer before a text, or a word before a text. -/
theorem words_induction {motive : List Char → Prop} (nil : motive [])
    (spacer : ∀ c cs, Text.isSpacer c = true → motive cs → motive (c :: cs))
    (word : ∀ w rest, Stands w rest → motive rest → motive (w ++ rest)) (cs : List Char) :
    motive cs := by
  induction hn : cs.length using Nat.strongRecOn generalizing cs with
  | _ n ih =>
    subst hn
    cases cs with
    | nil => exact nil
    | cons c cs =>
      cases hc : Text.isSpacer c with
      | true => exact spacer c cs hc (ih cs.length (Nat.lt_succ_self _) cs rfl)
      | false =>
        obtain ⟨w, rest, hcs, hstands⟩ := exists_stands hc cs
        have hpos := List.length_pos_iff.mpr hstands.ne_nil
        rw [hcs, List.length_append] at ih
        rw [hcs]
        exact word w rest hstands (ih rest.length (by omega) rest rfl)

/-- The text is the words, with spacers before, between and behind them. -/
inductive Laid : List (List Char) → List Char → Prop
  | gap (before : List Char) (hgap : ∀ c ∈ before, Text.isSpacer c = true) : Laid [] before
  | word (before : List Char) {w rest : List Char} {ws : List (List Char)}
      (hgap : ∀ c ∈ before, Text.isSpacer c = true) (hw : w ≠ []) (hends : Ends rest)
      (others : Laid ws rest) : Laid (w :: ws) (before ++ (w ++ rest))

theorem Laid.spacer {c : Char} (hc : Text.isSpacer c = true) (h : Laid ws cs) :
    Laid ws (c :: cs) := by
  cases h with
  | gap _ hgap => exact .gap (c :: cs) (List.forall_mem_cons.mpr ⟨hc, hgap⟩)
  | word before hgap hw hends others =>
    exact .word (c :: before) (List.forall_mem_cons.mpr ⟨hc, hgap⟩) hw hends others

/-- **A text is its words, laid out with spacers around them.** -/
theorem laid_words (cs : List Char) : Laid (words cs) cs := by
  induction cs using words_induction with
  | nil => exact .gap [] nofun
  | spacer c cs hc ih =>
    rw [words_spacer hc]
    exact ih.spacer hc
  | word w rest hstands ih =>
    rw [hstands.words_append]
    exact .word [] nofun hstands.ne_nil hstands.ends ih

/-! ## The words joined by spaces -/

/-- the words of a text, joined by spaces -/
def joined (cs : List Char) : List Char := [' '].intercalate (words cs)

theorem joined_spacer {c : Char} (hc : Text.isSpacer c = true) (cs : List Char) :
    joined (c :: cs) = joined cs := by
  rw [joined, words_spacer hc, joined]

/-- The words behind a word are put behind it with a space, if there are any. -/
theorem Stands.joined_append (h : Stands w rest) :
    (words rest = [] ∧ joined (w ++ rest) = w) ∨
      (words rest ≠ [] ∧ joined (w ++ rest) = w ++ ' ' :: joined rest) := by
  rw [joined, h.words_append, joined]
  cases words rest with
  | nil => exact .inl ⟨rfl, List.intercalate_singleton⟩
  | cons v ws =>
    refine .inr ⟨List.cons_ne_nil v ws, ?_⟩
    rw [List.intercalate_cons_cons, List.append_assoc, List.singleton_append]

/-- **The words of a text, joined by spaces, have the same words again.** -/
theorem words_joined (cs : List Char) : words (joined cs) = words cs := by
  induction cs using words_induction with
  | nil => rfl
  | spacer c cs hc ih => rw [joined_spacer hc, words_spacer hc, ih]
  | word w rest hstands ih =>
    rcases hstands.joined_append with ⟨hnil, hjoined⟩ | ⟨hne, hjoined⟩
    · -- nothing but spacers behind the word, and nothing at all when joined
      have halone : Stands w [] := hstands.move ends_nil fun _ => rfl
      have hwords := halone.words_append
      rw [List.append_nil] at hwords
      rw [hjoined, hwords, hstands.words_append, hnil]
      rfl
    · -- another word behind it: what ended this one gives way to a space
      have hrest : rest ≠ [] := by
        rintro rfl
        exact hne rfl
      have hspaced : Stands w (' ' :: joined rest) :=
        hstands.move (ends_space _) fun h => absurd h hrest
      rw [hjoined, hspaced.words_append, words_spacer rfl, ih, hstands.words_append]

theorem head?_joined {c : Char} (hc : Text.isSpacer c = false) (cs : List Char) :
    (joined (c :: cs)).head? = some c := by
  obtain ⟨w, rest, hcs, hstands⟩ := exists_stands hc cs
  obtain ⟨d, hd, -⟩ := hstands.starts
  have hsame : (w ++ rest).head? = some d := by rw [List.head?_append, hd, Option.some_or]
  rw [← hcs] at hsame
  rw [hcs, show c = d from Option.some.inj hsame]
  rcases hstands.joined_append with ⟨-, hjoined⟩ | ⟨-, hjoined⟩
  · rw [hjoined, hd]
  · rw [hjoined, List.head?_append, hd, Option.some_or]

theorem getLast?_joined {c : Char} (hc : Text.isSpacer c = false) (hlast : cs.getLast? = some c) :
    (joined cs).getLast? = some c := by
  induction cs using words_induction with
  | nil => cases hlast
  | spacer d cs hd ih =>
    rw [joined_spacer hd]
    cases cs with
    | nil =>
      obtain rfl : d = c := Option.some.inj hlast
      rw [hd] at hc
      cases hc
    | cons e cs => exact ih (by rwa [List.getLast?_cons_cons] at hlast)
  | word w rest hstands ih =>
    rw [List.getLast?_append] at hlast
    cases hrest : rest.getLast? with
    | none =>
      rw [hrest, Option.none_or] at hlast
      rw [List.getLast?_eq_none_iff] at hrest
      subst hrest
      rcases hstands.joined_append with ⟨-, hjoined⟩ | ⟨hne, -⟩
      · rw [hjoined, hlast]
      · exact absurd rfl hne
    | some d =>
      rw [hrest, Option.some_or] at hlast
      have hend := ih (hrest.trans hlast)
      rcases hstands.joined_append with ⟨hnil, -⟩ | ⟨-, hjoined⟩
      · rw [joined, hnil] at hend
        cases hend
      · rw [hjoined, List.getLast?_append, List.getLast?_cons, hend]
        rfl

end Expansion

end Parlance
