import Parlance.Text.Blank

/-!
# Words with blanks between them

* `Solid cs`         a text that is not empty and has no blank in it;
* `spaced ws`        texts with a space before each, as after the first of several words;
* `words_spaced`     solid texts come back as the words of the text that they make;
* `splitWord_append` so does the first of them, where what follows starts with a blank;
* `splitWord_suffix` what follows the first word is the end of the text;
* `getLast?_spaced`  such a text ends with no blank;
* `trim_eq_self`     a text without blanks at its ends is not trimmed.
-/

namespace Parlance.Text

/-- more than nothing, and no blank in it -/
structure Solid (cs : List Char) : Prop where
  ne_nil : cs ≠ []
  no_blank : ∀ c ∈ cs, isBlank c = false

theorem solid_iff (cs : List Char) : Solid cs ↔ cs ≠ [] ∧ cs.all (!isBlank ·) = true := by
  rw [List.all_eq_true]
  constructor
  · rintro ⟨hne, hblank⟩
    exact ⟨hne, fun c hc => (Bool.not_eq_true' _).mpr (hblank c hc)⟩
  · rintro ⟨hne, hall⟩
    exact ⟨hne, fun c hc => (Bool.not_eq_true' _).mp (hall c hc)⟩

instance (cs : List Char) : Decidable (Solid cs) := decidable_of_iff _ (solid_iff cs).symm

/-- texts with a space before each -/
def spaced (ws : List (List Char)) : List Char := ws.flatMap (' ' :: ·)

theorem spaced_cons (w : List Char) (ws : List (List Char)) :
    spaced (w :: ws) = ' ' :: (w ++ spaced ws) := rfl

theorem intercalate_spaced (w : List Char) (ws : List (List Char)) :
    [' '].intercalate (w :: ws) = w ++ spaced ws := by
  induction ws generalizing w with
  | nil => exact List.intercalate_singleton.trans (List.append_nil w).symm
  | cons v ws ih =>
    rw [List.intercalate_cons_cons, ih v, spaced_cons, List.append_assoc, List.singleton_append]

theorem head_spaced (ws : List (List Char)) : ∀ c ∈ (spaced ws).head?, isBlank c = true := by
  intro c hc
  cases ws with
  | nil => cases hc
  | cons w ws =>
    cases hc
    rfl

theorem Solid.head_append {w : List Char} (h : Solid w) (rest : List Char) :
    ∀ c ∈ (w ++ rest).head?, isBlank c = false := by
  intro c hc
  cases w with
  | nil => exact absurd rfl h.ne_nil
  | cons d w =>
    cases hc
    exact h.no_blank c List.mem_cons_self

theorem Solid.getLast? {w : List Char} (h : Solid w) : ∃ c, w.getLast? = some c ∧ isBlank c = false :=
  ⟨_, List.getLast?_eq_some_getLast h.ne_nil, h.no_blank _ (List.getLast_mem h.ne_nil)⟩

/-- a text of solid words ends with no blank -/
theorem getLast?_spaced {w : List Char} {ws : List (List Char)} (hw : Solid w)
    (hws : ∀ v ∈ ws, Solid v) :
    ∃ c, (w ++ spaced ws).getLast? = some c ∧ isBlank c = false := by
  induction ws generalizing w with
  | nil =>
    have hend : w ++ spaced [] = w := List.append_nil w
    rw [hend]
    exact hw.getLast?
  | cons v ws ih =>
    obtain ⟨c, hc, hblank⟩ := ih (hws v List.mem_cons_self)
      fun u hu => hws u (List.mem_cons_of_mem v hu)
    refine ⟨c, ?_, hblank⟩
    have hassoc : w ++ spaced (v :: ws) = (w ++ [' ']) ++ (v ++ spaced ws) := by
      rw [spaced_cons, List.append_assoc, List.singleton_append]
    rw [hassoc, List.getLast?_append, hc]
    rfl

/-! ## Trimming -/

theorem dropBlanks_eq_self {cs : List Char} (h : ∀ c ∈ cs.head?, isBlank c = false) :
    dropBlanks cs = cs := by
  cases cs with
  | nil => rfl
  | cons c cs =>
    have hc : isBlank c = false := h c rfl
    rw [dropBlanks_cons, hc]
    exact if_neg Bool.false_ne_true

theorem head_dropBlanks (cs : List Char) : ∀ c ∈ (dropBlanks cs).head?, isBlank c = false := by
  induction cs with
  | nil =>
    intro c hc
    cases hc
  | cons d cs ih =>
    rw [dropBlanks_cons]
    by_cases hd : isBlank d = true
    · rw [if_pos hd]
      exact ih
    · rw [if_neg hd]
      intro c hc
      cases hc
      exact eq_false_of_ne_true hd

theorem trim_eq_self {cs : List Char} (hhead : ∀ c ∈ cs.head?, isBlank c = false)
    (hlast : ∀ c ∈ cs.getLast?, isBlank c = false) : trim cs = cs := by
  have hend : ∀ c ∈ cs.reverse.head?, isBlank c = false := by
    rwa [List.head?_reverse]
  rw [trim, dropBlanksEnd, dropBlanks_eq_self hhead, dropBlanks_eq_self hend, List.reverse_reverse]

theorem dropBlanksEnd_prefix (cs : List Char) : dropBlanksEnd cs <+: cs := by
  have h := List.dropWhile_suffix (l := cs.reverse) isBlank
  rw [← List.reverse_prefix, List.reverse_reverse] at h
  exact h

theorem head_trim (cs : List Char) : ∀ c ∈ (trim cs).head?, isBlank c = false := by
  intro c hc
  refine head_dropBlanks cs c ?_
  have hc : (dropBlanksEnd (dropBlanks cs)).head? = some c := hc
  obtain ⟨rest, hrest⟩ := dropBlanksEnd_prefix (dropBlanks cs)
  rw [← hrest, List.head?_append, hc]
  rfl

theorem getLast?_trim (cs : List Char) : ∀ c ∈ (trim cs).getLast?, isBlank c = false := by
  rw [trim, dropBlanksEnd, List.getLast?_reverse]
  exact head_dropBlanks _

theorem getLast?_of_suffix {cs ds : List Char} (h : cs <:+ ds)
    (hlast : ∀ c ∈ ds.getLast?, isBlank c = false) :
    ∀ c ∈ cs.getLast?, isBlank c = false := by
  obtain ⟨before, rfl⟩ := h
  intro c hc
  have hc : cs.getLast? = some c := hc
  refine hlast c ?_
  rw [List.getLast?_append, hc]
  rfl

/-! ## Words -/

theorem words_dropBlanks (cs : List Char) : words (dropBlanks cs) = words cs := by
  induction cs with
  | nil => rfl
  | cons c cs ih =>
    rw [dropBlanks_cons]
    by_cases hc : isBlank c = true
    · rw [if_pos hc, ih, words, words, wordsFrom, if_pos hc]
      rfl
    · rw [if_neg hc]

/-- A text without a blank is read as part of the current word. -/
theorem wordsFrom_append {w : List Char} (h : ∀ c ∈ w, isBlank c = false)
    (word rest : List Char) : wordsFrom word (w ++ rest) = wordsFrom (w.reverse ++ word) rest := by
  induction w generalizing word with
  | nil => rfl
  | cons c w ih =>
    have hc : ¬isBlank c = true := by
      rw [h c List.mem_cons_self]
      exact Bool.false_ne_true
    rw [List.cons_append, wordsFrom, if_neg hc, ih fun d hd => h d (List.mem_cons_of_mem c hd),
      List.reverse_cons, List.append_assoc]
    rfl

theorem words_spaced {ws : List (List Char)} (h : ∀ w ∈ ws, Solid w) : words (spaced ws) = ws := by
  -- a word that is being read ends at the space before the next one
  have hfrom : ∀ word, wordsFrom word (spaced ws) = if word = [] then ws else word.reverse :: ws := by
    induction ws with
    | nil =>
      intro word
      cases word <;> rfl
    | cons w ws ih =>
      intro word
      have hw := h w List.mem_cons_self
      have hne : w.reverse ++ [] ≠ [] := by
        rw [List.append_nil]
        exact fun hnil => hw.ne_nil (List.reverse_eq_nil_iff.mp hnil)
      have hnext : wordsFrom [] (w ++ spaced ws) = w :: ws := by
        rw [wordsFrom_append hw.no_blank, ih fun v hv => h v (List.mem_cons_of_mem w hv), if_neg hne,
          List.append_nil, List.reverse_reverse]
      have hspace : isBlank ' ' = true := rfl
      rw [spaced_cons, wordsFrom, if_pos hspace, hnext]
      cases word <;> rfl
  rw [words, hfrom, if_pos rfl]

/-- The first word is a solid text before a blank or at the end. -/
theorem splitWord_append {w rest : List Char} (hw : Solid w)
    (hrest : ∀ c ∈ rest.head?, isBlank c = true) : splitWord (w ++ rest) = (w, dropBlanks rest) := by
  have hhead := hw.head_append rest
  have hpos : ∀ c ∈ w, (!isBlank c) = true := List.all_eq_true.mp ((solid_iff w).mp hw).2
  have htake : rest.takeWhile (!isBlank ·) = [] := by
    cases rest with
    | nil => rfl
    | cons c rest =>
      have hc : isBlank c = true := hrest c rfl
      simp [hc]
  have hdrop : rest.dropWhile (!isBlank ·) = rest := by
    cases rest with
    | nil => rfl
    | cons c rest =>
      have hc : isBlank c = true := hrest c rfl
      simp [hc]
  rw [splitWord, dropBlanks_eq_self hhead, List.takeWhile_append_of_pos hpos, htake,
    List.append_nil, List.dropWhile_append_of_pos hpos, hdrop]

/-- a solid text is split off from a space and a text that starts with no blank -/
theorem splitWord_spaced {w rest : List Char} (hw : Solid w)
    (hrest : ∀ c ∈ rest.head?, isBlank c = false) : splitWord (w ++ ' ' :: rest) = (w, rest) := by
  have hspace : isBlank ' ' = true := rfl
  have hhead : ∀ c ∈ (' ' :: rest).head?, isBlank c = true := by
    rintro c ⟨⟩
    exact hspace
  rw [splitWord_append hw hhead, dropBlanks_cons, if_pos hspace, dropBlanks_eq_self hrest]

theorem solid_splitWord {cs : List Char} (h : (splitWord cs).1 ≠ []) : Solid (splitWord cs).1 where
  ne_nil := h
  no_blank c hc := by
    have hall := List.all_eq_true.mp (List.all_takeWhile (p := (!isBlank ·)) (l := dropBlanks cs))
    exact (Bool.not_eq_true' _).mp (hall c hc)

theorem head_splitWord (cs : List Char) : ∀ c ∈ (splitWord cs).2.head?, isBlank c = false :=
  head_dropBlanks _

theorem splitWord_suffix (cs : List Char) : (splitWord cs).2 <:+ cs :=
  (List.dropWhile_suffix _).trans ((List.dropWhile_suffix _).trans (List.dropWhile_suffix _))

end Parlance.Text
