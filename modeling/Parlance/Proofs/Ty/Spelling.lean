import Parlance.Proofs.Token.Strings
import Parlance.Ty.Reader

/-!
# How types are spelled

What a text denotes is said without reading it:

* `Ty.names`              the words that name a type;
* `Ty.Denotes cs t`       the text is a name of the type, or brackets around what denotes its components,
                          with blanks before and after each of these;
* `after?_eq_some_iff`, `readFrom_eq`   the reader and its parts, without the bounds that they carry;
* `denotes_of_readFrom`   what is read denotes the type;
* `Denotes.readFrom`      what denotes a type is read, up to the blanks at its end;
* `ofText?_eq_some_iff`   so a text is read as a type exactly if it denotes the type.
-/

namespace Parlance.Ty

open Text

/-- the words that name a type -/
def names : List (List Char × Ty) :=
  [(['i', 'n', 't'], int), (['d', 'b', 'l'], dbl), (['b', 'o', 'o', 'l'], bool),
   (['c', 'h', 'a', 'r'], char), (['s', 't', 'r'], string), (['v', 'o', 'i', 'd'], void)]

/-- The text denotes the type.  Blanks may stand before and after all that denotes a type, and so
around every word, bracket and colon. -/
inductive Denotes : List Char → Ty → Prop
  | name {word : List Char} {t : Ty} (mem : (word, t) ∈ names) : Denotes word t
  | list {cs : List Char} {t : Ty} (elem : Denotes cs t) : Denotes ('[' :: (cs ++ [']'])) (list t)
  | map {ks es : List Char} {k e : Ty} (key : Denotes ks k) (elem : Denotes es e) :
      Denotes ('[' :: (ks ++ ':' :: (es ++ [']']))) (map k e)
  | before {c : Char} {cs : List Char} {t : Ty} (blank : isBlank c = true) (denotes : Denotes cs t) :
      Denotes (c :: cs) t
  | after {c : Char} {cs : List Char} {t : Ty} (blank : isBlank c = true) (denotes : Denotes cs t) :
      Denotes (cs ++ [c]) t

section
variable {c m : Char} {cs gap word rest : List Char} {t : Ty}

/-! ## Names and blanks -/

theorem mem_names_iff : (word, t) ∈ names ↔
    (word = ['i', 'n', 't'] ∧ t = int) ∨ (word = ['d', 'b', 'l'] ∧ t = dbl) ∨
    (word = ['b', 'o', 'o', 'l'] ∧ t = bool) ∨ (word = ['c', 'h', 'a', 'r'] ∧ t = char) ∨
    (word = ['s', 't', 'r'] ∧ t = string) ∨ (word = ['v', 'o', 'i', 'd'] ∧ t = void) := by
  simp only [names, List.mem_cons, List.not_mem_nil, or_false, Prod.mk.injEq]

theorem named?_eq_some_iff : named? word = some t ↔ (word, t) ∈ names := by
  rw [mem_names_iff]
  constructor
  · intro h
    unfold named? at h
    repeat' split at h
    all_goals simp_all
  · rintro (⟨rfl, rfl⟩ | ⟨rfl, rfl⟩ | ⟨rfl, rfl⟩ | ⟨rfl, rfl⟩ | ⟨rfl, rfl⟩ | ⟨rfl, rfl⟩) <;> rfl

/-- A name starts with a character that is neither blank nor a mark, and is made of such as can stand in
words. -/
theorem name_chars (h : (word, t) ∈ names) : ∃ d ds, word = d :: ds ∧ isBlank d = false ∧ d ≠ '[' ∧
    ∀ c ∈ word, c.isAlphanum = true := by
  rw [mem_names_iff] at h
  rcases h with ⟨rfl, -⟩ | ⟨rfl, -⟩ | ⟨rfl, -⟩ | ⟨rfl, -⟩ | ⟨rfl, -⟩ | ⟨rfl, -⟩
  all_goals exact ⟨_, _, rfl, rfl, by decide, List.all_eq_true.mp rfl⟩

theorem dropBlanks_of_blank (h : isBlank c = true) (cs : List Char) :
    dropBlanks (c :: cs) = dropBlanks cs := by
  rw [dropBlanks_cons, if_pos h]

theorem dropBlanks_of_not_blank (h : isBlank c = false) (cs : List Char) :
    dropBlanks (c :: cs) = c :: cs := by
  rw [dropBlanks_cons, if_neg (Bool.eq_false_iff.mp h)]

/-- a text is blanks and then what is left without these -/
theorem exists_gap (cs : List Char) :
    ∃ gap, (∀ c ∈ gap, isBlank c = true) ∧ gap ++ dropBlanks cs = cs :=
  ⟨cs.takeWhile isBlank, List.all_eq_true.mp List.all_takeWhile, takeWhile_append_dropBlanks cs⟩

theorem Denotes.before_gap (h : Denotes cs t) (hgap : ∀ c ∈ gap, isBlank c = true) :
    Denotes (gap ++ cs) t := by
  induction gap with
  | nil => exact h
  | cons c gap ih =>
    obtain ⟨hc, hgap⟩ := List.forall_mem_cons.mp hgap
    exact .before hc (ih hgap)

theorem Denotes.after_gap (h : Denotes cs t) (hgap : ∀ c ∈ gap, isBlank c = true) :
    Denotes (cs ++ gap) t := by
  induction gap generalizing cs with
  | nil =>
    rw [List.append_nil]
    exact h
  | cons c gap ih =>
    obtain ⟨hc, hgap⟩ := List.forall_mem_cons.mp hgap
    have := ih (h.after hc) hgap
    rwa [List.append_assoc] at this

theorem not_isAlphanum_of_isBlank (h : isBlank c = true) : c.isAlphanum = false := by
  rw [← Bool.not_eq_true]
  intro halphanum
  have hpart : Lexeme.isWordPart c = true := by rw [Lexeme.isWordPart, halphanum, Bool.true_or]
  rw [Lexeme.not_isBlank_of_isWordPart hpart] at h
  cases h

/-! ## The reader without its bounds -/

/-- the text after the mark `m`, if that comes next -/
def after? (m : Char) (cs : List Char) : Option (List Char) := (afterMark? m cs).map Subtype.val

/-- the type that a text starts with, and the text after it -/
def readFrom (cs : List Char) : Option (Ty × List Char) := (read cs).map Subtype.val

/-- the type that the first word of a text names, and the text after it -/
def nameFrom (cs : List Char) : Option (Ty × List Char) :=
  let word := (dropBlanks cs).takeWhile Char.isAlphanum
  (named? word).map fun t => (t, (dropBlanks cs).drop word.length)

theorem after?_eq_some_iff : after? m cs = some rest ↔ dropBlanks cs = m :: rest := by
  unfold after? afterMark?
  split
  · rename_i h
    rw [h]
    simp
  · rename_i d ds h
    by_cases hd : d = m
    · subst hd
      rw [if_pos rfl, Option.map_some, Option.some.injEq]
      constructor
      · rintro rfl
        exact h
      · intro hrest
        exact (List.cons.inj (h.symm.trans hrest)).2
    · rw [if_neg hd]
      refine iff_of_false (by simp) fun hrest => ?_
      exact hd (List.cons.inj (h.symm.trans hrest)).1

theorem after?_eq_none (h : ∀ rest, dropBlanks cs ≠ m :: rest) : after? m cs = none := by
  cases hafter : after? m cs with
  | none => rfl
  | some rest => exact absurd (after?_eq_some_iff.mp hafter) (h rest)

theorem readName_eq (cs : List Char) : (readName cs).map Subtype.val = nameFrom cs := by
  unfold readName nameFrom
  dsimp only
  split
  · rename_i h
    rw [h]
    rfl
  · rename_i t h
    exact (congrArg (Option.map fun t => (t, _)) h).symm

theorem readFrom_eq (cs : List Char) : readFrom cs =
    match after? '[' cs with
    | none => nameFrom cs
    | some inner => (readFrom inner).bind fun first =>
      match after? ']' first.2 with
      | some rest => some (.list first.1, rest)
      | none => (after? ':' first.2).bind fun inner => (readFrom inner).bind fun second =>
        (after? ']' second.2).map fun rest => (.map first.1 second.1, rest) := by
  unfold readFrom
  rw [read]
  unfold after?
  cases afterMark? '[' cs with
  | none => exact readName_eq cs
  | some inner =>
    dsimp
    cases read inner.1 with
    | none => rfl
    | some first =>
      dsimp
      cases afterMark? ']' first.1.2 with
      | some rest => rfl
      | none =>
        dsimp
        cases afterMark? ':' first.1.2 with
        | none => rfl
        | some inner =>
          dsimp
          cases read inner.1 with
          | none => rfl
          | some second =>
            dsimp
            cases afterMark? ']' second.1.2 <;> rfl

/-! ## What is read denotes the type -/

theorem denotes_of_nameFrom (h : nameFrom cs = some (t, rest)) :
    ∃ piece, piece ++ rest = cs ∧ Denotes piece t := by
  obtain ⟨t', hname, heq⟩ := Option.map_eq_some_iff.mp h
  cases heq
  obtain ⟨gap, hgap, hcs⟩ := exists_gap cs
  refine ⟨gap ++ _, ?_, (Denotes.name (named?_eq_some_iff.mp hname)).before_gap hgap⟩
  rw [List.append_assoc, List.prefix_iff_eq_append.mp (List.takeWhile_prefix Char.isAlphanum)]
  exact hcs

/-- A mark stands in the text after blanks and before what is left. -/
theorem exists_gap_of_after? (h : after? m cs = some rest) :
    ∃ gap, (∀ c ∈ gap, isBlank c = true) ∧ gap ++ m :: rest = cs := by
  obtain ⟨gap, hgap, hcs⟩ := exists_gap cs
  rw [after?_eq_some_iff.mp h] at hcs
  exact ⟨gap, hgap, hcs⟩

theorem length_of_after? (h : after? m cs = some rest) : rest.length < cs.length := by
  obtain ⟨gap, -, rfl⟩ := exists_gap_of_after? h
  rw [List.length_append, List.length_cons]
  omega

/-- What is taken off a text to read a type denotes the type. -/
theorem denotes_of_readFrom {cs rest : List Char} {t : Ty} (h : readFrom cs = some (t, rest)) :
    ∃ piece, piece ++ rest = cs ∧ Denotes piece t := by
  rw [readFrom_eq] at h
  split at h
  · exact denotes_of_nameFrom h
  · rename_i inner hopen
    obtain ⟨⟨first, left⟩, hfirst, hnext⟩ := Option.bind_eq_some_iff.mp h
    dsimp only at hnext
    have hinner := length_of_after? hopen
    obtain ⟨ks, rfl, hks⟩ := denotes_of_readFrom hfirst
    obtain ⟨gap, hgap, rfl⟩ := exists_gap_of_after? hopen
    split at hnext
    · rename_i hclose
      cases hnext
      obtain ⟨gap', hgap', rfl⟩ := exists_gap_of_after? hclose
      refine ⟨gap ++ '[' :: ((ks ++ gap') ++ [']']), by simp, ?_⟩
      exact (Denotes.list (hks.after_gap hgap')).before_gap hgap
    · obtain ⟨inner, hcolon, hnext⟩ := Option.bind_eq_some_iff.mp hnext
      obtain ⟨⟨second, left'⟩, hsecond, hnext⟩ := Option.bind_eq_some_iff.mp hnext
      obtain ⟨last, hclose, heq⟩ := Option.map_eq_some_iff.mp hnext
      cases heq
      have hsecond' := length_of_after? hcolon
      obtain ⟨es, rfl, hes⟩ := denotes_of_readFrom hsecond
      obtain ⟨gap₁, hgap₁, rfl⟩ := exists_gap_of_after? hcolon
      obtain ⟨gap₂, hgap₂, rfl⟩ := exists_gap_of_after? hclose
      refine ⟨gap ++ '[' :: ((ks ++ gap₁) ++ ':' :: ((es ++ gap₂) ++ [']'])), by simp, ?_⟩
      exact (Denotes.map (hks.after_gap hgap₁) (hes.after_gap hgap₂)).before_gap hgap
termination_by cs.length
decreasing_by
  · exact hinner
  · simp only [List.length_append, List.length_cons] at *
    omega

/-! ## What denotes a type is read -/

/-- only the blanks at its start are skipped -/
theorem readFrom_of_blank (h : isBlank c = true) (cs : List Char) :
    readFrom (c :: cs) = readFrom cs := by
  have hafter : after? '[' (c :: cs) = after? '[' cs := by
    refine Option.ext fun rest => ?_
    rw [after?_eq_some_iff, after?_eq_some_iff, dropBlanks_of_blank h]
  have hname : nameFrom (c :: cs) = nameFrom cs := by
    rw [nameFrom, nameFrom, dropBlanks_of_blank h]
  rw [readFrom_eq, readFrom_eq cs, hafter, hname]

theorem after?_self (hm : isBlank m = false) (h : dropBlanks cs = dropBlanks (m :: rest)) :
    after? m cs = some rest := by
  rw [after?_eq_some_iff, h, dropBlanks_of_not_blank hm]

theorem readFrom_name (hname : (word, t) ∈ names) (hrest : ∀ d ∈ rest.head?, d.isAlphanum = false) :
    readFrom (word ++ rest) = some (t, rest) := by
  obtain ⟨d, ds, hword, hblank, hbracket, hchars⟩ := name_chars hname
  have hdrop : dropBlanks (word ++ rest) = word ++ rest := by
    rw [hword, List.cons_append, dropBlanks_of_not_blank hblank]
  have hnone : after? '[' (word ++ rest) = none := by
    refine after?_eq_none fun rest' h => ?_
    rw [hdrop, hword] at h
    exact hbracket (List.cons.inj h).1
  rw [readFrom_eq, hnone]
  dsimp only
  rw [nameFrom, hdrop, Lexeme.takeWhile_exact hchars hrest, named?_eq_some_iff.mpr hname,
    List.drop_left]
  rfl

/-- What denotes a type is taken off the text in front of which it stands, but for blanks at its end. -/
theorem Denotes.readFrom {cs : List Char} {t : Ty} (h : Denotes cs t) (rest : List Char)
    (hrest : ∀ d ∈ rest.head?, d.isAlphanum = false) :
    ∃ left, Ty.readFrom (cs ++ rest) = some (t, left) ∧ dropBlanks left = dropBlanks rest := by
  induction h generalizing rest with
  | name hname => exact ⟨rest, readFrom_name hname hrest, rfl⟩
  | @list cs t _ ih =>
    obtain ⟨left, hleft, hdrop⟩ := ih (']' :: rest) (fun d hd => by cases hd; rfl)
    refine ⟨rest, ?_, rfl⟩
    have hopen : after? '[' ('[' :: (cs ++ ']' :: rest)) = some (cs ++ ']' :: rest) :=
      after?_self rfl rfl
    rw [List.cons_append, List.append_assoc, List.singleton_append, readFrom_eq, hopen]
    dsimp only
    rw [hleft, Option.bind_some]
    dsimp only
    rw [after?_self rfl hdrop]
  | @map ks es k e _ _ ihk ihe =>
    obtain ⟨left, hleft, hdrop⟩ := ihk (':' :: (es ++ ']' :: rest)) (fun d hd => by cases hd; rfl)
    obtain ⟨left', hleft', hdrop'⟩ := ihe (']' :: rest) (fun d hd => by cases hd; rfl)
    refine ⟨rest, ?_, rfl⟩
    have htext : '[' :: (ks ++ ':' :: (es ++ [']'])) ++ rest =
        '[' :: (ks ++ ':' :: (es ++ ']' :: rest)) := by simp
    have hopen : after? '[' ('[' :: (ks ++ ':' :: (es ++ ']' :: rest))) =
        some (ks ++ ':' :: (es ++ ']' :: rest)) := after?_self rfl rfl
    have hnone : after? ']' left = none := by
      refine after?_eq_none fun rest' h => ?_
      rw [hdrop, dropBlanks_of_not_blank rfl] at h
      cases h
    rw [htext, readFrom_eq, hopen]
    dsimp only
    rw [hleft, Option.bind_some]
    dsimp only
    rw [hnone]
    dsimp only
    rw [after?_self rfl hdrop, Option.bind_some, hleft', Option.bind_some, after?_self rfl hdrop']
    rfl
  | before hblank _ ih =>
    obtain ⟨left, hleft, hdrop⟩ := ih rest hrest
    exact ⟨left, by rw [List.cons_append, readFrom_of_blank hblank, hleft], hdrop⟩
  | @after c cs t hblank _ ih =>
    obtain ⟨left, hleft, hdrop⟩ := ih (c :: rest) (fun d hd => by
      cases hd
      exact not_isAlphanum_of_isBlank hblank)
    refine ⟨left, by rw [List.append_assoc]; exact hleft, ?_⟩
    rw [hdrop, dropBlanks_of_blank hblank]

theorem ofChars?_eq (cs : List Char) : ofChars? cs =
    (readFrom cs).bind fun first => if dropBlanks first.2 = [] then some first.1 else none := by
  unfold ofChars? readFrom
  cases read cs with
  | none => rfl
  | some first => rfl

theorem ofChars?_eq_some_iff : ofChars? cs = some t ↔ Denotes cs t := by
  rw [ofChars?_eq, Option.bind_eq_some_iff]
  constructor
  · rintro ⟨⟨first, rest⟩, hread, h⟩
    dsimp only at h
    split at h
    · rename_i hrest
      cases h
      obtain ⟨piece, rfl, hpiece⟩ := denotes_of_readFrom hread
      obtain ⟨gap, hgap, hcs⟩ := exists_gap rest
      rw [hrest, List.append_nil] at hcs
      subst hcs
      exact hpiece.after_gap hgap
    · cases h
  · intro h
    obtain ⟨left, hleft, hdrop⟩ := h.readFrom [] (fun d hd => by cases hd)
    rw [List.append_nil] at hleft
    exact ⟨_, hleft, if_pos hdrop⟩

/-- A text is read as a type exactly if it denotes the type. -/
theorem ofText?_eq_some_iff {text : String} : ofText? text = some t ↔ Denotes text.toList t :=
  ofChars?_eq_some_iff

end

end Parlance.Ty
