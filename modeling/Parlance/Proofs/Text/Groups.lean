import Parlance.Proofs.Text.Quoted

/-!
# Words in brackets

* `Bracket`            round brackets with spaces between what they hold, and square ones with commas;
* `Sexp`, `Sexp.text`  a word, or a group in brackets, and its text;
* `Sexp.Fit`           each word in it is quoted, or free of spaces, commas, brackets and marks;
* `text_append_inj`    the text of such a tree says where it ends and what tree it is of.
-/

namespace Parlance

inductive Bracket where
  | round
  | square
deriving DecidableEq

namespace Bracket

def start : Bracket → Char
  | round => '('
  | square => '['

def stop : Bracket → Char
  | round => ')'
  | square => ']'

/-- what stands between two parts -/
def gap : Bracket → List Char
  | round => [' ']
  | square => [',', ' ']

end Bracket

/-- a word, or a group of such trees in brackets -/
inductive Sexp where
  | word (cs : List Char)
  | group (b : Bracket) (parts : List Sexp)

namespace Sexp

mutual

def text : Sexp → List Char
  | word cs => cs
  | group b parts => b.start :: textParts b parts

/-- the parts of a group, and the bracket that closes it -/
def textParts (b : Bracket) : List Sexp → List Char
  | [] => [b.stop]
  | part :: parts => part.text ++ textAfter b parts

/-- the same after one of the parts -/
def textAfter (b : Bracket) : List Sexp → List Char
  | [] => [b.stop]
  | part :: parts => b.gap ++ (part.text ++ textAfter b parts)

end

/-- can the character stand in a word that is not quoted -/
def isSolid (c : Char) : Bool :=
  !(c == ' ' || c == ',' || c == '(' || c == ')' || c == '[' || c == ']' || c == '"' || c == '\'')

/-- The word is quoted, or made of characters that end no word. -/
def IsWord (cs : List Char) : Prop :=
  (cs ≠ [] ∧ ∀ c ∈ cs, isSolid c = true) ∨
    ∃ mark body, Text.IsMark mark ∧ cs = Text.quoted mark body

mutual

/-- All words in the tree are such. -/
def Fit : Sexp → Prop
  | word cs => IsWord cs
  | group _ parts => FitAll parts

def FitAll : List Sexp → Prop
  | [] => True
  | part :: parts => part.Fit ∧ FitAll parts

end

/-! ## Where words end -/

section
variable {cs ds rest more : List Char}

/-- The text cannot go on with a word. -/
def Stops (rest : List Char) : Prop := ∀ c ∈ rest.head?, isSolid c = false

theorem stops_cons {c : Char} (h : isSolid c = false) (cs : List Char) : Stops (c :: cs) := by
  rintro _ ⟨⟩
  exact h

theorem isSolid_mark {mark : Char} (h : Text.IsMark mark) : isSolid mark = false := by
  rcases h with rfl | rfl <;> decide

theorem stops_textAfter (b : Bracket) (ps : List Sexp) (rest : List Char) :
    Stops (textAfter b ps ++ rest) := by
  have hstop : isSolid b.stop = false := by cases b <;> decide
  cases ps with
  | nil => exact stops_cons hstop rest
  | cons p ps =>
    rw [textAfter]
    cases b with
    | round => exact stops_cons rfl _
    | square => exact stops_cons rfl _

/-- A word starts with a character of its own or with a mark, and so with no bracket. -/
theorem word_ne_cons (h : IsWord cs) {c : Char} (hsolid : isSolid c = false) (hc : ¬Text.IsMark c) :
    cs ++ rest ≠ c :: more := by
  intro heq
  obtain ⟨hne, hall⟩ | ⟨mark, body, hmark, rfl⟩ := h
  · obtain ⟨d, ds, rfl⟩ := List.exists_cons_of_ne_nil hne
    have hd := hall d List.mem_cons_self
    rw [(List.cons.inj heq).1, hsolid] at hd
    cases hd
  · rw [(List.cons.inj heq).1] at hmark
    exact hc hmark

theorem word_ne_start (h : IsWord cs) (b : Bracket) : cs ++ rest ≠ b.start :: more :=
  word_ne_cons h (by cases b <;> decide) (by cases b <;> decide)

/-- No tree starts with a bracket that closes a group. -/
theorem text_ne_stop {s : Sexp} (h : s.Fit) (b : Bracket) : s.text ++ rest ≠ b.stop :: more := by
  cases s with
  | word cs => exact word_ne_cons h (by cases b <;> decide) (by cases b <;> decide)
  | group b' parts =>
    intro heq
    have hhead : b'.start = b.stop := (List.cons.inj heq).1
    cases b <;> cases b' <;> cases hhead

theorem solid_ne_quoted {mark : Char} (hne : cs ≠ []) (hsolid : ∀ c ∈ cs, isSolid c = true)
    (hmark : Text.IsMark mark) (body : List Char) : cs ++ rest ≠ Text.quoted mark body ++ more := by
  intro heq
  obtain ⟨c, cs, rfl⟩ := List.exists_cons_of_ne_nil hne
  have hc := hsolid c List.mem_cons_self
  rw [(List.cons.inj heq).1, isSolid_mark hmark] at hc
  cases hc

/-- A word says where it ends. -/
theorem word_append_inj (hc : IsWord cs) (hd : IsWord ds) (hrest : Stops rest) (hmore : Stops more)
    (h : cs ++ rest = ds ++ more) : cs = ds ∧ rest = more := by
  obtain ⟨hne, hsolid⟩ | ⟨mark, body, hmark, rfl⟩ := hc
  · obtain ⟨hne', hsolid'⟩ | ⟨mark, body, hmark, rfl⟩ := hd
    · have htake := Lexeme.takeWhile_exact hsolid hrest
      have hdrop := Lexeme.dropWhile_exact hsolid hrest
      rw [h, Lexeme.takeWhile_exact hsolid' hmore] at htake
      rw [h, Lexeme.dropWhile_exact hsolid' hmore] at hdrop
      exact ⟨htake.symm, hdrop.symm⟩
    · exact absurd h (solid_ne_quoted hne hsolid hmark body)
  · obtain ⟨hne', hsolid'⟩ | ⟨mark', body', hmark', rfl⟩ := hd
    · exact absurd h.symm (solid_ne_quoted hne' hsolid' hmark body)
    · obtain rfl : mark = mark' := (List.cons.inj h).1
      obtain ⟨rfl, hrest⟩ := Text.quoted_append_inj hmark h
      exact ⟨rfl, hrest⟩

/-! ## Where trees end -/

-- A word needs something after it that stops it.  In a group that is always there: a gap or a bracket.
mutual

/-- The text of a tree says where it ends and what tree it is of. -/
theorem text_append_inj {s t : Sexp} (hs : s.Fit) (ht : t.Fit) {rest more : List Char}
    (hrest : Stops rest) (hmore : Stops more) (h : s.text ++ rest = t.text ++ more) :
    s = t ∧ rest = more := by
  match s, t with
  | .word cs, .word ds =>
    obtain ⟨rfl, htail⟩ := word_append_inj hs ht hrest hmore h
    exact ⟨rfl, htail⟩
  | .word cs, .group b qs => exact absurd h (word_ne_start hs b)
  | .group b ps, .word ds => exact absurd h.symm (word_ne_start ht b)
  | .group b ps, .group b' qs =>
    obtain ⟨hstart, hparts⟩ := List.cons.inj h
    obtain rfl : b = b' := by
      cases b <;> cases b' <;> first | rfl | cases hstart
    obtain ⟨rfl, htail⟩ := parts_append_inj hs ht hparts
    exact ⟨rfl, htail⟩

theorem parts_append_inj {b : Bracket} {ps qs : List Sexp} (hp : FitAll ps) (hq : FitAll qs)
    {rest more : List Char} (h : textParts b ps ++ rest = textParts b qs ++ more) :
    ps = qs ∧ rest = more := by
  match ps, qs with
  | [], [] => exact ⟨rfl, (List.cons.inj h).2⟩
  | [], q :: qs =>
    rw [textParts, textParts, List.append_assoc] at h
    exact absurd h.symm (text_ne_stop hq.1 b)
  | p :: ps, [] =>
    rw [textParts, textParts, List.append_assoc] at h
    exact absurd h (text_ne_stop hp.1 b)
  | p :: ps, q :: qs =>
    rw [textParts, textParts, List.append_assoc, List.append_assoc] at h
    obtain ⟨rfl, hafter⟩ :=
      text_append_inj hp.1 hq.1 (stops_textAfter b ps rest) (stops_textAfter b qs more) h
    obtain ⟨rfl, htail⟩ := after_append_inj hp.2 hq.2 hafter
    exact ⟨rfl, htail⟩

theorem after_append_inj {b : Bracket} {ps qs : List Sexp} (hp : FitAll ps) (hq : FitAll qs)
    {rest more : List Char} (h : textAfter b ps ++ rest = textAfter b qs ++ more) :
    ps = qs ∧ rest = more := by
  match ps, qs with
  | [], [] => exact ⟨rfl, (List.cons.inj h).2⟩
  | [], q :: qs | p :: ps, [] => cases b <;> cases h
  | p :: ps, q :: qs =>
    simp only [textAfter, List.append_assoc] at h
    have hparts := List.append_cancel_left h
    obtain ⟨rfl, hafter⟩ :=
      text_append_inj hp.1 hq.1 (stops_textAfter b ps rest) (stops_textAfter b qs more) hparts
    obtain ⟨rfl, htail⟩ := after_append_inj hp.2 hq.2 hafter
    exact ⟨rfl, htail⟩

end

theorem text_inj {s t : Sexp} (hs : s.Fit) (ht : t.Fit) (h : s.text = t.text) : s = t := by
  have hnil : Stops [] := fun c hc => by cases hc
  exact (text_append_inj hs ht hnil hnil (congrArg (· ++ []) h)).1

end

end Sexp

end Parlance
