import Parlance.Proofs.Ty.Spelling

/-!
# Written types and read types

* `Ty.hasFn t`             there is a function type in `t`;
* `Ty.Loosened cs ds`      `ds` is `cs` with blanks put in where they cut no word;
* `denotes_display`        a type without functions is denoted by its written form;
* `Denotes.loosened`       and by this with blanks put in;
* `Denotes.not_mem_paren`, `mem_paren_display`   one with functions is not, for the parenthesis in it;
* `display_append_inj`     no written form is the start of another, and each is of one type only;
* `ofText?_display`        writing and reading types undo each other.
-/

namespace Parlance.Ty

open Text

/-- is there a function type in the type -/
def hasFn : Ty → Bool
  | list elem => elem.hasFn
  | map key elem => key.hasFn || elem.hasFn
  | fn _ _ => true
  | _ => false

/-- a word goes on from the first text to the second -/
def Cuts (as bs : List Char) : Prop :=
  as.getLast?.any Char.isAlphanum = true ∧ bs.head?.any Char.isAlphanum = true

/-- The text `cs` with any number of blanks put in, at its ends or anywhere but within a word. -/
inductive Loosened (cs : List Char) : List Char → Prop
  | same : Loosened cs cs
  | blank {as bs : List Char} {c : Char} (loosened : Loosened cs (as ++ bs)) (blank : isBlank c = true)
      (apart : ¬Cuts as bs) : Loosened cs (as ++ c :: bs)

section
variable {c : Char} {cs ds as bs : List Char} {t : Ty}

/-! ## The written form of each kind of type -/

theorem display_list {elem : Ty} (h : elem ≠ char) :
    (list elem).display.toList = '[' :: (elem.display.toList ++ [']']) := by
  cases elem with
  | char => exact absurd rfl h
  | _ => simp [display]

theorem display_map (key elem : Ty) : (map key elem).display.toList =
    '[' :: (key.display.toList ++ ':' :: ' ' :: (elem.display.toList ++ [']'])) := by
  simp [display]

theorem display_fn (params : List Ty) (ret : Ty) : (fn params ret).display.toList =
    'f' :: 'n' :: '(' :: ((displayAll params).toList ++
      ')' :: ' ' :: '-' :: '>' :: ' ' :: ret.display.toList) := by
  simp [display]

/-- A type is written as a name, or between brackets, or as a function. -/
theorem display_cases (t : Ty) : (t.display.toList, t) ∈ names ∨ (∃ elem, elem ≠ char ∧ t = list elem) ∨
    (∃ key elem, t = map key elem) ∨ ∃ params ret, t = fn params ret := by
  cases t with
  | list elem =>
    by_cases h : elem = char
    · subst h
      exact .inl (by decide +kernel)
    · exact .inr (.inl ⟨elem, h, rfl⟩)
  | map key elem => exact .inr (.inr (.inl ⟨key, elem, rfl⟩))
  | fn params ret => exact .inr (.inr (.inr ⟨params, ret, rfl⟩))
  | _ => exact .inl (by decide +kernel)

/-- a type without functions is denoted by its written form -/
theorem denotes_display : ∀ t : Ty, t.hasFn = false → Denotes t.display.toList t
  | list elem, h => by
    rcases display_cases (list elem) with hname | ⟨elem', hne, heq⟩ | ⟨_, _, heq⟩ | ⟨_, _, heq⟩
    · exact .name hname
    · cases heq
      rw [display_list hne]
      exact .list (denotes_display elem h)
    · cases heq
    · cases heq
  | map key elem, h => by
    obtain ⟨hkey, helem⟩ := Bool.or_eq_false_iff.mp h
    rw [display_map]
    exact .map (denotes_display key hkey) (.before rfl (denotes_display elem helem))
  | void, _ | int, _ | dbl, _ | bool, _ | char, _ => .name (by decide +kernel)

/-! ## Blanks put in -/

theorem Cuts.within (h : Cuts as bs) (xs ys : List Char) : Cuts (xs ++ as) (bs ++ ys) := by
  obtain ⟨hlast, hhead⟩ := h
  obtain ⟨x, hx, hlast⟩ := (Option.any_eq_true _ _).mp hlast
  obtain ⟨y, hy, hhead⟩ := (Option.any_eq_true _ _).mp hhead
  constructor
  · rw [List.getLast?_append, hx]
    exact hlast
  · rw [List.head?_append, hy]
    exact hhead

/-- A place in a text of two parts is in the first one or at its end, or after a character of the
second. -/
theorem place_cases {xs ys : List Char} (h : xs ++ ys = as ++ bs) :
    (∃ more, xs = as ++ more ∧ bs = more ++ ys) ∨ ∃ d more, as = xs ++ d :: more ∧ ys = d :: (more ++ bs) := by
  rcases List.append_eq_append_iff.mp h with ⟨more, has, hys⟩ | ⟨more, hxs, hbs⟩
  · cases more with
    | nil =>
      rw [List.append_nil] at has
      exact .inl ⟨[], by rw [has, List.append_nil], hys.symm⟩
    | cons d more => exact .inr ⟨d, more, has, hys⟩
  · exact .inl ⟨more, hxs, hbs⟩

/-- A blank can be put in wherever it cuts no word. -/
theorem Denotes.insert (h : Denotes cs t) (hblank : isBlank c = true) (has : cs = as ++ bs)
    (hapart : ¬Cuts as bs) : Denotes (as ++ c :: bs) t := by
  induction h generalizing as bs with
  | @name word t hname =>
    obtain ⟨-, -, -, -, -, hchars⟩ := name_chars hname
    subst has
    cases bs with
    | nil => exact .after hblank (by rw [List.append_nil] at hname; exact .name hname)
    | cons d bs =>
      cases hlast : as.getLast? with
      | none =>
        rw [List.getLast?_eq_none_iff] at hlast
        subst hlast
        exact .before hblank (.name hname)
      | some x =>
        have hx : x ∈ as := List.mem_of_getLast? hlast
        refine absurd ⟨?_, hchars d (by simp)⟩ hapart
        rw [hlast]
        exact hchars x (List.mem_append_left _ hx)
  | @list cs t helem ih =>
    rcases List.cons_eq_append_iff.mp has with ⟨rfl, rfl⟩ | ⟨as, rfl, hinner⟩
    · exact .before hblank (.list helem)
    rcases place_cases hinner with ⟨more, rfl, rfl⟩ | ⟨d, more, rfl, htail⟩
    · have := Denotes.list (ih rfl fun h => hapart (h.within ['['] [']']))
      simpa using this
    · obtain ⟨rfl, hnil⟩ := List.cons.inj htail
      obtain ⟨rfl, rfl⟩ := List.append_eq_nil_iff.mp hnil.symm
      exact .after hblank (.list helem)
  | @map ks es k e hkey helem ihk ihe =>
    rcases List.cons_eq_append_iff.mp has with ⟨rfl, rfl⟩ | ⟨as, rfl, hinner⟩
    · exact .before hblank (.map hkey helem)
    rcases place_cases hinner with ⟨more, rfl, rfl⟩ | ⟨d, more, rfl, htail⟩
    · have := Denotes.map (ihk rfl fun h => hapart (h.within ['['] _)) helem
      simpa using this
    · obtain ⟨rfl, hafter⟩ := List.cons.inj htail
      rcases place_cases hafter with ⟨more', rfl, rfl⟩ | ⟨d, more', rfl, hend⟩
      · have := Denotes.map hkey (ihe rfl fun h => hapart (by
          have := h.within ('[' :: (ks ++ [':'])) [']']
          simpa using this))
        simpa using this
      · obtain ⟨rfl, hnil⟩ := List.cons.inj hend
        obtain ⟨rfl, rfl⟩ := List.append_eq_nil_iff.mp hnil.symm
        have := Denotes.after hblank (.map hkey helem)
        simpa using this
  | @before d cs t hd hcs ih =>
    rcases List.cons_eq_append_iff.mp has with ⟨rfl, rfl⟩ | ⟨as, rfl, rfl⟩
    · exact .before hblank (.before hd hcs)
    · exact .before hd (ih rfl fun h => hapart (by simpa using h.within [d] []))
  | @after d cs t hd hcs ih =>
    rcases place_cases has with ⟨more, rfl, rfl⟩ | ⟨d, more, rfl, htail⟩
    · have := Denotes.after hd (ih rfl fun h => hapart (h.within [] [d]))
      simpa using this
    · obtain ⟨rfl, hnil⟩ := List.cons.inj htail
      obtain ⟨rfl, rfl⟩ := List.append_eq_nil_iff.mp hnil.symm
      exact .after hblank (.after hd hcs)

theorem Denotes.loosened (h : Denotes cs t) (hds : Loosened cs ds) : Denotes ds t := by
  induction hds with
  | same => exact h
  | blank _ hblank hapart ih => exact ih.insert hblank rfl hapart

/-! ## Functions -/

theorem Denotes.not_mem_paren (h : Denotes cs t) : '(' ∉ cs := by
  induction h with
  | name hname =>
    rw [mem_names_iff] at hname
    rcases hname with ⟨rfl, -⟩ | ⟨rfl, -⟩ | ⟨rfl, -⟩ | ⟨rfl, -⟩ | ⟨rfl, -⟩ | ⟨rfl, -⟩ <;> decide
  | list _ ih => simp [ih]
  | map _ _ ihk ihe => simp [ihk, ihe]
  | before hblank _ ih =>
    rw [List.mem_cons, not_or]
    refine ⟨?_, ih⟩
    rintro rfl
    cases hblank
  | after hblank _ ih =>
    rw [List.mem_append, List.mem_singleton, not_or]
    refine ⟨ih, ?_⟩
    rintro rfl
    cases hblank

theorem mem_paren_display : ∀ t : Ty, t.hasFn = true → '(' ∈ t.display.toList
  | list elem, h => by
    have hne : elem ≠ char := by
      rintro rfl
      cases h
    rw [display_list hne]
    simp [mem_paren_display elem h]
  | map key elem, h => by
    rw [display_map]
    rcases Bool.or_eq_true_iff.mp h with h | h
    · simp [mem_paren_display key h]
    · simp [mem_paren_display elem h]
  | fn params ret, _ => by
    rw [display_fn]
    simp

end

/-! ## One type for each written form -/

section
variable {word word' r s x : List Char} {a b : Ty}

/-- no name starts like a type in brackets, a function or the end of its parameters -/
theorem name_append_ne (h : (word, a) ∈ names) (r s : List Char) :
    word ++ r ≠ '[' :: s ∧ word ++ r ≠ 'f' :: s ∧ word ++ r ≠ ')' :: s := by
  rw [mem_names_iff] at h
  rcases h with ⟨rfl, -⟩ | ⟨rfl, -⟩ | ⟨rfl, -⟩ | ⟨rfl, -⟩ | ⟨rfl, -⟩ | ⟨rfl, -⟩ <;> simp

/-- no name is the start of another -/
theorem name_append_inj (ha : (word, a) ∈ names) (hb : (word', b) ∈ names)
    (h : word ++ r = word' ++ s) : a = b ∧ r = s := by
  rw [mem_names_iff] at ha hb
  rcases ha with ⟨rfl, rfl⟩ | ⟨rfl, rfl⟩ | ⟨rfl, rfl⟩ | ⟨rfl, rfl⟩ | ⟨rfl, rfl⟩ | ⟨rfl, rfl⟩ <;>
  rcases hb with ⟨rfl, rfl⟩ | ⟨rfl, rfl⟩ | ⟨rfl, rfl⟩ | ⟨rfl, rfl⟩ | ⟨rfl, rfl⟩ | ⟨rfl, rfl⟩ <;>
  simp_all

theorem display_name_inv (ha : (word, a) ∈ names) (h : word ++ r = b.display.toList ++ s) :
    a = b ∧ r = s := by
  rcases display_cases b with hb | ⟨elem, hne, rfl⟩ | ⟨key, elem, rfl⟩ | ⟨params, ret, rfl⟩
  · exact name_append_inj ha hb h
  · rw [display_list hne] at h
    exact absurd h (name_append_ne ha _ _).1
  · rw [display_map] at h
    exact absurd h (name_append_ne ha _ _).1
  · rw [display_fn] at h
    exact absurd h (name_append_ne ha _ _).2.1

theorem display_bracket_inv (h : '[' :: x = b.display.toList ++ s) :
    (∃ elem, b = list elem ∧ x = elem.display.toList ++ ']' :: s) ∨
      ∃ key elem, b = map key elem ∧
        x = key.display.toList ++ ':' :: ' ' :: (elem.display.toList ++ ']' :: s) := by
  rcases display_cases b with hb | ⟨elem, hne, rfl⟩ | ⟨key, elem, rfl⟩ | ⟨params, ret, rfl⟩
  · exact absurd h.symm (name_append_ne hb _ _).1
  · rw [display_list hne] at h
    exact .inl ⟨elem, rfl, by simpa using h⟩
  · rw [display_map] at h
    exact .inr ⟨key, elem, rfl, by simpa using h⟩
  · rw [display_fn] at h
    cases h

theorem display_fn_inv (h : 'f' :: 'n' :: '(' :: x = b.display.toList ++ s) :
    ∃ params ret, b = fn params ret ∧ x = (displayAll params).toList ++
      ')' :: ' ' :: '-' :: '>' :: ' ' :: (ret.display.toList ++ s) := by
  rcases display_cases b with hb | ⟨elem, hne, rfl⟩ | ⟨key, elem, rfl⟩ | ⟨params, ret, rfl⟩
  · exact absurd h.symm (name_append_ne hb _ _).2.1
  · rw [display_list hne] at h
    cases h
  · rw [display_map] at h
    cases h
  · rw [display_fn] at h
    exact ⟨params, ret, rfl, by simpa using h⟩

/-- no type is written like the end of a function's parameters -/
theorem display_append_ne_paren (b : Ty) (r s : List Char) : b.display.toList ++ s ≠ ')' :: r := by
  intro h
  rcases display_cases b with hb | ⟨elem, hne, rfl⟩ | ⟨key, elem, rfl⟩ | ⟨params, ret, rfl⟩
  · exact absurd h (name_append_ne hb _ _).2.2
  · rw [display_list hne] at h
    cases h
  · rw [display_map] at h
    cases h
  · rw [display_fn] at h
    cases h

/-- what stands after the first of several parameters, where the others are `ts` -/
def afterParam (r : List Char) : List Ty → List Char
  | [] => ')' :: r
  | t :: ts => ',' :: ' ' :: ((displayAll (t :: ts)).toList ++ ')' :: r)

theorem displayAll_cons (t : Ty) (ts : List Ty) (r : List Char) :
    (displayAll (t :: ts)).toList ++ ')' :: r = t.display.toList ++ afterParam r ts := by
  cases ts with
  | nil => simp [displayAll, afterParam]
  | cons u us => simp [displayAll, afterParam]

theorem afterParam_inv {as bs : List Ty} (h : afterParam r as = afterParam s bs) :
    (as = [] ∧ bs = [] ∧ r = s) ∨
      (displayAll as).toList ++ ')' :: r = (displayAll bs).toList ++ ')' :: s := by
  cases as with
  | nil =>
    cases bs with
    | nil => exact .inl ⟨rfl, rfl, (List.cons.inj h).2⟩
    | cons b bs => cases h
  | cons a as =>
    cases bs with
    | nil => cases h
    | cons b bs => exact .inr (List.cons.inj (List.cons.inj h).2).2

mutual

/-- What is written after a type hides neither where the type ends nor which one it is. -/
theorem display_append_inj (a b : Ty) (r s : List Char)
    (h : a.display.toList ++ r = b.display.toList ++ s) : a = b ∧ r = s := by
  rcases display_cases a with ha | ⟨elem, hne, rfl⟩ | ⟨key, elem, rfl⟩ | ⟨params, ret, rfl⟩
  · exact display_name_inv ha h
  · rw [display_list hne, List.cons_append, List.append_assoc] at h
    rcases display_bracket_inv h with ⟨elem', rfl, hx⟩ | ⟨key', elem', rfl, hx⟩
    · obtain ⟨rfl, hr⟩ := display_append_inj elem elem' _ _ hx
      exact ⟨rfl, (List.cons.inj hr).2⟩
    · cases (display_append_inj elem key' _ _ hx).2
  · have htext : (map key elem).display.toList ++ r =
        '[' :: (key.display.toList ++ ':' :: ' ' :: (elem.display.toList ++ ']' :: r)) := by
      simp [display_map]
    rcases display_bracket_inv (htext.symm.trans h) with ⟨elem', rfl, hx⟩ | ⟨key', elem', rfl, hx⟩
    · cases (display_append_inj key elem' _ _ hx).2
    · obtain ⟨rfl, helem⟩ := display_append_inj key key' _ _ hx
      obtain ⟨rfl, hr⟩ := display_append_inj elem elem' _ _ (List.cons.inj (List.cons.inj helem).2).2
      exact ⟨rfl, (List.cons.inj hr).2⟩
  · have htext : (fn params ret).display.toList ++ r = 'f' :: 'n' :: '(' ::
        ((displayAll params).toList ++ ')' :: ' ' :: '-' :: '>' :: ' ' :: (ret.display.toList ++ r)) := by
      simp [display_fn]
    obtain ⟨params', ret', rfl, hx⟩ := display_fn_inv (htext.symm.trans h)
    obtain ⟨rfl, hret⟩ := displayAll_append_inj params params' _ _ hx
    simp only [List.cons.injEq, true_and] at hret
    obtain ⟨rfl, hr⟩ := display_append_inj ret ret' _ _ hret
    exact ⟨rfl, hr⟩
termination_by sizeOf a

theorem displayAll_append_inj (as bs : List Ty) (r s : List Char)
    (h : (displayAll as).toList ++ ')' :: r = (displayAll bs).toList ++ ')' :: s) :
    as = bs ∧ r = s := by
  match as, bs with
  | [], [] => exact ⟨rfl, (List.cons.inj h).2⟩
  | [], b :: bs =>
    rw [displayAll_cons] at h
    exact absurd h.symm (display_append_ne_paren b _ _)
  | a :: as, [] =>
    rw [displayAll_cons] at h
    exact absurd h (display_append_ne_paren a _ _)
  | a :: as, b :: bs =>
    rw [displayAll_cons, displayAll_cons] at h
    obtain ⟨rfl, hothers⟩ := display_append_inj a b _ _ h
    rcases afterParam_inv hothers with ⟨rfl, rfl, rfl⟩ | hothers
    · exact ⟨rfl, rfl⟩
    · obtain ⟨rfl, hr⟩ := displayAll_append_inj as bs r s hothers
      exact ⟨rfl, hr⟩
termination_by sizeOf as

end

end

/-- **Writing and reading types undo each other.**  The written form of a type without functions is read
as that type, also with blanks put in wherever they cut no word.  That of a type with a function type
anywhere in it is read as nothing.  No two types are written alike.  A text is read as a type exactly if
it denotes the type: one of the six names, or components in brackets, with blanks around each of these. -/
theorem ofText?_display :
    (∀ t : Ty, t.hasFn = false → ofText? t.display = some t ∧
      ∀ text : String, Loosened t.display.toList text.toList → ofText? text = some t) ∧
    (∀ t : Ty, t.hasFn = true → ofText? t.display = none) ∧
    Function.Injective display ∧
    ∀ (text : String) (t : Ty), ofText? text = some t ↔ Denotes text.toList t := by
  refine ⟨?_, ?_, ?_, fun text t => ofText?_eq_some_iff⟩
  · intro t ht
    have hdenotes := denotes_display t ht
    refine ⟨ofText?_eq_some_iff.mpr hdenotes, fun text htext => ?_⟩
    exact ofText?_eq_some_iff.mpr (hdenotes.loosened htext)
  · intro t ht
    cases hread : ofText? t.display with
    | none => rfl
    | some u =>
      have hnot := (ofText?_eq_some_iff.mp hread).not_mem_paren
      exact absurd (mem_paren_display t ht) hnot
  · intro a b h
    exact (display_append_inj a b [] [] (by rw [h])).1

theorem shelf_type_read :
    let shelf : Ty := .map .string (.list .dbl)
    shelf.hasFn = false ∧ Loosened shelf.display.toList "[\tstr : [dbl]]".toList ∧
      ofText? "[\tstr : [dbl]]" = some shelf := by
  intro shelf
  have htext : shelf.display.toList = ['['] ++ ['s', 't', 'r', ':', ' ', '[', 'd', 'b', 'l', ']', ']'] := by
    decide +kernel
  have hsame : Loosened shelf.display.toList
      (['['] ++ ['s', 't', 'r', ':', ' ', '[', 'd', 'b', 'l', ']', ']']) := htext ▸ .same
  have htab : Loosened shelf.display.toList
      (['['] ++ '\t' :: ['s', 't', 'r', ':', ' ', '[', 'd', 'b', 'l', ']', ']']) :=
    .blank hsame rfl (by simp [Cuts])
  have hspace : Loosened shelf.display.toList
      (['[', '\t', 's', 't', 'r'] ++ ' ' :: [':', ' ', '[', 'd', 'b', 'l', ']', ']']) :=
    .blank htab rfl (by simp [Cuts])
  have hloosened : Loosened shelf.display.toList "[\tstr : [dbl]]".toList := hspace
  exact ⟨rfl, hloosened, (ofText?_display.1 shelf rfl).2 _ hloosened⟩

/-- not every text that is read is the written form of its type -/
example : ofText? "[char]" = ofText? "str" := by cbv

end Parlance.Ty
