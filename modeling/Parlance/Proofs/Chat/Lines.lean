import Parlance.Proofs.Chat.Gate
import Parlance.Proofs.Text.Words

/-!
# What lines say

* `Says mark line word args`   after the mark, a line says a word and then the rest;
* `body?_mark`                 what a line says that is put together from the mark and a text;
* `handle_verb`                a line whose word is a verb is answered by that verb, if permitted;
* `handle_command`             one whose word is none is answered by the command of that name.
-/

namespace Parlance.Chat

/-- After the mark, the line says `word` first and then `args`. -/
def Says (mark line word : String) (args : List Char) : Prop :=
  ∃ body, body? mark line = some body ∧ Text.splitWord body = (word.toList, args)

variable (s : Session) (ctx : Context) {level : Level} {mark line word : String} {args : List Char}

theorem Says.args_eq {args' : List Char} (h : Says mark line word args)
    (h' : Says mark line word args') : args' = args := by
  obtain ⟨body, hbody, hsplit⟩ := h
  obtain ⟨body', hbody', hsplit'⟩ := h'
  rw [hbody] at hbody'
  cases hbody'
  rw [hsplit] at hsplit'
  exact (congrArg Prod.snd hsplit').symm

theorem says_of_firstWord? (h : firstWord? mark line = some word) :
    ∃ args, Says mark line word args := by
  obtain ⟨body, hbody, rfl⟩ := Option.map_eq_some_iff.mp h
  exact ⟨(Text.splitWord body).2, body, hbody, by rw [String.toList_ofList]⟩

/-! ## Lines put together -/

theorem afterMark?_append (ms cs : List Char) : afterMark? ms (ms ++ cs) = some cs := by
  induction ms with
  | nil => rfl
  | cons m ms ih => rw [List.cons_append, afterMark?, if_pos rfl, ih]

theorem afterMark?_suffix {ms cs body : List Char} (h : afterMark? ms cs = some body) :
    body <:+ cs := by
  induction ms generalizing cs with
  | nil =>
    cases h
    exact List.suffix_refl _
  | cons m ms ih =>
    cases cs with
    | nil => cases h
    | cons c cs =>
      rw [afterMark?] at h
      split at h
      · exact (ih h).trans (List.suffix_cons c cs)
      · cases h

/-- A text without blanks at its ends is said after the mark.  No line is addressed by a mark that starts
with a blank, since lines are trimmed. -/
theorem body?_mark (mark : String) {text : List Char}
    (hhead : ∀ c ∈ text.head?, Text.isBlank c = false)
    (hlast : ∃ c, text.getLast? = some c ∧ Text.isBlank c = false) :
    body? mark (mark ++ String.ofList text) =
      if mark.toList.head?.any Text.isBlank then none else some text := by
  obtain ⟨last, hlast, hsolid⟩ := hlast
  have hend : ∀ c ∈ (mark.toList ++ text).getLast?, Text.isBlank c = false := by
    intro c hc
    rw [List.getLast?_append, hlast] at hc
    cases hc
    exact hsolid
  rw [body?, String.toList_append, String.toList_ofList]
  cases hmark : mark.toList with
  | nil =>
    rw [hmark] at hend
    have htrim : Text.trim ([] ++ text) = text := Text.trim_eq_self hhead hend
    rw [htrim]
    rfl
  | cons m ms =>
    rw [hmark] at hend
    show afterMark? (m :: ms) (Text.trim (m :: ms ++ text)) =
      if Text.isBlank m then none else some text
    by_cases hm : Text.isBlank m = true
    · rw [if_pos hm]
      have htrim := Text.head_trim (m :: ms ++ text)
      cases hcs : Text.trim (m :: ms ++ text) with
      | nil => rfl
      | cons c cs =>
        rw [hcs] at htrim
        have hne : m ≠ c := by
          rintro rfl
          rw [htrim m rfl] at hm
          cases hm
        rw [afterMark?, if_neg hne]
    · rw [if_neg hm]
      have hstart : ∀ c ∈ (m :: ms ++ text).head?, Text.isBlank c = false := by
        intro c hc
        cases hc
        exact eq_false_of_ne_true hm
      rw [Text.trim_eq_self hstart hend, afterMark?_append]

/-! ## What answers them -/

theorem handle_unaddressed (h : body? mark line = none) :
    handle s ctx level mark line = unchanged s none := by
  rw [handle, h]

theorem handle_verb (verb : Verb) (h : Says mark line verb.name args) :
    handle s ctx level mark line =
      if level.permits (s.registry.gate verb.name) then
        let o := obey s { ctx with expired := false } verb args
        { o with result := some o.result }
      else unchanged s (some refusal) := by
  obtain ⟨body, hbody, hsplit⟩ := h
  have hword : verb.name.toList ≠ [] := by cases verb <;> decide
  simp only [handle, hbody, hsplit, if_neg hword, String.ofList_toList, Verb.ofName?_name]

theorem handle_command (h : Says mark line word args) (hword : word ≠ "")
    (hverb : Verb.ofName? word = none) :
    handle s ctx level mark line = handleCommand s { ctx with expired := false } level word args := by
  obtain ⟨body, hbody, hsplit⟩ := h
  have hword : word.toList ≠ [] := fun h => hword (String.toList_eq_nil_iff.mp h)
  simp only [handle, hbody, hsplit, if_neg hword, String.ofList_toList, hverb]

end Parlance.Chat
