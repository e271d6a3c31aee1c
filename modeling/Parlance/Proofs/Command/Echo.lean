import Parlance.Proofs.Command.Splitting
import Parlance.Proofs.Eval.Depth

/-!
# Words said as they are

A backslash at the head of a word makes it an expression, and another one before it takes that back.
The cutting of a body and the running of a command look at the head of a word each for itself; here
they are shown to agree.

* `Expansion.Unbroken w`   there is something in the word, and no spacer;
* `stands_literal`         such a word, in the spelling under which it is said as it is, stands before
                           anything that ends it, whatever brackets and quotation marks are in it;
* `words_intercalate`      words that stand before anything are cut as they were joined;
* `echo ws`                the body that says the words;
* `sayWords_literal`       nothing is evaluated for it;
* `words_echoed`           so running it answers the words and does nothing else.
-/

namespace Parlance

namespace Expansion

variable {w rest : List Char} {ws : List (List Char)}

/-- There is something in the word, and no spacer. -/
def Unbroken (w : List Char) : Prop := w ≠ [] ∧ ∀ c ∈ w, Text.isSpacer c = false

theorem literal_said (h : w.head? ≠ some '\\') : literal w = w := by
  unfold literal
  split
  · exact absurd rfl h
  · rfl

/-! ## Cutting -/

theorem stands_literal (h : Unbroken w) (hends : Ends rest) : Stands (literal w) rest := by
  obtain ⟨hne, hsolid⟩ := h
  obtain ⟨c, w, rfl⟩ := List.exists_cons_of_ne_nil hne
  by_cases hc : c = '\\'
  · subst hc
    have htail : ∀ d ∈ w, Text.isSpacer d = false := (List.forall_mem_cons.mp hsolid).2
    refine ⟨⟨'\\', rfl, rfl⟩, (wordLength_eq_length_iff (List.cons_ne_nil _ _)).mpr (.inl ⟨w, rfl, ?_⟩)⟩
    exact run_eq_length_iff.mpr ⟨htail, hends⟩
  · have hhead : (c :: w).head? ≠ some '\\' := fun h => hc (Option.some.inj h)
    rw [literal_said hhead]
    refine ⟨⟨c, rfl, hsolid c List.mem_cons_self⟩, (wordLength_eq_length_iff hne).mpr (.inr (.inr ?_))⟩
    exact ⟨hhead, run_eq_length_iff.mpr ⟨hsolid, hends⟩⟩

/-- Words that stand before anything that ends them are cut as they were joined. -/
theorem words_intercalate (h : ∀ w ∈ ws, ∀ rest, Ends rest → Stands w rest) :
    words ([' '].intercalate ws) = ws := by
  induction ws with
  | nil => rfl
  | cons w ws ih =>
    obtain ⟨hw, hws⟩ := List.forall_mem_cons.mp h
    cases ws with
    | nil =>
      have halone := (hw [] ends_nil).words_append
      rw [List.append_nil] at halone
      rw [List.intercalate_singleton, halone]
      rfl
    | cons v ws =>
      rw [List.intercalate_cons_cons, List.append_assoc, List.singleton_append,
        (hw _ (ends_space _)).words_append, words_spacer rfl, ih hws]

/-! ## The body that says the words -/

/-- the spelling under which a word is said as it is -/
def literalText (word : String) : String := String.ofList (literal word.toList)

/-- the body that says the words: each in the spelling for that, with spaces between them -/
def echo (ws : List String) : String := " ".intercalate (ws.map literalText)

theorem toList_literalText (word : String) : (literalText word).toList = literal word.toList :=
  String.toList_ofList

/-- The words of the body are those that it was made of. -/
theorem ofText_echo {ws : List String} (h : ∀ word ∈ ws, Unbroken word.toList) :
    ofText (echo ws) = ws.map literalText := by
  have hcut : words ([' '].intercalate (ws.map fun word => literal word.toList)) =
      ws.map fun word => literal word.toList := by
    refine words_intercalate fun w hw rest hends => ?_
    obtain ⟨word, hword, rfl⟩ := List.mem_map.mp hw
    exact stands_literal (h word hword) hends
  have hbody : (echo ws).toList = [' '].intercalate (ws.map fun word => literal word.toList) := by
    rw [echo, String.toList_intercalate, List.map_map]
    exact congrArg _ (List.map_congr_left fun word _ => toList_literalText word)
  rw [ofText, hbody, hcut, List.map_map]
  rfl

end Expansion

/-! ## Running -/

namespace Eval

open Expansion (literalText toList_literalText)

theorem sayWord_literal (evaluate : List Char → EvalM (Option Value)) (word : String) :
    sayWord evaluate (literalText word) = pure (some (.ofString word)) := by
  rw [sayWord, toList_literalText, Expansion.meaning_literal]
  rfl

/-- **Nothing is evaluated for words in this spelling**: whatever evaluation would do, they are said. -/
theorem sayWords_literal (evaluate : List Char → EvalM (Option Value)) (ws : List String) :
    sayWords evaluate (ws.map literalText) = pure (ws.map .ofString) := by
  induction ws with
  | nil => rfl
  | cons word ws ih => rw [List.map_cons, sayWords, sayWord_literal, pure_bind, ih, pure_bind]; rfl

end Eval

/-- **All words can be said as they are.**  A command whose body says the given words, each spelled
with one more backslash if it starts with one, answers the list of these strings.  It evaluates nothing
for that: what evaluation would do does not matter.  And it leaves the session as it is. -/
theorem Session.words_echoed {ws : List String}
    (h : ∀ word ∈ ws, word ≠ "" ∧ ∀ c ∈ word.toList, c ≠ ' ' ∧ c ≠ '\t') (name : String) :
    let c : Command := ⟨name, .words (Expansion.ofText (Expansion.echo ws))⟩
    (∀ (evaluate : List Char → EvalM (Option Value)) (ctx : Context),
      Eval.runBody evaluate ctx c = do
        EvalM.record c ctx.depth
        return some (.ofStrings ws)) ∧
    ∀ (s : Session) (ctx : Context),
      s.run ctx c = ⟨some (.ofStrings ws), s, [⟨c, ctx.depth⟩], [], 0⟩ := by
  intro c
  have hunbroken : ∀ word ∈ ws, Expansion.Unbroken word.toList := by
    intro word hword
    obtain ⟨hne, hchars⟩ := h word hword
    refine ⟨mt String.toList_eq_nil_iff.mp hne, fun d hd => ?_⟩
    obtain ⟨hspace, htab⟩ := hchars d hd
    simp [Text.isSpacer, hspace, htab]
  have hbody : c.body = .words (ws.map Expansion.literalText) :=
    congrArg Body.words (Expansion.ofText_echo hunbroken)
  have hrun : ∀ (evaluate : List Char → EvalM (Option Value)) (ctx : Context),
      Eval.runBody evaluate ctx c = do
        EvalM.record c ctx.depth
        return some (.ofStrings ws) := by
    intro evaluate ctx
    rw [Eval.runBody, hbody]
    dsimp only
    rw [Eval.sayWords_literal, pure_bind]
    rfl
  refine ⟨hrun, fun s ctx => ?_⟩
  rw [run, Eval.runIn, hrun]
  rfl

/-- Said as it is, `\loop()` calls nothing, a lone backslash stays one, and a bracket or a quotation mark
that is open keeps no words together. -/
theorem Session.loop_echoed :
    let ws := ["\\loop()", "\\", "(\"a", "\\\\x"]
    let c : Command := ⟨"say", .words (Expansion.ofText (Expansion.echo ws))⟩
    (∀ word ∈ ws, word ≠ "" ∧ ∀ c ∈ word.toList, c ≠ ' ' ∧ c ≠ '\t') ∧
    Expansion.echo ws = "\\\\loop() \\\\ (\"a \\\\\\x" ∧
    looping.run outermost c = ⟨some (.ofStrings ws), looping, [⟨c, 0⟩], [], 0⟩ := by
  intro ws c
  have hws : ∀ word ∈ ws, word ≠ "" ∧ ∀ c ∈ word.toList, c ≠ ' ' ∧ c ≠ '\t' := by
    simp [ws]
  exact ⟨hws, by decide +kernel, (words_echoed hws "say").2 looping outermost⟩

end Parlance
