import Parlance.Proofs.Chat.Gate
import Parlance.Proofs.Eval.Frame

/-!
# What lines leave alone

Of the verbs, `show` changes nothing and `eval` only values of globals; so does a command.  The
registry and the names of globals are for the other six verbs:

* `Chat.Permitted s level word`   the caller is permitted what the word names;
* `unchanged_of_not_permitted`    a line for nothing that is permitted leaves all as it is;
* `frame_changed_by_verb`         what else than values of globals has changed after a line was
                                  changed by a permitted verb.
-/

namespace Parlance.Chat

/-- The caller is permitted what the word names: a verb, or else the command that it stands for. -/
def Permitted (s : Session) (level : Level) (word : String) : Prop :=
  match Verb.ofName? word with
  | some _ => level.permits (s.registry.gate word) = true
  | none => ∃ entry, s.registry.find? word = some entry ∧ level.permits entry.mask = true

/-- the verbs that change the registry or bind a global -/
def framing : List String := ["def", "redef", "undef", "alias", "chmod", "global"]

variable (s : Session) (ctx : Context)

theorem session_obeyShow (args : List Char) : (obeyShow s args).session = s := by
  unfold obeyShow
  repeat' split
  all_goals rfl

/-- The other verbs keep the registry and the names of globals. -/
theorem sameFrame_obey {verb : Verb} (h : verb.name ∉ framing) (args : List Char) :
    s.SameFrame (obey s ctx verb args).session := by
  cases verb with
  | define | redefine | undefine | makeAlias | chmod | global => exact absurd (by decide) h
  | «show» =>
    show s.SameFrame (obeyShow s args).session
    rw [session_obeyShow]
    exact .refl s
  | eval =>
    show s.SameFrame (obeyEval s ctx args).session
    rw [session_obeyEval]
    exact s.sameFrame_evaluate ctx _

theorem unchanged_of_not_permitted {level : Level} {mark line : String}
    (h : ∀ word, firstWord? mark line = some word → ¬Permitted s level word) :
    ∃ reply, handle s ctx level mark line = unchanged s reply := by
  rcases handle_cases s ctx level mark line with hunchanged | ⟨word, args, hword, hrun⟩
  · exact hunchanged
  refine absurd ?_ (h word hword)
  unfold Permitted
  rcases hrun with ⟨verb, hverb, hpermits, -⟩ | ⟨entry, hverb, hfind, hpermits, -⟩
  · rw [hverb]
    exact hpermits
  · rw [hverb]
    exact ⟨entry, hfind, hpermits⟩

/-- **Only a permitted verb changes the registry or the names of globals.**  A line for nothing that
is permitted changes nothing at all, and expressions and commands, however deep they call and whenever
their time is used up, change nothing but values of globals. -/
theorem frame_changed_by_verb (level : Level) (mark line : String) :
    (¬s.SameFrame (handle s ctx level mark line).session →
      ∃ word ∈ framing, firstWord? mark line = some word ∧
        level.permits (s.registry.gate word) = true) ∧
    ((∀ word, firstWord? mark line = some word → ¬Permitted s level word) →
      ∃ reply, handle s ctx level mark line = unchanged s reply) ∧
    (∀ e, s.SameFrame (s.evaluateExpr ctx e).session) ∧
    ∀ c, s.SameFrame (s.run ctx c).session := by
  refine ⟨?_, unchanged_of_not_permitted s ctx, s.sameFrame_evaluateExpr ctx, s.sameFrame_run ctx⟩
  intro hchanged
  rcases handle_cases s ctx level mark line with ⟨reply, h⟩ | ⟨word, args, hword, hrun⟩
  · rw [h] at hchanged
    exact absurd (.refl s) hchanged
  rcases hrun with ⟨verb, hverb, hpermits, h⟩ | ⟨entry, -, -, -, h⟩
  · obtain rfl : verb.name = word := Verb.name_of_ofName? hverb
    refine ⟨verb.name, ?_, hword, hpermits⟩
    by_contra hname
    rw [h] at hchanged
    exact hchanged (sameFrame_obey s { ctx with expired := false } hname args)
  · rw [h] at hchanged
    exact absurd (s.sameFrame_run _ entry.command) hchanged

end Parlance.Chat
