import Parlance.Chat.Dispatch
import Parlance.Proofs.Eval.Account

/-!
# What guards the commands that a line runs

A mask is looked at once for a line, before the command or verb that its first word names is run.
A command that is called by an expression is not looked at again:

* `Chat.firstWord? mark line`   the word that says what the line is for;
* `handle_cases`                a line changes nothing, or obeys a permitted verb, or runs a permitted
                                command;
* `handle_guarded`              what a line runs, it runs for a permitted command that it names, or
                                below a permitted `eval`;
* `eval_passes_the_guard`       below `eval` a command runs that is refused by its own name.
-/

namespace Parlance.Chat

/-- the word that says what a line is for -/
def firstWord? (mark line : String) : Option String :=
  (body? mark line).map fun body => String.ofList (Text.splitWord body).1

theorem firstWord?_eq {mark line : String} {body : List Char} (h : body? mark line = some body) :
    firstWord? mark line = some (String.ofList (Text.splitWord body).1) := by
  rw [firstWord?, h]
  rfl

variable (s : Session) (ctx : Context)

/-! ## Verbs -/

/-- only one verb runs anything -/
theorem calls_obey {verb : Verb} (h : verb ≠ .eval) (args : List Char) :
    (obey s ctx verb args).calls = [] := by
  cases verb with
  | eval => exact absurd rfl h
  | define | redefine | undefine | makeAlias | «show» | chmod | global =>
    simp only [obey, obeyDefine, obeyUndefine, obeyAlias, obeyShow, obeyChmod, obeyGlobal]
    repeat' split
    all_goals rfl

theorem calls_obeyEval (args : List Char) :
    (obeyEval s ctx args).calls = (s.evaluate ctx (String.ofList args)).calls := by
  unfold obeyEval
  dsimp only
  split <;> rfl

theorem session_obeyEval (args : List Char) :
    (obeyEval s ctx args).session = (s.evaluate ctx (String.ofList args)).session := by
  unfold obeyEval
  dsimp only
  split <;> rfl

/-! ## Lines -/

/-- A line changes nothing, or it is for a permitted verb, or for a permitted command. -/
theorem handle_cases (level : Level) (mark line : String) :
    (∃ reply, handle s ctx level mark line = unchanged s reply) ∨
    ∃ word args, firstWord? mark line = some word ∧
      ((∃ verb, Verb.ofName? word = some verb ∧ level.permits (s.registry.gate word) = true ∧
        handle s ctx level mark line =
          let o := obey s { ctx with expired := false } verb args
          { o with result := some o.result }) ∨
      (∃ entry, Verb.ofName? word = none ∧ s.registry.find? word = some entry ∧
        level.permits entry.mask = true ∧
        handle s ctx level mark line =
          let o := s.run { ctx with expired := false, args := (wordsOf args).map .ofString }
            entry.command
          { o with result := o.result.map Value.message })) := by
  unfold handle
  cases hbody : body? mark line with
  | none => exact .inl ⟨none, rfl⟩
  | some body =>
    dsimp only
    split
    · exact .inl ⟨none, rfl⟩
    split
    · rename_i verb hverb
      split
      · rename_i hpermits
        exact .inr ⟨_, _, firstWord?_eq hbody, .inl ⟨verb, hverb, hpermits, rfl⟩⟩
      · exact .inl ⟨_, rfl⟩
    · rename_i hverb
      unfold handleCommand
      split
      · exact .inl ⟨_, rfl⟩
      · rename_i entry hfind
        split
        · rename_i hpermits
          exact .inr ⟨_, _, firstWord?_eq hbody, .inr ⟨entry, hverb, hfind, hpermits, rfl⟩⟩
        · exact .inl ⟨_, rfl⟩

/-- **What a line runs is run for a permitted command that it names, or below a permitted `eval`.**
The registry that the masks are looked up in is the one before and after. -/
theorem handle_guarded (level : Level) (mark line : String) :
    ∀ inv ∈ (handle s ctx level mark line).calls,
      (handle s ctx level mark line).session.registry = s.registry ∧
      ∃ word, firstWord? mark line = some word ∧
        ((∃ entry, Verb.isName word = false ∧ s.registry.find? word = some entry ∧
            level.permits entry.mask = true ∧
            (inv = ⟨entry.command, ctx.depth⟩ ∨ inv.Below ctx)) ∨
          (word = "eval" ∧ level.permits (s.registry.gate "eval") = true ∧ inv.Below ctx)) := by
  intro inv hinv
  rcases handle_cases s ctx level mark line with ⟨reply, h⟩ | ⟨word, args, hword, hrun⟩
  · rw [h] at hinv
    cases hinv
  rcases hrun with ⟨verb, hverb, hpermits, h⟩ | ⟨entry, hverb, hfind, hpermits, h⟩
  · rw [h] at hinv ⊢
    have hinv : inv ∈ (obey s { ctx with expired := false } verb args).calls := hinv
    by_cases heval : verb = .eval
    · subst heval
      have hname : "eval" = word := Verb.name_of_ofName? hverb
      subst hname
      refine ⟨?_, _, hword, .inr ⟨rfl, hpermits, ?_⟩⟩
      · show (obeyEval s { ctx with expired := false } args).session.registry = s.registry
        rw [session_obeyEval, Session.registry_evaluate]
      · have hcalls : inv ∈ (obeyEval s { ctx with expired := false } args).calls := hinv
        rw [calls_obeyEval] at hcalls
        exact Session.below_of_evaluate s { ctx with expired := false } _ inv hcalls
    · rw [calls_obey s _ heval] at hinv
      cases hinv
  · rw [h] at hinv ⊢
    have hname : Verb.isName word = false := by rw [Verb.isName, hverb]; rfl
    refine ⟨rfl, word, hword, .inl ⟨entry, hname, hfind, hpermits, ?_⟩⟩
    exact Session.below_of_run s
      { ctx with expired := false, args := (wordsOf args).map .ofString } _ inv hinv

def visitor : Context := ⟨"alice", "#lounge", "bot", [], 0, false, .still⟩

def secret : Command := ⟨"secret", .words ["hidden"]⟩

/-- the session with that command for the highest level alone -/
def withSecret : Session :=
  let s := (handle .fresh visitor .broadcaster "!" "!def secret hidden").session
  (handle s visitor .broadcaster "!" "!chmod secret 8").session

theorem secret_guarded :
    (⟨secret, 0⟩ : Invocation) ∈ (handle withSecret visitor .broadcaster "!" "!secret").calls ∧
    (handle withSecret visitor .broadcaster "!" "!secret").session.registry = withSecret.registry ∧
    ∃ word, firstWord? "!" "!secret" = some word ∧
      ((∃ entry, Verb.isName word = false ∧ withSecret.registry.find? word = some entry ∧
          Level.broadcaster.permits entry.mask = true ∧
          ((⟨secret, 0⟩ : Invocation) = ⟨entry.command, visitor.depth⟩ ∨
            Invocation.Below visitor ⟨secret, 0⟩)) ∨
        (word = "eval" ∧ Level.broadcaster.permits (withSecret.registry.gate "eval") = true ∧
          Invocation.Below visitor ⟨secret, 0⟩)) :=
  have hmem : (⟨secret, 0⟩ : Invocation) ∈
      (handle withSecret visitor .broadcaster "!" "!secret").calls := by decide +kernel
  ⟨hmem, handle_guarded withSecret visitor .broadcaster "!" "!secret" _ hmem⟩

/-- a command that is refused by its name runs when an expression calls it -/
theorem eval_passes_the_guard :
    (withSecret.registry.find? "secret").map (fun e => (e.command, e.mask)) = some (secret, 8) ∧
    Level.all.permits 8 = false ∧
    (handle withSecret visitor .all "!" "!secret").result = some refusal ∧
    (handle withSecret visitor .all "!" "!eval secret()").calls = [⟨secret, 1⟩] := by
  decide +kernel

end Parlance.Chat
