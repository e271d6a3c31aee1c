import Parlance.Proofs.Chat.Lines
import Parlance.Proofs.Eval.Shift
import Parlance.Proofs.Expr.Spelling
import Parlance.Proofs.Session.History

/-!
# Commands by their names and by calls

A command with words is run by a line that names it, and by one that evaluates a call of it.  The
first splits the line into words and runs the command where the line is; the second writes them as
strings and runs it one level deeper:

* `Chat.commandLine`, `Chat.callLine`   the two lines;
* `Session.Callable s name`   only a command can be called by this name;
* `eval_call`, `watched_words`   what a call comes to in which a command with words gets strings;
* `evaluate_call`             it has the value that the command answers further up;
* `run_alike`                 so the lines give the same answer and leave the same session behind,
                              unless a call is stopped.
-/

namespace Parlance

/-! ## What a call comes to -/

namespace Eval

variable {r : Registry} {ctx : Context} {call : Command → List Value → EvalM Value} {name : String}
  {c : Command} {body : List String}

theorem evalAll_str (texts : List String) (m : Machine) :
    evalAll r ctx call (texts.map .str) m = (.ok (texts.map .ofString), m) := by
  induction texts with
  | nil => rfl
  | cons text texts ih =>
    have htext : eval r ctx call (.str text) m = (.ok (.ofString text), m) := rfl
    rw [List.map_cons, evalAll, EvalM.bind_eq_of_ok htext, EvalM.bind_eq_of_ok ih]
    rfl

/-- a name that is no global's stands for the command of that name -/
theorem eval_name {entry : Registered} (hstandard : Command.standard? name = none)
    (hfind : r.find? name = some entry) {m : Machine} (hglobal : m.globals.contains name = false) :
    eval r ctx call (.var (.name name)) m = (.ok (.function entry.command), m) := by
  have hcallable : callable? r name = some entry.command := by
    rw [callable?, hstandard, hfind]
    rfl
  exact eval_callable (Table.get?_eq_none_of_contains hglobal) hcallable ctx call

theorem eval_call {entry : Registered} (hstandard : Command.standard? name = none)
    (hfind : r.find? name = some entry) {m : Machine} (hglobal : m.globals.contains name = false)
    (texts : List String) :
    eval r ctx call (.call (.var (.name name)) (texts.map .str)) m =
      call entry.command (texts.map .ofString) m := by
  have hcallee : eval r ctx call (.var (.name name)) m = (.ok (.function entry.command), m) :=
    eval_name hstandard hfind hglobal
  rw [eval, EvalM.bind_eq_of_ok hcallee, EvalM.bind_eq_of_ok (evalAll_str texts m)]
  · rfl
  · exact fun _ _ => Expr.noConfusion

/-- a command with words is told the strings that a call gives it -/
theorem argsFor_words (hbody : c.body = .words body) (texts : List String) :
    argsFor c (texts.map .ofString) = .ok (texts.map .ofString) := by
  have hraw : (texts.map Value.ofString).map (fun v => Value.ofString v.raw) =
      texts.map .ofString := by
    rw [List.map_map]
    refine List.map_congr_left ?_
    intro text _
    exact congrArg Value.ofString (Value.raw_ofString text)
  rw [argsFor, hbody]
  dsimp only
  rw [hraw]

/-- A call of a command with words that is not stopped gives what the command answers. -/
theorem watched_words {m : Machine} (htime : ctx.outOfTime m.readings = false)
    (hdepth : ctx.depth < maxCallDepth) (hbody : c.body = .words body) (texts : List String) :
    ∃ v m', runBody (evalSource r (ctx.nested (texts.map .ofString))
        (watched r (ctx.nested (texts.map .ofString)))) (ctx.nested (texts.map .ofString)) c m.tick =
          (.ok (some v), m') ∧
      watched r ctx c (texts.map .ofString) m = (.ok v, m') := by
  obtain ⟨cname, cbody⟩ := c
  cases hbody
  obtain ⟨said, -, m', hrun⟩ := runBody_words
    (evalSource_ok (r := r) (ctx.nested (texts.map .ofString))
      (watched r (ctx.nested (texts.map .ofString))))
    (ctx.nested (texts.map .ofString)) cname body m.tick
  refine ⟨_, m', hrun, ?_⟩
  have hargs : (EvalM.lift (argsFor ⟨cname, .words body⟩ (texts.map .ofString))) m.tick =
      (.ok (texts.map .ofString), m.tick) := by
    rw [argsFor_words rfl]
    rfl
  rw [watched, levelsBelow_nested hdepth (texts.map .ofString), unroll, callGiven,
    EvalM.inTime_of_not_late htime, if_neg (Nat.not_le.mpr hdepth), EvalM.bind_eq_of_ok hargs]
  exact EvalM.bind_eq_of_ok hrun

end Eval

namespace Session

/-- Only a command can be called by this name: it is an identifier, but neither a word of the
language nor the name of a verb, a global or a function that the language comes with. -/
structure Callable (s : Session) (name : String) : Prop where
  identifier : isIdentifier name = true
  not_keyword : ∀ k : Keyword, k.spelling ≠ name
  not_true : name ≠ "true"
  not_false : name ≠ "false"
  not_verb : Verb.ofName? name = none
  not_standard : Command.standard? name = none
  not_global : s.globals.contains name = false

variable {s : Session} {ctx : Context} {name : String} {entry : Registered} {body : List String}

theorem Callable.ofText (h : s.Callable name) (texts : List String) :
    Expr.ofText (Expr.callText name texts) = .ok (.call (.var (.name name)) (texts.map .str)) :=
  Expr.ofText_callText h.identifier
    (Lexeme.wordKind_eq_ident h.not_keyword h.not_true h.not_false) texts

theorem evaluateBy_call (hname : s.Callable name) (hfind : s.registry.find? name = some entry)
    (call : Command → List Value → EvalM Value) (texts : List String) :
    s.evaluateBy call ctx (Expr.callText name texts) =
      let o := s.perform (call entry.command (texts.map .ofString))
      { o with result := o.result.mapError .eval } := by
  have hcall : Eval.eval s.registry ctx call (.call (.var (.name name)) (texts.map .str))
      (.start s.globals) = call entry.command (texts.map .ofString) (.start s.globals) :=
    Eval.eval_call hname.not_standard hfind hname.not_global texts
  unfold evaluateBy perform
  rw [hname.ofText]
  dsimp only
  rw [hcall]

theorem readings_call (hname : s.Callable name) (hfind : s.registry.find? name = some entry)
    (texts : List String) :
    (s.evaluate ctx (Expr.callText name texts)).readings =
      (Eval.watched s.registry ctx entry.command (texts.map .ofString)
        (.start s.globals)).2.readings := by
  obtain ⟨-, -, hreadings⟩ := s.evaluateBy_watched ctx (Expr.callText name texts)
  rw [← hreadings, evaluateBy_call hname hfind]
  rfl

/-- a call that comes too late is stopped -/
theorem time_of_unstopped (hname : s.Callable name) (hfind : s.registry.find? name = some entry)
    {texts : List String} (h : s.Unstopped ctx (Expr.callText name texts)) :
    ctx.outOfTime (Machine.start s.globals).readings = false := by
  by_contra hlate
  have hlate := eq_true_of_ne_false hlate
  obtain ⟨x, hx⟩ := Eval.watched_inTime s.registry ctx entry.command (texts.map .ofString)
  have hreadings : (s.evaluate ctx (Expr.callText name texts)).readings = 1 := by
    rw [readings_call hname hfind, hx, EvalM.inTime_of_late hlate]
    rfl
  have hintime : ctx.outOfTime 0 = false := h.time 0 (by omega)
  exact absurd (hintime.symm.trans hlate) Bool.false_ne_true

/-- a call in a context from which none is allowed is stopped -/
theorem depth_of_unstopped (hname : s.Callable name) (hfind : s.registry.find? name = some entry)
    {texts : List String} (h : s.Unstopped ctx (Expr.callText name texts)) :
    ctx.depth < maxCallDepth := by
  by_contra hdepth
  have hlevels : Eval.levelsBelow ctx = 0 := by
    show maxCallDepth - ctx.depth = 0
    omega
  have hcalls : s.asked ctx (Expr.callText name texts) = [⟨entry.command, ctx.depth + 1⟩] := by
    rw [asked, evaluateBy_call hname hfind, Eval.watched, hlevels, Eval.unroll, Eval.takeDown,
      perform, EvalM.inTime_of_not_late (time_of_unstopped hname hfind h)]
    rfl
  have hallowed : ctx.depth + 1 ≤ maxCallDepth := by
    refine h.depth ⟨entry.command, ctx.depth + 1⟩ ?_
    rw [hcalls]
    exact List.mem_singleton_self _
  omega

/-- **A call has the value that the command answers further up**, if no call is stopped. -/
theorem evaluate_call (hname : s.Callable name) (hfind : s.registry.find? name = some entry)
    (hbody : entry.command.body = .words body) {texts : List String}
    (h : s.Unstopped ctx (Expr.callText name texts)) :
    ∃ v, (s.run { ctx with args := texts.map .ofString } entry.command).result = some v ∧
      (s.evaluate ctx (Expr.callText name texts)).result = .ok v ∧
      (s.run { ctx with args := texts.map .ofString } entry.command).session =
        (s.evaluate ctx (Expr.callText name texts)).session := by
  obtain ⟨v, m', hrun, hcall⟩ := Eval.watched_words (r := s.registry) (m := .start s.globals)
    (time_of_unstopped hname hfind h) (depth_of_unstopped hname hfind h) hbody texts
  have hwatched : s.evaluateBy (Eval.watched s.registry ctx) ctx (Expr.callText name texts) =
      ⟨.ok v, { s with globals := m'.globals }, m'.calls, m'.growths, m'.readings⟩ := by
    rw [evaluateBy_call hname hfind, perform, hcall]
    rfl
  obtain ⟨hevaluate, hkept, hreadings⟩ := s.evaluateBy_watched ctx (Expr.callText name texts)
  rw [hwatched] at hevaluate hkept hreadings
  -- what the command asks for is what the call asks for
  have hstopped : ¬m'.Stopped ctx.outOfTime := by
    rintro (⟨inv, hinv, hdeep⟩ | ⟨n, hn, hlate⟩)
    · have hasked : inv ∈ s.asked ctx (Expr.callText name texts) := by
        rw [asked, hwatched]
        exact hinv
      exact absurd (h.depth inv hasked) (Nat.not_le.mpr hdeep)
    · have hintime : ctx.outOfTime n = false := h.time n (hreadings ▸ hn)
      exact absurd (hintime.symm.trans hlate) Bool.false_ne_true
  -- the command is run as the first thing, and not after the clock was read
  have hstart : (Machine.start s.globals).tick.Alike (fun n n' => n' ≤ n) (.start s.globals) :=
    ⟨rfl, rfl, Nat.zero_le 1⟩
  obtain ⟨hresult, hsession⟩ := s.run_of_deeper { ctx with args := texts.map .ofString } 1
    entry.command hstart hrun hstopped
  exact ⟨v, hresult, hevaluate.symm, hsession.trans hkept⟩

theorem Callable.solid (h : s.Callable name) : Text.Solid name.toList := by
  obtain ⟨c, cs, hchars, hstart, hpart⟩ := Expr.exists_of_isIdentifier h.identifier
  rw [hchars]
  constructor
  · exact List.cons_ne_nil c cs
  · intro d hd
    rcases List.mem_cons.mp hd with rfl | hd
    · exact Lexeme.not_isBlank_of_isWordPart (Lexeme.isWordPart_of_isWordStart hstart)
    · exact Lexeme.not_isBlank_of_isWordPart (hpart d hd)

end Session

/-! ## What the two lines do -/

namespace Chat

/-- the line that names a command and says words after it -/
def commandLine (mark name : String) (words : List String) : String :=
  mark ++ " ".intercalate (name :: words)

/-- the line that evaluates the call of a command with strings -/
def callLine (mark name : String) (words : List String) : String :=
  mark ++ ("eval " ++ Expr.callText name words)

variable {s : Session} {ctx : Context} {level : Level} {mark name : String} {words : List String}
  {entry : Registered} {body : List String}

theorem commandLine_eq (mark name : String) (words : List String) :
    commandLine mark name words =
      mark ++ String.ofList (name.toList ++ Text.spaced (words.map String.toList)) := by
  have htext : (" ".intercalate (name :: words)).toList =
      name.toList ++ Text.spaced (words.map String.toList) := by
    rw [String.toList_intercalate, List.map_cons]
    exact Text.intercalate_spaced _ _
  rw [commandLine, ← htext, String.ofList_toList]

theorem callLine_eq (mark name : String) (words : List String) :
    callLine mark name words =
      mark ++ String.ofList ("eval".toList ++ ' ' :: (Expr.callText name words).toList) := by
  have htext : ("eval " ++ Expr.callText name words).toList =
      "eval".toList ++ ' ' :: (Expr.callText name words).toList := by
    rw [String.toList_append]
    rfl
  rw [callLine, ← htext, String.ofList_toList]

theorem wordsOf_spaced (hwords : ∀ w ∈ words, Text.Solid w.toList) :
    wordsOf (Text.dropBlanks (Text.spaced (words.map String.toList))) = words := by
  have hsolid : ∀ w ∈ words.map String.toList, Text.Solid w := List.forall_mem_map.mpr hwords
  rw [wordsOf, Text.words_dropBlanks, Text.words_spaced hsolid, List.map_map]
  refine (List.map_congr_left ?_).trans (List.map_id words)
  intro w _
  exact String.ofList_toList

theorem getLast?_callText (name : String) (texts : List String) :
    (Expr.callText name texts).toList.getLast? = some ')' := by
  rw [Expr.callText, String.toList_append, List.getLast?_append]
  rfl

theorem body?_commandLine (mark : String) (hname : s.Callable name)
    (hwords : ∀ w ∈ words, Text.Solid w.toList) :
    body? mark (commandLine mark name words) = if mark.toList.head?.any Text.isBlank then none
      else some (name.toList ++ Text.spaced (words.map String.toList)) := by
  have hsolid : ∀ w ∈ words.map String.toList, Text.Solid w := List.forall_mem_map.mpr hwords
  rw [commandLine_eq]
  exact body?_mark mark (hname.solid.head_append _) (Text.getLast?_spaced hname.solid hsolid)

theorem solid_eval : Text.Solid "eval".toList := by decide

theorem body?_callLine (mark name : String) (words : List String) :
    body? mark (callLine mark name words) = if mark.toList.head?.any Text.isBlank then none
      else some ("eval".toList ++ ' ' :: (Expr.callText name words).toList) := by
  have hlast : ("eval".toList ++ ' ' :: (Expr.callText name words).toList).getLast? = some ')' := by
    rw [List.getLast?_append, List.getLast?_cons, getLast?_callText]
    rfl
  rw [callLine_eq]
  exact body?_mark mark (solid_eval.head_append _) ⟨')', hlast, rfl⟩

theorem handle_commandLine (hmark : mark.toList.head?.any Text.isBlank = false)
    (hname : s.Callable name) (hfind : s.registry.find? name = some entry)
    (hmask : level.permits entry.mask = true) (hwords : ∀ w ∈ words, Text.Solid w.toList) :
    handle s ctx level mark (commandLine mark name words) =
      let o := s.run { ctx with args := words.map .ofString, expired := false } entry.command
      { o with result := o.result.map Value.message } := by
  have hbody := body?_commandLine mark hname hwords
  rw [hmark] at hbody
  have hline : Says mark (commandLine mark name words) name
      (Text.dropBlanks (Text.spaced (words.map String.toList))) :=
    ⟨_, hbody, Text.splitWord_append hname.solid (Text.head_spaced _)⟩
  have hne : name ≠ "" := by
    rintro rfl
    exact hname.solid.ne_nil rfl
  rw [handle_command s ctx hline hne hname.not_verb, handleCommand, hfind]
  dsimp only
  rw [if_pos hmask, wordsOf_spaced hwords]

theorem handle_callLine (hmark : mark.toList.head?.any Text.isBlank = false)
    (hname : s.Callable name) (heval : level.permits (s.registry.gate "eval") = true) :
    handle s ctx level mark (callLine mark name words) =
      let o := obeyEval s { ctx with expired := false } (Expr.callText name words).toList
      { o with result := some o.result } := by
  have hbody := body?_callLine mark name words
  rw [hmark] at hbody
  have hhead : ∀ c ∈ (Expr.callText name words).toList.head?, Text.isBlank c = false := by
    rw [Expr.toList_callText]
    exact hname.solid.head_append _
  have hsplit : Text.splitWord ("eval".toList ++ ' ' :: (Expr.callText name words).toList) =
      ("eval".toList, (Expr.callText name words).toList) := by
    have hspace : ∀ c ∈ (' ' :: (Expr.callText name words).toList).head?, Text.isBlank c = true := by
      intro c hc
      cases hc
      rfl
    have hdrop : Text.dropBlanks (' ' :: (Expr.callText name words).toList) =
        (Expr.callText name words).toList := Text.dropBlanks_eq_self hhead
    rw [Text.splitWord_append solid_eval hspace, hdrop]
  rw [handle_verb s ctx .eval ⟨_, hbody, hsplit⟩]
  exact if_pos heval

theorem reply_obeyEval {text : String} {v : Value} (h : (s.evaluate ctx text).result = .ok v) :
    (obeyEval s ctx text.toList).result = v.message := by
  rw [obeyEval, String.ofList_toList]
  rw [h]

/-- **A command is run alike by its name and by a call.**  A line that says words to it and one that
evaluates its call with them as strings give the same answer and leave the same session behind, if
the caller may use both and no call is stopped. -/
theorem run_alike (hname : s.Callable name) (hfind : s.registry.find? name = some entry)
    (hbody : entry.command.body = .words body) (hmask : level.permits entry.mask = true)
    (heval : level.permits (s.registry.gate "eval") = true)
    (hwords : ∀ w ∈ words, Text.Solid w.toList)
    (hcalls : s.Unstopped { ctx with expired := false } (Expr.callText name words)) :
    (handle s ctx level mark (commandLine mark name words)).result =
      (handle s ctx level mark (callLine mark name words)).result ∧
    (handle s ctx level mark (commandLine mark name words)).session =
      (handle s ctx level mark (callLine mark name words)).session := by
  by_cases hmark : mark.toList.head?.any Text.isBlank = true
  · -- no line is addressed by such a mark
    have hcommand := body?_commandLine mark hname hwords
    have hcall := body?_callLine mark name words
    rw [if_pos hmark] at hcommand hcall
    rw [handle_unaddressed s ctx hcommand, handle_unaddressed s ctx hcall]
    exact ⟨rfl, rfl⟩
  · have hmark : mark.toList.head?.any Text.isBlank = false := eq_false_of_ne_true hmark
    obtain ⟨v, hrun, hevaluate, hsession⟩ := Session.evaluate_call hname hfind hbody hcalls
    rw [handle_commandLine hmark hname hfind hmask hwords, handle_callLine hmark hname heval]
    dsimp only
    constructor
    · have hreply := reply_obeyEval hevaluate
      rw [hrun, hreply]
      rfl
    · have hkept := session_obeyEval s { ctx with expired := false } (Expr.callText name words).toList
      rw [hsession, hkept, String.ofList_toList]

/-- a command that adds to a global and runs another one, and an alias for it -/
def noting : List Session.Event :=
  [.line visitor .broadcaster "!" "!global log [str]",
    .line visitor .broadcaster "!" "!def shout \\$0 !",
    .line visitor .broadcaster "!" "!def scribe \\log.append($0) \\shout($1)",
    .line visitor .broadcaster "!" "!alias note scribe"]

/-- words with a backslash and with marks -/
def noted : List String := ["C:\\dir", "say\"hi\""]

theorem noted_alike :
    (Session.fresh.after noting).Callable "note" ∧
    (Session.fresh.after noting).registry.find? "note" =
      some ⟨⟨"scribe", .words ["\\log.append($0)", "\\shout($1)"]⟩, 0⟩ ∧
    Level.all.permits 0 = true ∧
    Level.all.permits ((Session.fresh.after noting).registry.gate "eval") = true ∧
    (∀ w ∈ noted, Text.Solid w.toList) ∧
    (Session.fresh.after noting).Unstopped visitor (Expr.callText "note" noted) ∧
    (handle (Session.fresh.after noting) visitor .all "!" (commandLine "!" "note" noted)).result =
      (handle (Session.fresh.after noting) visitor .all "!" (callLine "!" "note" noted)).result ∧
    (handle (Session.fresh.after noting) visitor .all "!" (commandLine "!" "note" noted)).session =
      (handle (Session.fresh.after noting) visitor .all "!" (callLine "!" "note" noted)).session := by
  have hname : (Session.fresh.after noting).Callable "note" := by
    refine ⟨by decide, ?_, by decide, by decide, by decide, by decide, by decide +kernel⟩
    intro k
    cases k <;> decide
  have hfind : (Session.fresh.after noting).registry.find? "note" =
      some ⟨⟨"scribe", .words ["\\log.append($0)", "\\shout($1)"]⟩, 0⟩ := by
    exact Registry.find?_eq_of_map (by decide +kernel)
  have hmask : Level.all.permits 0 = true := by decide
  have heval : Level.all.permits ((Session.fresh.after noting).registry.gate "eval") = true := by
    decide +kernel
  have hwords : ∀ w ∈ noted, Text.Solid w.toList := by decide
  have hcalls : (Session.fresh.after noting).Unstopped visitor (Expr.callText "note" noted) := by
    refine ⟨?_, ?_⟩
    · decide +kernel
    · decide +kernel
  exact ⟨hname, hfind, hmask, heval, hwords, hcalls,
    run_alike hname hfind rfl hmask heval hwords hcalls⟩

/-- where no call is allowed any more, a command still runs by its name -/
example :
    let s : Session := ⟨(Registry.fresh.insertCommand ⟨"hi", .words ["hello"]⟩).2, .empty⟩
    let deepest : Context := { visitor with depth := maxCallDepth }
    (handle s deepest .all "!" (commandLine "!" "hi" [])).result = some "hello" ∧
    (handle s deepest .all "!" (callLine "!" "hi" [])).result =
      some ("error: " ++ (Failure.eval .recursionLimit).message) := by
  decide +kernel

end Chat

end Parlance
