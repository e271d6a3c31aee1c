import Parlance.Proofs.Chat.Masks
import Parlance.Proofs.Command.Splitting

/-!
# Showing a command and defining it again

* `Tells mark line word name text`   a line says a word, then a name, then a text;
* `Accepts s level mark line redefine name text`   such a line is a definition that is permitted and
                             accepted; `Accepts.handle_eq` says what comes of it;
* `Trimmed cs`               a text without blanks at its ends, as every text is that a line tells;
* `ofText_shown`             the words of a text, shown as one text, are its words again;
* `Accepts.again`            so a `redef` with the text that is shown is accepted and changes no word;
* `tells_redefineLine`       and after any mark that can address the bot there is a line for it.
-/

namespace Parlance

namespace Chat

variable {s s' : Session} {level level' : Level} {mark mark' line line' name text word : String}
  {args : List Char} {redefine : Bool}

/-! ## Definitions that are accepted -/

/-- After the mark, the line says the word, then the name, then the text. -/
def Tells (mark line word name text : String) : Prop :=
  ∃ args, Says mark line word args ∧ Text.splitWord args = (name.toList, text.toList)

/-- the verb of a first definition, or of another one -/
def definer (redefine : Bool) : Verb := if redefine then .redefine else .define

/-- The line is a definition of the name that is permitted and accepted. -/
structure Accepts (s : Session) (level : Level) (mark line : String) (redefine : Bool)
    (name text : String) : Prop where
  tells : Tells mark line (definer redefine).name name text
  permits : level.permits (s.registry.gate (definer redefine).name) = true
  name_ne : name ≠ ""
  accepted : ∃ r, s.registry.define name text redefine = .ok r

/-- A definition that is accepted is confirmed, and the name is bound to the words of its text. -/
theorem Accepts.handle_eq (h : Accepts s level mark line redefine name text) (ctx : Context) :
    (handle s ctx level mark line).result =
        some ((definer redefine).name ++ "ined " ++ inQuotes name) ∧
      (handle s ctx level mark line).session.registry.commands.get? name =
        some ⟨Registry.defined name text, 0⟩ := by
  obtain ⟨args, htold, hsplit⟩ := h.tells
  obtain ⟨r, hr⟩ := h.accepted
  have hname : name.toList ≠ [] := fun hnil => h.name_ne (String.toList_eq_nil_iff.mp hnil)
  have hdefine : obeyDefine s args redefine =
      answer ((definer redefine).name ++ "ined " ++ inQuotes name) { s with registry := r } := by
    rw [obeyDefine, hsplit]
    dsimp only
    rw [if_neg hname, String.ofList_toList, String.ofList_toList, hr]
    rfl
  have hobey : ∀ ctx, obey s ctx (definer redefine) args = obeyDefine s args redefine := by
    intro ctx
    cases redefine <;> rfl
  rw [handle_verb s ctx (definer redefine) htold, if_pos h.permits, hobey, hdefine]
  exact ⟨rfl, (Registry.get?_define hr).trans (if_pos rfl)⟩

/-! ## The texts that lines tell -/

/-- The text neither starts nor ends with a blank. -/
structure Trimmed (cs : List Char) : Prop where
  head : ∀ c ∈ cs.head?, Text.isBlank c = false
  last : ∀ c ∈ cs.getLast?, Text.isBlank c = false

/-- What a line tells is trimmed, since lines are. -/
theorem Tells.trimmed (h : Tells mark line word name text) : Trimmed text.toList := by
  obtain ⟨args, ⟨body, hbody, hword⟩, hname⟩ := h
  have hargs : args <:+ body := by
    have hsuffix := Text.splitWord_suffix body
    rwa [hword] at hsuffix
  have htext : text.toList <:+ args := by
    have hsuffix := Text.splitWord_suffix args
    rwa [hname] at hsuffix
  constructor
  · have hhead := Text.head_splitWord args
    rwa [hname] at hhead
  · exact Text.getLast?_of_suffix (htext.trans (hargs.trans (afterMark?_suffix hbody)))
      (Text.getLast?_trim line.toList)

theorem Tells.solid (h : Tells mark line word name text) (hname : name ≠ "") :
    Text.Solid name.toList := by
  obtain ⟨args, -, hsplit⟩ := h
  have hsolid := @Text.solid_splitWord args
  rw [hsplit] at hsolid
  exact hsolid fun hnil => hname (String.toList_eq_nil_iff.mp hnil)

/-! ## The text that is shown -/

/-- the words of a text, shown as one text -/
def shown (text : String) : String := " ".intercalate (Expansion.ofText text)

theorem map_toList_ofText (text : String) :
    (Expansion.ofText text).map String.toList = Expansion.words text.toList := by
  rw [Expansion.ofText, List.map_map]
  exact (List.map_congr_left fun _ _ => String.toList_ofList).trans (List.map_id _)

theorem toList_shown (text : String) : (shown text).toList = Expansion.joined text.toList := by
  rw [shown, String.toList_intercalate, map_toList_ofText]
  rfl

theorem ofText_shown (text : String) : Expansion.ofText (shown text) = Expansion.ofText text := by
  rw [Expansion.ofText, toList_shown, Expansion.words_joined, Expansion.ofText]

theorem defined_shown (name text : String) :
    Registry.defined name (shown text) = Registry.defined name text := by
  rw [Registry.defined, ofText_shown, Registry.defined]

theorem not_isSpacer {c : Char} (h : Text.isBlank c = false) : Text.isSpacer c = false := by
  rw [Bool.eq_false_iff] at h ⊢
  exact fun hspacer => h (Text.isBlank_of_isGap (Text.isGap_of_isSpacer hspacer))

/-- A trimmed text starts and ends as it is shown. -/
theorem ends_shown (h : Trimmed text.toList) :
    (shown text).toList.head? = text.toList.head? ∧
      (shown text).toList.getLast? = text.toList.getLast? := by
  rw [toList_shown]
  constructor
  · cases hcs : text.toList with
    | nil => rfl
    | cons c cs => exact Expansion.head?_joined (not_isSpacer (h.head c (by rw [hcs]; rfl))) cs
  · cases hlast : text.toList.getLast? with
    | none =>
      rw [List.getLast?_eq_none_iff.mp hlast]
      rfl
    | some c => exact Expansion.getLast?_joined (not_isSpacer (h.last c hlast)) hlast

theorem Trimmed.shown (h : Trimmed text.toList) : Trimmed (shown text).toList := by
  obtain ⟨hhead, hlast⟩ := ends_shown h
  constructor
  · rw [hhead]
    exact h.head
  · rw [hlast]
    exact h.last

theorem shown_ne_nil (h : Trimmed text.toList) (hne : Text.dropBlanks text.toList ≠ []) :
    (shown text).toList ≠ [] := by
  rw [Text.dropBlanks_eq_self h.head] at hne
  intro hnil
  obtain ⟨hhead, -⟩ := ends_shown h
  rw [hnil] at hhead
  exact hne (List.head?_eq_none_iff.mp hhead.symm)

/-- The text that is shown is accepted wherever the name is bound to the command. -/
theorem Accepts.again (h : Accepts s level mark line redefine name text) {mask : UInt64}
    (hbound : s'.registry.commands.get? name = some ⟨Registry.defined name text, mask⟩)
    (htells : Tells mark' line' "redef" name (Chat.shown text))
    (hpermits : level'.permits (s'.registry.gate "redef") = true) :
    Accepts s' level' mark' line' true name (Chat.shown text) where
  tells := htells
  permits := hpermits
  name_ne := h.name_ne
  accepted := by
    obtain ⟨htext, hverb, -⟩ := Registry.define_ok_iff.mp h.accepted
    have htrimmed := h.tells.trimmed
    refine Registry.define_ok_iff.mpr ⟨?_, hverb, ?_⟩
    · rw [Text.dropBlanks_eq_self htrimmed.shown.head]
      exact shown_ne_nil htrimmed htext
    · rw [Registry.find?_of_get? hbound]
      rfl

/-- the line that defines a name again -/
def redefineLine (mark name text : String) : String :=
  mark ++ ("redef " ++ name ++ " " ++ text)

theorem tells_redefineLine (hmark : mark.toList.head?.any Text.isBlank = false)
    (hname : Text.Solid name.toList) (htext : Trimmed text.toList) (hne : text.toList ≠ []) :
    Tells mark (redefineLine mark name text) "redef" name text := by
  have hredef : Text.Solid "redef".toList := by decide
  have hline : redefineLine mark name text =
      mark ++ String.ofList ("redef".toList ++ ' ' :: (name.toList ++ ' ' :: text.toList)) := by
    rw [redefineLine, ← String.toList_inj]
    simp
  have hlast : ∃ c, ("redef".toList ++ ' ' :: (name.toList ++ ' ' :: text.toList)).getLast? =
      some c ∧ Text.isBlank c = false := by
    have hend := List.getLast?_eq_some_getLast hne
    refine ⟨text.toList.getLast hne, ?_, htext.last _ hend⟩
    rw [List.getLast?_append, List.getLast?_cons, List.getLast?_append, List.getLast?_cons, hend]
    rfl
  have hbody := body?_mark mark (hredef.head_append _) hlast
  rw [hmark, if_neg Bool.false_ne_true, ← hline] at hbody
  refine ⟨name.toList ++ ' ' :: text.toList, ⟨_, hbody, ?_⟩, ?_⟩
  · exact Text.splitWord_spaced hredef (hname.head_append _)
  · exact Text.splitWord_spaced hname htext.head

theorem result_show (s : Session) (ctx : Context) {entry : Registered} {words : List String}
    (htold : Says mark line "show" args) (hargs : wordsOf args = [name])
    (hpermits : level.permits (s.registry.gate "show") = true)
    (hverb : Verb.isName name = false) (hfind : s.registry.find? name = some entry)
    (hwords : entry.command.words? = some words) :
    (handle s ctx level mark line).result =
      some (inQuotes name ++ " is defined as: " ++ " ".intercalate words) := by
  have hshow : obeyShow s args =
      answer (inQuotes name ++ " is defined as: " ++ " ".intercalate words) s := by
    rw [obeyShow, hargs]
    dsimp only
    rw [hverb, if_neg Bool.false_ne_true, hfind]
    dsimp only
    rw [hwords]
  rw [handle_verb s ctx .show htold]
  show (if level.permits (s.registry.gate "show") then _ else _ : Outcome (Option String)).result = _
  rw [if_pos hpermits]
  show some (obeyShow s args).result = _
  rw [hshow]
  rfl

/-- **The text that is shown defines the same command again.**  Cutting a body into words loses nothing
but the spacers between them, and the words joined by spaces are cut as before.  So where a name is
bound to a command that some line has defined, a permitted `redef` of the name with the text that
`show` answers is accepted and leaves the name bound to that command; and after every mark that can
address the bot, there is a line that says this. -/
theorem shown_redefines :
    (∀ code : String, Expansion.Laid ((Expansion.ofText code).map String.toList) code.toList ∧
      Expansion.ofText (" ".intercalate (Expansion.ofText code)) = Expansion.ofText code) ∧
    ∀ (s₀ s : Session) (level₀ : Level) (mark₀ line₀ : String) (redefine : Bool)
      (name body : String) (mask : UInt64),
      Accepts s₀ level₀ mark₀ line₀ redefine name body →
      s.registry.commands.get? name = some ⟨Registry.defined name body, mask⟩ →
      (∀ (ctx : Context) (level : Level) (mark line : String) (args : List Char),
        Says mark line "show" args → wordsOf args = [name] →
        level.permits (s.registry.gate "show") = true →
        (handle s ctx level mark line).result =
          some (inQuotes name ++ " is defined as: " ++ shown body)) ∧
      (∀ (ctx : Context) (level : Level) (mark line : String),
        Tells mark line "redef" name (shown body) →
        level.permits (s.registry.gate "redef") = true →
        (handle s ctx level mark line).result = some ("redefined " ++ inQuotes name) ∧
        (handle s ctx level mark line).session.registry.commands.get? name =
          some ⟨Registry.defined name body, 0⟩) ∧
      ∀ mark : String, mark.toList.head?.any Text.isBlank = false →
        Tells mark (redefineLine mark name (shown body)) "redef" name (shown body) := by
  constructor
  · intro code
    refine ⟨?_, ofText_shown code⟩
    rw [map_toList_ofText]
    exact Expansion.laid_words code.toList
  intro s₀ s level₀ mark₀ line₀ redefine name body mask haccepts hbound
  obtain ⟨hbody, hverb, -⟩ := Registry.define_ok_iff.mp haccepts.accepted
  have htrimmed := haccepts.tells.trimmed
  refine ⟨?_, ?_, ?_⟩
  · intro ctx level mark line args htold hargs hpermits
    exact result_show s ctx htold hargs hpermits hverb (Registry.find?_of_get? hbound) rfl
  · intro ctx level mark line htells hpermits
    have hagain := haccepts.again hbound htells hpermits
    rw [← defined_shown name body]
    exact hagain.handle_eq ctx
  · intro mark hmark
    exact tells_redefineLine hmark (haccepts.tells.solid haccepts.name_ne) htrimmed.shown
      (shown_ne_nil htrimmed hbody)

/-- the session after the definition of a command with an expression in its words -/
def summing : Session :=
  (handle .fresh visitor .trusted "!" "!def sum  it is\t\\add(1,  2)").session

theorem sum_redefined :
    Accepts .fresh .trusted "!" "!def sum  it is\t\\add(1,  2)" false "sum"
      "it is\t\\add(1,  2)" ∧
    summing.registry.commands.get? "sum" =
      some ⟨Registry.defined "sum" "it is\t\\add(1,  2)", 0⟩ ∧
    (handle summing visitor .all "!" "!show sum").result =
      some "'sum' is defined as: it is \\add(1,  2)" ∧
    (handle summing visitor .trusted "!" "!redef sum it is \\add(1,  2)").session.registry.commands.get?
      "sum" = some ⟨Registry.defined "sum" "it is\t\\add(1,  2)", 0⟩ := by
  have htells : Tells "!" "!def sum  it is\t\\add(1,  2)" (definer false).name "sum"
      "it is\t\\add(1,  2)" :=
    ⟨"sum  it is\t\\add(1,  2)".toList,
      ⟨"def sum  it is\t\\add(1,  2)".toList, by decide +kernel, by decide +kernel⟩,
      by decide +kernel⟩
  have haccepts : Accepts .fresh .trusted "!" "!def sum  it is\t\\add(1,  2)" false "sum"
      "it is\t\\add(1,  2)" :=
    ⟨htells, by decide +kernel, by decide, Registry.define_ok_iff.mpr (by decide +kernel)⟩
  have hbound := (haccepts.handle_eq visitor).2
  have hshown : shown "it is\t\\add(1,  2)" = "it is \\add(1,  2)" := by decide +kernel
  have hshow : Says "!" "!show sum" "show" "sum".toList :=
    ⟨"show sum".toList, by decide +kernel, by decide +kernel⟩
  have hresult := shown_redefines.2 _ _ _ _ _ _ _ _ _ haccepts hbound
  rw [hshown] at hresult
  obtain ⟨hanswer, hredefine, hline⟩ := hresult
  exact ⟨haccepts, hbound,
    hanswer visitor .all "!" _ _ hshow (by decide +kernel) (by decide +kernel),
    (hredefine visitor .trusted "!" _ (hline "!" rfl) (by decide +kernel)).2⟩

end Chat

end Parlance
