import Parlance.Proofs.Eval.Standard
import Parlance.Proofs.Number.Digits
import Parlance.Proofs.Text.Words
import Parlance.Proofs.Token.Strings

/-!
# Integers as texts

* `Session.ask s ctx name args`   what the function of this name that the language comes with answers;
* `Session.ask_str`      `str` writes an integer;
* `Session.ask_int_iff`  `int` reads what is left of a text without its leading blanks, if that is
                         digits, with a sign or not, that are worth an integer of 64 bits;
* `integers_round_trip`  so an integer comes back from its text.
-/

namespace Parlance

theorem Text.dropBlanks_append {blanks : List Char} (h : ∀ c ∈ blanks, isBlank c = true)
    (cs : List Char) : dropBlanks (blanks ++ cs) = dropBlanks cs := List.dropWhile_append_of_pos h

/-- An integer is written with no blank before it. -/
theorem Numeral.Signed.head {cs : List Char} {i : Int} (h : Signed cs i) :
    ∀ c ∈ cs.head?, Text.isBlank c = false := by
  intro c hc
  cases h with
  | plus => obtain rfl := Option.some.inj hc; rfl
  | minus => obtain rfl := Option.some.inj hc; rfl
  | plain digits =>
    have hdigit : c.isDigit = true := digits.2.1 c (List.mem_of_mem_head? hc)
    have hpart : Lexeme.isWordPart c = true := by simp [Lexeme.isWordPart, Char.isAlphanum, hdigit]
    exact Lexeme.not_isBlank_of_isWordPart hpart

namespace Session

open Command

variable {v w : Value} {cs : List Char}

/-- what the function of this name that the language comes with answers for the arguments -/
def ask (s : Session) (ctx : Context) (name : String) (args : List Value) : Option Value :=
  (standard? name).bind fun c => (s.run { ctx with args := args } c).result

section
variable (s : Session) (ctx : Context)

theorem ask_eq (name : String) (args : List Value) : s.ask ctx name args =
    ((standard? name).bind fun c => c.chosen? args).bind fun d => d.action.apply args := by
  rw [ask]
  cases hc : standard? name with
  | none => rfl
  | some c => exact s.result_run_standard { ctx with args := args } (List.mem_of_find?_eq_some hc)

theorem ask_str (n : Int64) : s.ask ctx "str" [.int n] = some (.ofString (Integer.display n)) := by
  have hchosen : ((standard? "str").bind fun c => c.chosen? [.int n]) =
      some (candidate .string .int .strOfScalar) := by
    show ((standard? "str").bind fun c => Candidate.choose? c.candidates [.int]) = _
    decide
  rw [ask_eq, hchosen]
  rfl

theorem ask_int (h : v.chars? = some cs) :
    s.ask ctx "int" [v] = (Numeral.int64? (Text.dropBlanks cs)).map .int := by
  have htype : v.ty = .string := by
    unfold Value.chars? at h
    split at h
    · rfl
    · cases h
  -- which overload is chosen depends on the type only, not on the text
  have hchosen : ((standard? "int").bind fun c => c.chosen? [v]) =
      some (candidate .int .string .intOfStr) := by
    show ((standard? "int").bind fun c => Candidate.choose? c.candidates [v.ty]) = _
    rw [htype]
    decide
  rw [ask_eq, hchosen]
  show Primitive.intOfStr.answer v = _
  rw [Primitive.answer_intOfStr, h]
  rfl

theorem ask_int_iff (h : v.chars? = some cs) : s.ask ctx "int" [v] = some w ↔
    ∃ n : Int64, w = .int n ∧ Numeral.Signed (Text.dropBlanks cs) n.toInt := by
  rw [ask_int s ctx h, Option.map_eq_some_iff]
  constructor
  · rintro ⟨n, hn, rfl⟩
    exact ⟨n, rfl, Numeral.int64?_eq_some_iff.mp hn⟩
  · rintro ⟨n, rfl, hn⟩
    exact ⟨n, Numeral.int64?_eq_some_iff.mpr hn, rfl⟩

end

/-- **An integer comes back from its text.**  `str` writes any integer of 64 bits as a text that `int`
reads as that integer, whatever blanks are put before it.  And where `int` reads a text, that is blanks
and then decimal digits, after a sign or not, which are worth exactly the integer that is read. -/
theorem integers_round_trip (s : Session) (ctx : Context) :
    (∀ n : Int64, ∃ text : List Char, s.ask ctx "str" [.int n] = some (.ofChars text) ∧
      ∀ blanks, (∀ c ∈ blanks, Text.isBlank c = true) →
        s.ask ctx "int" [.ofChars (blanks ++ text)] = some (.int n)) ∧
    ∀ v cs w, v.chars? = some cs → (s.ask ctx "int" [v] = some w ↔
      ∃ n : Int64, w = .int n ∧ Numeral.Signed (Text.dropBlanks cs) n.toInt) := by
  refine ⟨?_, fun v cs w h => ask_int_iff s ctx h⟩
  intro n
  refine ⟨(Integer.display n).toList, ask_str s ctx n, ?_⟩
  intro blanks hblanks
  have hsigned := Numeral.signed_display n
  rw [ask_int_iff s ctx (Value.chars?_ofChars _)]
  refine ⟨n, rfl, ?_⟩
  rw [Text.dropBlanks_append hblanks, Text.dropBlanks_eq_self hsigned.head]
  exact hsigned

/-- The least integer comes back after a tab, and what is one less than it is no integer. -/
theorem least_integer_comes_back :
    (∀ c ∈ ['\t'], Text.isBlank c = true) ∧
    (∃ text, fresh.ask outermost "str" [.int Int64.minValue] = some (.ofChars text) ∧
      fresh.ask outermost "int" [.ofChars ('\t' :: text)] = some (.int Int64.minValue)) ∧
    (Value.ofString "-9223372036854775809").chars? = some "-9223372036854775809".toList ∧
    fresh.ask outermost "int" [.ofString "-9223372036854775809"] = none := by
  obtain ⟨hback, hread⟩ := integers_round_trip fresh outermost
  have hblank : ∀ c ∈ ['\t'], Text.isBlank c = true := List.forall_mem_singleton.mpr rfl
  obtain ⟨text, hwritten, hint⟩ := hback Int64.minValue
  have hchars := Value.chars?_ofChars "-9223372036854775809".toList
  refine ⟨hblank, ⟨text, hwritten, hint ['\t'] hblank⟩, hchars, ?_⟩
  rw [Option.eq_none_iff_forall_ne_some]
  intro w hw
  obtain ⟨n, -, hn⟩ := (hread _ _ w hchars).mp hw
  have hone : Numeral.int64? (Text.dropBlanks "-9223372036854775809".toList) = none := by decide
  rw [Numeral.int64?_eq_some_iff.mpr hn] at hone
  cases hone

end Session

end Parlance
