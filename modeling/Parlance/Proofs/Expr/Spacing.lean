import Parlance.Expr.Parser
import Parlance.Proofs.Token.Spacing

/-!
# Texts that are spaced in another way

Reading an expression goes by the kinds and the literals of the tokens and never by their places, which
are for the reports alone:

* `Fault.Alike f g`      the faults are the same, at tokens that differ in their place at most;
* `Verdict.Alike v w`    the same result, or like faults one by one;
* `Reply.Alike r s`      like verdicts, and like tokens that are left;
* `alike_readExpr`       like tokens have like replies, and so for each of the functions that read them;
* `ofTokens_alike`       they denote the same expression, or the same is said of them;
* `ofText_spacing`       so for a text that has other gaps between its tokens.
-/

namespace Parlance

/-- two faults whose tokens differ in their place at most -/
structure Fault.Alike (f g : Fault) : Prop where
  token : f.token.Alike g.token
  problem : f.problem = g.problem

theorem Fault.Alike.message {f g : Fault} (h : f.Alike g) : f.message = g.message := by
  rw [Fault.message, Fault.message, h.token.literal, h.problem]

theorem Fault.report_alike {fs gs : List Fault} (h : List.Forall₂ Fault.Alike fs gs) :
    Fault.report fs = Fault.report gs := by
  have hmessages : fs.map Fault.message = gs.map Fault.message := by
    induction h with
    | nil => rfl
    | cons hf _ ih => rw [List.map_cons, List.map_cons, hf.message, ih]
  rw [Fault.report, Fault.report, hmessages]

namespace Verdict

variable {α β : Type} {v v' : Verdict α} {w w' : Verdict β}

/-- the same result, or as many faults and each like the other -/
inductive Alike : Verdict α → Verdict α → Prop
  | ok (a : α) : Alike (.ok a) (.ok a)
  | error {fs gs : List Fault} (faults : List.Forall₂ Fault.Alike fs gs) :
      Alike (.error fs) (.error gs)

theorem Alike.map (h : v.Alike v') (f : α → β) : Alike (Except.map f v) (Except.map f v') := by
  cases h with
  | ok a => exact .ok (f a)
  | error faults => exact .error faults

theorem Alike.optional (h : v.Alike v') : (optional (some v)).Alike (optional (some v')) :=
  h.map some

theorem Alike.both (h : v.Alike v') (h' : w.Alike w') : (both v w).Alike (both v' w') := by
  cases h with
  | ok a =>
    cases h' with
    | ok b => exact .ok (a, b)
    | error faults => exact .error faults
  | error faults =>
    cases h' with
    | ok b => exact .error faults
    | error faults' => exact .error (List.rel_append faults faults')

end Verdict

namespace Reply

variable {α β : Type} {ts ts' us us' : List Token} {t t' : Token}

/-- like verdicts, and like tokens that are left -/
structure Alike (r : Reply α ts) (r' : Reply α ts') : Prop where
  verdict : r.verdict.Alike r'.verdict
  rest : List.Forall₂ Token.Alike r.rest r'.rest

theorem alike_idle {v v' : Verdict α} (h : v.Alike v') (hts : List.Forall₂ Token.Alike ts ts') :
    (idle v ts).Alike (idle v' ts') :=
  ⟨h, hts⟩

theorem alike_refuse (ht : t.Alike t') (p : Problem) (hts : List.Forall₂ Token.Alike ts ts') :
    (refuse t p ts : Reply α ts).Alike (refuse t' p ts') :=
  ⟨.error (.cons ⟨ht, rfl⟩ .nil), hts⟩

theorem alike_lack (ht : t.Alike t') (p : Problem) (hts : List.Forall₂ Token.Alike ts ts') :
    (lack t p ts : Reply α ts).Alike (lack t' p ts') := by
  refine alike_refuse ?_ p hts
  cases hts with
  | nil => exact ht
  | cons h _ => exact h

variable {r : Reply α ts} {r' : Reply α ts'}

theorem Alike.within (h : r.Alike r') (hs : ts <:+ us) (hs' : ts' <:+ us') :
    (within hs r).Alike (within hs' r') :=
  ⟨h.verdict, h.rest⟩

theorem Alike.thenOn {a : Reply β us} {a' : Reply β us'} (h : r.Alike r') (hs : ts <:+ a.rest)
    (hs' : ts' <:+ a'.rest) : (a.thenOn hs r).Alike (a'.thenOn hs' r') :=
  ⟨h.verdict, h.rest⟩

theorem Alike.map (h : r.Alike r') {F F' : Verdict α → Verdict β}
    (hF : ∀ {v v'}, v.Alike v' → (F v).Alike (F' v')) : (r.map F).Alike (r'.map F') :=
  ⟨hF h.verdict, h.rest⟩

end Reply

namespace Expr

open Reply

variable {stop stop' : Token} {ts ts' : List Token}

theorem next?_alike (k : TokenKind) (h : List.Forall₂ Token.Alike ts ts') :
    (next? k ts = none ∧ next? k ts' = none) ∨ ∃ us us' hs hs', next? k ts = some ⟨us, hs⟩ ∧
      next? k ts' = some ⟨us', hs'⟩ ∧ List.Forall₂ Token.Alike us us' := by
  cases h with
  | nil => exact .inl ⟨rfl, rfl⟩
  | @cons t t' us us' ht hus =>
    by_cases hk : t.kind = k
    · exact .inr ⟨us, us', _, _, if_pos hk, if_pos (ht.kind ▸ hk), hus⟩
    · exact .inl ⟨if_neg hk, if_neg (ht.kind ▸ hk)⟩

theorem alike_expect (hstop : stop.Alike stop') (k : TokenKind) (p : Problem)
    (hts : List.Forall₂ Token.Alike ts ts') :
    (expect stop k p ts).Alike (expect stop' k p ts') := by
  unfold expect
  rcases next?_alike k hts with ⟨hn, hn'⟩ | ⟨us, us', hs, hs', hn, hn', hus⟩
  · rw [hn, hn']
    exact alike_lack hstop p hts
  · rw [hn, hn']
    exact (alike_idle (.ok ()) hus).within _ _

/-! ## Leaves -/

theorem alike_readVariable (hstop : stop.Alike stop') (hts : List.Forall₂ Token.Alike ts ts') :
    (readVariable stop ts).Alike (readVariable stop' ts') := by
  cases hts with
  | nil => exact alike_refuse hstop _ .nil
  | cons ht hus =>
    unfold readVariable
    refine Alike.within ?_ _ _
    rw [ht.kind, ht.literal]
    split
    · exact alike_idle (.ok _) hus
    · split
      · exact alike_idle (.ok _) hus
      · exact alike_refuse ht _ hus
    · exact alike_refuse ht _ hus

theorem alike_readMember {base base' : Verdict Expr} (hstop : stop.Alike stop')
    (hbase : base.Alike base') (hts : List.Forall₂ Token.Alike ts ts') :
    (readMember stop base ts).Alike (readMember stop' base' ts') := by
  unfold readMember
  refine Alike.map ?_ fun h => (hbase.both h).map _
  cases hts with
  | nil => exact alike_lack hstop _ .nil
  | cons ht hus =>
    dsimp only
    rw [ht.kind, ht.literal]
    split
    · exact (alike_idle (.ok _) hus).within _ _
    · exact alike_lack hstop _ (.cons ht hus)

variable {t t' : Token} {us us' : List Token}

theorem alike_readNumber (ht : t.Alike t') (hus : List.Forall₂ Token.Alike us us') :
    (readNumber t us).Alike (readNumber t' us') := by
  unfold readNumber
  rw [ht.literal]
  split
  · exact alike_idle (.ok _) hus
  · exact alike_refuse ht _ hus

theorem alike_readChar (ht : t.Alike t') (hus : List.Forall₂ Token.Alike us us') :
    (readChar t us).Alike (readChar t' us') := by
  unfold readChar
  rw [ht.literal]
  split
  · exact alike_idle (.ok _) hus
  · exact alike_refuse ht _ hus

/-! ## The functions that read expressions on the way -/

section
variable (hstop : stop.Alike stop') {n : Nat} (hread : ∀ {ts ts' : List Token},
  List.Forall₂ Token.Alike ts ts' → ts.length < n → ∀ min,
    (readExpr stop min ts).Alike (readExpr stop' min ts'))
include hstop hread

theorem alike_readItemsOn (k : TokenKind) (p : Problem) {ts ts' : List Token}
    (hts : List.Forall₂ Token.Alike ts ts') (hlt : ts.length < n) :
    (readItemsOn stop k p ts).Alike (readItemsOn stop' k p ts') := by
  have hitem := hread hts hlt 0
  have hle := (readExpr stop 0 ts).rest_length_le
  unfold readItemsOn
  dsimp only
  rcases next?_alike (.symbol .comma) hitem.rest with ⟨hn, hn'⟩ | ⟨us, us', hs, hs', hn, hn', hus⟩
  · rw [hn, hn']
    exact ((alike_expect hstop k p hitem.rest).thenOn _ _).map fun h => (hitem.verdict.both h).map _
  · rw [hn, hn']
    dsimp only
    rcases next?_alike k hus with ⟨hm, hm'⟩ | ⟨vs, vs', hv, hv', hm, hm', hvs⟩
    · rw [hm, hm']
      have hshort : us.length < ts.length := Nat.lt_of_lt_of_le hs.2 hle
      have hothers := alike_readItemsOn k p hus (Nat.lt_trans hshort hlt)
      exact (hothers.map fun h => (hitem.verdict.both h).map _).thenOn _ _
    · rw [hm, hm']
      exact (alike_idle (hitem.verdict.map _) hvs).thenOn _ _
termination_by ts.length
decreasing_by exact hshort

theorem alike_readItems (k : TokenKind) (p : Problem) (hts : List.Forall₂ Token.Alike ts ts')
    (hlt : ts.length < n) : (readItems stop k p ts).Alike (readItems stop' k p ts') := by
  unfold readItems
  rcases next?_alike k hts with ⟨hn, hn'⟩ | ⟨us, us', hs, hs', hn, hn', hus⟩
  · rw [hn, hn']
    exact alike_readItemsOn hstop hread k p hts hlt
  · rw [hn, hn']
    exact (alike_idle (.ok []) hus).within _ _

theorem alike_readSlice {base base' : Verdict Expr} (hbase : base.Alike base')
    {start start' : Option (Verdict Expr)}
    (hstart : (Verdict.optional start).Alike (Verdict.optional start'))
    (hts : List.Forall₂ Token.Alike ts ts') (hlt : ts.length < n) :
    (readSlice stop base start ts).Alike (readSlice stop' base' start' ts') := by
  unfold readSlice
  dsimp only
  rcases next?_alike (.symbol .rightSquare) hts with ⟨hn, hn'⟩ | ⟨us, us', hs, hs', hn, hn', hus⟩
  · rw [hn, hn']
    have hupper := hread hts hlt 0
    exact ((alike_expect hstop _ _ hupper.rest).thenOn _ _).map fun h =>
      (hbase.both (hstart.both (hupper.verdict.both h))).map _
  · rw [hn, hn']
    exact (alike_idle ((hbase.both hstart).map _) hus).within _ _

theorem alike_readBracket {base base' : Verdict Expr} (hbase : base.Alike base')
    (hts : List.Forall₂ Token.Alike ts ts') (hlt : ts.length < n) :
    (readBracket stop base ts).Alike (readBracket stop' base' ts') := by
  unfold readBracket
  dsimp only
  rcases next?_alike (.symbol .colon) hts with ⟨hn, hn'⟩ | ⟨us, us', hs, hs', hn, hn', hus⟩
  · rw [hn, hn']
    have hindex := hread hts hlt 0
    have hle := (readExpr stop 0 ts).rest_length_le
    dsimp only
    rcases next?_alike (.symbol .colon) hindex.rest with
      ⟨hm, hm'⟩ | ⟨us, us', hs, hs', hm, hm', hus⟩
    · rw [hm, hm']
      exact ((alike_expect hstop _ _ hindex.rest).thenOn _ _).map fun h =>
        (hbase.both (hindex.verdict.both h)).map _
    · rw [hm, hm']
      have hshort : us.length < n := Nat.lt_trans (Nat.lt_of_lt_of_le hs.2 hle) hlt
      exact (alike_readSlice hstop hread hbase hindex.verdict.optional hus hshort).thenOn _ _
  · rw [hn, hn']
    have hstart : (Verdict.optional none : Verdict (Option Expr)).Alike (Verdict.optional none) :=
      .ok none
    exact (alike_readSlice hstop hread hbase hstart hus (Nat.lt_trans hs.2 hlt)).within _ _

theorem alike_readTernary {cond cond' : Verdict Expr} (hcond : cond.Alike cond')
    (hts : List.Forall₂ Token.Alike ts ts') (hlt : ts.length < n) :
    (readTernary stop cond ts).Alike (readTernary stop' cond' ts') := by
  have hyes := hread hts hlt 0
  have hle := (readExpr stop 0 ts).rest_length_le
  unfold readTernary
  dsimp only
  rcases next?_alike (.symbol .colon) hyes.rest with ⟨hn, hn'⟩ | ⟨us, us', hs, hs', hn, hn', hus⟩
  · rw [hn, hn']
    exact ((alike_lack hstop _ hyes.rest).thenOn _ _).map fun h =>
      (hcond.both (hyes.verdict.both h)).map _
  · rw [hn, hn']
    have hno := hread hus (Nat.lt_trans (Nat.lt_of_lt_of_le hs.2 hle) hlt) Joiner.ternaryStrength
    exact (hno.map fun h => (hcond.both (hyes.verdict.both h)).map _).thenOn _ _

theorem alike_readPrimary (hts : List.Forall₂ Token.Alike ts ts') (hle : ts.length ≤ n) :
    (readPrimary stop ts).Alike (readPrimary stop' ts') := by
  cases hts with
  | nil =>
    unfold readPrimary
    exact alike_refuse hstop _ .nil
  | cons ht hus =>
    unfold readPrimary
    refine Alike.within ?_ _ _
    rw [ht.kind, ht.literal]
    split
    · exact alike_readNumber ht hus
    · exact alike_idle (.ok _) hus
    · exact alike_readChar ht hus
    · exact alike_idle (.ok _) hus
    · exact alike_idle (.ok _) hus
    · exact alike_readVariable hstop hus
    · have hinner := hread hus hle 0
      exact ((alike_expect hstop _ _ hinner.rest).thenOn _ _).map fun h =>
        (hinner.verdict.both h).map _
    · exact (alike_readItems hstop hread _ _ hus hle).map fun h => h.map _
    · exact alike_refuse ht _ hus
    · exact alike_refuse ht _ hus

theorem alike_readOperand (hts : List.Forall₂ Token.Alike ts ts') (hle : ts.length ≤ n) :
    (readOperand stop ts).Alike (readOperand stop' ts') := by
  cases hts with
  | nil =>
    unfold readOperand
    exact alike_readPrimary hstop hread .nil hle
  | cons ht hus =>
    unfold readOperand
    rw [ht.kind]
    split
    · exact alike_readPrimary hstop hread (.cons ht hus) hle
    · exact ((hread hus hle _).map fun h => h.map _).within _ _

theorem alike_readAfter (j : Joiner) (chained : Bool) {lhs lhs' : Verdict Expr}
    (hlhs : lhs.Alike lhs') (hts : List.Forall₂ Token.Alike ts ts') (hlt : ts.length < n) :
    (readAfter stop j chained lhs ts).Alike (readAfter stop' j chained lhs' ts') := by
  unfold readAfter
  cases j with
  | member => exact alike_readMember hstop hlhs hts
  | call => exact (alike_readItems hstop hread _ _ hts hlt).map fun h => (hlhs.both h).map _
  | bracket => exact alike_readBracket hstop hread hlhs hts hlt
  | binary op | compare op | assign op =>
    exact (hread hts hlt _).map fun h => (hlhs.both h).map _
  | ternary => exact alike_readTernary hstop hread hlhs hts hlt

theorem alike_readJoined (min : Nat) (chained : Bool) {lhs lhs' : Verdict Expr}
    (hlhs : lhs.Alike lhs') {ts ts' : List Token} (hts : List.Forall₂ Token.Alike ts ts')
    (hle : ts.length ≤ n) :
    (readJoined stop min chained lhs ts).Alike (readJoined stop' min chained lhs' ts') := by
  match ts, ts', hts with
  | _, _, .nil =>
    unfold readJoined
    exact alike_idle hlhs .nil
  | t :: us, t' :: us', .cons ht hus =>
    unfold readJoined
    dsimp only
    rw [ht.kind]
    split
    · exact alike_idle hlhs (.cons ht hus)
    · rename_i j _
      split
      · exact alike_idle hlhs (.cons ht hus)
      · have hstep := alike_readAfter hstop hread j chained hlhs hus hle
        have hshort := (readAfter stop j chained lhs us).rest_length_le
        have hothers := alike_readJoined min j.isCompare hstep.verdict hstep.rest
          (Nat.le_trans hshort (Nat.le_of_succ_le hle))
        exact (hothers.thenOn _ _).within _ _
termination_by ts.length
decreasing_by exact Nat.lt_succ_of_le hshort

end

theorem alike_readExpr (hstop : stop.Alike stop') (min : Nat) {ts ts' : List Token}
    (hts : List.Forall₂ Token.Alike ts ts') :
    (readExpr stop min ts).Alike (readExpr stop' min ts') := by
  have hread : ∀ {us us' : List Token}, List.Forall₂ Token.Alike us us' → us.length < ts.length →
      ∀ min, (readExpr stop min us).Alike (readExpr stop' min us') :=
    fun hus _ min => alike_readExpr hstop min hus
  have hhead := alike_readOperand hstop hread hts (Nat.le_refl ts.length)
  have hle := (readOperand stop ts).rest_length_le
  unfold readExpr
  exact (alike_readJoined hstop hread min false hhead.verdict hhead.rest hle).thenOn _ _
termination_by ts.length

/-! ## Whole texts -/

theorem alike_readWhole (hstop : stop.Alike stop') (hts : List.Forall₂ Token.Alike ts ts') :
    (readWhole stop ts).Alike (readWhole stop' ts') := by
  have hwhole := alike_readExpr hstop 0 hts
  unfold readWhole
  generalize readExpr stop 0 ts = whole at hwhole ⊢
  generalize readExpr stop' 0 ts' = whole' at hwhole ⊢
  obtain ⟨verdict, log, rest, hrest⟩ := whole
  obtain ⟨verdict', log', rest', hrest'⟩ := whole'
  obtain ⟨hverdict, hleft⟩ := hwhole
  cases hverdict with
  | ok e =>
    cases hleft with
    | nil => exact ⟨.ok e, .nil⟩
    | cons ht hus => exact (alike_refuse ht .trailingToken (.cons ht hus)).thenOn _ _
  | error faults => exact ⟨.error faults, hleft⟩

theorem splitEnd_alike (h : List.Forall₂ Token.Alike ts ts') (length length' : Nat) :
    List.Forall₂ Token.Alike (splitEnd length ts).1 (splitEnd length' ts').1 ∧
      (splitEnd length ts).2.Alike (splitEnd length' ts').2 := by
  induction h with
  | nil => exact ⟨.nil, rfl, rfl⟩
  | cons ht _ ih =>
    unfold splitEnd
    rw [ht.kind]
    split
    · exact ⟨.nil, ht⟩
    · exact ⟨.cons ht ih.1, ih.2⟩

/-- What is said of a text does not tell where its tokens stand. -/
theorem ofTokens_alike (h : List.Forall₂ Token.Alike ts ts') (length length' : Nat) :
    (ofTokens length ts).mapError ParseError.message =
      (ofTokens length' ts').mapError ParseError.message := by
  obtain ⟨hbody, hstop⟩ := splitEnd_alike h length length'
  obtain ⟨hverdict, -⟩ := alike_readWhole hstop hbody
  unfold ofTokens
  dsimp only
  generalize (readWhole (splitEnd length ts).2 (splitEnd length ts).1).verdict = verdict
    at hverdict ⊢
  generalize (readWhole (splitEnd length' ts').2 (splitEnd length' ts').1).verdict = verdict'
    at hverdict ⊢
  cases hverdict with
  | ok e => rfl
  | error faults => exact congrArg Except.error (Fault.report_alike faults)

/-- **Tokens do not depend on how they are spaced.**  A text without invalid tokens may have any gaps
between its tokens in place of its own, and any or none before the first and after the last.  It has the
same kinds and literals then; and it denotes the same expression, or the same is said of it. -/
theorem ofText_spacing {text : String}
    (hvalid : ∀ t ∈ Token.ofText text, ∀ cause, t.kind ≠ .invalid cause) {gaps : List (List Char)}
    (hspacing : Token.Spacing gaps (Token.ofText text)) :
    ((Token.ofText (Token.respaced gaps text)).map fun t => (t.kind, t.literal)) =
        ((Token.ofText text).map fun t => (t.kind, t.literal)) ∧
      (ofText (Token.respaced gaps text)).mapError ParseError.message =
        (ofText text).mapError ParseError.message := by
  have halike := Token.ofText_respaced hvalid hspacing
  refine ⟨?_, ofTokens_alike halike _ _⟩
  rw [← List.forall₂_eq_eq_eq, List.forall₂_map_left_iff, List.forall₂_map_right_iff]
  exact halike.imp fun t u h => Prod.ext h.kind h.literal

/-- the dots of `x.0.1` stay two, as no number with a fraction is among its tokens -/
theorem ofText_spacing_accesses :
    (∀ t ∈ Token.ofText "x.0.1+'a'", ∀ cause, t.kind ≠ .invalid cause) ∧
    Token.Spacing [[], [' '], ['\n', '\t'], [' '], [' '], ['\r'], [' '], []]
      (Token.ofText "x.0.1+'a'") ∧
    Token.respaced [[], [' '], ['\n', '\t'], [' '], [' '], ['\r'], [' '], []] "x.0.1+'a'" =
      "x .\n\t0 . 1\r+ 'a'" ∧
    ((Token.ofText "x .\n\t0 . 1\r+ 'a'").map fun t => (t.kind, t.literal)) =
        ((Token.ofText "x.0.1+'a'").map fun t => (t.kind, t.literal)) ∧
    (ofText "x .\n\t0 . 1\r+ 'a'").mapError ParseError.message =
      (ofText "x.0.1+'a'").mapError ParseError.message := by
  have hkinds : (Token.ofText "x.0.1+'a'").map Token.kind =
      [.ident, .symbol .dot, .number, .symbol .dot, .number, .symbol .plus, .char,
        .endOfText] := by
    decide +kernel
  have hvalid : ∀ t ∈ Token.ofText "x.0.1+'a'", ∀ cause, t.kind ≠ .invalid cause := by
    intro t ht cause hcause
    have hmem : TokenKind.invalid cause ∈ (Token.ofText "x.0.1+'a'").map Token.kind :=
      hcause ▸ List.mem_map_of_mem ht
    rw [hkinds] at hmem
    simp at hmem
  have hspacing : Token.Spacing [[], [' '], ['\n', '\t'], [' '], [' '], ['\r'], [' '], []]
      (Token.ofText "x.0.1+'a'") := by
    refine ⟨?_, by simp [Text.isGap], by simp⟩
    rw [← List.length_map Token.kind, hkinds]
    rfl
  have htext : Token.respaced [[], [' '], ['\n', '\t'], [' '], [' '], ['\r'], [' '], []]
      "x.0.1+'a'" = "x .\n\t0 . 1\r+ 'a'" := by
    decide +kernel
  have hsame := ofText_spacing hvalid hspacing
  rw [htext] at hsame
  exact ⟨hvalid, hspacing, htext, hsame⟩

end Expr

end Parlance
