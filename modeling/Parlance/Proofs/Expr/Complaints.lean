import Mathlib.Data.List.Forall2
import Parlance.Proofs.Expr.Acceptance

/-!
# What is said of a text that is no expression

The faults of a verdict are put together from those of its parts, and the log of a reply is written as
the reading goes on.  Both come to the same:

* `Verdict.Tells v fs`         the verdict `v` fails with the faults `fs`, or there are none;
* `Reply.Traced stop ts log rest`   on the way from the tokens `ts` to `rest`, each complaint is about
                               the token that comes next where it is made;
* `Reply.Told stop before r`   the verdict of `r` tells of the faults `before`, of what was read
                               already, and then of what `r` complains of;
* `told_readExpr`              an expression is told of, and so is what each of the functions that
                               read it returns;
* `ofText_complains`           what is said of a text is every complaint, once and in order.
-/

namespace Parlance

namespace Verdict

variable {α β : Type} {v : Verdict α} {w : Verdict β} {fs gs : List Fault}

/-- The verdict fails with these faults, or succeeds and there are none. -/
def Tells : Verdict α → List Fault → Prop
  | .ok _, fs => fs = []
  | .error gs, fs => gs = fs ∧ fs ≠ []

theorem failed_iff_of_tells (h : v.Tells fs) : v.Failed ↔ fs ≠ [] := by
  cases v with
  | ok a => exact iff_of_false (not_failed_ok a) (not_not_intro h)
  | error gs => exact iff_of_true (failed_error gs) h.2

theorem tells_ok (a : α) : Tells (.ok a) [] := rfl

theorem tells_error (f : Fault) : Tells (.error [f] : Verdict α) [f] := ⟨rfl, List.cons_ne_nil f []⟩

theorem tells_map (h : v.Tells fs) (f : α → β) : Tells (Except.map f v) fs := by
  cases v <;> exact h

theorem tells_optional (h : v.Tells fs) : (optional (some v)).Tells fs := tells_map h some

theorem tells_both (hv : v.Tells fs) (hw : w.Tells gs) : (both v w).Tells (fs ++ gs) := by
  cases v with
  | ok a =>
    cases hv
    cases w <;> exact hw
  | error fs' =>
    obtain ⟨rfl, hne⟩ := hv
    cases w with
    | ok b =>
      cases hw
      rw [List.append_nil]
      exact ⟨rfl, hne⟩
    | error gs' =>
      obtain ⟨rfl, -⟩ := hw
      exact ⟨rfl, List.append_ne_nil_of_left_ne_nil hne _⟩

end Verdict

namespace Reply

open Verdict

variable {α β γ : Type} {stop : Token} {ts us rest : List Token} {log log' before : List Fault}

/-! ## Where complaints are made -/

/-- On the way from the tokens `ts` to `rest`, each complaint is about the token that comes next
where it is made; after the last token that is `stop`. -/
inductive Traced (stop : Token) : List Token → List Fault → List Token → Prop
  | done {ts rest : List Token} (h : rest <:+ ts) : Traced stop ts [] rest
  | complain {ts us rest : List Token} {log : List Fault} (h : us <:+ ts) (p : Problem)
      (others : Traced stop us log rest) : Traced stop ts (⟨us.headD stop, p⟩ :: log) rest

theorem Traced.skip (h : us <:+ ts) (ht : Traced stop us log rest) : Traced stop ts log rest := by
  cases ht with
  | done hrest => exact .done (hrest.trans h)
  | complain hus p others => exact .complain (hus.trans h) p others

theorem Traced.trans (h : Traced stop ts log us) (h' : Traced stop us log' rest) :
    Traced stop ts (log ++ log') rest := by
  induction h with
  | done hus => exact h'.skip hus
  | complain hus p _ ih => exact .complain hus p (ih h')

/-- The places of the tokens complained of never go back. -/
theorem Traced.places (h : Traced stop ts log rest) : ∃ places : List Nat,
    places.Pairwise (· ≤ ·) ∧
      List.Forall₂ (fun i f => (ts ++ [stop])[i]? = some f.token) places log := by
  induction h with
  | done => exact ⟨[], .nil, .nil⟩
  | @complain ts us rest log hus p _ ih =>
    obtain ⟨places, hpairwise, hplaces⟩ := ih
    obtain ⟨passed, rfl⟩ := hus
    -- the places among the tokens `us` are so many further on as tokens were passed over
    refine ⟨passed.length :: places.map (passed.length + ·), ?_, ?_⟩
    · refine List.pairwise_cons.mpr ⟨?_, ?_⟩
      · intro i hi
        obtain ⟨j, -, rfl⟩ := List.mem_map.mp hi
        exact Nat.le_add_right _ _
      · exact hpairwise.map _ fun _ _ hle => Nat.add_le_add_left hle _
    · refine .cons ?_ (List.forall₂_map_left_iff.mpr (hplaces.imp fun i f hi => ?_))
      · rw [List.append_assoc, List.getElem?_append_right (Nat.le_refl _), Nat.sub_self]
        cases us <;> rfl
      · rw [List.append_assoc, List.getElem?_append_right (Nat.le_add_right _ _),
          Nat.add_sub_cancel_left]
        exact hi

/-! ## What a reply tells of -/

/-- The verdict tells of the faults `before`, of what was read already, and then of all that the
reading of the tokens `ts` has complained of. -/
structure Told (stop : Token) (before : List Fault) (r : Reply α ts) : Prop where
  tells : r.verdict.Tells (before ++ r.log)
  traced : Traced stop ts r.log r.rest

theorem told_idle {v : Verdict α} (h : v.Tells before) (ts : List Token) :
    Told stop before (idle v ts) :=
  ⟨by rw [idle, List.append_nil]; exact h, .done (List.suffix_refl ts)⟩

theorem told_lack (stop : Token) (p : Problem) (ts : List Token) :
    Told stop [] (lack stop p ts : Reply α ts) :=
  ⟨tells_error _, .complain (List.suffix_refl ts) p (.done (List.suffix_refl ts))⟩

theorem told_refuse (t : Token) (p : Problem) (us : List Token) :
    Told stop [] (within (List.suffix_cons t us) (refuse t p us : Reply α us)) :=
  ⟨tells_error _, .complain (List.suffix_refl (t :: us)) p (.done (List.suffix_cons t us))⟩

theorem told_within (h : us <:+ ts) {r : Reply α us} (hr : Told stop before r) :
    Told stop before (within h r) :=
  ⟨hr.tells, hr.traced.skip h⟩

theorem told_thenOn {a : Reply α ts} (ha : Traced stop ts a.log a.rest) (h : us <:+ a.rest)
    {b : Reply β us} (hb : Told stop (before ++ a.log) b) : Told stop before (a.thenOn h b) :=
  ⟨by rw [thenOn, ← List.append_assoc]; exact hb.tells, ha.trans (hb.traced.skip h)⟩

theorem told_map {r : Reply α ts} (hr : Told stop [] r) {F : Verdict α → Verdict β}
    (hF : ∀ fs, r.verdict.Tells fs → (F r.verdict).Tells (before ++ fs)) :
    Told stop before (r.map F) :=
  ⟨hF _ hr.tells, hr.traced⟩

/-- one part more, after what was read already -/
theorem told_both {v : Verdict α} (hv : v.Tells before) {r : Reply β ts} (hr : Told stop [] r)
    (f : α × β → γ) : Told stop before (r.map fun w => (v.both w).map f) :=
  told_map hr fun _ hw => tells_map (tells_both hv hw) f

/-- two parts, the verdict on which is put together at the end -/
theorem told_andThen_map {a : Reply α ts} {b : Reply β a.rest} {F : Verdict β → Verdict γ}
    (ha : Told stop [] a) (hb : Told stop [] b)
    (hF : ∀ gs, b.verdict.Tells gs → (F b.verdict).Tells (before ++ (a.log ++ gs))) :
    Told stop before ((a.andThen b).map F) := by
  refine told_thenOn ha.traced (List.suffix_refl a.rest) (told_map hb fun gs hgs => ?_)
  rw [List.append_assoc]
  exact hF gs hgs

end Reply

namespace Expr

open Reply Verdict

variable {stop : Token}

theorem told_expect (k : TokenKind) (p : Problem) (ts : List Token) :
    Told stop [] (expect stop k p ts) := by
  unfold expect
  split
  · rename_i us h _
    exact told_within h.1 (told_idle (tells_ok ()) us)
  · exact told_lack stop p ts

/-! ## Leaves -/

theorem told_readVariable (ts : List Token) : Told stop [] (readVariable stop ts) := by
  unfold readVariable
  split
  · exact told_lack stop _ []
  · rename_i t us
    split
    · exact told_within _ (told_idle (tells_ok _) us)
    · split
      · exact told_within _ (told_idle (tells_ok _) us)
      · exact told_refuse t _ us
    · exact told_refuse t _ us

theorem told_readMember {base : Verdict Expr} {before : List Fault} (h : base.Tells before)
    (ts : List Token) : Told stop before (readMember stop base ts) := by
  unfold readMember
  refine told_both h ?_ _
  split
  · exact told_lack stop _ []
  · rename_i t us
    split
    · exact told_within _ (told_idle (tells_ok _) us)
    · exact told_lack stop _ (t :: us)

theorem told_readNumber (t : Token) (us : List Token) :
    Told stop [] (within (List.suffix_cons t us) (readNumber t us)) := by
  unfold readNumber
  split
  · exact told_within _ (told_idle (tells_ok _) us)
  · exact told_refuse t _ us

theorem told_readChar (t : Token) (us : List Token) :
    Told stop [] (within (List.suffix_cons t us) (readChar t us)) := by
  unfold readChar
  split
  · exact told_within _ (told_idle (tells_ok _) us)
  · exact told_refuse t _ us

/-! ## The functions that read expressions on the way -/

section
variable {n : Nat} (hread : ∀ ts : List Token, ts.length < n → ∀ min,
  Told stop [] (readExpr stop min ts))
include hread

theorem told_readItemsOn (k : TokenKind) (p : Problem) {ts : List Token} (hlt : ts.length < n) :
    Told stop [] (readItemsOn stop k p ts) := by
  have hitem := hread ts hlt 0
  have hle := (readExpr stop 0 ts).rest_length_le
  rw [readItemsOn]
  dsimp only
  split
  · rename_i us h _
    split
    · rename_i vs hv _
      exact told_thenOn hitem.traced _ (told_idle (tells_map hitem.tells _) vs)
    · have hshort : us.length < ts.length := Nat.lt_of_lt_of_le h.2 hle
      have hothers := told_readItemsOn k p (Nat.lt_trans hshort hlt)
      exact told_thenOn hitem.traced _ (told_both hitem.tells hothers _)
  · exact told_andThen_map hitem (told_expect k p _) fun gs hgs =>
      tells_map (tells_both hitem.tells hgs) _
termination_by ts.length
decreasing_by exact hshort

theorem told_readItems (k : TokenKind) (p : Problem) {ts : List Token} (hlt : ts.length < n) :
    Told stop [] (readItems stop k p ts) := by
  rw [readItems]
  split
  · rename_i us h _
    exact told_within _ (told_idle (tells_ok []) us)
  · exact told_readItemsOn hread k p hlt

theorem told_readSlice {base : Verdict Expr} {start : Option (Verdict Expr)}
    {before lower : List Fault} (hbase : base.Tells before)
    (hstart : (Verdict.optional start).Tells lower) {ts : List Token} (hlt : ts.length < n) :
    Told stop (before ++ lower) (readSlice stop base start ts) := by
  rw [readSlice]
  split
  · rename_i us h _
    exact told_within _ (told_idle (tells_map (tells_both hbase hstart) _) us)
  · have hupper := hread ts hlt 0
    refine told_andThen_map hupper (told_expect _ _ _) fun gs hgs => tells_map ?_ _
    rw [List.append_assoc]
    exact tells_both hbase (tells_both hstart (tells_both hupper.tells hgs))

theorem told_readBracket {base : Verdict Expr} {before : List Fault} (hbase : base.Tells before)
    {ts : List Token} (hlt : ts.length < n) : Told stop before (readBracket stop base ts) := by
  have hindex := hread ts hlt 0
  have hle := (readExpr stop 0 ts).rest_length_le
  rw [readBracket]
  split
  · rename_i us h _
    have hstart : (Verdict.optional none : Verdict (Option Expr)).Tells [] := tells_ok none
    have hslice := told_readSlice hread hbase hstart (Nat.lt_trans h.2 hlt)
    rw [List.append_nil] at hslice
    exact told_within _ hslice
  · dsimp only
    split
    · rename_i us h _
      have hshort : us.length < n := Nat.lt_trans (Nat.lt_of_lt_of_le h.2 hle) hlt
      exact told_thenOn hindex.traced _
        (told_readSlice hread hbase (tells_optional hindex.tells) hshort)
    · exact told_andThen_map hindex (told_expect _ _ _) fun gs hgs =>
        tells_map (tells_both hbase (tells_both hindex.tells hgs)) _

theorem told_readTernary {cond : Verdict Expr} {before : List Fault} (hcond : cond.Tells before)
    {ts : List Token} (hlt : ts.length < n) : Told stop before (readTernary stop cond ts) := by
  have hyes := hread ts hlt 0
  have hle := (readExpr stop 0 ts).rest_length_le
  rw [readTernary]
  dsimp only
  split
  · rename_i us h _
    have hno := hread us (Nat.lt_trans (Nat.lt_of_lt_of_le h.2 hle) hlt) Joiner.ternaryStrength
    refine told_thenOn hyes.traced _ (told_map hno fun gs hgs => tells_map ?_ _)
    rw [List.append_assoc]
    exact tells_both hcond (tells_both hyes.tells hgs)
  · exact told_andThen_map hyes (told_lack stop _ _) fun gs hgs =>
      tells_map (tells_both hcond (tells_both hyes.tells hgs)) _

theorem told_readPrimary {ts : List Token} (hle : ts.length ≤ n) :
    Told stop [] (readPrimary stop ts) := by
  cases ts with
  | nil =>
    rw [readPrimary]
    exact told_lack stop _ []
  | cons t us =>
    rw [readPrimary]
    split
    · exact told_readNumber t us
    · exact told_within _ (told_idle (tells_ok _) us)
    · exact told_readChar t us
    · exact told_within _ (told_idle (tells_ok _) us)
    · exact told_within _ (told_idle (tells_ok _) us)
    · exact told_within _ (told_readVariable us)
    · have hinner := hread us hle 0
      exact told_within _ (told_andThen_map hinner (told_expect _ _ _) fun gs hgs =>
        tells_map (tells_both hinner.tells hgs) _)
    · exact told_within _ (told_map (told_readItems hread _ _ hle) fun fs hfs => tells_map hfs _)
    · exact told_refuse t _ us
    · exact told_refuse t _ us

theorem told_readOperand {ts : List Token} (hle : ts.length ≤ n) :
    Told stop [] (readOperand stop ts) := by
  cases ts with
  | nil =>
    rw [readOperand]
    exact told_readPrimary hread hle
  | cons t us =>
    rw [readOperand]
    split
    · exact told_readPrimary hread hle
    · exact told_within _ (told_map (hread us hle _) fun fs hfs => tells_map hfs _)

theorem told_readAfter (j : Joiner) (chained : Bool) {lhs : Verdict Expr} {before : List Fault}
    (hlhs : lhs.Tells before) {ts : List Token} (hlt : ts.length < n) :
    Told stop before (readAfter stop j chained lhs ts) := by
  cases j with
  | member =>
    rw [readAfter]
    exact told_readMember hlhs ts
  | call =>
    rw [readAfter]
    exact told_both hlhs (told_readItems hread _ _ hlt) _
  | bracket =>
    rw [readAfter]
    exact told_readBracket hread hlhs hlt
  | binary op | compare op | assign op =>
    rw [readAfter]
    exact told_both hlhs (hread ts hlt _) _
  | ternary =>
    rw [readAfter]
    exact told_readTernary hread hlhs hlt

theorem told_readJoined (min : Nat) (chained : Bool) {lhs : Verdict Expr} {before : List Fault}
    (hlhs : lhs.Tells before) {ts : List Token} (hle : ts.length ≤ n) :
    Told stop before (readJoined stop min chained lhs ts) := by
  match ts with
  | [] =>
    rw [readJoined]
    exact told_idle hlhs []
  | t :: us =>
    rw [readJoined]
    split
    · exact told_idle hlhs (t :: us)
    · rename_i j _
      split
      · exact told_idle hlhs (t :: us)
      · have hstep := told_readAfter hread j chained hlhs hle
        have hshort := (readAfter stop j chained lhs us).rest_length_le
        have hothers := told_readJoined min j.isCompare hstep.tells
          (Nat.le_trans hshort (Nat.le_of_succ_le hle))
        exact told_within _ (told_thenOn hstep.traced _ hothers)
termination_by ts.length
decreasing_by exact Nat.lt_succ_of_le hshort

end

theorem told_readExpr (min : Nat) (ts : List Token) : Told stop [] (readExpr stop min ts) := by
  have hread : ∀ us : List Token, us.length < ts.length → ∀ min,
      Told stop [] (readExpr stop min us) := fun us _ min => told_readExpr min us
  have hhead := told_readOperand hread (Nat.le_refl ts.length)
  have hle := (readOperand stop ts).rest_length_le
  rw [readExpr]
  exact told_thenOn hhead.traced _ (told_readJoined hread min false hhead.tells hle)
termination_by ts.length

/-! ## Whole texts -/

theorem told_readWhole (stop : Token) (ts : List Token) : Told stop [] (readWhole stop ts) := by
  have hwhole : Told stop [] (readExpr stop 0 ts) := told_readExpr 0 ts
  rw [readWhole]
  split
  · rename_i e t us hverdict hrest
    -- nothing was complained of before
    have hlog := hwhole.tells
    rw [hverdict] at hlog
    have hlack : (refuse t .trailingToken (readExpr stop 0 ts).rest : Reply Expr _) =
        lack stop .trailingToken (readExpr stop 0 ts).rest := by rw [lack, hrest]; rfl
    rw [hlack]
    refine told_thenOn hwhole.traced _ ?_
    rw [hlog]
    exact told_lack stop _ _
  · exact hwhole

/-- the complaints made on the way through a text, in the order in which they are made -/
def complaints (text : String) : List Fault :=
  let (ts, stop) := splitEnd text.utf8ByteSize (Token.ofText text)
  (readWhole stop ts).log

/-- **No complaint is lost, repeated or reordered.**  A text is no expression exactly if something is
complained of on the way.  Then all of that is said and nothing else, in the order in which it was
found, and the place shown is that of the first complaint.  The tokens complained of never go back. -/
theorem ofText_complains (text : String) :
    ((∃ e, Expr.ofText text = .error e) ↔ complaints text ≠ []) ∧
    (∀ e, Expr.ofText text = .error e →
      e.message = "; ".intercalate ((complaints text).map Fault.message) ∧
      ∃ f, (complaints text).head? = some f ∧ e.span? = some f.token.span) ∧
    ∃ places : List Nat, places.Pairwise (· ≤ ·) ∧
      List.Forall₂ (fun i f => (Token.ofText text)[i]? = some f.token) places (complaints text) := by
  obtain ⟨ts, n, hts, hkinds⟩ := Grammar.listFrom_eq text.toList 0 false 0
  have htokens : Token.ofText text = ts ++ [Token.atEnd n] := hts
  have hsplit := Grammar.splitEnd_append hkinds text.utf8ByteSize n
  have htold := told_readWhole (Token.atEnd n) ts
  have hlog : complaints text = (readWhole (Token.atEnd n) ts).log := by
    rw [complaints, htokens, hsplit]
  have htext : Expr.ofText text = (readWhole (Token.atEnd n) ts).verdict.mapError fun faults =>
      ⟨faults, (readWhole (Token.atEnd n) ts).log.head?⟩ := by
    rw [Expr.ofText, ofTokens, htokens, hsplit]
  rw [htext, htokens, hlog]
  have htells := htold.tells
  rw [List.nil_append] at htells
  refine ⟨?_, ?_, htold.traced.places⟩
  · rw [← failed_iff_of_tells htells]
    cases (readWhole (Token.atEnd n) ts).verdict <;> simp [Except.mapError]
  · intro e he
    cases hverdict : (readWhole (Token.atEnd n) ts).verdict with
    | ok a =>
      rw [hverdict] at he
      cases he
    | error fs =>
      rw [hverdict] at he htells
      obtain ⟨rfl, hne⟩ := htells
      cases he
      obtain ⟨f, others, hfs⟩ := List.exists_cons_of_ne_nil hne
      exact ⟨rfl, f, by rw [hfs]; rfl, by rw [hfs]; rfl⟩

end Expr

end Parlance
