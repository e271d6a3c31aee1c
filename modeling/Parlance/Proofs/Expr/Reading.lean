import Parlance.Expr.Parser

/-!
# What a successful reading has done

A reply says how the tokens that are left lie in those that were given, and a reading goes on after
something failed.  For a reading that succeeds neither matters:

* `Reply.result? r`   what was read and the tokens that are left, if nothing failed.

Each reading function has an equation for its result in terms of the results of the functions that
it uses.  The measure of the recursion and the faults are left behind with these.
-/

namespace Parlance

namespace Verdict

variable {α β : Type}

def Failed (v : Verdict α) : Prop := ∃ fs, v = .error fs

@[simp] theorem not_failed_ok (a : α) : ¬ Failed (.ok a : Verdict α) := by
  rintro ⟨fs, h⟩
  cases h

@[simp] theorem failed_error (fs : List Fault) : Failed (.error fs : Verdict α) := ⟨fs, rfl⟩

@[simp] theorem failed_map (f : α → β) (v : Verdict α) :
    Failed (Except.map f v : Verdict β) ↔ v.Failed := by
  cases v with
  | ok a => exact iff_of_false (not_failed_ok _) (not_failed_ok a)
  | error fs => exact iff_of_true (failed_error fs) (failed_error fs)

@[simp] theorem failed_both (v : Verdict α) (w : Verdict β) :
    (both v w).Failed ↔ v.Failed ∨ w.Failed := by
  cases v <;> cases w <;> simp [both]

@[simp] theorem failed_optional_some (v : Verdict α) : (optional (some v)).Failed ↔ v.Failed :=
  failed_map some v

end Verdict

namespace Reply

variable {α β : Type} {ts us : List Token}

def result? (r : Reply α ts) : Option (α × List Token) :=
  match r.verdict with
  | .ok a => some (a, r.rest)
  | .error _ => none

theorem result?_within (h : us <:+ ts) (r : Reply α us) : (within h r).result? = r.result? := rfl
theorem result?_thenOn (a : Reply α ts) (h : us <:+ a.rest) (b : Reply β us) :
    (a.thenOn h b).result? = b.result? := rfl
theorem result?_andThen (a : Reply α ts) (b : Reply β a.rest) :
    (a.andThen b).result? = b.result? := rfl

theorem result?_eq_none_iff (r : Reply α ts) : r.result? = none ↔ r.verdict.Failed := by
  rcases r with ⟨v, log, rest, h⟩
  cases v with
  | ok a => exact iff_of_false (fun h => by cases h) (Verdict.not_failed_ok a)
  | error fs => exact iff_of_true rfl (Verdict.failed_error fs)

theorem result?_eq_some_iff (r : Reply α ts) (a : α) (rest : List Token) :
    r.result? = some (a, rest) ↔ r.verdict = .ok a ∧ r.rest = rest := by
  rcases r with ⟨v, log, rest', h⟩
  cases v with
  | ok b =>
    show some (b, rest') = some (a, rest) ↔ Except.ok b = Except.ok a ∧ rest' = rest
    simp
  | error fs => exact iff_of_false (fun h => by cases h) fun ⟨h, _⟩ => by cases h

theorem eq_bind_result? {r : Reply α ts} {k : α × List Token → Option β} {x : Option β}
    (hok : ∀ a, r.verdict = .ok a → x = k (a, r.rest))
    (hfailed : r.verdict.Failed → x = none) : x = r.result?.bind k := by
  rcases r with ⟨v, log, rest, h⟩
  cases v with
  | ok a => exact hok a rfl
  | error fs => exact hfailed (Verdict.failed_error fs)

theorem result?_map {F : Verdict α → Verdict β} {f : α → β} (hok : ∀ a, F (.ok a) = .ok (f a))
    (hfailed : ∀ fs, (F (.error fs)).Failed) (r : Reply α ts) :
    (r.map F).result? = r.result?.map fun p => (f p.1, p.2) := by
  rcases r with ⟨v, log, rest, h⟩
  cases v with
  | ok a =>
    show result? ⟨F (.ok a), log, rest, h⟩ = some (f a, rest)
    rw [hok]
    rfl
  | error fs => exact (result?_eq_none_iff _).mpr (hfailed fs)

theorem result?_map_both {γ : Type} (f : α × β → γ) (a : α) (r : Reply β ts) :
    (r.map fun v => (Verdict.both (.ok a) v).map f).result? =
      r.result?.map fun p => (f (a, p.1), p.2) := by
  refine result?_map (f := fun b => f (a, b)) ?_ ?_ r
  · exact fun _ => rfl
  · exact fun fs => by simp

end Reply

namespace Expr

open Reply

variable (stop : Token)

/-- the tokens after one of kind `k`, if that comes next -/
def after? (k : TokenKind) : List Token → Option (List Token)
  | [] => none
  | t :: us => if t.kind = k then some us else none

theorem after?_cons_of_eq {k : TokenKind} {t : Token} (h : t.kind = k) (us : List Token) :
    after? k (t :: us) = some us := if_pos h

theorem after?_cons_of_ne {k : TokenKind} {t : Token} (h : t.kind ≠ k) (us : List Token) :
    after? k (t :: us) = none := if_neg h

theorem next?_eq (k : TokenKind) (ts : List Token) : (next? k ts).map (·.1) = after? k ts := by
  cases ts with
  | nil => rfl
  | cons t us =>
    unfold next? after?
    dsimp only
    split <;> rfl

theorem after?_of_next?_some {k : TokenKind} {ts us : List Token} {h}
    (hn : next? k ts = some ⟨us, h⟩) : after? k ts = some us := by
  rw [← next?_eq, hn]
  rfl

theorem after?_of_next?_none {k : TokenKind} {ts : List Token} (hn : next? k ts = none) :
    after? k ts = none := by
  rw [← next?_eq, hn]
  rfl

theorem expect_result (k : TokenKind) (p : Problem) (ts : List Token) :
    (expect stop k p ts).result? = (after? k ts).map fun us => ((), us) := by
  unfold expect
  split
  · rename_i us h hn
    rw [after?_of_next?_some hn]
    rfl
  · rename_i hn
    rw [after?_of_next?_none hn]
    rfl

/-- a reading that a token of kind `k` has to follow -/
theorem closed_result {α β : Type} {F : Verdict Unit → Verdict β} {b : β} (hok : F (.ok ()) = .ok b)
    (hfailed : ∀ fs, (F (.error fs)).Failed) {ts : List Token} (r : Reply α ts)
    (k : TokenKind) (p : Problem) :
    ((r.andThen (expect stop k p r.rest)).map F).result? =
      (after? k r.rest).map fun us => (b, us) := by
  rw [result?_map (f := fun _ => b) (fun _ => hok) hfailed, result?_andThen, expect_result,
    Option.map_map]
  rfl

/-! ## Lists -/

theorem readItems_result (close : TokenKind) (p : Problem) (ts : List Token) :
    (readItems stop close p ts).result? =
      match after? close ts with
      | some us => some ([], us)
      | none => (readItemsOn stop close p ts).result? := by
  rw [readItems]
  split
  · rename_i us h hn
    rw [after?_of_next?_some hn]
    rfl
  · rename_i hn
    rw [after?_of_next?_none hn]

theorem readItemsOn_result (close : TokenKind) (p : Problem) (ts : List Token) :
    (readItemsOn stop close p ts).result? =
      (readExpr stop 0 ts).result?.bind fun (e, rest) =>
        match after? (.symbol .comma) rest with
        | some us => (readItems stop close p us).result?.map fun (es, vs) => (e :: es, vs)
        | none => (after? close rest).map fun us => ([e], us) := by
  rw [readItemsOn]
  dsimp only
  refine eq_bind_result? ?_ ?_
  · intro e he
    split
    · rename_i us h hcomma
      simp only [after?_of_next?_some hcomma, readItems_result]
      split
      · rename_i vs hv hclose
        simp only [after?_of_next?_some hclose, result?_thenOn, he]
        rfl
      · rename_i hclose
        simp only [after?_of_next?_none hclose, result?_thenOn, he]
        exact result?_map_both _ e _
    · rename_i hcomma
      simp only [after?_of_next?_none hcomma, he]
      refine closed_result stop ?_ ?_ _ _ _
      · rfl
      · exact fun fs => by simp
  · intro hfailed
    rw [result?_eq_none_iff]
    split
    · split
      · exact (Verdict.failed_map _ _).mpr hfailed
      · simp [thenOn, Reply.map, hfailed]
    · simp [Reply.map, hfailed]

/-! ## Leaves -/

theorem readVariable_result (ts : List Token) :
    (readVariable stop ts).result? =
      match ts with
      | [] => none
      | t :: us =>
        match t.kind with
        | .ident => some (.var (.context t.literal), us)
        | .number => (Literal.argument? t.literal.toList).map fun n => (.var (.arg n), us)
        | _ => none := by
  cases ts with
  | nil => rfl
  | cons t us =>
    obtain ⟨kind, literal, offset⟩ := t
    cases kind with
    | number =>
      unfold readVariable
      dsimp only
      cases Literal.argument? literal.toList <;> rfl
    | _ => rfl

theorem readMember_result (base : Expr) (ts : List Token) :
    (readMember stop (.ok base) ts).result? =
      match ts with
      | [] => none
      | t :: us => if t.kind = .ident then some (.member base t.literal, us) else none := by
  cases ts with
  | nil => rfl
  | cons t us =>
    unfold readMember
    dsimp only
    by_cases hk : t.kind = .ident
    · rw [if_pos hk, if_pos hk]
      rfl
    · rw [if_neg hk, if_neg hk]
      rfl

theorem readNumber_result (t : Token) (us : List Token) :
    (readNumber t us).result? =
      (Literal.number t.literal.toList).toOption.map fun e => (e, us) := by
  unfold readNumber
  split
  · rename_i e he
    rw [he]
    rfl
  · rename_i fault hfault
    rw [hfault]
    rfl

theorem readChar_result (t : Token) (us : List Token) :
    (readChar t us).result? =
      (Literal.char? t.literal.toList).map fun c => (.char c, us) := by
  unfold readChar
  split
  · rename_i c hc
    rw [hc]
    rfl
  · rename_i hc
    rw [hc]
    rfl

/-! ## Subscripts, slices and choices -/

theorem readSlice_result (base : Expr) (start : Option Expr) (ts : List Token) :
    (readSlice stop (.ok base) (start.map .ok) ts).result? =
      match after? (.symbol .rightSquare) ts with
      | some us => some (.slice base start none, us)
      | none => (readExpr stop 0 ts).result?.bind fun (hi, rest) =>
        (after? (.symbol .rightSquare) rest).map fun us => (.slice base start (some hi), us) := by
  have hstart : Verdict.optional (start.map Except.ok) = .ok start := by
    cases start <;> rfl
  rw [readSlice]
  split
  · rename_i us h hn
    rw [after?_of_next?_some hn, hstart]
    rfl
  · rename_i hn
    rw [after?_of_next?_none hn, hstart]
    dsimp only
    refine eq_bind_result? ?_ ?_
    · intro hi hhi
      rw [hhi]
      refine closed_result stop ?_ ?_ _ _ _
      · rfl
      · exact fun fs => by simp
    · intro hfailed
      rw [result?_eq_none_iff]
      simp [Reply.map, hfailed]

theorem readSlice_failed {base : Verdict Expr} {start : Option (Verdict Expr)}
    (h : (base.both (Verdict.optional start)).Failed) (ts : List Token) :
    (readSlice stop base start ts).result? = none := by
  rw [result?_eq_none_iff, readSlice]
  split
  · exact (Verdict.failed_map _ _).mpr h
  · rw [Verdict.failed_both] at h
    simp only [Reply.map, Verdict.failed_map, Verdict.failed_both]
    rcases h with h | h
    · exact Or.inl h
    · exact Or.inr (Or.inl h)

theorem readBracket_result (base : Expr) (ts : List Token) :
    (readBracket stop (.ok base) ts).result? =
      match after? (.symbol .colon) ts with
      | some us => (readSlice stop (.ok base) none us).result?
      | none => (readExpr stop 0 ts).result?.bind fun (i, rest) =>
        match after? (.symbol .colon) rest with
        | some us => (readSlice stop (.ok base) (some (.ok i)) us).result?
        | none => (after? (.symbol .rightSquare) rest).map fun us => (.subscript base i, us) := by
  rw [readBracket]
  split
  · rename_i us h hn
    rw [after?_of_next?_some hn]
    rfl
  · rename_i hn
    rw [after?_of_next?_none hn]
    dsimp only
    refine eq_bind_result? ?_ ?_
    · intro i hi
      split
      · rename_i us h hcolon
        simp only [after?_of_next?_some hcolon, hi]
        rfl
      · rename_i hcolon
        simp only [after?_of_next?_none hcolon, hi]
        refine closed_result stop ?_ ?_ _ _ _
        · rfl
        · exact fun fs => by simp
    · intro hfailed
      split
      · rw [result?_thenOn]
        refine readSlice_failed stop ?_ _
        simp [hfailed]
      · rw [result?_eq_none_iff]
        simp [Reply.map, hfailed]

theorem readBracket_failed {base : Verdict Expr} (h : base.Failed) (ts : List Token) :
    (readBracket stop base ts).result? = none := by
  have hboth : ∀ start : Option (Verdict Expr), (base.both (Verdict.optional start)).Failed := by
    intro start
    exact (Verdict.failed_both _ _).mpr (Or.inl h)
  rw [readBracket]
  split
  · rw [result?_within]
    exact readSlice_failed stop (hboth _) _
  · dsimp only
    split
    · rw [result?_thenOn]
      exact readSlice_failed stop (hboth _) _
    · rw [result?_eq_none_iff]
      simp [Reply.map, h]

theorem readTernary_result (cond : Expr) (ts : List Token) :
    (readTernary stop (.ok cond) ts).result? =
      (readExpr stop 0 ts).result?.bind fun (yes, rest) =>
        (after? (.symbol .colon) rest).bind fun us =>
          (readExpr stop Joiner.ternaryStrength us).result?.map fun (no, vs) =>
            (.ternary cond yes no, vs) := by
  rw [readTernary]
  dsimp only
  refine eq_bind_result? ?_ ?_
  · intro yes hyes
    split
    · rename_i us h hcolon
      simp only [after?_of_next?_some hcolon, hyes, result?_thenOn]
      refine result?_map ?_ ?_ _
      · exact fun _ => rfl
      · exact fun fs => by simp
    · rename_i hcolon
      simp only [after?_of_next?_none hcolon, hyes]
      rfl
  · intro hfailed
    rw [result?_eq_none_iff]
    split
    · simp [thenOn, Reply.map, hfailed]
    · simp [Reply.map, hfailed]

theorem readTernary_failed {cond : Verdict Expr} (h : cond.Failed) (ts : List Token) :
    (readTernary stop cond ts).result? = none := by
  rw [result?_eq_none_iff, readTernary]
  dsimp only
  split
  · simp [thenOn, Reply.map, h]
  · simp [Reply.map, h]

/-! ## Operands -/

theorem readPrimary_nil : (readPrimary stop []).result? = none := by
  rw [readPrimary]
  rfl

theorem readPrimary_paren {l : Token} (left : l.kind = .symbol .leftParen) (us : List Token) :
    (readPrimary stop (l :: us)).result? =
      (readExpr stop 0 us).result?.bind fun (e, rest) =>
        (after? (.symbol .rightParen) rest).map fun vs => (e, vs) := by
  rw [readPrimary, result?_within]
  simp only [left]
  refine eq_bind_result? ?_ ?_
  · intro e he
    rw [he]
    refine closed_result stop ?_ ?_ _ _ _
    · rfl
    · exact fun fs => by simp
  · intro hfailed
    rw [result?_eq_none_iff]
    simp [Reply.map, hfailed]

theorem readPrimary_list {l : Token} (left : l.kind = .symbol .leftSquare) (us : List Token) :
    (readPrimary stop (l :: us)).result? =
      (readItems stop (.symbol .rightSquare) .noListMark us).result?.map fun (es, rest) =>
        (.list es, rest) := by
  rw [readPrimary, result?_within]
  simp only [left]
  refine result?_map ?_ ?_ _
  · exact fun _ => rfl
  · exact fun fs => by simp

theorem readOperand_unary {t : Token} {op : UnaryOp} (kind : unaryOf? t.kind = some op)
    (us : List Token) :
    (readOperand stop (t :: us)).result? =
      (readExpr stop Joiner.bracketStrength us).result?.map fun (e, rest) =>
        (.unary op e, rest) := by
  rw [readOperand]
  split
  · rename_i hnone
    rw [hnone] at kind
    cases kind
  · rename_i op' hsome
    obtain rfl : op' = op := Option.some.inj (hsome.symm.trans kind)
    rw [result?_within]
    refine result?_map ?_ ?_ _
    · exact fun _ => rfl
    · exact fun fs => by simp

theorem readOperand_primary {t : Token} (kind : unaryOf? t.kind = none) (us : List Token) :
    (readOperand stop (t :: us)).result? = (readPrimary stop (t :: us)).result? := by
  rw [readOperand]
  split
  · rfl
  · rename_i op hsome
    rw [hsome] at kind
    cases kind

/-! ## Joiners -/

def nextJoiner? : List Token → Option Joiner
  | [] => none
  | t :: _ => Joiner.ofKind? t.kind

/-- What comes next binds less tightly than `min`, if it joins at all. -/
def Stops (min : Nat) (ts : List Token) : Prop :=
  ∀ j, nextJoiner? ts = some j → j.strength < min

theorem readAfter_call (chained : Bool) (e : Expr) (ts : List Token) :
    (readAfter stop .call chained (.ok e) ts).result? =
      (readItems stop (.symbol .rightParen) .noArgumentMark ts).result?.map fun (es, rest) =>
        (.call e es, rest) := by
  rw [readAfter]
  exact result?_map_both _ e _

theorem readAfter_binary (op : BinaryOp) (chained : Bool) (e : Expr) (ts : List Token) :
    (readAfter stop (.binary op) chained (.ok e) ts).result? =
      (readExpr stop (if op = .pow then op.strength else op.strength + 1) ts).result?.map
        fun (rhs, rest) => (.binary op e rhs, rest) := by
  rw [readAfter]
  exact result?_map_both _ e _

theorem readAfter_compare (op : CompareOp) (chained : Bool) (e : Expr) (ts : List Token) :
    (readAfter stop (.compare op) chained (.ok e) ts).result? =
      (readExpr stop (Joiner.compareStrength + 1) ts).result?.map fun (rhs, rest) =>
        (link chained op e rhs, rest) := by
  rw [readAfter]
  exact result?_map_both _ e _

theorem readAfter_assign (op : Option BinaryOp) (chained : Bool) (e : Expr) (ts : List Token) :
    (readAfter stop (.assign op) chained (.ok e) ts).result? =
      (readExpr stop Joiner.assignStrength ts).result?.map fun (value, rest) =>
        (.assign op e value, rest) := by
  rw [readAfter]
  exact result?_map_both _ e _

theorem readAfter_failed {lhs : Verdict Expr} (h : lhs.Failed) (j : Joiner) (chained : Bool)
    (ts : List Token) : (readAfter stop j chained lhs ts).result? = none := by
  cases j with
  | bracket =>
    rw [readAfter]
    exact readBracket_failed stop h ts
  | ternary =>
    rw [readAfter]
    exact readTernary_failed stop h ts
  | _ =>
    rw [result?_eq_none_iff, readAfter]
    simp [readMember, Reply.map, h]

/-- Nothing that is read after a part that failed makes up for it. -/
theorem readJoined_failed {lhs : Verdict Expr} (h : lhs.Failed) (min : Nat) (chained : Bool)
    (ts : List Token) : (readJoined stop min chained lhs ts).result? = none := by
  cases ts with
  | nil =>
    rw [readJoined, result?_eq_none_iff]
    exact h
  | cons t us =>
    rw [readJoined]
    split
    · rw [result?_eq_none_iff]
      exact h
    · rename_i j hj
      split
      · rw [result?_eq_none_iff]
        exact h
      · rw [result?_within, result?_andThen]
        have hrest := (readAfter stop j chained lhs us).rest_length_le
        refine readJoined_failed ?_ _ _ _
        exact (result?_eq_none_iff _).mp (readAfter_failed stop h j chained us)
termination_by ts.length
decreasing_by
  simp only [List.length_cons]
  omega

theorem readJoined_stop {min : Nat} {ts : List Token} (h : Stops min ts) (chained : Bool)
    (e : Expr) : (readJoined stop min chained (.ok e) ts).result? = some (e, ts) := by
  cases ts with
  | nil =>
    rw [readJoined]
    rfl
  | cons t us =>
    rw [readJoined]
    split
    · rfl
    · rename_i j hj
      rw [if_pos (h j hj)]
      rfl

theorem readJoined_cons {t : Token} {j : Joiner} (hj : Joiner.ofKind? t.kind = some j) {min : Nat}
    (hmin : min ≤ j.strength) (chained : Bool) (e : Expr) (us : List Token) :
    (readJoined stop min chained (.ok e) (t :: us)).result? =
      (readAfter stop j chained (.ok e) us).result?.bind fun (e, rest) =>
        (readJoined stop min j.isCompare (.ok e) rest).result? := by
  rw [readJoined]
  split
  · rename_i hnone
    rw [hnone] at hj
    cases hj
  · rename_i j' hj'
    obtain rfl : j' = j := Option.some.inj (hj'.symm.trans hj)
    rw [if_neg (Nat.not_lt.mpr hmin), result?_within, result?_andThen]
    refine eq_bind_result? ?_ ?_
    · intro e he
      rw [he]
    · intro hfailed
      exact readJoined_failed stop hfailed _ _ _

theorem readExpr_result (min : Nat) (ts : List Token) :
    (readExpr stop min ts).result? =
      (readOperand stop ts).result?.bind fun (e, rest) =>
        (readJoined stop min false (.ok e) rest).result? := by
  rw [readExpr, result?_andThen]
  refine eq_bind_result? ?_ ?_
  · intro e he
    rw [he]
  · intro hfailed
    exact readJoined_failed stop hfailed _ _ _

end Expr

end Parlance
