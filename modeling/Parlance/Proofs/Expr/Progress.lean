import Mathlib.Data.List.Basic
import Parlance.Proofs.Expr.Cursor

/-!
# A reading stays among its tokens and goes on

The reading by place does what the reading that takes tokens off does, with no more depth than eight
times the tokens.  So it never breaks off, and its account is the account of every reading:

* `Tape`               a token list cut at its first mark of the end, which is where reading stops;
* `Course`             an account that goes from one place to another, each of its moves as it should be;
* `Leads`              a step that gives a value and leaves tokens, on such a course;
* `Follows`            a step that does what a reply says;
* `follows_walkExpr`   so does the reading of an expression, and so do its companions;
* `walkTokens_stays`   a whole token list is read to a verdict, and the account says how.
-/

namespace Parlance

/-! ## Tapes -/

/-- A token list, cut at the first token that marks the end. -/
structure Tape where
  before : List Token
  stop : Token
  beyond : List Token
  kinds : ∀ t ∈ before, t.kind ≠ .endOfText
  ends : stop.kind = .endOfText

namespace Tape

variable {T : Tape} {t : Token} {ts us : List Token}

def tokens (T : Tape) : List Token := T.before ++ T.stop :: T.beyond

/-- the place at which the tokens `ts` are left before the mark of the end -/
def placeOf (T : Tape) (ts : List Token) : Nat := T.before.length - ts.length

theorem tokens_placeOf (h : ts <:+ T.before) : T.tokens[T.placeOf ts]? = some (ts.headD T.stop) := by
  obtain ⟨passed, hpassed⟩ := h
  have hplace : T.placeOf ts = passed.length := by
    rw [placeOf, ← hpassed, List.length_append, Nat.add_sub_cancel_right]
  rw [tokens, ← hpassed, hplace, List.append_assoc, List.getElem?_append_right (Nat.le_refl _),
    Nat.sub_self]
  cases ts <;> rfl

theorem placeOf_lt_length (T : Tape) (ts : List Token) : T.placeOf ts < T.tokens.length := by
  simp only [placeOf, tokens, List.length_append, List.length_cons]
  omega

theorem placeOf_cons (h : t :: us <:+ T.before) : T.placeOf us = T.placeOf (t :: us) + 1 := by
  have hle := h.length_le
  simp only [placeOf, List.length_cons] at hle ⊢
  omega

theorem placeOf_lt_placeOf (h : ts <:+ T.before) (hlt : us.length < ts.length) :
    T.placeOf ts < T.placeOf us := by
  have hle := h.length_le
  simp only [placeOf]
  omega

end Tape

/-! ## Courses -/

/-- The moves lead from the place `i` to the place `j`, each of them is as it should be, and the place
changes only where a token is passed over. -/
inductive Course (tokens : List Token) : Nat → List Move → Nat → Prop
  | done (i : Nat) : Course tokens i [] i
  | stay {i j : Nat} {m : Move} {moves : List Move} (hplace : m.place = i) (hpass : m.passed? = none)
      (hkeeps : m.Keeps tokens) (others : Course tokens i moves j) : Course tokens i (m :: moves) j
  | pass {i j : Nat} {moves : List Move} (hkeeps : (Move.pass i).Keeps tokens)
      (others : Course tokens (i + 1) moves j) : Course tokens i (.pass i :: moves) j

namespace Course

variable {tokens : List Token} {i j k : Nat} {moves more : List Move}

theorem trans (h : Course tokens i moves j) (h' : Course tokens j more k) :
    Course tokens i (moves ++ more) k := by
  induction h with
  | done => exact h'
  | stay hplace hpass hkeeps _ ih => exact .stay hplace hpass hkeeps (ih h')
  | pass hkeeps _ ih => exact .pass hkeeps (ih h')

theorem le (h : Course tokens i moves j) : i ≤ j := by
  induction h with
  | done => exact Nat.le_refl _
  | stay _ _ _ _ ih => exact ih
  | pass _ _ ih => omega

theorem keeps (h : Course tokens i moves j) : ∀ m ∈ moves, m.Keeps tokens := by
  induction h with
  | done => exact fun _ hm => nomatch hm
  | stay _ _ hkeeps _ ih => exact List.forall_mem_cons.mpr ⟨hkeeps, ih⟩
  | pass hkeeps _ ih => exact List.forall_mem_cons.mpr ⟨hkeeps, ih⟩

theorem bounds (h : Course tokens i moves j) : ∀ m ∈ moves, i ≤ m.place ∧ m.place ≤ j := by
  induction h with
  | done => exact fun _ hm => nomatch hm
  | stay hplace _ _ others ih =>
    refine List.forall_mem_cons.mpr ⟨?_, ih⟩
    rw [hplace]
    exact ⟨Nat.le_refl _, others.le⟩
  | @pass i j moves _ others ih =>
    refine List.forall_mem_cons.mpr ⟨⟨Nat.le_refl i, Nat.le_of_succ_le others.le⟩, ?_⟩
    intro m hm
    exact ⟨Nat.le_of_succ_le (ih m hm).1, (ih m hm).2⟩

theorem places (h : Course tokens i moves j) : (moves.map Move.place).Pairwise (· ≤ ·) := by
  induction h with
  | done => exact .nil
  | stay hplace _ _ others ih =>
    refine List.pairwise_cons.mpr ⟨List.forall_mem_map.mpr fun m hm => ?_, ih⟩
    rw [hplace]
    exact (others.bounds m hm).1
  | pass _ others ih =>
    refine List.pairwise_cons.mpr ⟨List.forall_mem_map.mpr fun m hm => ?_, ih⟩
    exact Nat.le_of_succ_le (others.bounds m hm).1

/-- The tokens passed over are those from the one place to the other, in order. -/
theorem passed (h : Course tokens i moves j) :
    moves.filterMap Move.passed? = List.range' i (j - i) := by
  induction h with
  | done i => rw [Nat.sub_self]; rfl
  | stay _ hpass _ _ ih => rw [List.filterMap_cons_none hpass, ih]
  | @pass i j moves _ others ih =>
    have hstep : j - i = (j - (i + 1)) + 1 := by
      have hle := others.le
      omega
    rw [hstep, List.range'_succ, ← ih]
    rfl

end Course

/-! ## What a step does -/

section
variable {α β : Type} {T : Tape} {t : Token} {ts us vs : List Token} {fs gs : List Fault} {a : α} {b : β}
  {x : Walk α} {g : α → Walk β}

/-- Where the tokens `ts` are left, the step `x` gives `a`, complains of `faults` and leaves the tokens
`us`, on a course from the one place to the other. -/
def Leads (T : Tape) (ts : List Token) (x : Walk α) (a : α) (faults : List Fault)
    (us : List Token) : Prop :=
  ts <:+ T.before → us <:+ ts ∧ ∀ log moves, ∃ more,
    x ⟨T.placeOf ts, log, moves⟩ = .ok (a, ⟨T.placeOf us, log ++ faults, moves ++ more⟩) ∧
    Course T.tokens (T.placeOf ts) more (T.placeOf us)

namespace Leads

theorem assume (h : ts <:+ T.before → Leads T ts x a fs us) : Leads T ts x a fs us :=
  fun here => h here here

theorem give (a : α) (ts : List Token) : Leads T ts (Walk.give a) a [] ts := by
  intro _
  refine ⟨List.suffix_refl ts, fun log moves => ⟨[], ?_, .done _⟩⟩
  rw [List.append_nil, List.append_nil]
  rfl

theorem bind (hx : Leads T ts x a fs us) (hg : Leads T us (g a) b gs vs) :
    Leads T ts (x >>= g) b (fs ++ gs) vs := by
  intro here
  obtain ⟨hus, hx⟩ := hx here
  obtain ⟨hvs, hg⟩ := hg (hus.trans here)
  refine ⟨hvs.trans hus, fun log moves => ?_⟩
  obtain ⟨first, hfirst, hcourse⟩ := hx log moves
  obtain ⟨second, hsecond, hcourse'⟩ := hg (log ++ fs) (moves ++ first)
  refine ⟨first ++ second, ?_, hcourse.trans hcourse'⟩
  show Walk.andThen x g _ = _
  rw [Walk.andThen, hfirst, ← List.append_assoc, ← List.append_assoc]
  exact hsecond

/-- after a step without complaints -/
theorem quiet (hx : Leads T ts x a [] us) (hg : Leads T us (g a) b gs vs) :
    Leads T ts (x >>= g) b gs vs :=
  hx.bind hg

/-- before a step without complaints -/
theorem last (hx : Leads T ts x a fs us) (hg : Leads T us (g a) b [] vs) :
    Leads T ts (x >>= g) b fs vs := by
  have h := hx.bind hg
  rw [List.append_nil] at h
  exact h

theorem map (hx : Leads T ts x a fs us) (f : α → β) :
    Leads T ts (x >>= fun a => Walk.give (f a)) (f a) fs us :=
  hx.last (give (f a) us)

theorem placed {g : Nat → Walk β} (hg : Leads T ts (g (T.placeOf ts)) b gs us) :
    Leads T ts (Walk.place >>= g) b gs us := by
  have hplace : Leads T ts Walk.place (T.placeOf ts) [] ts := by
    intro _
    refine ⟨List.suffix_refl ts, fun log moves => ⟨[], ?_, .done _⟩⟩
    rw [List.append_nil, List.append_nil]
    rfl
  exact hplace.quiet hg

theorem noted {g : Unit → Walk β} {m : Move} (hplace : m.place = T.placeOf ts)
    (hpass : m.passed? = none) (hkeeps : m.Keeps T.tokens) (hg : Leads T ts (g ()) b gs us) :
    Leads T ts (Walk.note m >>= g) b gs us := by
  have hnote : Leads T ts (Walk.note m) () [] ts := by
    intro _
    refine ⟨List.suffix_refl ts, fun log moves => ⟨[m], ?_, .stay hplace hpass hkeeps (.done _)⟩⟩
    rw [List.append_nil]
    rfl
  exact hnote.quiet hg

theorem complain (t : Token) (p : Problem) (ts : List Token) :
    Leads T ts (Walk.complain (α := α) t p) (.error [⟨t, p⟩]) [⟨t, p⟩] ts := by
  intro _
  refine ⟨List.suffix_refl ts, fun log moves => ⟨[], ?_, .done _⟩⟩
  rw [List.append_nil]
  rfl

theorem look (ts : List Token) : Leads T ts (Walk.look T.tokens) (ts.headD T.stop) [] ts := by
  intro here
  refine ⟨List.suffix_refl ts, fun log moves => ⟨[.look (T.placeOf ts)], ?_, ?_⟩⟩
  · rw [Walk.look, Tape.tokens_placeOf here, List.append_nil]
  · exact .stay rfl rfl (T.placeOf_lt_length ts) (.done _)

theorem looked {g : Token → Walk β} (hg : Leads T ts (g (ts.headD T.stop)) b gs us) :
    Leads T ts (Walk.look T.tokens >>= g) b gs us :=
  (look ts).quiet hg

theorem advance_cons (t : Token) (us : List Token) :
    Leads T (t :: us) (Walk.advance T.tokens) t [] us := by
  refine assume fun here => looked ?_
  have hkind : t.kind ≠ .endOfText := T.kinds t (here.mem List.mem_cons_self)
  show Leads T (t :: us) (if t.kind = .endOfText then Walk.give t else Walk.pass t) t [] us
  rw [if_neg hkind]
  intro _
  refine ⟨List.suffix_cons t us, fun log moves => ⟨[.pass (T.placeOf (t :: us))], ?_, ?_⟩⟩
  · rw [Tape.placeOf_cons here, List.append_nil]
    rfl
  · rw [Tape.placeOf_cons here]
    exact .pass ⟨t, Tape.tokens_placeOf here, hkind⟩ (.done _)

theorem advance_nil : Leads T [] (Walk.advance T.tokens) T.stop [] [] := by
  refine looked ?_
  show Leads T [] (if T.stop.kind = .endOfText then Walk.give T.stop else Walk.pass T.stop) T.stop [] []
  rw [if_pos T.ends]
  exact give T.stop []

theorem taken {g : Token → Walk β} (hg : Leads T us (g t) b gs vs) :
    Leads T (t :: us) (Walk.advance T.tokens >>= g) b gs vs :=
  (advance_cons t us).quiet hg

variable {k : TokenKind} {y z : Walk β}

theorem eaten (h : ∃ short, Expr.next? k ts = some ⟨us, short⟩) (hy : Leads T us y b gs vs) :
    Leads T ts (Walk.eat T.tokens k >>= fun found => if found then y else z) b gs vs := by
  obtain ⟨short, h⟩ := h
  have heat : Leads T ts (Walk.eat T.tokens k) true [] us := by
    match ts with
    | [] => cases h
    | t :: ts =>
      simp only [Expr.next?] at h
      split at h
      · rename_i hkind
        cases h
        refine looked ?_
        show Leads T (t :: us) (if t.kind = k then _ else _) true [] us
        rw [if_pos hkind]
        exact taken (give true us)
      · cases h
  exact heat.quiet hy

theorem uneaten (h : Expr.next? k ts = none) (hk : k ≠ .endOfText) (hz : Leads T ts z b gs vs) :
    Leads T ts (Walk.eat T.tokens k >>= fun found => if found then y else z) b gs vs := by
  have hkind : (ts.headD T.stop).kind ≠ k := by
    match ts with
    | [] => exact fun heq => hk (heq.symm.trans T.ends)
    | t :: ts =>
      simp only [Expr.next?] at h
      split at h
      · cases h
      · assumption
  have heat : Leads T ts (Walk.eat T.tokens k) false [] ts := by
    refine looked ?_
    show Leads T ts (if (ts.headD T.stop).kind = k then _ else _) false [] ts
    rw [if_neg hkind]
    exact give false ts
  exact heat.quiet hz

end Leads

/-- The step `w` does what the reply `r` says. -/
def Follows (T : Tape) (w : Walk (Verdict α)) (r : Reply α ts) : Prop :=
  Leads T ts w r.verdict r.log r.rest

theorem Follows.map {w : Walk (Verdict α)} {r : Reply α ts} (h : Follows T w r)
    (f : Verdict α → Verdict β) : Follows T (w >>= fun v => Walk.give (f v)) (r.map f) :=
  Leads.map h f

theorem Reply.within_rest_suffix (h : us <:+ ts) (r : Reply α us) : (r.within h).rest <:+ us :=
  r.rest_suffix

end

namespace Expr

open Walk

variable {T : Tape} {ts : List Token}

theorem symbol_ne_end (s : Symbol) : TokenKind.symbol s ≠ .endOfText := fun h => nomatch h

theorem follows_demand {k : TokenKind} (hk : k ≠ .endOfText) (p : Problem) (ts : List Token) :
    Follows T (demand T.tokens k p) (expect T.stop k p ts) := by
  unfold expect
  split
  · rename_i us short heq
    exact Leads.eaten ⟨short, heq⟩ (.give _ us)
  · rename_i heq
    exact Leads.uneaten heq hk (.looked (.complain _ p ts))

/-! ## Leaves -/

theorem follows_walkVariable (ts : List Token) :
    Follows T (walkVariable T.tokens) (readVariable T.stop ts) := by
  match ts with
  | [] =>
    refine Leads.advance_nil.quiet ?_
    rw [T.ends]
    exact .complain _ _ []
  | ⟨kind, literal, offset⟩ :: us =>
    refine Leads.taken ?_
    cases kind with
    | ident => exact .give _ us
    | number =>
      dsimp only [readVariable]
      cases Literal.argument? literal.toList with
      | some n => exact .give _ us
      | none => exact .complain _ _ us
    | _ => exact .complain _ _ us

theorem follows_walkMember (base : Verdict Expr) (ts : List Token) :
    Follows T (walkMember T.tokens base) (readMember T.stop base ts) := by
  unfold readMember
  refine Follows.map (Leads.looked ?_) _
  match ts with
  | [] =>
    have hkind : ([].headD T.stop).kind ≠ .ident := by
      show T.stop.kind ≠ _
      rw [T.ends]
      exact fun h => nomatch h
    rw [if_neg hkind]
    exact .complain T.stop _ []
  | t :: us =>
    by_cases hkind : t.kind = .ident
    · simp only [List.headD_cons, hkind, if_true]
      exact .taken (.give _ us)
    · simp only [List.headD_cons, hkind, if_false]
      exact .complain t _ (t :: us)

theorem follows_walkNumber (t : Token) (us : List Token) :
    Follows T (walkNumber t) (readNumber t us) := by
  unfold walkNumber readNumber
  cases Literal.number t.literal.toList with
  | ok e => exact .give _ us
  | error fault => exact .complain t _ us

theorem follows_walkChar (t : Token) (us : List Token) : Follows T (walkChar t) (readChar t us) := by
  unfold walkChar readChar
  cases Literal.char? t.literal.toList with
  | some c => exact .give _ us
  | none => exact .complain t _ us

/-! ## Expressions -/

/-- An operand passes over the token that it starts with. -/
theorem readOperand_rest (stop t : Token) (us : List Token) :
    (readOperand stop (t :: us)).rest <:+ us := by
  have hprimary : (readPrimary stop (t :: us)).rest <:+ us := by
    rw [readPrimary]
    exact Reply.within_rest_suffix _ _
  rw [readOperand]
  split
  · exact hprimary
  · exact Reply.within_rest_suffix _ _

theorem readExpr_rest (stop t : Token) (min : Nat) (us : List Token) :
    (readExpr stop min (t :: us)).rest <:+ us := by
  rw [readExpr]
  exact (readJoined _ _ _ _ _).rest_suffix.trans (readOperand_rest stop t us)

-- The recursion is on the depth.  Each bound on it is the measure of the reader for the tokens that are
-- left, so that a call that passes over a token leaves eight more for those in it.
mutual

theorem follows_walkExpr {n : Nat} (min : Nat) {ts : List Token} (hn : 8 * ts.length + 2 < n) :
    Follows T (walkExpr T.tokens n min) (readExpr T.stop min ts) := by
  match n, hn with
  | n + 1, hn =>
    have hle := (readOperand T.stop ts).rest_length_le
    have hhead : Follows T (walkOperand T.tokens n) (readOperand T.stop ts) :=
      follows_walkOperand (by omega)
    rw [readExpr]
    exact hhead.bind (follows_walkJoined min false _ (by omega))
termination_by n

theorem follows_walkJoined {n : Nat} (min : Nat) (chained : Bool) (lhs : Verdict Expr)
    {ts : List Token} (hn : 8 * ts.length + 1 < n) :
    Follows T (walkJoined T.tokens n min chained lhs) (readJoined T.stop min chained lhs ts) := by
  match n, hn with
  | n + 1, hn =>
    refine Leads.assume fun here => .looked ?_
    match ts with
    | [] =>
      rw [readJoined, List.headD_nil, T.ends]
      exact .give lhs []
    | t :: us =>
      rw [readJoined, List.headD_cons]
      cases Joiner.ofKind? t.kind with
      | none => exact .give lhs (t :: us)
      | some j =>
        dsimp only
        by_cases hmin : j.strength < min
        · rw [if_pos hmin, if_pos hmin]
          exact .give lhs (t :: us)
        · rw [if_neg hmin, if_neg hmin]
          rw [List.length_cons] at hn
          have hle := (readAfter T.stop j chained lhs us).rest_length_le
          have hstep : Follows T (walkAfter T.tokens n j chained lhs)
              (readAfter T.stop j chained lhs us) := follows_walkAfter j chained lhs (by omega)
          refine .placed (.taken (hstep.bind (.placed (.noted rfl rfl ?_ ?_))))
          · exact Tape.placeOf_lt_placeOf here (Nat.lt_succ_of_le hle)
          · exact follows_walkJoined min j.isCompare _ (by omega)
termination_by n

theorem follows_walkAfter {n : Nat} (j : Joiner) (chained : Bool) (lhs : Verdict Expr)
    {ts : List Token} (hn : 8 * ts.length + 6 < n) :
    Follows T (walkAfter T.tokens n j chained lhs) (readAfter T.stop j chained lhs ts) := by
  match n, hn with
  | n + 1, hn =>
    have hexpr : ∀ min, Follows T (walkExpr T.tokens n min) (readExpr T.stop min ts) :=
      fun min => follows_walkExpr min (by omega)
    cases j with
    | member =>
      rw [readAfter]
      exact follows_walkMember lhs ts
    | call =>
      have hargs : Follows T (walkItems T.tokens n (.symbol .rightParen) .noArgumentMark)
          (readItems T.stop (.symbol .rightParen) .noArgumentMark ts) :=
        follows_walkItems (symbol_ne_end _) _ (by omega)
      rw [readAfter]
      exact hargs.map _
    | bracket =>
      rw [readAfter]
      exact follows_walkBracket lhs (by omega)
    | binary op | compare op | assign op =>
      rw [readAfter]
      exact (hexpr _).map _
    | ternary =>
      rw [readAfter]
      exact follows_walkTernary lhs (by omega)
termination_by n

theorem follows_walkOperand {n : Nat} {ts : List Token} (hn : 8 * ts.length + 1 < n) :
    Follows T (walkOperand T.tokens n) (readOperand T.stop ts) := by
  match n, hn with
  | n + 1, hn =>
    refine Leads.looked ?_
    match ts with
    | [] =>
      rw [readOperand, List.headD_nil, T.ends]
      exact follows_walkPrimary (by omega)
    | t :: us =>
      rw [readOperand, List.headD_cons]
      cases unaryOf? t.kind with
      | none => exact follows_walkPrimary (by omega)
      | some op =>
        rw [List.length_cons] at hn
        have hoperand : Follows T (walkExpr T.tokens n Joiner.bracketStrength)
            (readExpr T.stop Joiner.bracketStrength us) := follows_walkExpr _ (by omega)
        exact .taken (hoperand.map _)
termination_by n

theorem follows_walkPrimary {n : Nat} {ts : List Token} (hn : 8 * ts.length < n) :
    Follows T (walkPrimary T.tokens n) (readPrimary T.stop ts) := by
  match n, hn with
  | n + 1, hn =>
    match ts with
    | [] =>
      refine Leads.advance_nil.quiet ?_
      rw [readPrimary, T.ends]
      exact .complain _ _ []
    | ⟨kind, literal, offset⟩ :: us =>
      rw [List.length_cons] at hn
      rw [readPrimary]
      refine Leads.assume fun here => .taken ?_
      cases kind with
      | number => exact follows_walkNumber _ us
      | char => exact follows_walkChar _ us
      | string | bool | ident => exact .give _ us
      | endOfText => exact absurd rfl (T.kinds _ (here.mem List.mem_cons_self))
      | keyword | invalid cause => exact .complain _ _ us
      | symbol s =>
        cases s with
        | dollar => exact follows_walkVariable us
        | leftParen =>
          have hinner : Follows T (walkExpr T.tokens n 0) (readExpr T.stop 0 us) :=
            follows_walkExpr 0 (by omega)
          exact hinner.bind ((follows_demand (symbol_ne_end _) .noRightParen _).map _)
        | leftSquare =>
          have hitems : Follows T (walkItems T.tokens n (.symbol .rightSquare) .noListMark)
              (readItems T.stop (.symbol .rightSquare) .noListMark us) :=
            follows_walkItems (symbol_ne_end _) _ (by omega)
          exact hitems.map _
        | _ => exact .complain _ _ us
termination_by n

theorem follows_walkItems {n : Nat} {close : TokenKind} (hclose : close ≠ .endOfText) (p : Problem)
    {ts : List Token} (hn : 8 * ts.length + 5 < n) :
    Follows T (walkItems T.tokens n close p) (readItems T.stop close p ts) := by
  match n, hn with
  | n + 1, hn =>
    rw [readItems]
    split
    · rename_i us short heq
      exact Leads.eaten ⟨short, heq⟩ (.give _ us)
    · rename_i heq
      exact Leads.uneaten heq hclose (follows_walkItemsOn hclose p (by omega))
termination_by n

theorem follows_walkItemsOn {n : Nat} {close : TokenKind} (hclose : close ≠ .endOfText) (p : Problem)
    {ts : List Token} (hn : 8 * ts.length + 4 < n) :
    Follows T (walkItemsOn T.tokens n close p) (readItemsOn T.stop close p ts) := by
  match n, hn with
  | n + 1, hn =>
    refine Leads.assume fun here => .placed ?_
    have hitem : Follows T (walkExpr T.tokens n 0) (readExpr T.stop 0 ts) :=
      follows_walkExpr 0 (by omega)
    have hle := (readExpr T.stop 0 ts).rest_length_le
    rw [readItemsOn]
    dsimp only
    split
    · rename_i us short heq
      have hshort : us.length < ts.length := Nat.lt_of_lt_of_le short.2 hle
      split
      · rename_i vs short' heq'
        refine hitem.bind (.eaten ⟨short, heq⟩ (.eaten ⟨short', heq'⟩ ?_))
        refine .placed (.noted rfl rfl (.inl ?_) (.give _ vs))
        exact Tape.placeOf_lt_placeOf here (Nat.lt_trans short'.2 hshort)
      · rename_i heq'
        refine hitem.bind (.eaten ⟨short, heq⟩ (.uneaten heq' hclose ?_))
        refine .placed (.noted rfl rfl (.inl (Tape.placeOf_lt_placeOf here hshort)) ?_)
        exact (follows_walkItemsOn hclose p (by omega)).map _
    · rename_i heq
      refine hitem.bind (.uneaten heq (symbol_ne_end _) ?_)
      refine (follows_demand hclose p _).last (.placed (.noted rfl rfl ?_ (.give _ _)))
      have hrest := (expect T.stop close p (readExpr T.stop 0 ts).rest).rest_length_le
      -- the loop ends here; an item passes over nothing only if nothing is left
      match ts with
      | [] =>
        have hnil : (expect T.stop close p (readExpr T.stop 0 []).rest).rest = [] :=
          List.eq_nil_of_length_eq_zero (Nat.le_zero.mp (Nat.le_trans hrest hle))
        rw [hnil]
        exact .inr ⟨rfl, rfl, T.stop, Tape.tokens_placeOf here, T.ends⟩
      | t :: us =>
        have hshort := (readExpr_rest T.stop t 0 us).length_le
        refine .inl (Tape.placeOf_lt_placeOf here ?_)
        exact Nat.lt_succ_of_le (Nat.le_trans hrest hshort)
termination_by n

theorem follows_walkBracket {n : Nat} (base : Verdict Expr) {ts : List Token}
    (hn : 8 * ts.length + 4 < n) :
    Follows T (walkBracket T.tokens n base) (readBracket T.stop base ts) := by
  match n, hn with
  | n + 1, hn =>
    have hindex : Follows T (walkExpr T.tokens n 0) (readExpr T.stop 0 ts) :=
      follows_walkExpr 0 (by omega)
    have hle := (readExpr T.stop 0 ts).rest_length_le
    rw [readBracket]
    split
    · rename_i us short heq
      have hshort := short.2
      exact Leads.eaten ⟨short, heq⟩ (follows_walkSlice base none (by omega))
    · rename_i heq
      refine Leads.uneaten heq (symbol_ne_end _) ?_
      dsimp only
      split
      · rename_i us short heq'
        have hshort := short.2
        exact hindex.bind (.eaten ⟨short, heq'⟩ (follows_walkSlice base (some _) (by omega)))
      · rename_i heq'
        refine hindex.bind (.uneaten heq' (symbol_ne_end _) ?_)
        exact (follows_demand (symbol_ne_end _) _ _).map _
termination_by n

theorem follows_walkSlice {n : Nat} (base : Verdict Expr) (start : Option (Verdict Expr))
    {ts : List Token} (hn : 8 * ts.length + 3 < n) :
    Follows T (walkSlice T.tokens n base start) (readSlice T.stop base start ts) := by
  match n, hn with
  | n + 1, hn =>
    rw [readSlice]
    split
    · rename_i us short heq
      exact Leads.eaten ⟨short, heq⟩ (.give _ us)
    · rename_i heq
      have hupper : Follows T (walkExpr T.tokens n 0) (readExpr T.stop 0 ts) :=
      follows_walkExpr 0 (by omega)
      refine Leads.uneaten heq (symbol_ne_end _) (hupper.bind ?_)
      exact (follows_demand (symbol_ne_end _) _ _).map _
termination_by n

theorem follows_walkTernary {n : Nat} (cond : Verdict Expr) {ts : List Token}
    (hn : 8 * ts.length + 4 < n) :
    Follows T (walkTernary T.tokens n cond) (readTernary T.stop cond ts) := by
  match n, hn with
  | n + 1, hn =>
    have hyes : Follows T (walkExpr T.tokens n 0) (readExpr T.stop 0 ts) :=
      follows_walkExpr 0 (by omega)
    have hle := (readExpr T.stop 0 ts).rest_length_le
    rw [readTernary]
    dsimp only
    split
    · rename_i us short heq
      have hshort := short.2
      have hno : Follows T (walkExpr T.tokens n Joiner.ternaryStrength)
          (readExpr T.stop Joiner.ternaryStrength us) := follows_walkExpr _ (by omega)
      exact hyes.bind (.eaten ⟨short, heq⟩ (hno.map _))
    · rename_i heq
      refine hyes.bind (.uneaten heq (symbol_ne_end _) (.looked ?_))
      exact (Leads.complain _ _ _).map _
termination_by n

end

/-! ## Whole token lists -/

theorem follows_walkTokens {n : Nat} {ts : List Token} (hn : 8 * ts.length + 2 < n) :
    Follows T (walkTokens T.tokens n) (readWhole T.stop ts) := by
  refine Leads.assume fun here => ?_
  have hwhole : Follows T (walkExpr T.tokens n 0) (readExpr T.stop 0 ts) := follows_walkExpr 0 hn
  unfold readWhole
  generalize readExpr T.stop 0 ts = whole at hwhole ⊢
  obtain ⟨verdict, log, rest, hrest⟩ := whole
  cases verdict with
  | error faults => exact Leads.last hwhole (.give _ rest)
  | ok e =>
    match rest with
    | [] =>
      refine Leads.last hwhole (.looked ?_)
      rw [List.headD_nil, if_pos T.ends]
      exact .give _ []
    | t :: us =>
      have hkind : t.kind ≠ .endOfText :=
        T.kinds t ((hrest.trans here).mem List.mem_cons_self)
      refine Leads.bind hwhole (.looked ?_)
      rw [List.headD_cons, if_neg hkind]
      exact .complain t _ (t :: us)

theorem prefix_closed (length : Nat) (given : List Token) : given <+: closed length given := by
  unfold closed
  split
  · split
    · exact List.prefix_refl given
    · exact List.prefix_append given _
  · rename_i hlast
    rw [List.getLast?_eq_none_iff.mp hlast]
    exact List.nil_prefix

theorem closed_cons {t : Token} (hkind : t.kind ≠ .endOfText) (length : Nat) (ts : List Token) :
    closed length (t :: ts) = t :: closed length ts := by
  unfold closed
  rw [List.getLast?_cons]
  cases hlast : ts.getLast? with
  | none =>
    rw [List.getLast?_eq_none_iff.mp hlast]
    exact if_neg hkind
  | some u =>
    show (if u.kind = .endOfText then _ else _) = t :: if u.kind = .endOfText then _ else _
    split <;> rfl

/-- The tokens, closed with a mark of the end, are those before the first such mark, then that one, and
then what is beyond it. -/
theorem closed_eq (length : Nat) (given : List Token) : ∃ beyond, closed length given =
    (splitEnd length given).1 ++ (splitEnd length given).2 :: beyond := by
  induction given with
  | nil => exact ⟨[], rfl⟩
  | cons t ts ih =>
    by_cases hkind : t.kind = .endOfText
    · obtain ⟨beyond, hbeyond⟩ := prefix_closed length (t :: ts)
      rw [splitEnd, if_pos hkind, ← hbeyond]
      exact ⟨ts ++ beyond, rfl⟩
    · obtain ⟨beyond, hbeyond⟩ := ih
      rw [splitEnd, if_neg hkind, closed_cons hkind, hbeyond]
      exact ⟨beyond, rfl⟩

theorem splitEnd_kinds (length : Nat) (given : List Token) :
    ∀ t ∈ (splitEnd length given).1, t.kind ≠ .endOfText := by
  induction given with
  | nil => exact fun _ ht => nomatch ht
  | cons t ts ih =>
    rw [splitEnd]
    split
    · exact fun _ ht => nomatch ht
    · rename_i hkind
      exact List.forall_mem_cons.mpr ⟨hkind, ih⟩

theorem splitEnd_ends (length : Nat) (given : List Token) :
    (splitEnd length given).2.kind = .endOfText := by
  induction given with
  | nil => rfl
  | cons t ts ih =>
    rw [splitEnd]
    split
    · assumption
    · exact ih

/-- **The reading of expressions stays among its tokens and goes on.**  However the tokens are given, it
never looks for a token where there is none, and it comes to a verdict with calls no deeper than eight
times their number.  It passes over the tokens one by one, never over a mark of the end, and it never
goes back.  Each time that the loop over joiners goes round it has passed over a token, and so has each
round of the loop over items that another follows. -/
theorem walkTokens_stays (length : Nat) (given : List Token) {n : Nat}
    (hn : 8 * (closed length given).length ≤ n) :
    ∃ v c, walkTokens (closed length given) n Cursor.start = .ok (v, c) ∧
      ofTokens length given = v.mapError (fun faults => ⟨faults, c.log.head?⟩) ∧
      c.place < (closed length given).length ∧
      c.moves.filterMap Move.passed? = List.range c.place ∧
      (c.moves.map Move.place).Pairwise (· ≤ ·) ∧
      ∀ m ∈ c.moves, m.place ≤ c.place ∧ m.Keeps (closed length given) := by
  obtain ⟨beyond, hclosed⟩ := closed_eq length given
  let T : Tape := {
    before := (splitEnd length given).1
    stop := (splitEnd length given).2
    beyond := beyond
    kinds := splitEnd_kinds length given
    ends := splitEnd_ends length given }
  have htokens : closed length given = T.tokens := hclosed
  -- the mark of the end counts as well, which leaves the two that `readExpr` needs beyond its tokens
  have hlength : (closed length given).length = T.before.length + beyond.length + 1 := by
    rw [hclosed, List.length_append, List.length_cons, Nat.add_assoc]
  have hstart : T.placeOf T.before = 0 := Nat.sub_self _
  have hfollows : Follows T (walkTokens T.tokens n) (readWhole T.stop T.before) :=
    follows_walkTokens (by omega)
  obtain ⟨-, hrun⟩ := hfollows (List.suffix_refl T.before)
  obtain ⟨moves, hwalk, hcourse⟩ := hrun [] []
  rw [hstart] at hwalk hcourse
  rw [htokens]
  refine ⟨_, _, hwalk, rfl, T.placeOf_lt_length _, hcourse.passed.trans ?_, hcourse.places, ?_⟩
  · exact (List.range_eq_range').symm
  · exact fun m hm => ⟨(hcourse.bounds m hm).2, hcourse.keeps m hm⟩

/-- The tokens of `f(1, 2)` without their last two are those of a call cut off.  The reading passes over
the five of them and stops at the mark of the end that is put after them. -/
theorem cut_call_stays :
    8 * (closed 7 ((Token.ofText "f(1, 2)").take 5)).length ≤ 48 ∧
    ∃ v c, walkTokens (closed 7 ((Token.ofText "f(1, 2)").take 5)) 48 Cursor.start = .ok (v, c) ∧
      c.place < 6 ∧ c.moves.filterMap Move.passed? = List.range c.place := by
  have hlength : (closed 7 ((Token.ofText "f(1, 2)").take 5)).length = 6 := by decide +kernel
  have hdepth : 8 * (closed 7 ((Token.ofText "f(1, 2)").take 5)).length ≤ 48 := by omega
  obtain ⟨v, c, hwalk, -, hplace, hpassed, -⟩ := walkTokens_stays 7 _ hdepth
  rw [hlength] at hplace
  exact ⟨hdepth, v, c, hwalk, hplace, hpassed⟩

end Expr

end Parlance
