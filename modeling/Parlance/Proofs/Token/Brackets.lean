import Parlance.Proofs.Token.Layout

/-!
# Brackets among tokens

* `TokenKind.weight k`      1 for an opening bracket, -1 for a closing one, and 0 for all other kinds;
* `Token.nested ts`         the brackets among the tokens close each other, innermost first;
* `Token.tight n depth ts`  outside brackets, each token starts where the one before it stops;
* `awaitedAll?_weight`      one token after another, the weight is the number of brackets that are open;
* `scan_of_mem_listFrom`    a token is the mark of the end, or is what is scanned at some character.

Brackets in the literals of strings and characters are no tokens, and do not count.
-/

namespace Parlance

namespace Symbol

/-- the bracket that closes an opening bracket -/
def closer? : Symbol → Option Symbol
  | leftParen => some rightParen
  | leftSquare => some rightSquare
  | leftBrace => some rightBrace
  | _ => none

def isCloser : Symbol → Bool
  | rightParen | rightSquare | rightBrace => true
  | _ => false

/-- how many more brackets are open after the symbol -/
def weight (s : Symbol) : Int := if s.closer?.isSome then 1 else if s.isCloser then -1 else 0

section
variable {s : Symbol}

theorem weight_of_opening {closer : Symbol} (h : s.closer? = some closer) : s.weight = 1 := by
  rw [weight, h]
  rfl

theorem weight_of_closing (h : s.closer? = none) (hcloses : s.isCloser = true) :
    s.weight = -1 := by
  rw [weight, h, if_pos hcloses]
  rfl

theorem weight_of_other (h : s.closer? = none) (hcloses : ¬s.isCloser = true) : s.weight = 0 := by
  rw [weight, h, if_neg hcloses]
  rfl

end

end Symbol

/-- how many more brackets are open after a token of the kind -/
def TokenKind.weight : TokenKind → Int
  | symbol s => s.weight
  | _ => 0

namespace Token

/-- The brackets that have to come, innermost first, after a token that comes when those in `awaited`
have to.  A bracket that closes another one than the innermost is out of place. -/
def awaited? (awaited : List Symbol) (t : Token) : Option (List Symbol) :=
  match t.kind with
  | .symbol s =>
    match s.closer? with
    | some closer => some (closer :: awaited)
    | none =>
      if s.isCloser then if awaited.head? = some s then some awaited.tail else none
      else some awaited
  | _ => some awaited

/-- The brackets among the tokens close each other, innermost first. -/
def nested (ts : List Token) : Bool := ts.foldlM awaited? [] == some []

/-- Outside brackets, each token starts where the one before it stops.  The token before the first one
stops at byte `n`, where `depth` brackets are open. -/
def tight : Nat → Int → List Token → Bool
  | _, _, [] => true
  | n, depth, t :: ts =>
    (t.start == n || decide (0 < depth)) && tight t.stop (depth + t.kind.weight) ts

/-- how many more brackets are open after the tokens -/
def totalWeight : List Token → Int
  | [] => 0
  | t :: ts => t.kind.weight + totalWeight ts

theorem awaited?_weight {awaited awaited' : List Symbol} {t : Token}
    (h : awaited? awaited t = some awaited') :
    (awaited'.length : Int) = awaited.length + t.kind.weight := by
  unfold awaited? at h
  split at h
  · rename_i s hs
    have hweight : t.kind.weight = s.weight := by rw [hs, TokenKind.weight]
    rw [hweight]
    split at h
    · rename_i closer hcloser
      cases h
      rw [Symbol.weight_of_opening hcloser, List.length_cons]
      omega
    · rename_i hcloser
      split at h
      · rename_i hcloses
        split at h
        · rename_i hhead
          obtain ⟨others, rfl⟩ := List.head?_eq_some_iff.mp hhead
          cases h
          rw [Symbol.weight_of_closing hcloser hcloses, List.tail_cons, List.length_cons]
          omega
        · cases h
      · rename_i hcloses
        cases h
        rw [Symbol.weight_of_other hcloser hcloses, Int.add_zero]
  · rename_i hsymbol
    cases h
    have hweight : t.kind.weight = 0 := by
      unfold TokenKind.weight
      split
      · rename_i s hs
        exact absurd hs (hsymbol s)
      · rfl
    omega

/-- **Brackets that close each other are closed as often as they are opened.** -/
theorem awaitedAll?_weight {awaited awaited' : List Symbol} {ts : List Token}
    (h : ts.foldlM awaited? awaited = some awaited') :
    (awaited'.length : Int) = awaited.length + totalWeight ts := by
  induction ts generalizing awaited with
  | nil =>
    cases h
    exact (Int.add_zero _).symm
  | cons t ts ih =>
    rw [List.foldlM_cons, Option.bind_eq_bind, Option.bind_eq_some_iff] at h
    obtain ⟨between, ht, hts⟩ := h
    rw [ih hts, awaited?_weight ht, totalWeight, Int.add_assoc]

theorem totalWeight_of_nested {ts : List Token} (h : nested ts = true) : totalWeight ts = 0 := by
  have hsum := awaitedAll?_weight (beq_iff_eq.mp h)
  rw [List.length_nil] at hsum
  omega

/-- A token marks the end, or is what is scanned at some character. -/
theorem scan_of_mem_listFrom {t : Token} {offset skip : Nat} {afterDot : Bool} {cs : List Char}
    (h : t ∈ listFrom offset afterDot skip cs) : (∃ n, t = atEnd n) ∨
      ∃ afterDot c cs, t.lexeme = Lexeme.scan afterDot c cs := by
  induction cs generalizing offset skip afterDot with
  | nil => cases skip <;> exact .inl ⟨offset, List.mem_singleton.mp h⟩
  | cons c cs ih =>
    cases skip with
    | succ skip => exact ih h
    | zero =>
      rw [listFrom] at h
      split at h
      · exact ih h
      · rcases List.mem_cons.mp h with rfl | h
        · exact .inr ⟨_, _, _, lexeme_toToken _ _⟩
        · exact ih h

end Token

end Parlance
