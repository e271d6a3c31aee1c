import Parlance.Proofs.Expr.Shapes

/-!
# Printed trees tell expressions apart

* `var_inj`          a variable can be read off its text;
* `tree_inj`         an expression can be read off its tree: its form is `Sexp.shape?` of that, and its parts
                     are those of the tree;
* `displays_apart`   so expressions of texts that are written the same are the same.
-/

namespace Parlance.Expr

open Sexp

/-! ## Words -/

theorem int_inj {i j : Int64} (h : (Integer.display i).toList = (Integer.display j).toList) : i = j := by
  have hread : ∀ i : Int64, Numeral.int64? (Integer.display i).toList = some i := fun i =>
    Numeral.int64?_eq_some_iff.mpr (Numeral.signed_display i)
  have hi := hread i
  rw [h, hread j] at hi
  exact (Option.some.inj hi).symm

/-- A variable can be read off its text. -/
theorem var_inj {ref ref' : VarRef} (h : (var ref).Made) (h' : (var ref').Made)
    (heq : ref.display.toList = ref'.display.toList) : ref = ref' := by
  -- a name does not start with a dollar sign, and what follows one is no digit if it is a name
  have hdollar : ∀ {cs ds}, Lexeme.IsName cs → cs ≠ '$' :: ds := by
    rintro cs ds hname rfl
    exact hname.head_ne rfl rfl
  have hdigits : ∀ {n cs}, Lexeme.IsName cs → Nat.toDigits 10 n ≠ cs := by
    rintro n cs hname rfl
    obtain ⟨c, hc, hstart⟩ := hname.starts
    have hdigit := (Numeral.decimal_toDigits n).2.1 c (List.mem_of_mem_head? hc)
    rw [Lexeme.not_isDigit_of_isWordStart hstart] at hdigit
    cases hdigit
  match ref, ref' with
  | .name _, .name _ => exact congrArg VarRef.name (String.toList_inj.mp heq)
  | .name _, .arg _ =>
    rw [toList_arg] at heq
    exact absurd heq (hdollar h)
  | .name _, .context _ =>
    rw [toList_context] at heq
    exact absurd heq (hdollar h)
  | .arg _, .name _ =>
    rw [toList_arg] at heq
    exact absurd heq.symm (hdollar h')
  | .context _, .name _ =>
    rw [toList_context] at heq
    exact absurd heq.symm (hdollar h')
  | .arg _, .arg _ =>
    rw [toList_arg, toList_arg] at heq
    exact congrArg VarRef.arg (Radix.toDigits_inj (r := .decimal) (List.cons.inj heq).2)
  | .arg _, .context _ =>
    rw [toList_arg, toList_context] at heq
    exact absurd (List.cons.inj heq).2 (hdigits h')
  | .context _, .arg _ =>
    rw [toList_arg, toList_context] at heq
    exact absurd (List.cons.inj heq).2.symm (hdigits h)
  | .context _, .context _ =>
    rw [toList_context, toList_context] at heq
    exact congrArg VarRef.context (String.toList_inj.mp (List.cons.inj heq).2)

/-! ## Trees -/

theorem shape_of_tree {e₁ e₂ : Expr} (h₁ : e₁.Forall Clear) (h₂ : e₂.Forall Clear)
    (h : e₁.tree = e₂.tree) : e₁.shape = e₂.shape := by
  have hshape := shape?_tree h₁
  rw [h, shape?_tree h₂] at hshape
  exact (Option.some.inj hshape).symm

theorem form_inj {mark mark' : String} {ps qs : List Sexp} (h : form mark ps = form mark' qs) :
    ps = qs :=
  (List.cons.inj (Sexp.group.inj h).2).2

theorem symbol_inj {op op' : CompareOp} (h : op.symbol.toList = op'.symbol.toList) : op = op' := by
  cases op <;> cases op' <;> first | rfl | exact absurd h (by decide)

/-- Only the variable `_` looks like a bound left out. -/
theorem eq_blank {e : Expr} (h : e.Forall Clear) (heq : e.tree = .word ['_']) :
    e = var (.name "_") := by
  have hname : Lexeme.IsName ['_'] := ⟨⟨'_', rfl, rfl⟩, List.forall_mem_singleton.mpr rfl, by decide⟩
  have hblank : (var (.name "_")).Forall Clear := ⟨hname, trivial⟩
  have hshape := shape_of_tree h hblank heq
  cases e with
  | var ref => rw [var_inj h.1 hblank.1 (Sexp.word.inj heq)]
  | _ => cases hshape

mutual

/-- **An expression can be read off its tree.** -/
theorem tree_inj {e₁ e₂ : Expr} (h₁ : e₁.Forall Clear) (h₂ : e₂.Forall Clear)
    (h : e₁.tree = e₂.tree) : e₁ = e₂ := by
  -- the forms are the same, so that only the case of the same form is left each time
  have hshape := shape_of_tree h₁ h₂ h
  match e₁ with
  | int i =>
    cases e₂ with
    | int j => rw [int_inj (Sexp.word.inj h)]
    | _ => cases hshape
  | dbl d =>
    cases e₂ with
    | dbl d' => rw [Double.exactText_inj h₁ h₂ (Sexp.word.inj h)]
    | _ => cases hshape
  | bool b =>
    cases e₂ with
    | bool b' => cases b <;> cases b' <;> first | rfl | cases h
    | _ => cases hshape
  | char c =>
    cases e₂ with
    | char c' => rw [Text.quotedChar_inj (Sexp.word.inj h)]
    | _ => cases hshape
  | str s =>
    cases e₂ with
    | str s' => rw [String.toList_inj.mp (Text.quotedString_inj (Sexp.word.inj h))]
    | _ => cases hshape
  | list items =>
    cases e₂ with
    | list items' => rw [trees_inj h₁.2 h₂.2 (Sexp.group.inj h).2]
    | _ => cases hshape
  | var ref =>
    cases e₂ with
    | var ref' => rw [var_inj h₁.1 h₂.1 (Sexp.word.inj h)]
    | _ => cases hshape
  | unary op operand =>
    cases e₂ with
    | unary op' operand' =>
      cases hshape
      rw [tree, tree] at h
      obtain ⟨hoperand, -⟩ := List.cons.inj (form_inj h)
      rw [tree_inj h₁.2 h₂.2 hoperand]
    | _ => cases hshape
  | binary op lhs rhs =>
    cases e₂ with
    | binary op' lhs' rhs' =>
      cases hshape
      rw [tree, tree] at h
      obtain ⟨hlhs, hothers⟩ := List.cons.inj (form_inj h)
      obtain ⟨hrhs, -⟩ := List.cons.inj hothers
      rw [tree_inj h₁.2.1 h₂.2.1 hlhs, tree_inj h₁.2.2 h₂.2.2 hrhs]
    | _ => cases hshape
  | assign op place value =>
    cases e₂ with
    | assign op' place' value' =>
      cases hshape
      rw [tree, tree] at h
      obtain ⟨hplace, hothers⟩ := List.cons.inj (form_inj h)
      obtain ⟨hvalue, -⟩ := List.cons.inj hothers
      rw [tree_inj h₁.2.1 h₂.2.1 hplace, tree_inj h₁.2.2 h₂.2.2 hvalue]
    | _ => cases hshape
  | ternary cond yes no =>
    cases e₂ with
    | ternary cond' yes' no' =>
      rw [tree, tree] at h
      obtain ⟨hcond, hothers⟩ := List.cons.inj (form_inj h)
      obtain ⟨hyes, hothers⟩ := List.cons.inj hothers
      obtain ⟨hno, -⟩ := List.cons.inj hothers
      rw [tree_inj h₁.2.1 h₂.2.1 hcond, tree_inj h₁.2.2.1 h₂.2.2.1 hyes,
        tree_inj h₁.2.2.2 h₂.2.2.2 hno]
    | _ => cases hshape
  | comparison operands ops =>
    cases e₂ with
    | comparison operands' ops' =>
      obtain ⟨rfl, rfl⟩ := chain_inj h₁.2 h₂.2 h₁.1.1.2 h₂.1.1.2 h
      rfl
    | _ => cases hshape
  | call callee args =>
    cases e₂ with
    | call callee' args' =>
      rw [tree, tree] at h
      obtain ⟨hcallee, hargs⟩ := List.cons.inj (form_inj h)
      rw [tree_inj h₁.2.1 h₂.2.1 hcallee, trees_inj h₁.2.2 h₂.2.2 hargs]
    | _ => cases hshape
  | subscript base index =>
    cases e₂ with
    | subscript base' index' =>
      rw [tree, tree] at h
      obtain ⟨hbase, hothers⟩ := List.cons.inj (form_inj h)
      obtain ⟨hindex, -⟩ := List.cons.inj hothers
      rw [tree_inj h₁.2.1 h₂.2.1 hbase, tree_inj h₁.2.2 h₂.2.2 hindex]
    | _ => cases hshape
  | slice base start stop =>
    cases e₂ with
    | slice base' start' stop' =>
      rw [tree, tree] at h
      obtain ⟨hbase, hothers⟩ := List.cons.inj (form_inj h)
      obtain ⟨hstart, hothers⟩ := List.cons.inj hothers
      obtain ⟨hstop, -⟩ := List.cons.inj hothers
      rw [tree_inj h₁.2.1 h₂.2.1 hbase,
        bound_inj h₁.2.2.1 h₂.2.2.1 h₁.1.2.1 h₂.1.2.1 hstart,
        bound_inj h₁.2.2.2 h₂.2.2.2 h₁.1.2.2 h₂.1.2.2 hstop]
    | _ => cases hshape
  | member base name =>
    cases e₂ with
    | member base' name' =>
      rw [tree, tree] at h
      obtain ⟨hbase, hothers⟩ := List.cons.inj (form_inj h)
      obtain ⟨hname, -⟩ := List.cons.inj hothers
      rw [tree_inj h₁.2 h₂.2 hbase, String.toList_inj.mp (Sexp.word.inj hname)]
    | _ => cases hshape
termination_by structural e₁

theorem trees_inj {es fs : List Expr} (h₁ : ForallItems Clear es) (h₂ : ForallItems Clear fs)
    (h : trees es = trees fs) : es = fs := by
  match es, fs with
  | [], [] => rfl
  | [], _ :: _ | _ :: _, [] => cases h
  | e :: es, f :: fs =>
    obtain ⟨hhead, htail⟩ := List.cons.inj h
    rw [tree_inj h₁.1 h₂.1 hhead, trees_inj h₁.2 h₂.2 htail]
termination_by structural es

theorem chain_inj {es fs : List Expr} {ops ops' : List CompareOp} (h₁ : ForallItems Clear es)
    (h₂ : ForallItems Clear fs) (hes : es.length = ops.length + 1) (hfs : fs.length = ops'.length + 1)
    (h : (comparison es ops).tree = (comparison fs ops').tree) : es = fs ∧ ops = ops' := by
  match es, fs with
  | e :: es, f :: fs =>
    obtain ⟨hhead, htail⟩ := List.cons.inj (Sexp.group.inj h).2
    obtain ⟨rfl, rfl⟩ := chainTrees_inj h₁.2 h₂.2 (Nat.succ.inj hes) (Nat.succ.inj hfs) htail
    rw [tree_inj h₁.1 h₂.1 hhead]
    exact ⟨rfl, rfl⟩
termination_by structural es

theorem chainTrees_inj {es fs : List Expr} {ops ops' : List CompareOp} (h₁ : ForallItems Clear es)
    (h₂ : ForallItems Clear fs) (hes : es.length = ops.length) (hfs : fs.length = ops'.length)
    (h : chainTrees es ops = chainTrees fs ops') : es = fs ∧ ops = ops' := by
  match es, fs, ops, ops' with
  | [], [], [], [] => exact ⟨rfl, rfl⟩
  | [], _ :: _, _, _ | _ :: _, [], _, _ => cases h
  | e :: es, f :: fs, op :: ops, op' :: ops' =>
    obtain ⟨hop, hothers⟩ := List.cons.inj h
    obtain ⟨hhead, htail⟩ := List.cons.inj hothers
    obtain ⟨rfl, rfl⟩ := chainTrees_inj h₁.2 h₂.2 (Nat.succ.inj hes) (Nat.succ.inj hfs) htail
    rw [symbol_inj (Sexp.word.inj hop), tree_inj h₁.1 h₂.1 hhead]
    exact ⟨rfl, rfl⟩
termination_by structural es

theorem bound_inj {o o' : Option Expr} (h₁ : ForallBound Clear o) (h₂ : ForallBound Clear o')
    (ho : o ≠ some (var (.name "_"))) (ho' : o' ≠ some (var (.name "_")))
    (h : boundTree o = boundTree o') : o = o' := by
  match o, o' with
  | none, none => rfl
  | some e, none => exact absurd (congrArg some (eq_blank h₁ h)) ho
  | none, some e => exact absurd (congrArg some (eq_blank h₂ h.symm)) ho'
  | some e, some e' =>
    have heq : e = e' := tree_inj h₁ h₂ h
    rw [heq]
termination_by structural o

end

/-- **Printed trees tell expressions apart.**  If no bound of a slice is the variable `_`, which looks like
a bound left out, and no double is infinite, expressions of texts that are written the same are the same. -/
theorem displays_apart {text₁ text₂ : String} {e₁ e₂ : Expr} (h₁ : Expr.ofText text₁ = .ok e₁)
    (h₂ : Expr.ofText text₂ = .ok e₂) (hplain₁ : e₁.Forall Plain) (hplain₂ : e₂.Forall Plain)
    (h : e₁.display = e₂.display) : e₁ = e₂ := by
  have hclear₁ := (Grammar.made_of_ofText h₁).and hplain₁
  have hclear₂ := (Grammar.made_of_ofText h₂).and hplain₂
  have htext := congrArg String.toList h
  rw [toList_display, toList_display] at htext
  exact tree_inj hclear₁ hclear₂ (text_inj (fit_tree hclear₁) (fit_tree hclear₂) htext)

theorem respaced_slice_same :
    ∃ e₁ e₂, Expr.ofText "_[ 16 : ] < (n < 'b')" = .ok e₁ ∧
      Expr.ofText "(_)[0x10:] < ((n) < 'b')" = .ok e₂ ∧
      e₁.Forall Plain ∧ e₂.Forall Plain ∧ e₁.display = e₂.display ∧ e₁ = e₂ := by
  let e := comparison [slice (var (.name "_")) (some (int 16)) none,
    comparison [var (.name "n"), char 'b'] [.lt]] [.lt]
  have h₁ : Expr.ofText "_[ 16 : ] < (n < 'b')" = .ok e := by with_unfolding_all rfl
  have h₂ : Expr.ofText "(_)[0x10:] < ((n) < 'b')" = .ok e := by with_unfolding_all rfl
  have hbounds : (slice (var (.name "_")) (some (int 16)) none).Plain := ⟨nofun, nofun⟩
  have hplain : e.Forall Plain :=
    ⟨trivial, ⟨hbounds, trivial, trivial, trivial⟩, ⟨trivial, trivial, trivial, trivial⟩, trivial⟩
  exact ⟨e, e, h₁, h₂, hplain, hplain, rfl, displays_apart h₁ h₂ hplain hplain rfl⟩

/-- Without the condition on bounds, two slices can be written the same. -/
example (e : Expr) : (slice e (some (var (.name "_"))) none).display = (slice e none none).display := rfl

end Parlance.Expr
