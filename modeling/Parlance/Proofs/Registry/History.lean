import Mathlib.Data.List.Induction
import Mathlib.Tactic.ByContra
import Parlance.Registry.Basic

/-!
# Histories of the registry

* `Registry.Change`    one of the checked changes: a definition, an alias or a removal;
* `Registry.change`    the registry after a change, the same as before if that is refused;
* `Registry.after`     the registry after several changes, one after another.

What an accepted change has found and what it does is said once, by `define_inv` and
`addAlias_inv`; the invariants of histories rest on these and not on the definitions.  Which definitions
are accepted is said by `define_ok_iff`.
-/

namespace Parlance.Registry

inductive Change where
  | define (name body : String) (redefine : Bool)
  | addAlias (name target : String)
  | remove (name : String)

/-- the registry after a change; a refused one leaves it as it is -/
def change (r : Registry) : Change → Registry
  | .define name body redefine => (r.define name body redefine).toOption.getD r
  | .addAlias name target => (r.addAlias name target).toOption.getD r
  | .remove name => (r.remove name).2

section
variable {r r' : Registry} {name body target : String} {redefine : Bool} {e : RegistryError}

theorem change_define_ok (h : r.define name body redefine = .ok r') :
    r.change (.define name body redefine) = r' := by
  rw [change, h]
  rfl
theorem change_define_error (h : r.define name body redefine = .error e) :
    r.change (.define name body redefine) = r := by
  rw [change, h]
  rfl
theorem change_addAlias_ok (h : r.addAlias name target = .ok r') :
    r.change (.addAlias name target) = r' := by
  rw [change, h]
  rfl
theorem change_addAlias_error (h : r.addAlias name target = .error e) :
    r.change (.addAlias name target) = r := by
  rw [change, h]
  rfl

end

def after (r : Registry) (cs : List Change) : Registry := cs.foldl change r

theorem after_append (r : Registry) (cs ds : List Change) :
    r.after (cs ++ ds) = (r.after cs).after ds := by
  simp [after, List.foldl_append]
theorem after_concat (r : Registry) (cs : List Change) (c : Change) :
    r.after (cs ++ [c]) = (r.after cs).change c := by
  rw [after_append]
  rfl

/-- Where exactly the bad ones of the changes to a registry with `P` take `P` away, `P` holds all along
a history exactly if no change in it is bad. -/
theorem along_iff {P : Registry → Prop} {Bad : Registry → Change → Prop} (hfresh : P fresh)
    (hchange : ∀ {r}, P r → ∀ c, P (r.change c) ↔ ¬Bad r c) (cs : List Change) :
    (∀ before rest, cs = before ++ rest → P (fresh.after before)) ↔
      ∀ before c rest, cs = before ++ c :: rest → ¬Bad (fresh.after before) c := by
  constructor
  · intro h before c rest hcs
    have h1 := h before (c :: rest) hcs
    have h2 := h (before ++ [c]) rest (by rw [hcs, List.append_assoc]; rfl)
    rw [after_concat] at h2
    exact (hchange h1 c).mp h2
  · intro h before rest hcs
    induction before using List.reverseRecOn generalizing rest with
    | nil => exact hfresh
    | append_singleton before c ih =>
      have hsplit : cs = before ++ c :: rest := by rw [hcs, List.append_assoc]; rfl
      rw [after_concat]
      exact (hchange (ih _ hsplit) c).mpr (h before c rest hsplit)

/-! ## What a name stands for -/

theorem chase_eq (r : Registry) (name current : String) (met : List String) :
    r.chase name current met =
      match r.commands.get? current, r.aliases.get? current with
      | some entry, _ => .ok entry
      | none, none => .error (.notFound name)
      | none, some target =>
        if met.contains target then .error (.circularAlias current target)
        else r.chase name target (target :: met) := by
  rw [chase]
  cases r.commands.get? current with
  | some entry => rfl
  | none =>
    dsimp only
    split
    · rename_i h
      simp only [h]
    · rename_i target h
      simp only [h]
      split <;> rfl

theorem find?_eq_of_map {r : Registry} {name : String} {c : Command} {mask : UInt64}
    (h : (r.find? name).map (fun e => (e.command, e.mask)) = some (c, mask)) :
    r.find? name = some ⟨c, mask⟩ := by
  obtain ⟨found, hfound, heq⟩ := Option.map_eq_some_iff.mp h
  cases heq
  exact hfound

theorem resolve_of_unbound {r : Registry} {name : String} (hc : r.commands.contains name = false)
    (ha : r.aliases.contains name = false) : r.resolve name = .error (.notFound name) := by
  rw [resolve, chase_eq, Table.get?_eq_none_of_contains hc, Table.get?_eq_none_of_contains ha]

/-! ## What an accepted change does -/

/-- the command that a definition binds -/
def defined (name body : String) : Command := ⟨name, .words (Expansion.ofText body)⟩

/-- A definition is accepted for a name that stands for nothing and binds it; a second one is for
a name that stands for something, which is removed before. -/
theorem define_inv {r r' : Registry} {name body : String} {redefine : Bool}
    (h : r.define name body redefine = .ok r') :
    (redefine = false ∧ (r.find? name).isSome = false ∧
      r' = (r.insertCommand (defined name body)).2) ∨
    (redefine = true ∧ (r.find? name).isSome = true ∧
      r' = ((r.remove name).2.insertCommand (defined name body)).2) := by
  simp only [define] at h
  split at h
  · cases h
  split at h
  · cases h
  split at h
  · cases h
  · cases h
  · rename_i hf
    right
    exact ⟨rfl, hf, by cases h; rfl⟩
  · rename_i hf
    left
    exact ⟨rfl, hf, by cases h; rfl⟩

/-- A definition needs a text, a name that is no verb's, and one that stands for something exactly if
this is to be replaced. -/
theorem define_ok_iff {r : Registry} {name body : String} {redefine : Bool} :
    (∃ r', r.define name body redefine = .ok r') ↔
    Text.dropBlanks body.toList ≠ [] ∧ Verb.isName name = false ∧
      (r.find? name).isSome = redefine := by
  unfold define
  dsimp only
  split
  · rename_i hbody
    exact iff_of_false (fun ⟨_, h⟩ => by cases h) fun h => h.1 hbody
  split
  · rename_i hverb
    refine iff_of_false (fun ⟨_, h⟩ => by cases h) fun h => ?_
    rw [h.2.1] at hverb
    cases hverb
  rename_i hbody hverb
  have hverb' : Verb.isName name = false := eq_false_of_ne_true hverb
  cases (r.find? name).isSome <;> cases redefine
  · exact iff_of_true ⟨_, rfl⟩ ⟨hbody, hverb', rfl⟩
  · exact iff_of_false (fun ⟨_, h⟩ => by cases h) fun h => Bool.false_ne_true h.2.2
  · exact iff_of_false (fun ⟨_, h⟩ => by cases h) fun h => Bool.false_ne_true h.2.2.symm
  · exact iff_of_true ⟨_, rfl⟩ ⟨hbody, hverb', rfl⟩

/-- An alias is accepted for a name without a binding. -/
theorem addAlias_inv {r r' : Registry} {name target : String}
    (h : r.addAlias name target = .ok r') :
    r.commands.contains name = false ∧ r.aliases.contains name = false ∧
      (∃ entry, r.resolve target = .ok entry) ∧ r' = r.insertAlias name target := by
  unfold addAlias at h
  split at h
  · cases h
  · rename_i hn
    simp only [Bool.or_eq_true, not_or, Bool.not_eq_true] at hn
    cases hr : r.resolve target with
    | error e => rw [hr] at h; cases h
    | ok entry =>
      rw [hr] at h
      exact ⟨hn.1.2, hn.2, ⟨entry, rfl⟩, by cases h; rfl⟩

theorem commands_insertCommand (r : Registry) (c : Command) :
    (r.insertCommand c).2.commands = r.commands.insert c.name ⟨c, 0⟩ := rfl
theorem aliases_insertCommand (r : Registry) (c : Command) :
    (r.insertCommand c).2.aliases = r.aliases := rfl

end Parlance.Registry
