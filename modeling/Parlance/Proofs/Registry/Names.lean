import Parlance.Proofs.Registry.History

/-!
# Names of commands and names of aliases

An alias whose target has been removed stands for nothing, so `Registry.define` takes its name for
a new one; it binds the command and leaves the alias behind it.  This is the only way to come to a
name that is bound twice:

* `Registry.Apart`            no name is bound as a command and as an alias;
* `Registry.Shadows`          a change that binds a command to the name of an alias;
* `apart_change_iff`          such a change, and no other, takes two names that were apart together;
* `apart_iff_unshadowed`      hence the names are apart all along a history without such changes,
                              and a name that has been removed stands for nothing then.
-/

namespace Parlance.Registry

/-- no name is bound as a command and as an alias -/
def Apart (r : Registry) : Prop :=
  ∀ name, ¬(r.commands.contains name = true ∧ r.aliases.contains name = true)

/-- A definition of a new command is accepted although its name is that of an alias. -/
def Shadows (r : Registry) : Change → Prop
  | .define name body false =>
    r.aliases.contains name = true ∧ ∃ r', r.define name body false = .ok r'
  | _ => False

/-- no change of the history binds a command to the name of an alias -/
def Unshadowed (cs : List Change) : Prop :=
  ∀ before c rest, cs = before ++ c :: rest → ¬(fresh.after before).Shadows c

/-! ## One change -/

theorem apart_insertCommand_iff {r : Registry} (h : r.Apart) (c : Command) :
    (r.insertCommand c).2.Apart ↔ r.aliases.contains c.name = false := by
  constructor
  · intro h'
    have := h' c.name
    rw [commands_insertCommand, aliases_insertCommand] at this
    simpa using this
  · intro hc name ⟨h1, h2⟩
    rw [commands_insertCommand, Table.contains_insert, Bool.or_eq_true, decide_eq_true_eq] at h1
    rw [aliases_insertCommand] at h2
    rcases h1 with rfl | h1
    · rw [hc] at h2
      exact absurd h2 (by simp)
    · exact h name ⟨h1, h2⟩

theorem unbound_remove {r : Registry} (h : r.Apart) (name : String) :
    (r.remove name).2.commands.contains name = false ∧
      (r.remove name).2.aliases.contains name = false := by
  unfold remove
  split
  · rename_i hc
    have ha : r.aliases.contains name = false := by
      rw [← Bool.not_eq_true]
      exact fun ha => h name ⟨hc, ha⟩
    exact ⟨by simp, ha⟩
  · rename_i hc
    exact ⟨by simpa using hc, by simp⟩

theorem apart_remove {r : Registry} (h : r.Apart) (name : String) : (r.remove name).2.Apart := by
  intro other ⟨h1, h2⟩
  unfold remove at h1 h2
  split at h1
  · rw [if_pos ‹_›] at h2
    rw [Table.contains_erase, Bool.and_eq_true] at h1
    exact h other ⟨h1.2, h2⟩
  · rw [if_neg ‹_›] at h2
    rw [Table.contains_erase, Bool.and_eq_true] at h2
    exact h other ⟨h1, h2.2⟩

theorem apart_insertAlias {r : Registry} (h : r.Apart) {name target : String}
    (hc : r.commands.contains name = false) : (r.insertAlias name target).Apart := by
  intro other ⟨h1, h2⟩
  have h1 : r.commands.contains other = true := h1
  have h2 : (r.aliases.insert name target).contains other = true := h2
  rw [Table.contains_insert, Bool.or_eq_true, decide_eq_true_eq] at h2
  rcases h2 with rfl | h2
  · rw [hc] at h1
    exact absurd h1 (by simp)
  · exact h other ⟨h1, h2⟩

/-- **One change keeps the names apart unless it shadows an alias.** -/
theorem apart_change_iff {r : Registry} (h : r.Apart) (c : Change) :
    (r.change c).Apart ↔ ¬r.Shadows c := by
  cases c with
  | define name body redefine =>
    cases hd : r.define name body redefine with
    | error e =>
      rw [change_define_error hd]
      refine iff_of_true h ?_
      cases redefine with
      | false =>
        rintro ⟨-, r', hr⟩
        rw [hd] at hr
        cases hr
      | true => exact id
    | ok r' =>
      rw [change_define_ok hd]
      rcases define_inv hd with ⟨rfl, -, rfl⟩ | ⟨rfl, -, rfl⟩
      · rw [apart_insertCommand_iff h]
        simp [Shadows, hd, defined]
      · have ha := (unbound_remove h name).2
        exact iff_of_true ((apart_insertCommand_iff (apart_remove h name) _).mpr ha) id
  | addAlias name target =>
    refine iff_of_true ?_ id
    cases ha : r.addAlias name target with
    | error e =>
      rw [change_addAlias_error ha]
      exact h
    | ok r' =>
      obtain ⟨hc, -, -, rfl⟩ := addAlias_inv ha
      rw [change_addAlias_ok ha]
      exact apart_insertAlias h hc
  | remove name => exact iff_of_true (apart_remove h name) id

/-! ## Histories -/

theorem apart_fresh : fresh.Apart := fun _ ⟨h, _⟩ => by cases h

theorem apart_after {cs : List Change} (h : Unshadowed cs) {before rest : List Change}
    (hcs : cs = before ++ rest) : (fresh.after before).Apart :=
  (along_iff apart_fresh apart_change_iff cs).mpr h before rest hcs

/-- **Names are apart all along a history exactly if it shadows no alias**, and after such a
history a name that can be removed stands for nothing once it is. -/
theorem apart_iff_unshadowed (cs : List Change) :
    ((∀ before rest, cs = before ++ rest → (fresh.after before).Apart) ↔ Unshadowed cs) ∧
      (Unshadowed cs → ∀ name, ((fresh.after cs).remove name).1 = true →
        ((fresh.after cs).remove name).2.resolve name = .error (.notFound name)) := by
  constructor
  · constructor
    · intro h before c rest hcs
      have h1 := h before (c :: rest) hcs
      have h2 := h (before ++ [c]) rest (by rw [hcs, List.append_assoc]; rfl)
      rw [after_concat] at h2
      exact (apart_change_iff h1 c).mp h2
    · intro h before rest hcs
      exact apart_after h hcs
  · intro h name _
    have ha : (fresh.after cs).Apart := apart_after h (List.append_nil cs).symm
    obtain ⟨h1, h2⟩ := unbound_remove ha name
    exact resolve_of_unbound h1 h2

/-- an alias outlives its target and is defined as a command, and the target defined again -/
def shadowing : List Change :=
  [.define "m" "one" false, .addAlias "a" "m", .remove "m", .define "a" "two" false,
    .define "m" "three" false]

/-- the alias is bound twice then, and once it has been removed it stands for the target -/
theorem shadowed_alias_survives_removal :
    ((fresh.after shadowing).commands.contains "a" = true ∧
      (fresh.after shadowing).aliases.contains "a" = true) ∧
    ((fresh.after shadowing).remove "a").1 = true ∧
    (((fresh.after shadowing).remove "a").2.resolve "a").toOption.map (·.command.name) =
      some "m" := by
  decide +kernel

end Parlance.Registry
