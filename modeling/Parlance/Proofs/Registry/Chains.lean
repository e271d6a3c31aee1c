import Parlance.Proofs.Registry.Names

/-!
# Chains of aliases

An alias leads on as long as no command has its name.  Such a chain comes to an end or goes round in
a circle, and looking a name up tells which:

* `Registry.Leads n a b`     `n` steps lead from `a` to `b`;
* `Registry.Ends name`       the chain of a name ends;
* `resolve_of_leads`         a chain that ends is followed to its end;
* `ends_iff`                 the chain of a name ends exactly if looking it up finds no circle.

A new alias is for something that stands for a command, so it closes no circle.  One can only come
to light where a command has hidden an alias:

* `Registry.Reopens`         a removal of a command that was in front of an alias for itself;
* `grounded_change_iff`      such a removal, and no other change, makes a circle;
* `resolved_iff_unreopened`  hence no name is caught in a circle all along a history exactly if no
                             removal in it is of that kind.
-/

namespace Parlance.Registry

/-- the name that an alias leads to: none where the name is that of a command -/
def next? (r : Registry) (name : String) : Option String :=
  if r.commands.contains name then none else r.aliases.get? name

/-- `n` steps along aliases lead from one name to another -/
inductive Leads (r : Registry) : Nat → String → String → Prop
  | here (name : String) : Leads r 0 name name
  | step {n : Nat} {name target last : String} (next : r.next? name = some target)
      (others : Leads r n target last) : Leads r (n + 1) name last

/-- aliases lead from the name to one that leads no further -/
def Ends (r : Registry) (name : String) : Prop :=
  ∃ n last, r.Leads n name last ∧ r.next? last = none

/-- no name is caught in a circle -/
def Grounded (r : Registry) : Prop := ∀ name, r.Ends name

section
variable {r : Registry} {n m : Nat} {name current target last other : String}

theorem next?_of_command (h : r.commands.contains name = true) : r.next? name = none := by
  rw [next?, if_pos h]

theorem next?_of_alias (h : r.commands.contains name = false) :
    r.next? name = r.aliases.get? name := by
  rw [next?, h]
  rfl

theorem next?_eq_some_iff : r.next? name = some target ↔
    r.commands.contains name = false ∧ r.aliases.get? name = some target := by
  cases h : r.commands.contains name with
  | true => simp [next?_of_command h]
  | false => simp [next?_of_alias h]

theorem ends_of_next?_none (h : r.next? name = none) : r.Ends name := ⟨0, name, .here name, h⟩

theorem ends_of_next?_some (h : r.next? name = some target) (ht : r.Ends target) :
    r.Ends name := by
  obtain ⟨n, last, hn, hlast⟩ := ht
  exact ⟨n + 1, last, .step h hn, hlast⟩

/-- A name leads to one end, in one number of steps. -/
theorem Leads.unique (h : r.Leads n name last) (hlast : r.next? last = none)
    (h' : r.Leads m name other) (hother : r.next? other = none) : n = m ∧ last = other := by
  induction h generalizing m with
  | here name =>
    cases h' with
    | here => exact ⟨rfl, rfl⟩
    | step next _ =>
      rw [hlast] at next
      cases next
  | step next _ ih =>
    cases h' with
    | here =>
      rw [hother] at next
      cases next
    | step next' others' =>
      rw [next'] at next
      cases next
      obtain ⟨hn, hl⟩ := ih hlast others'
      exact ⟨congrArg (· + 1) hn, hl⟩

/-! ## Looking up along a chain -/

/-- what a name stands for whose chain ends at `last` -/
def found (r : Registry) (name last : String) : Except RegistryError Registered :=
  match r.commands.get? last with
  | some entry => .ok entry
  | none => .error (.notFound name)

/-- The names met so far are further from the end than the current one, so none of them comes again
on a chain that ends. -/
theorem chase_of_leads (h : r.Leads n current last) (hlast : r.next? last = none)
    {met : List String} (hmet : ∀ x ∈ met, ∃ m, n ≤ m ∧ r.Leads m x last) :
    r.chase name current met = r.found name last := by
  induction h generalizing met with
  | here current =>
    rw [chase_eq, found]
    cases hc : r.commands.get? current with
    | some entry => rfl
    | none =>
      have hcommand : r.commands.contains current = false := by simp [Table.contains, hc]
      rw [next?_of_alias hcommand] at hlast
      rw [hlast]
  | @step n current target last next others ih =>
    obtain ⟨hcommand, halias⟩ := next?_eq_some_iff.mp next
    have hnew : ¬met.contains target = true := by
      rw [List.contains_iff_mem]
      intro hmem
      obtain ⟨m, hm, hleads⟩ := hmet target hmem
      have := (others.unique hlast hleads hlast).1
      omega
    rw [chase_eq, Table.get?_eq_none_of_contains hcommand, halias]
    dsimp only
    rw [if_neg hnew]
    refine ih hlast ?_
    intro x hx
    rcases List.mem_cons.mp hx with rfl | hx
    · exact ⟨n, Nat.le_refl n, others⟩
    · obtain ⟨m, hm, hleads⟩ := hmet x hx
      exact ⟨m, by omega, hleads⟩

/-- A chain that ends is followed to its end. -/
theorem resolve_of_leads (h : r.Leads n name last) (hlast : r.next? last = none) :
    r.resolve name = r.found name last :=
  chase_of_leads h hlast fun _ hx => by cases hx

theorem ends_of_chase (r : Registry) (name current : String) (met : List String)
    (h : ∀ a b, r.chase name current met ≠ .error (.circularAlias a b)) : r.Ends current := by
  rw [chase_eq] at h
  cases hc : r.commands.get? current with
  | some entry => exact ends_of_next?_none (next?_of_command (by simp [Table.contains, hc]))
  | none =>
    have hcommand : r.commands.contains current = false := by simp [Table.contains, hc]
    cases ha : r.aliases.get? current with
    | none => exact ends_of_next?_none (by rw [next?_of_alias hcommand, ha])
    | some target =>
      rw [hc, ha] at h
      dsimp only at h
      by_cases hmet : met.contains target = true
      · rw [if_pos hmet] at h
        exact absurd rfl (h current target)
      · rw [if_neg hmet] at h
        have := unmet_lt (mem_targets ha) hmet
        refine ends_of_next?_some (next?_eq_some_iff.mpr ⟨hcommand, ha⟩) ?_
        exact ends_of_chase r name target (target :: met) h
termination_by (r.unmet met).length

theorem ends_iff : r.Ends name ↔
    (∃ entry, r.resolve name = .ok entry) ∨ r.resolve name = .error (.notFound name) := by
  constructor
  · rintro ⟨n, last, hn, hlast⟩
    rw [resolve_of_leads hn hlast, found]
    split
    · exact .inl ⟨_, rfl⟩
    · exact .inr rfl
  · intro h
    refine ends_of_chase r name name [] ?_
    intro a b hab
    rcases h with ⟨entry, h⟩ | h
    · exact absurd (h.symm.trans hab) (by simp)
    · exact absurd (h.symm.trans hab) (by simp)

/-- Of a name that stands for a command the chain ends at the name of a command. -/
theorem leads_of_resolve {entry : Registered} (h : r.resolve name = .ok entry) :
    ∃ n last, r.Leads n name last ∧ r.commands.get? last = some entry := by
  obtain ⟨n, last, hn, hlast⟩ := ends_iff.mpr (.inl ⟨entry, h⟩)
  refine ⟨n, last, hn, ?_⟩
  rw [resolve_of_leads hn hlast, found] at h
  split at h
  · rename_i hentry
    cases h
    exact hentry
  · cases h

theorem Leads.trans (h : r.Leads n name target) (h' : r.Leads m target last) :
    r.Leads (n + m) name last := by
  induction h with
  | here name => rwa [Nat.zero_add]
  | step next _ ih =>
    rw [Nat.add_right_comm]
    exact .step next (ih h')

theorem Leads.ends (h : r.Leads n name target) (ht : r.Ends target) : r.Ends name := by
  obtain ⟨m, last, hm, hlast⟩ := ht
  exact ⟨n + m, last, h.trans hm, hlast⟩

/-- A name that leads back to itself is caught in a circle. -/
theorem Leads.not_ends (h : r.Leads (n + 1) name name) : ¬r.Ends name := by
  rintro ⟨m, last, hm, hlast⟩
  have := (hm.unique hlast (h.trans hm) hlast).1
  omega

end

/-! ## Changes to what leads on -/

section
variable {r r' : Registry} {n : Nat} {name target last : String}

/-- where a registry leads on only as another one does, its chains are pieces of chains of that -/
theorem grounded_of_cut (h : r.Grounded)
    (hcut : ∀ other, r'.next? other = none ∨ r'.next? other = r.next? other) : r'.Grounded := by
  intro other
  obtain ⟨n, last, hn, hlast⟩ := h other
  induction hn with
  | here other =>
    refine ends_of_next?_none ?_
    rcases hcut other with hnone | hsame
    · exact hnone
    · rw [hsame, hlast]
  | @step n other target last next _ ih =>
    rcases hcut other with hnone | hsame
    · exact ends_of_next?_none hnone
    · exact ends_of_next?_some (hsame.trans next) (ih hlast)

theorem grounded_of_stop (h : r.Grounded)
    (hstop : ∀ other, r'.next? other = if name = other then none else r.next? other) :
    r'.Grounded := by
  refine grounded_of_cut h ?_
  intro other
  rw [hstop]
  split
  · exact .inl rfl
  · exact .inr rfl

variable (hname : r.next? name = none)
  (hlink : ∀ other, r'.next? other = if name = other then some target else r.next? other)
include hname hlink

/-- a chain does not pass a name from which nothing led on before -/
theorem Leads.link {other : String} (h : r.Leads n other last) : r'.Leads n other last := by
  induction h with
  | here other => exact .here other
  | @step n other target last next _ ih =>
    have hne : name ≠ other := by
      rintro rfl
      rw [hname] at next
      cases next
    exact .step (by rw [hlink, if_neg hne, next]) ih

/-- A new step makes a circle exactly if its target led to where it starts. -/
theorem grounded_link_iff (h : r.Grounded) : r'.Grounded ↔ ∀ n, ¬r.Leads n target name := by
  have hnext : r'.next? name = some target := by rw [hlink, if_pos rfl]
  constructor
  · intro h' n hn
    exact (Leads.step hnext (hn.link hname hlink)).not_ends (h' name)
  · intro hnot
    have hother {other last : String} {n : Nat} (hn : r.Leads n other last)
        (hlast : r.next? last = none) (hne : name ≠ last) : r'.Ends other :=
      ⟨n, last, hn.link hname hlink, by rw [hlink, if_neg hne, hlast]⟩
    have hends : r'.Ends name := by
      obtain ⟨m, last, hm, hlast⟩ := h target
      refine ends_of_next?_some hnext (hother hm hlast ?_)
      rintro rfl
      exact hnot m hm
    intro other
    obtain ⟨n, last, hn, hlast⟩ := h other
    by_cases hne : name = last
    · subst hne
      exact (hn.link hname hlink).ends hends
    · exact hother hn hlast hne

end

/-! ## One change -/

/-- every command is bound to its own name -/
def Keyed (r : Registry) : Prop :=
  ∀ name entry, r.commands.get? name = some entry → entry.command.name = name

/-- A removal takes away a command in front of an alias for that very command. -/
def Reopens (r : Registry) : Change → Prop
  | .remove name => ∃ entry target, r.commands.get? name = some entry ∧
      r.aliases.get? name = some target ∧ r.resolve target = .ok entry
  | _ => False

section
variable {r : Registry} {name target : String}

theorem keyed_insertCommand (h : r.Keyed) (c : Command) : (r.insertCommand c).2.Keyed := by
  intro name entry hentry
  rw [commands_insertCommand, Table.get?_insert] at hentry
  split at hentry
  · rename_i hname
    cases hentry
    exact hname
  · exact h name entry hentry

theorem keyed_remove (h : r.Keyed) (name : String) : (r.remove name).2.Keyed := by
  intro other entry hentry
  unfold remove at hentry
  split at hentry
  · dsimp only at hentry
    rw [Table.get?_erase] at hentry
    split at hentry
    · cases hentry
    · exact h other entry hentry
  · exact h other entry hentry

theorem keyed_change (h : r.Keyed) (c : Change) : (r.change c).Keyed := by
  cases c with
  | define name body redefine =>
    cases hd : r.define name body redefine with
    | error e =>
      rw [change_define_error hd]
      exact h
    | ok r' =>
      rw [change_define_ok hd]
      rcases define_inv hd with ⟨-, -, rfl⟩ | ⟨-, -, rfl⟩
      · exact keyed_insertCommand h _
      · exact keyed_insertCommand (keyed_remove h name) _
  | addAlias name target =>
    cases ha : r.addAlias name target with
    | error e =>
      rw [change_addAlias_error ha]
      exact h
    | ok r' =>
      obtain ⟨-, -, -, rfl⟩ := addAlias_inv ha
      rw [change_addAlias_ok ha]
      exact h
  | remove name => exact keyed_remove h name

theorem next?_insertCommand (r : Registry) (c : Command) (other : String) :
    (r.insertCommand c).2.next? other = if c.name = other then none else r.next? other := by
  simp only [next?, commands_insertCommand, aliases_insertCommand, Table.contains_insert]
  by_cases h : c.name = other <;> simp [h]

theorem next?_insertAlias (h : r.commands.contains name = false) (other : String) :
    (r.insertAlias name target).next? other =
      if name = other then some target else r.next? other := by
  simp only [next?, insertAlias, Table.get?_insert]
  by_cases hname : name = other
  · subst hname
    simp [h]
  · simp [hname]

theorem next?_remove_command (h : r.commands.contains name = true) (other : String) :
    (r.remove name).2.next? other =
      if name = other then r.aliases.get? name else r.next? other := by
  rw [remove, if_pos h]
  simp only [next?, Table.contains_erase]
  by_cases hname : name = other
  · subst hname
    simp
  · simp [hname]

theorem next?_remove_alias (h : r.commands.contains name = false) (other : String) :
    (r.remove name).2.next? other = if name = other then none else r.next? other := by
  rw [remove, h]
  simp only [next?, Table.get?_erase, Bool.false_eq_true, if_false]
  by_cases hname : name = other
  · subst hname
    simp [h]
  · simp [hname]

theorem grounded_insertCommand (h : r.Grounded) (c : Command) :
    (r.insertCommand c).2.Grounded :=
  grounded_of_stop h (next?_insertCommand r c)

/-- In place of what is removed a command is put, so nothing comes to light. -/
theorem grounded_replace (h : r.Grounded) (c : Command) :
    ((r.remove c.name).2.insertCommand c).2.Grounded := by
  refine grounded_of_cut h ?_
  intro other
  rw [next?_insertCommand]
  split
  · exact .inl rfl
  · rename_i hne
    right
    cases hc : r.commands.contains c.name with
    | true => rw [next?_remove_command hc, if_neg hne]
    | false => rw [next?_remove_alias hc, if_neg hne]

theorem grounded_insertAlias (h : r.Grounded) (hc : r.commands.contains name = false)
    (ha : r.aliases.contains name = false) {entry : Registered}
    (ht : r.resolve target = .ok entry) : (r.insertAlias name target).Grounded := by
  have hname : r.next? name = none := by
    rw [next?_of_alias hc, Table.get?_eq_none_of_contains ha]
  rw [grounded_link_iff hname (next?_insertAlias hc) h]
  intro n hn
  obtain ⟨m, last, hm, hlast⟩ := leads_of_resolve ht
  have hcommand : r.commands.contains last = true := by simp [Table.contains, hlast]
  obtain ⟨-, rfl⟩ := hn.unique hname hm (next?_of_command hcommand)
  rw [hc] at hcommand
  cases hcommand

theorem grounded_remove_iff (hk : r.Keyed) (h : r.Grounded) (name : String) :
    (r.remove name).2.Grounded ↔ ¬r.Reopens (.remove name) := by
  cases hentry : r.commands.get? name with
  | none =>
    have hc : r.commands.contains name = false := by simp [Table.contains, hentry]
    refine iff_of_true (grounded_of_stop h (next?_remove_alias hc)) ?_
    rintro ⟨entry, target, hentry', -⟩
    rw [hentry] at hentry'
    cases hentry'
  | some entry =>
    have hc : r.commands.contains name = true := by simp [Table.contains, hentry]
    have hlink := next?_remove_command hc
    cases ha : r.aliases.get? name with
    | none =>
      rw [ha] at hlink
      refine iff_of_true (grounded_of_stop h hlink) ?_
      rintro ⟨entry, target, -, ha', -⟩
      rw [ha] at ha'
      cases ha'
    | some target =>
      -- the hidden alias leads on again; its target led to the name if it stood for the command
      rw [ha] at hlink
      rw [grounded_link_iff (next?_of_command hc) hlink h]
      constructor
      · rintro hnot ⟨entry', target', hentry', ha', hresolve⟩
        rw [ha] at ha'
        cases ha'
        obtain ⟨n, last, hn, hlast⟩ := leads_of_resolve hresolve
        rw [← hk last entry' hlast, hk name entry' hentry'] at hn
        exact hnot n hn
      · intro hnot n hn
        refine hnot ⟨entry, target, hentry, ha, ?_⟩
        rw [resolve_of_leads hn (next?_of_command hc), found, hentry]

end

/-- **One change makes no circle unless it reopens one.** -/
theorem grounded_change_iff {r : Registry} (hk : r.Keyed) (h : r.Grounded) (c : Change) :
    (r.change c).Grounded ↔ ¬r.Reopens c := by
  cases c with
  | define name body redefine =>
    refine iff_of_true ?_ id
    cases hd : r.define name body redefine with
    | error e =>
      rw [change_define_error hd]
      exact h
    | ok r' =>
      rw [change_define_ok hd]
      rcases define_inv hd with ⟨-, -, rfl⟩ | ⟨-, -, rfl⟩
      · exact grounded_insertCommand h _
      · exact grounded_replace h (defined name body)
  | addAlias name target =>
    refine iff_of_true ?_ id
    cases ha : r.addAlias name target with
    | error e =>
      rw [change_addAlias_error ha]
      exact h
    | ok r' =>
      obtain ⟨hcommand, halias, ⟨entry, hentry⟩, rfl⟩ := addAlias_inv ha
      rw [change_addAlias_ok ha]
      exact grounded_insertAlias h hcommand halias hentry
  | remove name => exact grounded_remove_iff hk h name

/-! ## Histories -/

theorem keyed_after (cs : List Change) : (fresh.after cs).Keyed := by
  induction cs using List.reverseRecOn with
  | nil => exact fun _ _ h => by cases h
  | append_singleton cs c ih =>
    rw [after_concat]
    exact keyed_change ih c

theorem grounded_fresh : fresh.Grounded := fun _ => ends_of_next?_none rfl

/-- no removal in the history reopens a circle -/
def Unreopened (cs : List Change) : Prop :=
  ∀ before c rest, cs = before ++ c :: rest → ¬(fresh.after before).Reopens c

theorem grounded_along_iff (cs : List Change) :
    (∀ before rest, cs = before ++ rest → (fresh.after before).Grounded) ↔ Unreopened cs := by
  have hstep {r : Registry} (h : r.Keyed ∧ r.Grounded) (c : Change) :
      ((r.change c).Keyed ∧ (r.change c).Grounded) ↔ ¬r.Reopens c := by
    rw [grounded_change_iff h.1 h.2 c, and_iff_right (keyed_change h.1 c)]
  have halong := along_iff (P := fun r => r.Keyed ∧ r.Grounded) ⟨keyed_after [], grounded_fresh⟩
    hstep cs
  refine Iff.trans ?_ halong
  constructor
  · exact fun h before rest hcs => ⟨keyed_after before, h before rest hcs⟩
  · exact fun h before rest hcs => (h before rest hcs).2

theorem unreopened_of_unshadowed {cs : List Change} (h : Unshadowed cs) : Unreopened cs := by
  intro before c rest hcs
  have hapart := apart_after h hcs
  cases c with
  | remove name =>
    rintro ⟨entry, target, hentry, halias, -⟩
    exact hapart name ⟨by simp [Table.contains, hentry], by simp [Table.contains, halias]⟩
  | define name body redefine => exact id
  | addAlias name target => exact id

/-- **No name is caught in a circle all along a history exactly if no removal reopens one.**  None
does in a history in which no command is bound to the name of an alias. -/
theorem resolved_iff_unreopened (cs : List Change) :
    ((∀ before rest, cs = before ++ rest → ∀ name,
      (∃ entry, (fresh.after before).resolve name = .ok entry) ∨
        (fresh.after before).resolve name = .error (.notFound name)) ↔ Unreopened cs) ∧
    (Unshadowed cs → Unreopened cs) := by
  refine ⟨?_, unreopened_of_unshadowed⟩
  rw [← grounded_along_iff]
  simp only [Grounded, ends_iff]

/-- an alias outlives its target and is hidden by a command, for which the target becomes an alias;
then the command is removed -/
def circling : List Change :=
  [.define "m" "one" false, .addAlias "a" "m", .remove "m", .define "a" "two" false,
    .addAlias "m" "a", .remove "a"]

theorem circling_resolves_to_circle :
    ((fresh.after circling).resolve "a").map (·.command) = .error (.circularAlias "a" "m") := by
  decide +kernel

end Parlance.Registry
