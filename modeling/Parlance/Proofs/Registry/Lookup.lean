import Parlance.Proofs.Registry.Chains

/-!
# What looking a name up answers

The chain of a name is the name, its alias, the alias of that, and so on, also past commands:

* `Registry.trail name n`      the name that `n` aliases lead to;
* `Registry.Commandless name`  no name on the chain is that of a command;
* `leads_iff`                  the chain up to its first command is what looking up follows;
* `revisits_of_chase`          a circle is reported only where the chain comes to a name again: the
                               targets met so far, of which the first name is none, are on the chain;
* `chaseFor_eq`                one round more than there are aliases is enough;
* `resolve_classified`         so the chain alone says what is answered.
-/

namespace Parlance.Registry

/-- the name that `n` aliases lead to, one after another, whether there are commands of these names or
not -/
def trail (r : Registry) : String → Nat → Option String
  | name, 0 => some name
  | name, n + 1 => (r.aliases.get? name).bind fun target => r.trail target n

/-- no name on the chain is that of a command -/
def Commandless (r : Registry) (name : String) : Prop :=
  ∀ n x, r.trail name n = some x → r.commands.get? x = none

/-- `chase` with a number of rounds to go, one for each name; nothing if they are too few -/
def chaseFor (r : Registry) (name : String) :
    Nat → String → List String → Option (Except RegistryError Registered)
  | 0, _, _ => none
  | rounds + 1, current, met =>
    match r.commands.get? current, r.aliases.get? current with
    | some entry, _ => some (.ok entry)
    | none, none => some (.error (.notFound name))
    | none, some target =>
      if met.contains target then some (.error (.circularAlias current target))
      else r.chaseFor name rounds target (target :: met)

section
variable {r : Registry} {n m : Nat} {name current target last x : String} {entry : Registered}

theorem next?_eq_some_iff_get? : r.next? name = some target ↔
    r.commands.get? name = none ∧ r.aliases.get? name = some target := by
  have hcontains : r.commands.contains name = false ↔ r.commands.get? name = none := by
    simp [Table.contains]
  rw [next?_eq_some_iff, hcontains]

theorem next?_of_get? (h : r.commands.get? name = some entry) : r.next? name = none :=
  next?_of_command (by simp [Table.contains, h])

theorem trail_succ_of_alias (h : r.aliases.get? name = some target) (n : Nat) :
    r.trail name (n + 1) = r.trail target n := by
  rw [trail, h]
  rfl

theorem exists_of_trail_succ (h : r.trail name (n + 1) = some x) :
    ∃ target, r.aliases.get? name = some target ∧ r.trail target n = some x :=
  Option.bind_eq_some_iff.mp h

/-! ## The chain and what looking up follows -/

/-- Steps are taken along the chain as long as it has come to no command. -/
theorem leads_iff : r.Leads n name last ↔ r.trail name n = some last ∧
    ∀ m < n, ∀ y, r.trail name m = some y → r.commands.get? y = none := by
  constructor
  · intro h
    induction h with
    | here name => exact ⟨rfl, fun m hm => absurd hm (Nat.not_lt_zero m)⟩
    | @step n name target last next _ ih =>
      obtain ⟨hcommand, halias⟩ := next?_eq_some_iff_get?.mp next
      rw [trail_succ_of_alias halias]
      refine ⟨ih.1, ?_⟩
      intro m hm y hy
      cases m with
      | zero =>
        cases hy
        exact hcommand
      | succ m =>
        rw [trail_succ_of_alias halias] at hy
        exact ih.2 m (Nat.lt_of_succ_lt_succ hm) y hy
  · rintro ⟨hlast, hbefore⟩
    induction n generalizing name with
    | zero =>
      cases hlast
      exact .here _
    | succ n ih =>
      obtain ⟨target, halias, hlast⟩ := exists_of_trail_succ hlast
      have hcommand := hbefore 0 (Nat.zero_lt_succ n) name rfl
      refine .step (next?_eq_some_iff_get?.mpr ⟨hcommand, halias⟩) (ih hlast ?_)
      intro m hm y hy
      rw [← trail_succ_of_alias halias] at hy
      exact hbefore (m + 1) (Nat.succ_lt_succ hm) y hy

/-- A chain with a command on it has a first one. -/
theorem leads_to_command (hx : r.trail name n = some x) (hentry : r.commands.get? x = some entry) :
    ∃ m y first, r.Leads m name y ∧ r.commands.get? y = some first := by
  induction n generalizing name with
  | zero =>
    cases hx
    exact ⟨0, _, entry, .here _, hentry⟩
  | succ n ih =>
    cases hcommand : r.commands.get? name with
    | some first => exact ⟨0, name, first, .here name, hcommand⟩
    | none =>
      obtain ⟨target, halias, hx⟩ := exists_of_trail_succ hx
      obtain ⟨m, y, first, hm, hfirst⟩ := ih hx
      exact ⟨m + 1, y, first, .step (next?_eq_some_iff_get?.mpr ⟨hcommand, halias⟩) hm, hfirst⟩

theorem commandless_iff : r.Commandless name ↔
    ∀ n x, r.Leads n name x → r.commands.get? x = none := by
  constructor
  · intro h n x hx
    exact h n x (leads_iff.mp hx).1
  · intro h n x hx
    cases hcommand : r.commands.get? x with
    | none => rfl
    | some entry =>
      obtain ⟨m, y, first, hm, hfirst⟩ := leads_to_command hx hcommand
      rw [h m y hm] at hfirst
      cases hfirst

theorem Commandless.leads (h : r.Commandless name) (hx : r.trail name n = some x) :
    r.Leads n name x :=
  leads_iff.mpr ⟨hx, fun m _ => h m⟩

theorem ends_of_trail_none (h : r.trail name n = none) : r.Ends name := by
  induction n generalizing name with
  | zero => cases h
  | succ n ih =>
    cases hnext : r.next? name with
    | none => exact ends_of_next?_none hnext
    | some target =>
      rw [trail_succ_of_alias (next?_eq_some_iff_get?.mp hnext).2] at h
      exact ends_of_next?_some hnext (ih h)

theorem trail_none_of_leads (h : r.Leads n name last) (hlast : r.aliases.get? last = none) :
    r.trail name (n + 1) = none := by
  induction h with
  | here name =>
    rw [trail, hlast]
    rfl
  | step next _ ih =>
    rw [trail_succ_of_alias (next?_eq_some_iff_get?.mp next).2]
    exact ih hlast

/-- Without commands, looking up ends where the chain does. -/
theorem Commandless.ends_iff_trail (h : r.Commandless name) :
    r.Ends name ↔ ∃ n, r.trail name n = none := by
  constructor
  · rintro ⟨n, last, hn, hlast⟩
    have hcommand := commandless_iff.mp h n last hn
    rw [next?_of_alias (by simp [Table.contains, hcommand])] at hlast
    exact ⟨n + 1, trail_none_of_leads hn hlast⟩
  · rintro ⟨n, hn⟩
    exact ends_of_trail_none hn

/-- Looking up ends at a command, so where it does not end there is none. -/
theorem commandless_of_not_ends (h : ¬r.Ends name) : r.Commandless name := by
  rw [commandless_iff]
  intro n x hx
  cases hcommand : r.commands.get? x with
  | none => rfl
  | some entry => exact absurd ⟨n, x, hx, next?_of_get? hcommand⟩ h

/-- of a chain that ends, every piece does -/
theorem Leads.ends_target (h : r.Leads n name target) (he : r.Ends name) : r.Ends target := by
  induction h with
  | here name => exact he
  | step next _ ih =>
    obtain ⟨m, last, hm, hlast⟩ := he
    cases hm with
    | here =>
      rw [hlast] at next
      cases next
    | step next' others' =>
      rw [next'] at next
      cases next
      exact ih ⟨_, last, others', hlast⟩

/-- A chain that comes to a name again does not end. -/
theorem not_ends_of_revisit (hm : r.Leads m name x) (hn : r.Leads n name x) (hlt : m < n) :
    ¬r.Ends name := by
  intro he
  obtain ⟨k, last, hk, hlast⟩ := hm.ends_target he
  have hsteps := ((hm.trans hk).unique hlast (hn.trans hk) hlast).1
  omega

/-! ## Rounds of looking up -/

theorem chase_cases (r : Registry) (name current : String) (met : List String) :
    (∃ entry, r.chase name current met = .ok entry) ∨
      r.chase name current met = .error (.notFound name) ∨
      ∃ a b, r.chase name current met = .error (.circularAlias a b) := by
  rw [chase_eq]
  cases r.commands.get? current with
  | some entry => exact .inl ⟨entry, rfl⟩
  | none =>
    cases ha : r.aliases.get? current with
    | none => exact .inr (.inl rfl)
    | some target =>
      dsimp only
      by_cases hmet : met.contains target = true
      · rw [if_pos hmet]
        exact .inr (.inr ⟨current, target, rfl⟩)
      · rw [if_neg hmet]
        have := unmet_lt (mem_targets ha) hmet
        exact chase_cases r name target (target :: met)
termination_by (r.unmet met).length

/-- Where a circle is reported, the chain comes to a name again.  The current name and all targets met
so far are on the chain, the targets no further along than the current name. -/
theorem revisits_of_chase {n : Nat} {start name current a b : String} {met : List String}
    (hn : r.Leads n start current)
    (hmet : ∀ x ∈ met, ∃ m ≤ n, r.Leads m start x)
    (h : r.chase name current met = .error (.circularAlias a b)) :
    ∃ i j x, i < j ∧ r.Leads i start x ∧ r.Leads j start x := by
  rw [chase_eq] at h
  cases hcommand : r.commands.get? current with
  | some entry =>
    rw [hcommand] at h
    cases h
  | none =>
    cases ha : r.aliases.get? current with
    | none =>
      rw [hcommand, ha] at h
      cases h
    | some target =>
      rw [hcommand, ha] at h
      dsimp only at h
      have hnext : r.Leads (n + 1) start target :=
        hn.trans (.step (next?_eq_some_iff_get?.mpr ⟨hcommand, ha⟩) (.here target))
      by_cases hcontains : met.contains target = true
      · obtain ⟨m, hm, hleads⟩ := hmet target (List.contains_iff_mem.mp hcontains)
        exact ⟨m, n + 1, target, by omega, hleads, hnext⟩
      · rw [if_neg hcontains] at h
        have := unmet_lt (mem_targets ha) hcontains
        refine revisits_of_chase hnext ?_ h
        intro x hx
        rcases List.mem_cons.mp hx with rfl | hx
        · exact ⟨n + 1, Nat.le_refl _, hnext⟩
        · obtain ⟨m, hm, hleads⟩ := hmet x hx
          exact ⟨m, by omega, hleads⟩
termination_by (r.unmet met).length

/-- Each round but the last one meets a target that was not met before. -/
theorem chaseFor_eq {rounds : Nat} {met : List String} (h : (r.unmet met).length < rounds) :
    r.chaseFor name rounds current met = some (r.chase name current met) := by
  induction rounds generalizing current met with
  | zero => cases h
  | succ rounds ih =>
    rw [chaseFor, chase_eq]
    cases r.commands.get? current with
    | some entry => rfl
    | none =>
      cases ha : r.aliases.get? current with
      | none => rfl
      | some target =>
        dsimp only
        by_cases hmet : met.contains target = true
        · rw [if_pos hmet, if_pos hmet]
        · rw [if_neg hmet, if_neg hmet]
          have hless := unmet_lt (mem_targets ha) hmet
          exact ih (by omega)

end

/-! ## Answers -/

section
variable {r : Registry} {name : String}

theorem resolve_ok_iff {entry : Registered} : r.resolve name = .ok entry ↔
    ∃ n last, r.Leads n name last ∧ r.commands.get? last = some entry := by
  constructor
  · exact leads_of_resolve
  · rintro ⟨n, last, hn, hentry⟩
    rw [resolve_of_leads hn (next?_of_get? hentry), found, hentry]

theorem resolve_notFound_iff : r.resolve name = .error (.notFound name) ↔
    r.Ends name ∧ r.Commandless name := by
  constructor
  · intro h
    refine ⟨ends_iff.mpr (.inr h), commandless_iff.mpr ?_⟩
    intro n x hx
    cases hcommand : r.commands.get? x with
    | none => rfl
    | some entry =>
      rw [resolve_ok_iff.mpr ⟨n, x, hx, hcommand⟩] at h
      cases h
  · rintro ⟨he, hcommandless⟩
    rcases ends_iff.mp he with ⟨entry, h⟩ | h
    · obtain ⟨n, last, hn, hentry⟩ := leads_of_resolve h
      rw [commandless_iff.mp hcommandless n last hn] at hentry
      cases hentry
    · exact h

theorem resolve_circular_iff : (∃ a b, r.resolve name = .error (.circularAlias a b)) ↔
    ¬r.Ends name := by
  rw [ends_iff]
  rcases chase_cases r name name [] with ⟨entry, h⟩ | h | ⟨a, b, h⟩
  · have h : r.resolve name = .ok entry := h
    simp [h]
  · have h : r.resolve name = .error (.notFound name) := h
    simp [h]
  · have h : r.resolve name = .error (.circularAlias a b) := h
    simp [h]

end

/-- **The chain of a name says what looking it up answers**, whatever commands and aliases there are:
the first command on the chain; or that nothing is found, if the chain ends without a command; or a
circle, if it comes to a name again and never to a command.  One of the three is answered, after one
round more than there are aliases at the latest. -/
theorem resolve_classified (r : Registry) (name : String) :
    (∀ entry, r.resolve name = .ok entry ↔
      ∃ n x, r.trail name n = some x ∧ r.commands.get? x = some entry ∧
        ∀ m < n, ∀ y, r.trail name m = some y → r.commands.get? y = none) ∧
    (r.resolve name = .error (.notFound name) ↔
      (∃ n, r.trail name n = none) ∧ r.Commandless name) ∧
    ((∃ a b, r.resolve name = .error (.circularAlias a b)) ↔
      (∃ m n x, m < n ∧ r.trail name m = some x ∧ r.trail name n = some x) ∧ r.Commandless name) ∧
    ((∃ entry, r.resolve name = .ok entry) ∨ r.resolve name = .error (.notFound name) ∨
      ∃ a b, r.resolve name = .error (.circularAlias a b)) ∧
    r.chaseFor name (r.aliases.toList.length + 1) name [] = some (r.resolve name) := by
  refine ⟨?_, ?_, ?_, chase_cases r name name [], ?_⟩
  · intro entry
    rw [resolve_ok_iff]
    constructor
    · rintro ⟨n, x, hn, hentry⟩
      obtain ⟨htrail, hbefore⟩ := leads_iff.mp hn
      exact ⟨n, x, htrail, hentry, hbefore⟩
    · rintro ⟨n, x, htrail, hentry, hbefore⟩
      exact ⟨n, x, leads_iff.mpr ⟨htrail, hbefore⟩, hentry⟩
  · rw [resolve_notFound_iff]
    exact and_congr_left fun hcommandless => hcommandless.ends_iff_trail
  · constructor
    · rintro ⟨a, b, h⟩
      have hcommandless := commandless_of_not_ends (resolve_circular_iff.mp ⟨a, b, h⟩)
      obtain ⟨i, j, x, hlt, hi, hj⟩ :=
        revisits_of_chase (.here name) (fun _ hx => absurd hx List.not_mem_nil) h
      exact ⟨⟨i, j, x, hlt, (leads_iff.mp hi).1, (leads_iff.mp hj).1⟩, hcommandless⟩
    · rintro ⟨⟨m, n, x, hlt, hm, hn⟩, hcommandless⟩
      rw [resolve_circular_iff]
      exact not_ends_of_revisit (hcommandless.leads hm) (hcommandless.leads hn) hlt
  · refine chaseFor_eq ?_
    have hall : (r.unmet []).length ≤ r.targets.length := List.length_filter_le _ _
    have htargets : r.targets.length = r.aliases.toList.length := List.length_map _
    omega

end Parlance.Registry
