import Parlance.Proofs.Registry.Lookup

/-!
# What a change leaves of what names stand for

One change binds one name, and can be seen only by the names whose chain comes to it:

* `Registry.Passes name through`   looking `name` up comes to `through`;
* `Registry.Elsewhere r r' name`   all other names are bound alike in both registries;
* `resolve_of_not_passes`          what is looked up without coming to the name is answered as before;
* `resolve_of_passes`              a command that is bound to it is what all names stand for that come
                                   to it;
* `changes_conservative`           a definition or an alias for a new name changes nothing for names
                                   that stood for a command, and a second definition changes what it
                                   should and nothing else.

A new name need not be unbound: it can be that of an alias that leads nowhere, or round in a circle.
No name stands for a command by way of such a name, so there is nothing to be lost.
-/

namespace Parlance.Registry

/-- Looking `name` up comes to `through`: aliases lead there, and no command stands in the way. -/
def Passes (r : Registry) (name through : String) : Prop := ∃ n, r.Leads n name through

/-- All names but one are bound alike in both registries. -/
structure Elsewhere (r r' : Registry) (name : String) : Prop where
  commands : ∀ other, name ≠ other → r'.commands.get? other = r.commands.get? other
  aliases : ∀ other, name ≠ other → r'.aliases.get? other = r.aliases.get? other

section
variable {r r' : Registry} {name other target last : String} {n : Nat} {entry : Registered}

theorem Elsewhere.next? (h : Elsewhere r r' name) (hne : name ≠ other) :
    r'.next? other = r.next? other := by
  have hcontains : r'.commands.contains other = r.commands.contains other := by
    rw [Table.contains, Table.contains, h.commands other hne]
  rw [Registry.next?, Registry.next?, hcontains, h.aliases other hne]

/-! ## Names that come to the changed one -/

theorem passes_of_elsewhere (h : Elsewhere r r' name) (hp : r.Passes other name) :
    r'.Passes other name := by
  obtain ⟨n, hn⟩ := hp
  induction hn with
  | here name => exact ⟨0, .here name⟩
  | @step n other target name next _ ih =>
    by_cases hne : name = other
    · rw [hne]
      exact ⟨0, .here other⟩
    · obtain ⟨m, hm⟩ := ih h
      exact ⟨m + 1, .step ((h.next? hne).trans next) hm⟩

/-- All names that come to a command stand for it. -/
theorem resolve_of_passes (h : Elsewhere r r' name) (hentry : r'.commands.get? name = some entry)
    (hp : r.Passes other name) : r'.resolve other = .ok entry := by
  obtain ⟨n, hn⟩ := passes_of_elsewhere h hp
  exact resolve_ok_iff.mpr ⟨n, name, hn, hentry⟩

/-- A name stands for the command that every name on its way stands for. -/
theorem resolve_ok_of_passes (hp : r.Passes other name) (h : r.resolve other = .ok entry) :
    r.resolve name = .ok entry := by
  obtain ⟨n, hn⟩ := hp
  have hends : r.Ends other := ends_iff.mpr (.inl ⟨entry, h⟩)
  obtain ⟨m, last, hm, hlast⟩ := hn.ends_target hends
  rw [resolve_of_leads (hn.trans hm) hlast, found] at h
  split at h
  · rename_i first hfirst
    cases h
    exact resolve_ok_iff.mpr ⟨m, last, hm, hfirst⟩
  · cases h

/-! ## Names that do not -/

/-- Looking up goes the same way where all names on the way are bound alike. -/
theorem chase_congr {r r' : Registry} (name current : String) (met : List String)
    (h : ∀ n x, r.Leads n current x →
      r'.commands.get? x = r.commands.get? x ∧ r'.aliases.get? x = r.aliases.get? x) :
    r'.chase name current met = r.chase name current met := by
  obtain ⟨hcommands, haliases⟩ := h 0 current (.here current)
  rw [chase_eq, chase_eq, hcommands, haliases]
  cases hc : r.commands.get? current with
  | some entry => rfl
  | none =>
    cases ha : r.aliases.get? current with
    | none => rfl
    | some target =>
      dsimp only
      by_cases hmet : met.contains target = true
      · rw [if_pos hmet, if_pos hmet]
      · rw [if_neg hmet, if_neg hmet]
        have := unmet_lt (mem_targets ha) hmet
        refine chase_congr name target (target :: met) ?_
        intro n x hx
        exact h (n + 1) x (.step (next?_eq_some_iff_get?.mpr ⟨hc, ha⟩) hx)
termination_by (r.unmet met).length

/-- **What is looked up without coming to the changed name is answered as before.** -/
theorem resolve_of_not_passes (h : Elsewhere r r' name) (hp : ¬r.Passes other name) :
    r'.resolve other = r.resolve other := by
  refine chase_congr other other [] ?_
  intro n x hx
  have hne : name ≠ x := by
    rintro rfl
    exact hp ⟨n, hx⟩
  exact ⟨h.commands x hne, h.aliases x hne⟩

/-- What stood for a command still does, if the changed name stood for none. -/
theorem resolve_kept (h : Elsewhere r r' name) (hnone : ∀ first, r.resolve name ≠ .ok first)
    (hother : r.resolve other = .ok entry) : r'.resolve other = .ok entry := by
  have hp : ¬r.Passes other name := fun hp => hnone entry (resolve_ok_of_passes hp hother)
  rw [resolve_of_not_passes h hp]
  exact hother

/-! ## One change binds one name -/

theorem elsewhere_insertCommand (r : Registry) (c : Command) :
    Elsewhere r (r.insertCommand c).2 c.name := by
  constructor
  · intro other hne
    rw [commands_insertCommand, Table.get?_insert, if_neg hne]
  · exact fun other _ => rfl

theorem elsewhere_remove (r : Registry) (name : String) : Elsewhere r (r.remove name).2 name := by
  unfold remove
  split
  · refine ⟨fun other hne => ?_, fun other _ => rfl⟩
    rw [Table.get?_erase, if_neg hne]
  · refine ⟨fun other _ => rfl, fun other hne => ?_⟩
    rw [Table.get?_erase, if_neg hne]

theorem Elsewhere.trans {r'' : Registry} (h : Elsewhere r r' name) (h' : Elsewhere r' r'' name) :
    Elsewhere r r'' name :=
  ⟨fun other hne => (h'.commands other hne).trans (h.commands other hne),
    fun other hne => (h'.aliases other hne).trans (h.aliases other hne)⟩

theorem elsewhere_insertAlias (r : Registry) (name target : String) :
    Elsewhere r (r.insertAlias name target) name := by
  constructor
  · exact fun other _ => rfl
  · intro other hne
    show (r.aliases.insert name target).get? other = r.aliases.get? other
    rw [Table.get?_insert, if_neg hne]

theorem get?_insertCommand (r : Registry) (c : Command) :
    (r.insertCommand c).2.commands.get? c.name = some ⟨c, 0⟩ := by
  rw [commands_insertCommand, Table.get?_insert, if_pos rfl]

section
variable (hc : r.commands.contains name = false) (ha : r.aliases.contains name = false)
include hc ha

theorem not_ok_of_unbound (first : Registered) : r.resolve name ≠ .ok first := by
  rw [resolve_of_unbound hc ha]
  intro h
  cases h

/-- A new alias stands for what its target stands for. -/
theorem resolve_insertAlias (ht : r.resolve target = .ok entry) :
    (r.insertAlias name target).resolve name = .ok entry := by
  have hkept : (r.insertAlias name target).resolve target = .ok entry :=
    resolve_kept (elsewhere_insertAlias r name target) (not_ok_of_unbound hc ha) ht
  obtain ⟨n, last, hn, hlast⟩ := leads_of_resolve hkept
  have hnext : (r.insertAlias name target).next? name = some target := by
    rw [next?_insertAlias hc, if_pos rfl]
  exact resolve_ok_iff.mpr ⟨n + 1, last, .step hnext hn, hlast⟩

end

end

/-! ## Definitions and aliases -/

/-- **Definitions and aliases are conservative**, whatever commands and aliases there are.  A new
definition is what its name stands for, and an alias stands for the command that its target stands for;
every name that stood for a command before still stands for it.  After a second definition, it is what
all names stand for whose look-up came to the name that is defined, and every other name is answered as
before, be it with a failure. -/
theorem changes_conservative (r r' : Registry) (name : String) :
    (∀ body, r.define name body false = .ok r' →
      r'.resolve name = .ok ⟨⟨name, .words (Expansion.ofText body)⟩, 0⟩ ∧
      ∀ other entry, r.resolve other = .ok entry → r'.resolve other = .ok entry) ∧
    (∀ target, r.addAlias name target = .ok r' →
      (∃ entry, r.resolve target = .ok entry ∧ r'.resolve name = .ok entry) ∧
      ∀ other entry, r.resolve other = .ok entry → r'.resolve other = .ok entry) ∧
    ∀ body, r.define name body true = .ok r' → ∀ other,
      (r.Passes other name →
        r'.resolve other = .ok ⟨⟨name, .words (Expansion.ofText body)⟩, 0⟩) ∧
      (¬r.Passes other name → r'.resolve other = r.resolve other) := by
  refine ⟨?_, ?_, ?_⟩
  · intro body h
    rcases define_inv h with ⟨-, hfree, rfl⟩ | ⟨hredefine, -⟩
    · have helse := elsewhere_insertCommand r (defined name body)
      have hentry := get?_insertCommand r (defined name body)
      have hnone (first : Registered) : r.resolve name ≠ .ok first := by
        intro hfirst
        rw [find?, hfirst] at hfree
        cases hfree
      refine ⟨resolve_of_passes helse hentry ⟨0, .here name⟩, ?_⟩
      exact fun other entry hother => resolve_kept helse hnone hother
    · cases hredefine
  · intro target h
    obtain ⟨hc, ha, ⟨entry, ht⟩, rfl⟩ := addAlias_inv h
    refine ⟨⟨entry, ht, resolve_insertAlias hc ha ht⟩, ?_⟩
    intro other found hother
    exact resolve_kept (elsewhere_insertAlias r name target) (not_ok_of_unbound hc ha) hother
  · intro body h other
    rcases define_inv h with ⟨hredefine, -⟩ | ⟨-, -, rfl⟩
    · cases hredefine
    · have helse := (elsewhere_remove r name).trans
        (elsewhere_insertCommand (r.remove name).2 (defined name body))
      have hentry := get?_insertCommand (r.remove name).2 (defined name body)
      exact ⟨resolve_of_passes helse hentry, resolve_of_not_passes helse⟩

/-- a command behind two aliases, an alias that leads nowhere, and two that lead round -/
def tangled : Registry :=
  let r := (fresh.insertCommand ⟨"greet", .words ["hello"]⟩).2
  ((((r.insertAlias "hi" "greet").insertAlias "yo" "hi").insertAlias "gone" "lost").insertAlias
    "ping" "pong").insertAlias "pong" "ping"

theorem exists_ok_of_isSome {r : Except RegistryError Registry} (h : r.toOption.isSome = true) :
    ∃ r', r = .ok r' := by
  cases r with
  | ok r' => exact ⟨r', rfl⟩
  | error e => cases h

/-- A definition in front of the alias that leads nowhere, another alias, and a definition in place of
one of those in between: the circle is left as it is. -/
theorem tangled_changes :
    (∃ r', tangled.define "gone" "back" false = .ok r' ∧
      r'.resolve "gone" = .ok ⟨⟨"gone", .words (Expansion.ofText "back")⟩, 0⟩ ∧
      r'.resolve "yo" = .ok ⟨⟨"greet", .words ["hello"]⟩, 0⟩) ∧
    (∃ r', tangled.addAlias "hey" "yo" = .ok r' ∧
      r'.resolve "yo" = .ok ⟨⟨"greet", .words ["hello"]⟩, 0⟩) ∧
    ∃ r', tangled.define "hi" "new" true = .ok r' ∧
      r'.resolve "yo" = .ok ⟨⟨"hi", .words (Expansion.ofText "new")⟩, 0⟩ ∧
      r'.resolve "ping" = tangled.resolve "ping" := by
  have hyo : tangled.resolve "yo" = .ok ⟨⟨"greet", .words ["hello"]⟩, 0⟩ :=
    resolve_ok_iff.mpr ⟨2, "greet", .step rfl (.step rfl (.here _)), rfl⟩
  have hping : ¬tangled.Passes "ping" "hi" := by
    rintro ⟨n, hn⟩
    have hnext : ∀ x ∈ ["ping", "pong"], ∃ y ∈ ["ping", "pong"], tangled.next? x = some y := by
      decide +kernel
    have hround {m : Nat} {x y : String} (h : tangled.Leads m x y) (hx : x ∈ ["ping", "pong"]) :
        y ∈ ["ping", "pong"] := by
      induction h with
      | here => exact hx
      | step next _ ih =>
        obtain ⟨y, hy, hstep⟩ := hnext _ hx
        rw [hstep] at next
        cases next
        exact ih hy
    exact absurd (hround hn List.mem_cons_self) (by decide)
  obtain ⟨r₁, h₁⟩ := exists_ok_of_isSome (r := tangled.define "gone" "back" false) (by decide +kernel)
  obtain ⟨r₂, h₂⟩ := exists_ok_of_isSome (r := tangled.addAlias "hey" "yo") (by decide +kernel)
  obtain ⟨r₃, h₃⟩ := exists_ok_of_isSome (r := tangled.define "hi" "new" true) (by decide +kernel)
  obtain ⟨hgone, hkept⟩ := (changes_conservative tangled r₁ "gone").1 "back" h₁
  have hhey := ((changes_conservative tangled r₂ "hey").2.1 "yo" h₂).2 "yo" _ hyo
  have hhi := (changes_conservative tangled r₃ "hi").2.2 "new" h₃
  exact ⟨⟨r₁, h₁, hgone, hkept "yo" _ hyo⟩, ⟨r₂, h₂, hhey⟩, r₃, h₃,
    (hhi "yo").1 ⟨1, .step rfl (.here _)⟩, (hhi "ping").2 hping⟩

end Parlance.Registry
