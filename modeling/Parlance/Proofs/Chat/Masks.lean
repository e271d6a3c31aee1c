import Parlance.Proofs.Chat.Lines
import Parlance.Proofs.Registry.Chains
import Parlance.Proofs.Session.History

/-!
# What changes the mask of a command

A command is found with the mask that its name is bound with.  Apart from `chmod`, a line binds a name
with another mask only by a second definition, which starts without one:

* `entry_change`       what the checked changes do to the binding of a command;
* `keyed_after`        whatever has happened to a session, commands are bound to their own names;
* `Chat.Redefines s level mark line name`   the line is a permitted and accepted `redef` of the name;
* `mask_kept_iff`      a line that is no permitted `chmod` takes the mask from a command exactly if it
                       is such a line;
* `redefinition_unguards`   so a caller who may not change masks lets everyone run a guarded command.
-/

namespace Parlance

namespace Registry

variable {r : Registry} {key name : String} {entry : Registered}

/-- what a name stands for is bound to the name of the command -/
theorem get?_of_find? (hk : r.Keyed) (h : r.find? name = some entry) :
    r.commands.get? entry.command.name = some entry := by
  unfold find? at h
  cases hr : r.resolve name with
  | error e =>
    rw [hr] at h
    cases h
  | ok found =>
    rw [hr] at h
    cases h
    obtain ⟨_, last, -, hlast⟩ := leads_of_resolve hr
    rw [hk last entry hlast]
    exact hlast

theorem find?_of_get? (h : r.commands.get? name = some entry) : r.find? name = some entry := by
  rw [find?, resolve, chase_eq, h]
  rfl

theorem get?_remove_of_ne (hne : key ≠ name) :
    (r.remove name).2.commands.get? key = r.commands.get? key := by
  unfold remove
  split
  · show (r.commands.erase name).get? key = r.commands.get? key
    rw [Table.get?_erase, if_neg (Ne.symm hne)]
  · rfl

theorem get?_remove_cases (h : r.commands.get? key = some entry) (name : String) :
    (r.remove name).2.commands.get? key = some entry ∨
      (r.remove name).2.commands.get? key = none := by
  by_cases hne : key = name
  · subst hne
    right
    have hc : r.commands.contains key = true := by simp [Table.contains, h]
    rw [remove, if_pos hc]
    show (r.commands.erase key).get? key = none
    rw [Table.get?_erase, if_pos rfl]
  · left
    rw [get?_remove_of_ne hne, h]

/-- An accepted definition binds its name without a mask and leaves the other commands. -/
theorem get?_define {r' : Registry} {body : String} {redefine : Bool}
    (h : r.define name body redefine = .ok r') :
    r'.commands.get? key =
      if name = key then some ⟨defined name body, 0⟩ else r.commands.get? key := by
  rcases define_inv h with ⟨-, -, rfl⟩ | ⟨-, -, rfl⟩
  · rw [commands_insertCommand, Table.get?_insert]
    rfl
  · rw [commands_insertCommand, Table.get?_insert]
    show (if name = key then some _ else _) = _
    by_cases hname : name = key
    · rw [if_pos hname, if_pos hname]
    · rw [if_neg hname, if_neg hname, get?_remove_of_ne (Ne.symm hname)]

/-- A change that is no redefinition leaves a command as it is bound, or takes it out. -/
theorem entry_change (h : r.commands.get? key = some entry) {c : Change}
    (hc : ∀ name body, c ≠ .define name body true) :
    (r.change c).commands.get? key = some entry ∨ (r.change c).commands.get? key = none := by
  cases c with
  | define name body redefine =>
    cases hd : r.define name body redefine with
    | error e =>
      rw [change_define_error hd]
      exact .inl h
    | ok r' =>
      rw [change_define_ok hd, get?_define hd]
      left
      have hne : name ≠ key := by
        rintro rfl
        rcases define_inv hd with ⟨-, hunbound, -⟩ | ⟨rfl, -, -⟩
        · rw [find?_of_get? h] at hunbound
          cases hunbound
        · exact hc name body rfl
      rw [if_neg hne, h]
  | addAlias name target =>
    left
    cases ha : r.addAlias name target with
    | error e =>
      rw [change_addAlias_error ha]
      exact h
    | ok r' =>
      obtain ⟨-, -, -, rfl⟩ := addAlias_inv ha
      rw [change_addAlias_ok ha]
      exact h
  | remove name => exact get?_remove_cases h name

theorem keyed_setMask (hk : r.Keyed) (name : String) (mask : UInt64) :
    ((r.setMask? name mask).getD r).Keyed := by
  cases hset : r.setMask? name mask with
  | none => exact hk
  | some r' =>
    obtain ⟨found, -, rfl⟩ := Option.map_eq_some_iff.mp hset
    intro other entry hentry
    have hentry : (r.commands.insert found.command.name ⟨found.command, mask⟩).get? other =
      some entry := hentry
    rw [Table.get?_insert] at hentry
    split at hentry
    · rename_i hname
      cases hentry
      exact hname
    · exact hk other entry hentry

end Registry

namespace Session

theorem registry_addGlobal (s : Session) (name : String) (v : Value) :
    (s.operate (.addGlobal name v)).registry = s.registry := by
  rw [operate]
  cases hadd : s.addGlobal name v with
  | error e => rfl
  | ok s' =>
    obtain ⟨-, rfl⟩ := addGlobal_inv hadd
    rfl

theorem keyed_operate {s : Session} (h : s.registry.Keyed) (o : Operation) :
    (s.operate o).registry.Keyed := by
  cases o with
  | evaluate ctx text =>
    rw [operate, registry_evaluate]
    exact h
  | register c => exact Registry.keyed_change h c
  | insertCommand c => exact Registry.keyed_insertCommand h c
  | setMask name mask => exact Registry.keyed_setMask h name mask
  | addGlobal name v =>
    rw [registry_addGlobal]
    exact h
  | run _ _ | insertAlias _ _ | setGate _ _ => exact h

theorem keyed_step {s : Session} (h : s.registry.Keyed) (e : Event) : (s.step e).registry.Keyed :=
  step_of_operate (P := fun s => s.registry.Keyed) (fun _ o h => keyed_operate h o) h e

/-- whatever has happened, commands are bound to their own names -/
theorem keyed_after (events : List Event) : (fresh.after events).registry.Keyed :=
  after_induction (P := fun s => s.registry.Keyed) (fun _ o h => keyed_operate h o)
    (fun _ _ h => by cases h) events

/-- The operations of a verb that neither redefines nor sets masks leave a command as it is bound, or
take it out. -/
theorem entry_operate {s : Session} {key : String} {entry : Registered}
    (h : s.registry.commands.get? key = some entry) {o : Operation} {verb : Verb}
    (ho : o.verb? = some verb) (hredefine : verb ≠ .redefine) (hchmod : verb ≠ .chmod) :
    (s.operate o).registry.commands.get? key = some entry ∨
      (s.operate o).registry.commands.get? key = none := by
  cases o with
  | evaluate ctx text =>
    rw [operate, registry_evaluate]
    exact .inl h
  | register c =>
    refine Registry.entry_change h ?_
    rintro name body rfl
    cases ho
    exact hredefine rfl
  | addGlobal name v =>
    rw [registry_addGlobal]
    exact .inl h
  | setGate _ _ | setMask _ _ =>
    cases ho
    exact absurd rfl hchmod
  | run _ _ | insertCommand _ | insertAlias _ _ => cases ho

end Session

namespace Chat

/-- The line is a `redef` of the name that is permitted and accepted. -/
def Redefines (s : Session) (level : Level) (mark line name : String) : Prop :=
  ∃ args, Says mark line "redef" args ∧ level.permits (s.registry.gate "redef") = true ∧
    name ≠ "" ∧ (Text.splitWord args).1 = name.toList ∧
    ∃ r, s.registry.define name (String.ofList (Text.splitWord args).2) true = .ok r

variable {s : Session} (ctx : Context) {level : Level} {mark line key : String}
  {entry : Registered}

theorem redefines_iff {args : List Char} (hline : Says mark line "redef" args)
    (hpermits : level.permits (s.registry.gate "redef") = true) :
    Redefines s level mark line key ↔ key ≠ "" ∧ (Text.splitWord args).1 = key.toList ∧
      ∃ r, s.registry.define key (String.ofList (Text.splitWord args).2) true = .ok r := by
  constructor
  · rintro ⟨args', hline', -, h⟩
    rwa [hline.args_eq hline'] at h
  · exact fun h => ⟨args, hline, hpermits, h⟩

theorem handle_redefine {args : List Char} (hline : Says mark line "redef" args)
    (hpermits : level.permits (s.registry.gate "redef") = true) :
    (handle s ctx level mark line).session = (obeyDefine s args true).session := by
  rw [handle_verb s ctx .redefine hline]
  exact congrArg Outcome.session (if_pos hpermits)

/-- After a permitted `redef`, commands are bound as before but for the one that is redefined. -/
theorem entry_redefine {args : List Char} (hline : Says mark line "redef" args)
    (hpermits : level.permits (s.registry.gate "redef") = true) (key : String) :
    (Redefines s level mark line key ∧ ∃ c,
      (handle s ctx level mark line).session.registry.commands.get? key = some ⟨c, 0⟩) ∨
    (¬Redefines s level mark line key ∧
      (handle s ctx level mark line).session.registry.commands.get? key =
        s.registry.commands.get? key) := by
  rw [handle_redefine ctx hline hpermits, redefines_iff hline hpermits, obeyDefine]
  rcases Text.splitWord args with ⟨word, body⟩
  dsimp only
  by_cases hword : word = []
  · right
    rw [if_pos hword]
    refine ⟨?_, rfl⟩
    rintro ⟨hkey, hnil, -⟩
    exact hkey (String.toList_eq_nil_iff.mp (hnil.symm.trans hword))
  rw [if_neg hword]
  obtain ⟨name, rfl⟩ : ∃ name : String, word = name.toList :=
    ⟨String.ofList word, String.toList_ofList.symm⟩
  rw [String.ofList_toList]
  cases hd : s.registry.define name (String.ofList body) true with
  | error e =>
    right
    refine ⟨?_, rfl⟩
    rintro ⟨-, hkey, r, hr⟩
    obtain rfl := String.toList_inj.mp hkey
    rw [hd] at hr
    cases hr
  | ok r =>
    show (_ ∧ ∃ c, r.commands.get? key = some ⟨c, 0⟩) ∨ (_ ∧ r.commands.get? key = _)
    rw [Registry.get?_define hd]
    by_cases hkey : name = key
    · subst hkey
      left
      rw [if_pos rfl]
      refine ⟨⟨?_, rfl, r, hd⟩, _, rfl⟩
      rintro rfl
      exact hword rfl
    · right
      rw [if_neg hkey]
      refine ⟨?_, rfl⟩
      rintro ⟨-, hkey', -⟩
      exact hkey (String.toList_inj.mp hkey')

/-- A line that is no permitted `chmod` leaves a command as it is bound, or takes it out, unless it
redefines it. -/
theorem entry_handle (h : s.registry.commands.get? key = some entry)
    (hchmod : ¬(firstWord? mark line = some "chmod" ∧
      level.permits (s.registry.gate "chmod") = true)) :
    (Redefines s level mark line key ∧ ∃ c,
      (handle s ctx level mark line).session.registry.commands.get? key = some ⟨c, 0⟩) ∨
    (¬Redefines s level mark line key ∧
      ((handle s ctx level mark line).session.registry.commands.get? key = some entry ∨
        (handle s ctx level mark line).session.registry.commands.get? key = none)) := by
  by_cases hredef : ∃ args, Says mark line "redef" args ∧
      level.permits (s.registry.gate "redef") = true
  · obtain ⟨args, hline, hpermits⟩ := hredef
    rcases entry_redefine ctx hline hpermits key with hnew | ⟨hnot, hold⟩
    · exact .inl hnew
    · exact .inr ⟨hnot, .inl (hold.trans h)⟩
  refine .inr ⟨?_, ?_⟩
  · rintro ⟨args, hline, hpermits, -⟩
    exact hredef ⟨args, hline, hpermits⟩
  rcases session_handle s ctx level mark line with hs | ⟨o, hs, hverb⟩
  · rw [hs]
    exact .inl h
  rw [hs]
  rcases hverb with ⟨verb, hword, hpermits, ho⟩ | ⟨ctx', c, rfl⟩
  · refine Session.entry_operate h ho ?_ ?_
    · rintro rfl
      obtain ⟨args, hline⟩ := says_of_firstWord? hword
      exact hredef ⟨args, hline, hpermits⟩
    · rintro rfl
      exact hchmod ⟨hword, hpermits⟩
  · exact .inl h

/-- **A line that is no permitted `chmod` takes the mask from a command exactly if it redefines
it.**  The command that a name stands for keeps its mask otherwise, as long as there is one. -/
theorem mask_kept_iff (events : List Session.Event) (ctx : Context) (level : Level)
    (mark line name : String) {before after : Registered}
    (hbefore : (Session.fresh.after events).registry.find? name = some before)
    (hafter : (handle (Session.fresh.after events) ctx level mark line).session.registry.find?
      name = some after)
    (hsame : after.command.name = before.command.name)
    (hchmod : ¬(firstWord? mark line = some "chmod" ∧
      level.permits ((Session.fresh.after events).registry.gate "chmod") = true)) :
    (after.mask = before.mask ↔
      ¬(Redefines (Session.fresh.after events) level mark line before.command.name ∧
        before.mask ≠ 0)) ∧
    (Redefines (Session.fresh.after events) level mark line before.command.name →
      after.mask = 0) := by
  have hkeyed := Session.keyed_after events
  have hkeyed' : (handle (Session.fresh.after events) ctx level mark line).session.registry.Keyed :=
    Session.keyed_step hkeyed (.line ctx level mark line)
  have hentry := Registry.get?_of_find? hkeyed hbefore
  have hentry' := Registry.get?_of_find? hkeyed' hafter
  rw [hsame] at hentry'
  rcases entry_handle ctx hentry hchmod with ⟨hredefines, c, hnew⟩ | ⟨hnot, hold | hgone⟩
  · rw [hentry'] at hnew
    cases hnew
    refine ⟨?_, fun _ => rfl⟩
    constructor
    · rintro hmask ⟨-, hguarded⟩
      exact hguarded hmask.symm
    · intro hnot
      by_contra hmask
      exact hnot ⟨hredefines, Ne.symm hmask⟩
  · rw [hentry'] at hold
    cases hold
    exact ⟨iff_of_true rfl fun h => hnot h.1, fun h => absurd h hnot⟩
  · rw [hentry'] at hgone
    cases hgone

/-- a command is defined and guarded -/
def guarding : List Session.Event :=
  [.line visitor .broadcaster "!" "!def secret hidden",
    .line visitor .broadcaster "!" "!chmod secret 8"]

theorem secret_mask_lost :
    (Session.fresh.after guarding).registry.find? "secret" = some ⟨secret, 8⟩ ∧
    (handle (Session.fresh.after guarding) visitor .trusted "!"
      "!redef secret open").session.registry.find? "secret" =
        some ⟨⟨"secret", .words ["open"]⟩, 0⟩ ∧
    ¬(firstWord? "!" "!redef secret open" = some "chmod" ∧
      Level.trusted.permits ((Session.fresh.after guarding).registry.gate "chmod") = true) ∧
    ((0 : UInt64) = 8 ↔
      ¬(Redefines (Session.fresh.after guarding) .trusted "!" "!redef secret open" "secret" ∧
        (8 : UInt64) ≠ 0)) := by
  have hbefore : (Session.fresh.after guarding).registry.find? "secret" = some ⟨secret, 8⟩ :=
    Registry.find?_eq_of_map (by decide +kernel)
  have hafter : (handle (Session.fresh.after guarding) visitor .trusted "!"
      "!redef secret open").session.registry.find? "secret" =
        some ⟨⟨"secret", .words ["open"]⟩, 0⟩ := Registry.find?_eq_of_map (by decide +kernel)
  have hchmod : ¬(firstWord? "!" "!redef secret open" = some "chmod" ∧
      Level.trusted.permits ((Session.fresh.after guarding).registry.gate "chmod") = true) := by
    decide +kernel
  have hkept := mask_kept_iff guarding visitor .trusted "!" "!redef secret open" "secret" hbefore
    hafter rfl hchmod
  exact ⟨hbefore, hafter, hchmod, hkept.1⟩

/-- A caller who may not change masks redefines a guarded command, and everyone may run it. -/
theorem redefinition_unguards :
    let s := Session.fresh.after guarding
    let s' := (handle s visitor .trusted "!" "!redef secret open").session
    Level.trusted.permits (s.registry.gate "chmod") = false ∧
    firstWord? "!" "!redef secret open" = some "redef" ∧
    (s.registry.find? "secret").map (fun e => (e.command.name, e.mask)) = some ("secret", 8) ∧
    (s'.registry.find? "secret").map (fun e => (e.command.name, e.mask)) = some ("secret", 0) ∧
    (handle s visitor .all "!" "!secret").result = some refusal ∧
    (handle s' visitor .all "!" "!secret").result = some "open" := by
  decide +kernel

end Chat

end Parlance
