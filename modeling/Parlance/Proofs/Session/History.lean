import Parlance.Proofs.Chat.Frame
import Parlance.Proofs.Registry.History

/-!
# Histories of sessions

* `Session.Operation`   what the program around a session can do to it;
* `Session.Event`       an operation, or a chat line;
* `Session.after`       the session after several events, one after another;
* `session_handle`      a line leaves the session as it is, or does what one operation does: that of
                        a permitted verb, or the run of a command;
* `after_induction`     so what is to hold of histories has to be shown of operations only.
-/

namespace Parlance

namespace Session

/-- what the program around a session can do to it -/
inductive Operation where
  | evaluate (ctx : Context) (text : String)
  | run (ctx : Context) (c : Command)
  | register (c : Registry.Change)
  | insertCommand (c : Command)
  | insertAlias (name target : String)
  | setGate (name : String) (mask : UInt64)
  | setMask (name : String) (mask : UInt64)
  | addGlobal (name : String) (v : Value)

/-- the session after an operation; a refused one leaves it as it is -/
def operate (s : Session) : Operation → Session
  | .evaluate ctx text => (s.evaluate ctx text).session
  | .run ctx c => (s.run ctx c).session
  | .register c => { s with registry := s.registry.change c }
  | .insertCommand c => { s with registry := (s.registry.insertCommand c).2 }
  | .insertAlias name target => { s with registry := s.registry.insertAlias name target }
  | .setGate name mask => { s with registry := s.registry.setGate name mask }
  | .setMask name mask => { s with registry := (s.registry.setMask? name mask).getD s.registry }
  | .addGlobal name v => (s.addGlobal name v).toOption.getD s

theorem addGlobal_inv {s s' : Session} {name : String} {v : Value}
    (h : s.addGlobal name v = .ok s') :
    s.globals.contains name = false ∧ s' = { s with globals := s.globals.insert name v } := by
  unfold addGlobal at h
  split at h
  · cases h
  split at h
  · cases h
  · rename_i hcontains
    cases h
    exact ⟨by simpa using hcontains, rfl⟩

/-- the verb under which a line can do what the operation does -/
def Operation.verb? : Operation → Option Verb
  | evaluate _ _ => some .eval
  | register (.define _ _ redefine) => some (if redefine then .redefine else .define)
  | register (.addAlias _ _) => some .makeAlias
  | register (.remove _) => some .undefine
  | setGate _ _ | setMask _ _ => some .chmod
  | addGlobal _ _ => some .global
  | run _ _ | insertCommand _ | insertAlias _ _ => none

/-- what can happen to a session -/
inductive Event where
  | operation (o : Operation)
  | line (ctx : Context) (level : Level) (mark line : String)

def step (s : Session) : Event → Session
  | .operation o => s.operate o
  | .line ctx level mark line => (Chat.handle s ctx level mark line).session

def after (s : Session) (events : List Event) : Session := events.foldl step s

theorem after_cons (s : Session) (e : Event) (events : List Event) :
    s.after (e :: events) = (s.step e).after events := rfl

end Session

namespace Chat

variable (s : Session) (ctx : Context)

/-! ## What a line does to a session -/

/-- The session is the one before or the one after an operation of the verb. -/
def Does (s : Session) (verb : Verb) (s' : Session) : Prop :=
  s' = s ∨ ∃ o : Session.Operation, o.verb? = some verb ∧ s' = s.operate o

theorem does_of_change {s : Session} {verb : Verb} {c : Registry.Change} {r : Registry}
    (hverb : (Session.Operation.register c).verb? = some verb) (h : s.registry.change c = r) :
    Does s verb { s with registry := r } := by
  refine .inr ⟨.register c, hverb, ?_⟩
  rw [← h]
  rfl

theorem does_define (args : List Char) (redefine : Bool) :
    Does s (if redefine then .redefine else .define) (obeyDefine s args redefine).session := by
  unfold obeyDefine
  by_cases hname : (Text.splitWord args).1 = []
  · simp only [hname, if_true]
    exact .inl rfl
  · simp only [hname, if_false]
    cases hd : s.registry.define (String.ofList (Text.splitWord args).1)
        (String.ofList (Text.splitWord args).2) redefine with
    | error e => exact .inl rfl
    | ok r => exact does_of_change rfl (Registry.change_define_ok hd)

theorem does_undefine (args : List Char) : Does s .undefine (obeyUndefine s args).session := by
  unfold obeyUndefine
  split
  · rename_i name _
    split
    · rename_i r hr
      have hchange : s.registry.change (.remove name) = r := by
        rw [Registry.change, hr]
      exact does_of_change rfl hchange
    · exact .inl rfl
  · exact .inl rfl

theorem does_alias (args : List Char) : Does s .makeAlias (obeyAlias s args).session := by
  unfold obeyAlias
  split
  · split
    · rename_i hr
      exact does_of_change rfl (Registry.change_addAlias_ok hr)
    · exact .inl rfl
  · exact .inl rfl

theorem does_chmod (args : List Char) : Does s .chmod (obeyChmod s args).session := by
  unfold obeyChmod
  split
  · rename_i name digits _
    split
    · exact .inl rfl
    · rename_i mask _
      dsimp only
      by_cases hverb : Verb.isName name = true
      · rw [if_pos hverb]
        exact .inr ⟨.setGate name mask, rfl, rfl⟩
      · rw [if_neg hverb]
        split
        · rename_i r hr
          refine .inr ⟨.setMask name mask, rfl, ?_⟩
          show ({ s with registry := r } : Session) =
            { s with registry := (s.registry.setMask? name mask).getD s.registry }
          rw [hr]
          rfl
        · exact .inl rfl
  · exact .inl rfl

theorem declareGlobal_inv {s s' : Session} {name : String} {t : Ty}
    (h : s.declareGlobal name t = .ok s') :
    ∃ v, Value.zero? t = some v ∧ s.addGlobal name v = .ok s' := by
  unfold Session.declareGlobal at h
  split at h
  · rename_i v hv
    exact ⟨v, hv, h⟩
  · cases h

theorem does_global (args : List Char) : Does s .global (obeyGlobal s args).session := by
  unfold obeyGlobal
  dsimp only
  split
  · exact .inl rfl
  split
  · exact .inl rfl
  split
  · exact .inl rfl
  split
  · rename_i s' hs'
    obtain ⟨v, -, hv⟩ := declareGlobal_inv hs'
    refine .inr ⟨.addGlobal (String.ofList (Text.splitWord args).1) v, rfl, ?_⟩
    show s' = (s.addGlobal (String.ofList (Text.splitWord args).1) v).toOption.getD s
    rw [hv]
    rfl
  · exact .inl rfl

theorem does_obey (verb : Verb) (args : List Char) :
    Does s verb (obey s ctx verb args).session := by
  cases verb with
  | define => exact does_define s args false
  | redefine => exact does_define s args true
  | undefine => exact does_undefine s args
  | makeAlias => exact does_alias s args
  | «show» => exact .inl (session_obeyShow s args)
  | chmod => exact does_chmod s args
  | global => exact does_global s args
  | eval => exact .inr ⟨.evaluate ctx (String.ofList args), rfl, session_obeyEval s ctx args⟩

/-- **A line leaves the session as it is or does what one operation does**: one of the verb that it
is for, which the caller is permitted, or the run of a command. -/
theorem session_handle (level : Level) (mark line : String) :
    (handle s ctx level mark line).session = s ∨
    ∃ o, (handle s ctx level mark line).session = s.operate o ∧
      ((∃ verb : Verb, firstWord? mark line = some verb.name ∧
          level.permits (s.registry.gate verb.name) = true ∧ o.verb? = some verb) ∨
        ∃ ctx c, o = .run ctx c) := by
  rcases handle_cases s ctx level mark line with ⟨reply, h⟩ | ⟨word, args, hword, hrun⟩
  · rw [h]
    exact .inl rfl
  rcases hrun with ⟨verb, hverb, hpermits, h⟩ | ⟨entry, -, -, -, h⟩
  · rw [h]
    obtain rfl : verb.name = word := Verb.name_of_ofName? hverb
    rcases does_obey s { ctx with expired := false } verb args with hs | ⟨o, ho, hs⟩
    · exact .inl hs
    · exact .inr ⟨o, hs, .inl ⟨verb, hword, hpermits, ho⟩⟩
  · rw [h]
    exact .inr ⟨.run _ entry.command, rfl, .inr ⟨_, _, rfl⟩⟩

end Chat

namespace Session

variable {P : Session → Prop} (hoperate : ∀ s o, P s → P (s.operate o)) {s : Session} (h : P s)
include hoperate h

/-- what every operation keeps is kept by every line -/
theorem step_of_operate (e : Event) : P (s.step e) := by
  cases e with
  | operation o => exact hoperate s o h
  | line ctx level mark line =>
    rw [step]
    rcases Chat.session_handle s ctx level mark line with hs | ⟨o, hs, -⟩
    · rw [hs]
      exact h
    · rw [hs]
      exact hoperate s o h

/-- and so by all histories -/
theorem after_induction (events : List Event) : P (s.after events) := by
  induction events generalizing s with
  | nil => exact h
  | cons e events ih =>
    rw [after_cons]
    exact ih (step_of_operate hoperate h e)

end Session

end Parlance
