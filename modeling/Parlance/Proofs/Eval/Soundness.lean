import Parlance.Proofs.Eval.Clock
import Parlance.Proofs.Value.WellFormed

/-!
# What evaluation makes of well-formed values

A list that gets longer may come to be of another type, and nothing looks at what holds the list:

* `Growth.Fits g`         what directly holds the list has room for it;
* `Growth.after g`        the global after the list got longer;
* `Session.WellFormed s`  all globals are well-formed;
* `evaluateExpr_sound`    evaluation keeps all globals well-formed and gives a well-formed value if
                          all growths fit, and exactly the growths that fit keep their global
                          well-formed;
* `growth_without_room`   one that does not fit leaves a list that says something false.
-/

namespace Parlance

def Growth.Fits (g : Growth) : Prop := Value.Room g.longer.ty g.place.path g.whole

def Growth.after (g : Growth) : Value := Value.put g.longer g.place.path g.whole

def AllFit (gs : List Growth) : Prop := ∀ g ∈ gs, g.Fits

theorem allFit_cons (g : Growth) (gs : List Growth) : AllFit (g :: gs) ↔ g.Fits ∧ AllFit gs :=
  List.forall_mem_cons

theorem allFit_append (gs hs : List Growth) : AllFit (gs ++ hs) ↔ AllFit gs ∧ AllFit hs :=
  List.forall_mem_append

/-- A growth after others that fit leaves its global well-formed exactly if it fits, too. -/
def Judged : List Growth → Prop
  | [] => True
  | g :: earlier => (AllFit earlier → (g.Fits ↔ g.after.WellFormed)) ∧ Judged earlier

theorem allFit_iff_of_judged {gs : List Growth} (h : Judged gs) :
    AllFit gs ↔ ∀ g ∈ gs, g.after.WellFormed := by
  induction gs with
  | nil => exact iff_of_true (fun _ h => by cases h) fun _ h => by cases h
  | cons g earlier ih =>
    obtain ⟨hg, hearlier⟩ := h
    rw [allFit_cons, List.forall_mem_cons]
    constructor
    · rintro ⟨hfits, hall⟩
      exact ⟨(hg hall).mp hfits, (ih hearlier).mp hall⟩
    · rintro ⟨hafter, hall⟩
      have hall := (ih hearlier).mpr hall
      exact ⟨(hg hall).mpr hafter, hall⟩

def Table.WellFormed (t : Table Value) : Prop := ∀ name v, t.get? name = some v → v.WellFormed

theorem Table.wellFormed_insert {t : Table Value} (h : t.WellFormed) (name : String) {v : Value}
    (hv : v.WellFormed) : (t.insert name v).WellFormed := by
  intro other w hw
  rw [Table.get?_insert] at hw
  split at hw
  · cases hw
    exact hv
  · exact h other w hw

/-! ## The discipline -/

theorem Closed.under {P : Value → Prop} (h : Closed P) (C : Prop) : Closed fun v => C → P v := by
  by_cases hC : C
  · have hP : (fun v => C → P v) = P := funext fun v => propext ⟨fun h => h hC, fun h _ => h⟩
    rw [hP]
    exact h
  · have hP : (fun v => C → P v) = fun _ => True := funext fun v => propext
      ⟨fun _ => trivial, fun _ h => absurd h hC⟩
    rw [hP]
    exact closed_true

/-- as long as every growth has fitted, all globals and all values are well-formed -/
def Discipline.wellFormed : Discipline where
  Sound m := Judged m.growths ∧ (AllFit m.growths → m.globals.WellFormed)
  Step m m' := ∃ new, m'.growths = new ++ m.growths
  Good m v := AllFit m.growths → v.WellFormed
  refl m := ⟨[], rfl⟩
  trans := by
    rintro a b c ⟨new, h1⟩ ⟨newer, h2⟩
    exact ⟨newer ++ new, by rw [h2, h1, List.append_assoc]⟩
  lasting := by
    rintro m m' v ⟨new, h⟩ hv hfit
    rw [h, allFit_append] at hfit
    exact hv hfit.2
  closed m := Value.closed_wellFormed.under _
  global hsound h hfit := hsound.2 hfit _ _ h

namespace Discipline

variable {m : Machine} {place : Place}

theorem wellFormed_store {v : Value} (hpath : wellFormed.GoodPath m place)
    (hv : wellFormed.Good m v) : wellFormed.Keeps m (Eval.store place v) wellFormed.Good := by
  rintro m' ⟨new, hstep⟩ ⟨hjudged, hglobals⟩
  have hpath := AllGood.later hpath ⟨new, hstep⟩
  have hv := wellFormed.lasting ⟨new, hstep⟩ hv
  rcases Eval.store_cases place v m' with ⟨e, h⟩ | ⟨whole, old, hwhole, hslot, hty, h⟩
  · rw [h]
    exact ⟨⟨hjudged, hglobals⟩, wellFormed.refl m', fun _ h => by cases h⟩
  · rw [h]
    refine ⟨⟨hjudged, ?_⟩, ⟨[], rfl⟩, ?_⟩
    · intro hfit
      have hwf : whole.WellFormed := hglobals hfit _ _ hwhole
      have hroom := Value.room_of_ty hwf hslot hty
      exact Table.wellFormed_insert (hglobals hfit) _
        (Value.wellFormed_put hwf (hv hfit) (fun i hi => hpath i hi hfit) hslot hroom)
    · intro w hw
      cases hw
      exact hv

theorem wellFormed_extend {vs : List Value} (hpath : wellFormed.GoodPath m place)
    (hvs : wellFormed.AllGood m vs) :
    wellFormed.Keeps m (Eval.extend place vs) wellFormed.Good := by
  rintro m' ⟨new, hstep⟩ ⟨hjudged, hglobals⟩
  have hpath := AllGood.later hpath ⟨new, hstep⟩
  have hvs := AllGood.later hvs ⟨new, hstep⟩
  rcases Eval.extend_cases place vs m' with
    ⟨e, h⟩ | ⟨whole, elem, items, longer, hwhole, hat, happend, h⟩
  · rw [h]
    exact ⟨⟨hjudged, hglobals⟩, wellFormed.refl m', fun _ h => by cases h⟩
  · rw [h]
    -- the new growth is judged under the assumption that all earlier ones fitted
    have hlonger : AllFit m'.growths → longer.WellFormed := by
      intro hfit
      have hlist := Value.closed_wellFormed.at? (hglobals hfit _ _ hwhole) hat
      exact Value.wellFormed_append hlist (fun x hx => hvs x hx hfit) happend
    have hiff : AllFit m'.growths →
        ((⟨place, whole, longer⟩ : Growth).Fits ↔
          (⟨place, whole, longer⟩ : Growth).after.WellFormed) := by
      intro hfit
      constructor
      · exact Value.wellFormed_put (hglobals hfit _ _ hwhole) (hlonger hfit)
          (fun i hi => hpath i hi hfit) (Value.slot_of_at? hat)
      · exact Value.room_of_wellFormed_put hat
    refine ⟨⟨⟨hiff, hjudged⟩, ?_⟩, ⟨[_], rfl⟩, ?_⟩
    · intro hfit
      obtain ⟨hfits, hfit⟩ := (allFit_cons _ _).mp hfit
      exact Table.wellFormed_insert (hglobals hfit) _ ((hiff hfit).mp hfits)
    · intro w hw
      cases hw
      intro hfit
      exact hlonger ((allFit_cons _ _).mp hfit).2

theorem wellFormed_admits : wellFormed.Admits where
  store := wellFormed_store
  extend := wellFormed_extend
  read _ _ _ hsound := ⟨hsound, ⟨[], rfl⟩, fun _ _ => trivial⟩

theorem wellFormed_runs (low high : Nat) : wellFormed.Runs low high := by
  intro m c depth _ _ m' _ hsound
  exact ⟨hsound, ⟨[], rfl⟩, fun _ _ => trivial⟩

end Discipline

/-! ## Sessions -/

namespace Session

def WellFormed (s : Session) : Prop := s.globals.WellFormed

/-- **Evaluation keeps well-formed what is well-formed if all growths fit**, and the growths that
leave their global well-formed are the ones that fit.  So it is wherever the evaluation fails, and
from whichever call on the clock says that the time is used up. -/
theorem evaluateExpr_sound (s : Session) (ctx : Context) (e : Expr) (hs : s.WellFormed)
    (hargs : ∀ v ∈ ctx.args, v.WellFormed) :
    let o := s.evaluateExpr ctx e
    (AllFit o.growths ↔ ∀ g ∈ o.growths, g.after.WellFormed) ∧
    (AllFit o.growths → o.session.WellFormed ∧ ∀ v, o.result = .ok v → v.WellFormed) := by
  have hsound : Discipline.wellFormed.Sound (.start s.globals) := ⟨True.intro, fun _ => hs⟩
  obtain ⟨⟨hjudged, hglobals⟩, -, hresult⟩ :=
    Eval.evalIn_keeps (r := s.registry) Discipline.wellFormed_admits
      (Discipline.wellFormed_runs _ _) (fun v hv _ => hargs v hv) e _
      (Discipline.wellFormed.refl _) hsound
  intro o
  refine ⟨allFit_iff_of_judged hjudged, ?_⟩
  intro hfit
  exact ⟨hglobals hfit, fun v hv => hresult v hv hfit⟩

def anyone : Context := ⟨"alice", "#lounge", "bot", [], 0, false, .still⟩

/-- the session whose only global is a list with an empty list in it -/
def nested (elem : Ty) : Session :=
  ⟨.fresh, .insert .empty "g" (.list (.list elem) [.list elem []])⟩

/-- the context of an invocation whose time is used up after one call -/
def hurried : Context := { anyone with clock := .lateFrom 1 }

/-- `g[0].append(1)` -/
def growInner : Expr := .call (.member (.subscript (.var (.name "g")) (.int 0)) "append") [.int 1]

/-- `[int(2), g[0].append(1).len(), int(3)]` -/
def growBetween : Expr :=
  let int (i : Int64) : Expr := .call (.var (.name "int")) [.int i]
  .list [int 2, .call (.member growInner "len") [], int 3]

theorem wellFormed_nested (elem : Ty) : (nested elem).WellFormed := by
  refine Table.wellFormed_insert (t := .empty) (fun _ _ h => by cases h) "g" ?_
  refine Value.wellFormed_list_of_ty ?_ ?_
  · intro v hv
    cases List.mem_singleton.mp hv
    rfl
  · intro v hv
    cases List.mem_singleton.mp hv
    exact .list (fun _ h => by cases h) fun _ h => by cases h

/-- a list of integers has room for one that gets longer between two calls, of which the second is
refused -/
theorem inner_growth_fits :
    (nested .int).WellFormed ∧ (∀ v ∈ hurried.args, v.WellFormed) ∧
    let o := (nested .int).evaluateExpr hurried growBetween
    o.result = .error .timeLimit ∧ AllFit o.growths ∧
    (AllFit o.growths ↔ ∀ g ∈ o.growths, g.after.WellFormed) ∧
    (AllFit o.growths → o.session.WellFormed ∧ ∀ v, o.result = .ok v → v.WellFormed) := by
  have hargs : ∀ v ∈ hurried.args, v.WellFormed := fun _ h => by cases h
  refine ⟨wellFormed_nested .int, hargs, rfl, ?_, ?_⟩
  · have hgrowths : ((nested .int).evaluateExpr hurried growBetween).growths =
        [⟨⟨"g", [.int 0]⟩, .list (.list .int) [.list .int []], .list .int [.int 1]⟩] := rfl
    intro g hg
    rw [hgrowths, List.mem_singleton] at hg
    subst hg
    exact ⟨.list .int, rfl, .refl _⟩
  · exact evaluateExpr_sound (nested .int) hurried growBetween (wellFormed_nested .int) hargs

/-- an empty list that nothing is known about gets longer inside a list of such -/
theorem growth_without_room :
    (nested .void).WellFormed ∧
    ¬((nested .void).evaluateExpr anyone growInner).session.WellFormed := by
  refine ⟨wellFormed_nested .void, ?_⟩
  intro h
  have hg : ((nested .void).evaluateExpr anyone growInner).session.globals.get? "g" =
      some (.list (.list .void) [.list .int [.int 1]]) := rfl
  cases h "g" _ hg with
  | list types all =>
    have herases : (Ty.list .int).Erases (.list .void) := types _ (List.mem_singleton_self _)
    cases herases with
    | list herases => cases herases

end Session

end Parlance
