import Parlance.Proofs.Ty.Order
import Parlance.Proofs.Value.Order
import Parlance.Proofs.Value.Places

/-!
# The order of values is total, and maps stay sorted

* `compare_swap`, `inLine`   values are compared as in an order, at any depth, so that `Value.compare`
                             is a `Std.TransCmp`;
* `Value.Sorted entries`     each key is before all later ones;
* `sorted_insertAll`         entries stay sorted, whatever is bound in them and in which order;
* `Value.Ordered v`          the entries of all maps in a value are sorted, at any depth;
* `ordered_writeAll`         and they stay so, whatever is written to parts of the value;
* `order_lawful`             both together.
-/

namespace Parlance.Value

/-- values of different kinds stand in the order of their kinds -/
theorem compare_of_rank_ne {a b : Value} (h : a.ty.rank ≠ b.ty.rank) :
    compare a b = Ord.compare a.ty.rank b.ty.rank := by
  cases a <;> cases b <;> first | rfl | exact absurd rfl h

mutual

theorem compare_swap (a b : Value) : compare b a = (compare a b).swap := by
  by_cases hrank : a.ty.rank = b.ty.rank
  · cases a <;> cases b <;> try simp [ty, Signature.ty, Ty.rank] at hrank
    case list.list s xs t ys =>
      rw [compare, compare, Ty.compare_swap s t, compareItems_swap xs ys, Ordering.swap_then]
    case map.map k s xs l t ys =>
      rw [compare, compare, Ty.compare_swap k l, Ty.compare_swap s t, compareEntries_swap xs ys,
        Ordering.swap_then, Ordering.swap_then]
    case void.void => rfl
    all_goals
      rw [compare, compare]
      exact Std.OrientedOrd.eq_swap
  · rw [compare_of_rank_ne hrank, compare_of_rank_ne (Ne.symm hrank), Nat.compare_swap]
termination_by sizeOf a

theorem compareItems_swap : ∀ xs ys : List Value, compareItems ys xs = (compareItems xs ys).swap
  | [], [] => rfl
  | [], _ :: _ => rfl
  | _ :: _, [] => rfl
  | x :: xs, y :: ys => by
    rw [compareItems, compareItems, compare_swap x y, compareItems_swap xs ys, Ordering.swap_then]
  termination_by xs => sizeOf xs

theorem compareEntries_swap : ∀ xs ys : List (Value × Value),
    compareEntries ys xs = (compareEntries xs ys).swap
  | [], [] => rfl
  | [], _ :: _ => rfl
  | _ :: _, [] => rfl
  | (k, x) :: xs, (l, y) :: ys => by
    rw [compareEntries, compareEntries, compare_swap k l, compare_swap x y,
      compareEntries_swap xs ys, Ordering.swap_then, Ordering.swap_then]
  termination_by xs => sizeOf xs

end

mutual

theorem inLine (a b c : Value) : InLine (compare a b) (compare b c) (compare a c) := by
  by_cases hrank : a.ty.rank = b.ty.rank ∧ b.ty.rank = c.ty.rank
  · obtain ⟨hab, hbc⟩ := hrank
    cases a <;> cases b <;> (try simp [ty, Signature.ty, Ty.rank] at hab) <;> cases c <;>
      try simp [ty, Signature.ty, Ty.rank] at hbc
    case list.list.list s xs t ys u zs =>
      rw [compare, compare, compare]
      exact (Ty.inLine s t u).then (inLineItems xs ys zs)
    case map.map.map k s xs l t ys m u zs =>
      rw [compare, compare, compare]
      exact ((Ty.inLine k l m).then (Ty.inLine s t u)).then (inLineEntries xs ys zs)
    case void.void.void => exact inLine_eq
    all_goals
      rw [compare, compare, compare]
      exact inLine_of_cmp Ord.compare _ _ _
  · exact inLine_of_ranks compare_of_rank_ne compare_of_rank_ne compare_of_rank_ne hrank
termination_by sizeOf a

theorem inLineItems : ∀ xs ys zs : List Value,
    InLine (compareItems xs ys) (compareItems ys zs) (compareItems xs zs)
  | x :: xs, y :: ys, z :: zs => by
    rw [compareItems, compareItems, compareItems]
    exact (inLine x y z).then (inLineItems xs ys zs)
  | [], ys, zs => by cases ys <;> cases zs <;> constructor <;> simp [compareItems]
  | x :: xs, [], zs => by cases zs <;> constructor <;> simp [compareItems]
  | x :: xs, y :: ys, [] => by constructor <;> simp [compareItems]
  termination_by xs => sizeOf xs

theorem inLineEntries : ∀ xs ys zs : List (Value × Value),
    InLine (compareEntries xs ys) (compareEntries ys zs) (compareEntries xs zs)
  | (k, x) :: xs, (l, y) :: ys, (m, z) :: zs => by
    rw [compareEntries, compareEntries, compareEntries]
    exact ((inLine k l m).then (inLine x y z)).then (inLineEntries xs ys zs)
  | [], ys, zs => by cases ys <;> cases zs <;> constructor <;> simp [compareEntries]
  | x :: xs, [], zs => by cases zs <;> constructor <;> simp [compareEntries]
  | x :: xs, y :: ys, [] => by constructor <;> simp [compareEntries]
  termination_by xs => sizeOf xs

end

instance : Std.TransCmp compare where
  eq_swap {a b} := compare_swap b a
  isLE_trans {a b c} := (inLine a b c).le

/-! ## Entries of a map -/

/-- each key is before all later ones -/
def Sorted (entries : List (Value × Value)) : Prop :=
  entries.Pairwise fun e f => compare e.1 f.1 = .lt

/-- the entries with several keys bound, one after another -/
def insertAll (bindings entries : List (Value × Value)) : List (Value × Value) :=
  bindings.foldl (fun entries b => insertEntry b.1 b.2 entries) entries

theorem sorted_insertEntry {entries : List (Value × Value)} (h : Sorted entries)
    (key value : Value) : Sorted (insertEntry key value entries) := by
  induction entries with
  | nil => exact List.pairwise_singleton _ _
  | cons e rest ih =>
    obtain ⟨k, v⟩ := e
    obtain ⟨hk, hrest⟩ := List.pairwise_cons.mp h
    rw [insertEntry]
    split
    · rename_i hkey
      refine List.pairwise_cons.mpr ⟨?_, h⟩
      intro f hf
      rcases List.mem_cons.mp hf with rfl | hf
      · exact hkey
      · exact Std.TransCmp.lt_trans hkey (hk f hf)
    · exact List.pairwise_cons.mpr ⟨hk, hrest⟩
    · rename_i hkey
      have hbefore : compare k key = .lt := by
        rw [compare_swap key k, hkey]
        rfl
      refine List.pairwise_cons.mpr ⟨?_, ih hrest⟩
      intro f hf
      rcases insertEntry_cases hf with hf | ⟨-, hf | ⟨old, hf⟩⟩
      · exact hk f hf
      · rw [hf]
        exact hbefore
      · exact hk (f.1, old) hf

theorem sorted_insertAll (bindings : List (Value × Value)) {entries : List (Value × Value)}
    (h : Sorted entries) : Sorted (insertAll bindings entries) := by
  induction bindings generalizing entries with
  | nil => exact h
  | cons b bindings ih => exact ih (sorted_insertEntry h b.1 b.2)

/-- no key comes twice -/
theorem Sorted.distinct {entries : List (Value × Value)} (h : Sorted entries) :
    entries.Pairwise fun e f => (e.1 == f.1) = false := by
  refine h.imp ?_
  intro e f hlt
  rw [← Bool.not_eq_true, beq_iff, hlt]
  exact Ordering.noConfusion

/-! ## Maps at any depth -/

/-- the entries of all maps in the value are sorted, at any depth -/
inductive Ordered : Value → Prop
  | scalar {v : Value} (size : v.size? = none) : Ordered v
  | list {elem : Ty} {items : List Value} (all : ∀ v ∈ items, Ordered v) : Ordered (list elem items)
  | map {key elem : Ty} {entries : List (Value × Value)} (sorted : Sorted entries)
      (keys : ∀ e ∈ entries, Ordered e.1) (all : ∀ e ∈ entries, Ordered e.2) :
      Ordered (map key elem entries)

theorem ordered_insertEntry {key elem : Ty} {entries : List (Value × Value)} {index new : Value}
    (h : Ordered (map key elem entries)) (hindex : Ordered index) (hnew : Ordered new) :
    Ordered (map key elem (insertEntry index new entries)) := by
  cases h with
  | scalar size => cases size
  | map sorted keys all =>
    refine .map (sorted_insertEntry sorted index new) ?_ ?_
    · intro e he
      rcases insertEntry_cases he with he | ⟨-, h | ⟨old, h⟩⟩
      · exact keys e he
      · rw [h]
        exact hindex
      · exact keys (e.1, old) h
    · intro e he
      rcases insertEntry_cases he with he | ⟨h, -⟩
      · exact all e he
      · rw [h]
        exact hnew

theorem ordered_modify {elem : Ty} {items : List Value} {n : Nat} {f : Value → Value}
    (h : Ordered (list elem items)) (hf : ∀ x, Ordered x → Ordered (f x)) :
    Ordered (list elem (items.modify n f)) := by
  cases h with
  | scalar size => cases size
  | list all =>
    refine .list ?_
    intro x hx
    obtain ⟨i, hi⟩ := List.mem_iff_getElem?.mp hx
    rw [List.getElem?_modify] at hi
    obtain ⟨y, hy, hyx⟩ := Option.map_eq_some_iff.mp hi
    have hordered : Ordered y := all y (List.mem_of_getElem? hy)
    rw [← hyx]
    split
    · exact hf y hordered
    · exact hordered

/-- **A value with a part replaced keeps its maps sorted.** -/
theorem ordered_put {new v : Value} {path : List Value} (hv : Ordered v) (hnew : Ordered new)
    (hpath : ∀ i ∈ path, Ordered i) : Ordered (put new path v) := by
  induction path generalizing v with
  | nil => exact hnew
  | cons index path ih =>
    obtain ⟨hindex, hpath⟩ := List.forall_mem_cons.mp hpath
    have hpart {x : Value} (hx : Ordered x) : Ordered (put new path x) := ih hx hpath
    unfold put
    split
    · split
      · split
        · exact ordered_modify hv fun x hx => hpart hx
        · exact hv
      · exact hv
    · rename_i key elem entries
      split
      · rename_i old hold
        refine ordered_insertEntry hv hindex (hpart ?_)
        cases hv with
        | scalar size => cases size
        | map sorted keys all =>
          obtain ⟨k, hk⟩ := mem_of_lookup? hold
          exact all _ hk
      · split
        · exact ordered_insertEntry hv hindex hnew
        · exact hv
    · exact hv

/-- a value with several parts replaced, one after another: each at the end of a path -/
def writeAll (writes : List (List Value × Value)) (v : Value) : Value :=
  writes.foldl (fun v w => put w.2 w.1 v) v

theorem ordered_writeAll {writes : List (List Value × Value)} {v : Value} (hv : Ordered v)
    (hwrites : ∀ w ∈ writes, (∀ i ∈ w.1, Ordered i) ∧ Ordered w.2) : Ordered (writeAll writes v) := by
  induction writes generalizing v with
  | nil => exact hv
  | cons w writes ih =>
    obtain ⟨hw, hwrites⟩ := List.forall_mem_cons.mp hwrites
    exact ih (ordered_put hv hw.2 hw.1) hwrites

/-- **The order of values is total, and maps stay sorted.**  A value is in the place of itself, the
order of two values read backwards is reversed, and what comes no later than something that comes no
later than a third comes no later than that.  Values in the same place compare alike with every other,
and `==` says just that they are in the same place.  So the keys of a map stay in their order, no two
of them in the same place, whatever is bound in it and in which order, and so do those of all maps in a
value, whatever is written to parts of it. -/
theorem order_lawful :
    (∀ a : Value, compare a a = .eq) ∧
    (∀ a b : Value, compare b a = (compare a b).swap) ∧
    (∀ a b c : Value, (compare a b).isLE = true → (compare b c).isLE = true →
      (compare a c).isLE = true) ∧
    (∀ a b : Value, compare a b = .eq → ∀ c, compare a c = compare b c ∧ compare c a = compare c b) ∧
    (∀ a b : Value, (a == b) = true ↔ compare a b = .eq) ∧
    (∀ entries bindings, Sorted entries → Sorted (insertAll bindings entries) ∧
      (insertAll bindings entries).Pairwise fun e f => (e.1 == f.1) = false) ∧
    ∀ v writes, Ordered v → (∀ w ∈ writes, (∀ i ∈ w.1, Ordered i) ∧ Ordered w.2) →
      Ordered (writeAll writes v) := by
  refine ⟨compare_self, compare_swap, ?_, ?_, beq_iff, ?_, ?_⟩
  · exact fun a b c => (inLine a b c).le
  · intro a b hab c
    exact ⟨Std.TransCmp.congr_left hab, Std.TransCmp.congr_right hab⟩
  · intro entries bindings hentries
    have hsorted := sorted_insertAll bindings hentries
    exact ⟨hsorted, hsorted.distinct⟩
  · exact fun v writes => ordered_writeAll

/-- maps in a map, written to in another order than that of the keys -/
def shelf : Value := map .int (.map .int .int) []

def shelfWrites : List (List Value × Value) :=
  [([int 2], map .int .int []), ([int 1], map .int .int []), ([int 2, int 7], int 0),
    ([int 2, int 5], int 0), ([int 2, int 7], int 3)]

/-- functions of one name are in one place, empty lists go by their types, and the shelf is sorted -/
theorem shelf_stays_ordered :
    (compare (function ⟨"f", .words []⟩) (function ⟨"f", .overloads []⟩) = .eq ∧
      compare (function ⟨"f", .words []⟩) (list .int []) =
        compare (function ⟨"f", .overloads []⟩) (list .int [])) ∧
    ((compare (list .void []) (list .int [])).isLE = true ∧
      (compare (list .int []) (list .int [int 1])).isLE = true ∧
      (compare (list .void []) (list .int [int 1])).isLE = true) ∧
    (Sorted [(int 1, void)] ∧ Sorted (insertAll [(int 3, void), (int 2, void)] [(int 1, void)])) ∧
    (Ordered shelf ∧ Ordered (writeAll shelfWrites shelf) ∧
      (writeAll shelfWrites shelf).display = "[1: [], 2: [5: 0, 7: 3]]") := by
  obtain ⟨-, -, htrans, hcongr, -, hinserts, hwrites⟩ := order_lawful
  have hsame : compare (function ⟨"f", .words []⟩) (function ⟨"f", .overloads []⟩) = .eq := by
    decide +kernel
  have hfirst : (compare (list .void []) (list .int [])).isLE = true := by decide +kernel
  have hsecond : (compare (list .int []) (list .int [int 1])).isLE = true := by decide +kernel
  have hone : Sorted [(int 1, void)] := List.pairwise_singleton _ _
  have hempty : Ordered (map .int .int []) :=
    .map .nil (fun _ h => absurd h List.not_mem_nil) fun _ h => absurd h List.not_mem_nil
  have hshelf : Ordered shelf :=
    .map .nil (fun _ h => absurd h List.not_mem_nil) fun _ h => absurd h List.not_mem_nil
  have hall : ∀ w ∈ shelfWrites, (∀ i ∈ w.1, Ordered i) ∧ Ordered w.2 := by
    have hint (i : Int64) : Ordered (int i) := .scalar rfl
    simp [shelfWrites, hint, hempty]
  refine ⟨⟨hsame, (hcongr _ _ hsame _).1⟩, ⟨hfirst, hsecond, htrans _ _ _ hfirst hsecond⟩,
    ⟨hone, (hinserts _ _ hone).1⟩, hshelf, hwrites shelf shelfWrites hshelf hall, ?_⟩
  decide +kernel

end Parlance.Value
