import Mathlib.Data.Finset.Card
import Mathlib.Logic.Function.Basic
import Timetable.History
import Timetable.OrderedMap.Cursor
import Timetable.OrderedMap.Update
import Timetable.Proofs.OrderedMap

/-!
# Maps and their versions as finite maps

A finite map in the sense of mathematics is a function from keys to values that has a value for
finitely many keys only.  An ordered map stands for such a function if it finds the same values and
its tree is in order (`OrderedMap.StandsFor`).

* `Tree.IsSized`: every node knows how many entries there are below it.  Turning nodes, merging
  trees and rebuilding a path keep this, so the size of a map is the length of its list.
* `Cursor.rest_advance`: going through a map binding by binding gives the entries of its list.
* `Update.act` is what a change does to a function.  `OrderedMap.StandsFor.apply` is the step and
  `OrderedMap.versions_standFor` the run: whichever version each change is made of, every version
  stands for the function that the same changes make.
* `OrderedMap.versions_are_finiteMaps` says what this means for those who use the map.
-/

set_option autoImplicit false

namespace Timetable

universe u v w

variable {K : Type u} {V : Type v}

/-! ## Sizes -/

namespace Tree

/-- Every node knows the number of entries below it. -/
def IsSized : Tree K V → Prop
  | leaf => True
  | node n _ _ _ l r => n = 1 + l.size + r.size ∧ l.IsSized ∧ r.IsSized

variable {t l r : Tree K V} {p : Nat} {k : K} {v : V}

@[simp] theorem isSized_leaf : (leaf : Tree K V).IsSized := trivial

@[simp] theorem isSized_branch : (branch p k v l r).IsSized ↔ l.IsSized ∧ r.IsSized := by
  simp [branch, IsSized]

/-- **The size of a tree is the number of its entries.** -/
theorem IsSized.size_eq (h : t.IsSized) : t.size = t.toList.length := by
  induction t with
  | leaf => rfl
  | node n p k v l r ihl ihr =>
    obtain ⟨hn, hl, hr⟩ := h
    rw [size, toList, List.length_append, List.length_cons, ← ihl hl, ← ihr hr]
    omega

theorem IsSized.turnRight (hl : l.IsSized) (hr : r.IsSized) : (turnRight p k v l r).IsSized := by
  cases l with
  | leaf => simp [Tree.turnRight, hr]
  | node n q lk lv ll lr =>
    obtain ⟨-, hll, hlr⟩ := hl
    simp [Tree.turnRight, hll, hlr, hr]

theorem IsSized.turnLeft (hl : l.IsSized) (hr : r.IsSized) : (turnLeft p k v l r).IsSized := by
  cases r with
  | leaf => simp [Tree.turnLeft, hl]
  | node n q rk rv rl rr =>
    obtain ⟨-, hrl, hrr⟩ := hr
    simp [Tree.turnLeft, hl, hrl, hrr]

theorem IsSized.raise (hl : l.IsSized) (hr : r.IsSized) : (raise p k v l r).IsSized := by
  rw [Tree.raise]
  split
  · exact hl.turnRight hr
  · split
    · exact hl.turnLeft hr
    · exact isSized_branch.2 ⟨hl, hr⟩

theorem IsSized.mergeNode {left whole : Tree K V} {tail : Tree K V → Tree K V}
    (hleft : left.IsSized) (hwhole : whole.IsSized)
    (htail : ∀ {t : Tree K V}, t.IsSized → (tail t).IsSized) (ht : t.IsSized) :
    (mergeNode p k v left whole tail t).IsSized := by
  induction t with
  | leaf => exact hwhole
  | node n q rk rv rl rr ihl _ =>
    obtain ⟨-, hrl, hrr⟩ := id ht
    rw [Tree.mergeNode]
    split
    · exact isSized_branch.2 ⟨hleft, htail ht⟩
    · exact isSized_branch.2 ⟨ihl hrl, hrr⟩

theorem IsSized.merge (hl : l.IsSized) (hr : r.IsSized) : (l.merge r).IsSized := by
  induction l generalizing r with
  | leaf => exact hr
  | node n p k v ll lr _ ih =>
    obtain ⟨-, hll, hlr⟩ := id hl
    exact hll.mergeNode hl (fun ht => ih hlr ht) hr

variable [Ord K]

theorem IsSized.insert (h : t.IsSized) (priority : Nat) (key : K) (value : V) :
    (t.insert priority key value).IsSized := by
  induction t with
  | leaf => simp [Tree.insert]
  | node n p k v l r ihl ihr =>
    obtain ⟨-, hl, hr⟩ := h
    rw [Tree.insert]
    cases compare key k with
    | lt => exact (ihl hl).raise hr
    | eq => exact isSized_branch.2 ⟨hl, hr⟩
    | gt => exact hl.raise (ihr hr)

theorem IsSized.erase? {t' : Tree K V} {key : K} (h : t.IsSized) (ht : t.erase? key = some t') :
    t'.IsSized := by
  induction t generalizing t' with
  | leaf => simp [Tree.erase?] at ht
  | node n p k v l r ihl ihr =>
    obtain ⟨-, hl, hr⟩ := h
    rw [Tree.erase?] at ht
    cases hc : compare key k with
    | lt =>
      rw [hc] at ht
      obtain ⟨l', hl', rfl⟩ := Option.map_eq_some_iff.1 ht
      exact isSized_branch.2 ⟨ihl hl hl', hr⟩
    | eq =>
      rw [hc] at ht
      cases ht
      exact hl.merge hr
    | gt =>
      rw [hc] at ht
      obtain ⟨r', hr', rfl⟩ := Option.map_eq_some_iff.1 ht
      exact isSized_branch.2 ⟨hl, ihr hr hr'⟩

end Tree

/-! ## Going through a map -/

namespace Cursor

/-- The bindings still to come. -/
def rest (c : Cursor K V) : List (K × V) := c.stack.flatMap fun s => s.1 :: s.2.toList

variable {c : Cursor K V}

theorem flatMap_descend (t : Tree K V) (stack : List ((K × V) × Tree K V)) :
    (descend t stack).flatMap (fun s => s.1 :: s.2.toList) =
      t.toList ++ stack.flatMap fun s => s.1 :: s.2.toList := by
  induction t generalizing stack with
  | leaf => rfl
  | node n p k v l r ihl _ => simp [descend, ihl, Tree.toList]

theorem rest_start (m : OrderedMap K V) : (start m).rest = m.toList := by
  rw [rest, start, flatMap_descend]
  exact List.append_nil _

/-- A cursor knows how many bindings are to come. -/
def Counts (c : Cursor K V) : Prop := c.remaining = c.rest.length

theorem counts_start {m : OrderedMap K V} (h : m.root.IsSized) : (start m).Counts := by
  rw [Counts, rest_start]
  exact h.size_eq

theorem next?_eq_none_iff : c.next? = none ↔ c.rest = [] := by
  obtain ⟨_ | ⟨⟨e, r⟩, stack⟩, n⟩ := c <;> simp [next?, rest]

/-- One step gives the first of the bindings to come and leaves the others. -/
theorem rest_of_next? {c' : Cursor K V} {e : K × V} (h : c.next? = some (e, c')) :
    c.rest = e :: c'.rest ∧ c'.remaining = c.remaining - 1 := by
  obtain ⟨_ | ⟨⟨e', r⟩, stack⟩, n⟩ := c
  · cases h
  · cases h
    exact ⟨by simp [rest, flatMap_descend], rfl⟩

theorem map_fst_next? : c.next?.map (·.1) = c.rest.head? := by
  cases h : c.next? with
  | none => rw [next?_eq_none_iff.1 h]; rfl
  | some s => rw [(rest_of_next? h).1]; rfl

/-- **After some steps the bindings to come are those behind them.** -/
theorem rest_advance (n : Nat) (h : c.Counts) :
    (c.advance n).rest = c.rest.drop n ∧ (c.advance n).Counts := by
  induction n generalizing c with
  | zero => exact ⟨rfl, h⟩
  | succ n ih =>
    rw [advance]
    cases hc : c.next? with
    | none =>
      have hnil := next?_eq_none_iff.1 hc
      exact ⟨by rw [hnil, List.drop_nil], h⟩
    | some s =>
      obtain ⟨e, c'⟩ := s
      obtain ⟨hrest, hremaining⟩ := rest_of_next? hc
      rw [hrest, List.drop_succ_cons]
      refine ih ?_
      rw [Counts, hremaining, h, hrest, List.length_cons, Nat.add_sub_cancel]

end Cursor

/-! ## Updates -/

/-- A map holds the values of a function, and its tree is in order. -/
structure OrderedMap.StandsFor [Ord K] (m : OrderedMap K V) (f : K → Option V) : Prop where
  get?_eq : ∀ key, m.get? key = f key
  isOrdered : m.IsOrdered
  isSized : m.root.IsSized

/-- What a change does to a finite map in the sense of mathematics. -/
def Update.act [DecidableEq K] (f : K → Option V) : Update K V → K → Option V
  | insert _ key value => Function.update f key (some value)
  | erase key => Function.update f key none
  | rebuild entries =>
    entries.foldl (fun f e => Function.update f e.2.1 (some e.2.2)) fun _ => none

namespace OrderedMap

variable [Ord K] {m : OrderedMap K V} {f : K → Option V}

theorem standsFor_empty : (empty : OrderedMap K V).StandsFor fun _ => none :=
  ⟨fun _ => rfl, isOrdered_empty, trivial⟩

namespace StandsFor

section Step

variable [Std.TransOrd K] [Std.LawfulEqOrd K] [DecidableEq K]

theorem insertWith (h : m.StandsFor f) (priority : Nat) (key : K) (value : V) :
    (m.insertWith priority key value).StandsFor (Function.update f key (some value)) where
  get?_eq x := by rw [get?_insertWith h.isOrdered, Function.update_apply, h.get?_eq]
  isOrdered := isOrdered_insertWith h.isOrdered priority key value
  isSized := h.isSized.insert priority key value

theorem erase (h : m.StandsFor f) (key : K) :
    (m.erase key).StandsFor (Function.update f key none) where
  get?_eq x := by rw [get?_erase h.isOrdered, Function.update_apply, h.get?_eq]
  isOrdered := isOrdered_erase h.isOrdered key
  isSized := by
    rw [OrderedMap.erase]
    cases hk : m.erase? key with
    | none => exact h.isSized
    | some m' =>
      obtain ⟨t', ht', rfl⟩ := Option.map_eq_some_iff.1 hk
      exact h.isSized.erase? ht'

theorem rebuild (h : m.StandsFor f) (entries : List (Nat × K × V)) :
    (entries.foldl (fun m e => m.insertWith e.1 e.2.1 e.2.2) m).StandsFor
      (entries.foldl (fun f e => Function.update f e.2.1 (some e.2.2)) f) := by
  induction entries generalizing m f with
  | nil => exact h
  | cons e entries ih => exact ih (h.insertWith e.1 e.2.1 e.2.2)

/-- **A change does the same to a map as to the function it stands for.** -/
theorem apply (h : m.StandsFor f) (u : Update K V) : (u.apply m).StandsFor (u.act f) := by
  cases u with
  | insert priority key value => exact h.insertWith priority key value
  | erase key => exact h.erase key
  | rebuild entries => exact standsFor_empty.rebuild entries

end Step

/-! ## What it means to stand for a function -/

theorem pairwise_keys (h : m.StandsFor f) : m.keys.Pairwise fun a b => compare a b = .lt :=
  OrderedMap.pairwise_keys h.isOrdered

/-- Going through the map gives the bindings of its list one by one. -/
theorem next?_advance (h : m.StandsFor f) (n : Nat) :
    ((Cursor.start m).advance n).next?.map (·.1) = m.toList[n]? := by
  rw [Cursor.map_fst_next?, (Cursor.rest_advance n (Cursor.counts_start h.isSized)).1,
    Cursor.rest_start, List.head?_drop]

/-- Taking out a key that has no value leaves the very same tree. -/
theorem erase_absent (h : m.StandsFor f) {key : K} (hk : f key = none) :
    (Update.erase key).sharesRoot m = true ∧ (Update.erase key).apply m = m := by
  have hget : m.get? key = none := (h.get?_eq key).trans hk
  refine ⟨?_, erase_of_get?_eq_none hget⟩
  rw [Update.sharesRoot, Option.isNone_iff_eq_none, erase?, Option.map_eq_none_iff]
  exact Tree.erase?_eq_none_iff.2 hget

variable [Std.TransOrd K] [Std.LawfulEqOrd K]

theorem mem_toList_iff (h : m.StandsFor f) {key : K} {value : V} :
    (key, value) ∈ m.toList ↔ f key = some value := by
  rw [OrderedMap.mem_toList_iff h.isOrdered, h.get?_eq]

/-- **The size of a map is the number of keys that have a value.** -/
theorem exists_card_eq_size (h : m.StandsFor f) :
    ∃ live : Finset K, (∀ key, key ∈ live ↔ f key ≠ none) ∧ m.size = live.card := by
  refine ⟨⟨m.keys, nodup_keys h.isOrdered⟩, fun key => ?_, ?_⟩
  · rw [Option.ne_none_iff_exists', ← h.get?_eq]
    exact mem_keys_iff h.isOrdered
  · exact h.isSized.size_eq.trans (List.length_map _).symm

end StandsFor

end OrderedMap

/-! ## Versions -/

namespace History

variable {α β : Type w}

theorem version_push_succ (h : History α) (a : α) (n : Nat) :
    (h.push a).version (n + 1) = if n = h.newest then a else h.version (n + 1) := by
  simp only [version, push, newest, Array.getD_eq_getD_getElem?, Array.getElem?_push]
  split <;> rfl

/-- The versions after some changes, each made of the version with the given number. -/
def revise (apply : α → Update K V → α) (h : History α) (changes : List (Nat × Update K V)) :
    History α :=
  changes.foldl (fun h change => h.push (apply (h.version change.1) change.2)) h

/-- Two histories agree, version by version. -/
structure Agree (R : α → β → Prop) (h : History α) (g : History β) : Prop where
  newest_eq : h.newest = g.newest
  version : ∀ n, R (h.version n) (g.version n)

theorem Agree.push {R : α → β → Prop} {h : History α} {g : History β} (hg : Agree R h g) {a : α}
    {b : β} (hab : R a b) : Agree R (h.push a) (g.push b) where
  newest_eq := by rw [newest_push, newest_push, hg.newest_eq]
  version
    | 0 => hg.version 0
    | n + 1 => by
      rw [version_push_succ, version_push_succ, hg.newest_eq]
      split
      · exact hab
      · exact hg.version (n + 1)

/-- If every change keeps two values in a relation, histories stay in it. -/
theorem Agree.revise {R : α → β → Prop} {h : History α} {g : History β} (hg : Agree R h g)
    {f : α → Update K V → α} {f' : β → Update K V → β}
    (hstep : ∀ {a b}, R a b → ∀ u, R (f a u) (f' b u)) (changes : List (Nat × Update K V)) :
    Agree R (h.revise f changes) (g.revise f' changes) := by
  induction changes generalizing h g with
  | nil => exact hg
  | cons change changes ih => exact ih (hg.push (hstep (hg.version change.1) change.2))

end History

namespace OrderedMap

/-- The versions of a map, from the empty one on. -/
def versions [Ord K] (changes : List (Nat × Update K V)) : History (OrderedMap K V) :=
  History.revise Update.apply ⟨empty, #[]⟩ changes

/-- The finite maps that the same changes make in the sense of mathematics. -/
def finiteMaps [DecidableEq K] (changes : List (Nat × Update K V)) : History (K → Option V) :=
  History.revise Update.act ⟨fun _ => none, #[]⟩ changes

variable [Ord K] [Std.TransOrd K] [Std.LawfulEqOrd K] [DecidableEq K]

theorem versions_standFor (changes : List (Nat × Update K V)) (n : Nat) :
    ((versions changes).version n).StandsFor ((finiteMaps changes).version n) := by
  have hempty : History.Agree StandsFor (⟨empty, #[]⟩ : History (OrderedMap K V))
      ⟨fun _ => none, #[]⟩ := by
    refine ⟨rfl, fun n => ?_⟩
    cases n with
    | zero => exact standsFor_empty
    | succ n => exact standsFor_empty
  exact (hempty.revise (fun h u => h.apply u) changes).version n

/-- **Every version of a map is the finite map that the same changes make.**  It finds and lists the
bindings of that map and no others, the keys increase strictly, going through it gives the entries
of the list in their order, its size is the number of keys that have a value, and taking out a key
without a value leaves the very same tree. -/
theorem versions_are_finiteMaps (changes : List (Nat × Update K V)) (n : Nat) :
    let m := (versions changes).version n
    let f := (finiteMaps changes).version n
    (∀ key, m.get? key = f key) ∧
    (∀ key value, (key, value) ∈ m.toList ↔ f key = some value) ∧
    (m.keys.Pairwise fun a b => compare a b = .lt) ∧
    (∀ i, ((Cursor.start m).advance i).next?.map (·.1) = m.toList[i]?) ∧
    (∃ live : Finset K, (∀ key, key ∈ live ↔ f key ≠ none) ∧ m.size = live.card) ∧
    ∀ key, f key = none →
      (Update.erase key).sharesRoot m = true ∧ (Update.erase key).apply m = m := by
  have h := versions_standFor changes n
  exact ⟨h.get?_eq, fun _ _ => h.mem_toList_iff, h.pairwise_keys, h.next?_advance,
    h.exists_card_eq_size, fun _ => h.erase_absent⟩

/-- Two keys of one priority, and two different changes of the map that has both. -/
def branching : List (Nat × Update Nat Nat) :=
  [(0, .rebuild [(5, 2, 20), (5, 1, 10)]), (1, .insert 5 2 21), (1, .erase 1)]

theorem versions_are_finiteMaps_branching :
    ((versions branching).version 2).get? 2 = some 21 ∧
    ((versions branching).version 3).get? 2 = some 20 ∧
    (Update.erase 1).sharesRoot ((versions branching).version 3) = true :=
  ⟨((versions_are_finiteMaps branching 2).1 2).trans rfl,
    ((versions_are_finiteMaps branching 3).1 2).trans rfl,
    ((versions_are_finiteMaps branching 3).2.2.2.2.2 1 rfl).1⟩

end OrderedMap

end Timetable
