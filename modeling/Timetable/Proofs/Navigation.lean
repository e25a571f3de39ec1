import Timetable.Proofs.Versions

/-!
# Finding one's way in a map

Every question a map is asked is answered by going down its tree, guided by keys or by sizes.  The
list of the bindings knows the answers as well, and without a tree.  `OrderedMap.ReadsAs m l` says
that the map `m` answers like the list `l`, whatever it is asked.

* `Tree.first?_eq`, `Tree.last?_eq`, `Tree.nth?_eq` and `Tree.ceiling?_eq` compare the ways down with
  the list, each by one induction over the tree.  Positions need sizes to be right, nearest keys need
  the tree to be in order.
* `Cursor.remaining_advance`: a cursor that has gone on counts what is left exactly, and never counts
  below zero.
* `OrderedMap.versions_readAs`: whatever has been done to a map, it answers like its list, the list
  has the bindings that the same changes make in the sense of mathematics, and two maps are equal
  exactly if their lists are.
-/

set_option autoImplicit false

namespace Timetable

universe u v

variable {K : Type u} {V : Type v}

/-! ## The part of a list from a key on -/

section AtLeast

variable [Ord K]

/-- The bindings of keys from a key on. -/
def atLeast (key : K) (l : List (K × V)) : List (K × V) := l.filter fun e => (compare e.1 key).isGE

@[simp] theorem atLeast_append (key : K) (l m : List (K × V)) :
    atLeast key (l ++ m) = atLeast key l ++ atLeast key m := List.filter_append ..

theorem atLeast_cons (key : K) (e : K × V) (l : List (K × V)) :
    atLeast key (e :: l) = if (compare e.1 key).isGE then e :: atLeast key l else atLeast key l :=
  List.filter_cons ..

theorem atLeast_eq_nil {key : K} {l : List (K × V)} (h : ∀ e ∈ l, compare e.1 key = .lt) :
    atLeast key l = [] := by
  rw [atLeast, List.filter_eq_nil_iff]
  exact fun e he => by rw [h e he]; decide

end AtLeast

/-! ## Ways down a tree -/

namespace Tree

variable {t : Tree K V}

theorem first?_eq (t : Tree K V) : t.first? = t.toList.head? := by
  induction t with
  | leaf => rfl
  | node n p k v l r ihl _ =>
    rw [first?, toList, List.head?_append, ihl]
    cases l.toList.head? <;> rfl

theorem last?_eq (t : Tree K V) : t.last? = t.toList.getLast? := by
  induction t with
  | leaf => rfl
  | node n p k v l r _ ihr =>
    rw [last?, toList, List.getLast?_append, List.getLast?_cons, ihr]
    rfl

/-- **The sizes lead to the binding at a position.** -/
theorem nth?_eq (h : t.IsSized) (i : Nat) : t.nth? i = t.toList[i]? := by
  induction t generalizing i with
  | leaf => rfl
  | node n p k v l r ihl ihr =>
    obtain ⟨-, hl, hr⟩ := h
    rw [nth?, toList, hl.size_eq]
    split
    · next hleft => rw [ihl hl, List.getElem?_append_left hleft]
    · next hleft =>
      rw [List.getElem?_append_right (Nat.le_of_not_lt hleft)]
      split
      · next hroot => rw [hroot, Nat.sub_self, List.getElem?_cons_zero]
      · next hroot =>
        have hright : i - l.toList.length = i - (l.toList.length + 1) + 1 := by omega
        rw [ihr hr, hright, List.getElem?_cons_succ]

/-- **The first binding from a key on is found.** -/
theorem ceiling?_eq [Ord K] [Std.TransOrd K] [Std.LawfulEqOrd K] (h : t.IsOrdered) (key : K)
    (best : Option (K × V)) : t.ceiling? key best = (atLeast key t.toList).head?.or best := by
  induction t generalizing best with
  | leaf => rfl
  | node n p k v l r ihl ihr =>
    obtain ⟨hl, hr, hlk, -⟩ := isOrdered_node.1 h
    rw [ceiling?, toList, atLeast_append, atLeast_cons]
    cases hc : compare key k with
    | lt =>
      have hk : compare k key = .gt := Std.OrientedCmp.gt_of_lt hc
      simp [hk, ihl hl]
    | eq =>
      have hk : key = k := Std.LawfulEqCmp.eq_of_compare hc
      subst hk
      simp [atLeast_eq_nil hlk]
    | gt =>
      have hk : compare k key = .lt := Std.OrientedCmp.lt_of_gt hc
      have hl' : atLeast key l.toList = [] := atLeast_eq_nil fun e he =>
        Std.TransCmp.lt_trans (hlk e he) hk
      simp [hk, hl', ihr hr]

end Tree

/-! ## Counting down -/

namespace Cursor

/-- A cursor that counts right gives one binding and counts one less, which is not below zero. -/
theorem Counts.remaining_of_next? {c c' : Cursor K V} {e : K × V} (h : c.Counts)
    (hc : c.next? = some (e, c')) : c'.remaining + 1 = c.remaining := by
  obtain ⟨hrest, hremaining⟩ := rest_of_next? hc
  have hpos : 0 < c.remaining := by
    rw [h, hrest, List.length_cons]
    exact Nat.succ_pos _
  omega

/-- **After some steps as many bindings are to come as have not been passed.** -/
theorem remaining_advance {c : Cursor K V} (h : c.Counts) (n : Nat) :
    (c.advance n).remaining = c.remaining - n := by
  obtain ⟨hrest, hcounts⟩ := rest_advance n h
  rw [hcounts, hrest, List.length_drop, h]

end Cursor

namespace OrderedMap

/-! ## Maps that answer like a list -/

/-- The map answers as the list of its bindings does, whatever it is asked. -/
structure ReadsAs [Ord K] (m : OrderedMap K V) (l : List (K × V)) : Prop where
  increasing : l.Pairwise fun a b => compare a.1 b.1 = .lt
  size_eq : m.size = l.length
  get?_eq_some_iff : ∀ key value, m.get? key = some value ↔ (key, value) ∈ l
  contains_iff : ∀ key, m.contains key ↔ ∃ value, (key, value) ∈ l
  floor?_eq : ∀ key, m.floor? key = (upTo key l).getLast?
  ceiling?_eq : ∀ key, m.ceiling? key = (atLeast key l).head?
  first?_eq : m.first? = l.head?
  last?_eq : m.last? = l.getLast?
  nth?_eq : ∀ i, m.nth? i = l[i]?
  next?_advance : ∀ n, ((Cursor.start m).advance n).next?.map (·.1) = l[n]?
  remaining_advance : ∀ n, ((Cursor.start m).advance n).remaining = l.length - n
  /-- Counting down one more time does not lead below zero. -/
  remaining_of_next? : ∀ n e c, ((Cursor.start m).advance n).next? = some (e, c) →
    c.remaining + 1 = ((Cursor.start m).advance n).remaining

section Reading

variable [Ord K] {m n : OrderedMap K V} {f : K → Option V}

variable [Std.TransOrd K] [Std.LawfulEqOrd K]

/-- **A map that is in order answers like its list.** -/
theorem StandsFor.readsAs (h : m.StandsFor f) : m.ReadsAs m.toList where
  increasing := h.isOrdered
  size_eq := h.isSized.size_eq
  get?_eq_some_iff _ _ := (OrderedMap.mem_toList_iff h.isOrdered).symm
  contains_iff key := by
    rw [contains, Option.isSome_iff_exists]
    exact exists_congr fun _ => (OrderedMap.mem_toList_iff h.isOrdered).symm
  floor?_eq := OrderedMap.floor?_eq h.isOrdered
  ceiling?_eq key := (Tree.ceiling?_eq h.isOrdered key none).trans Option.or_none
  first?_eq := Tree.first?_eq _
  last?_eq := Tree.last?_eq _
  nth?_eq := Tree.nth?_eq h.isSized
  next?_advance := h.next?_advance
  remaining_advance n := by
    rw [Cursor.remaining_advance (Cursor.counts_start h.isSized)]
    exact congrArg (· - n) h.isSized.size_eq
  remaining_of_next? n _ _ hnext :=
    (Cursor.rest_advance n (Cursor.counts_start h.isSized)).2.remaining_of_next? hnext

omit [Ord K] [Std.TransOrd K] [Std.LawfulEqOrd K] in
/-- **Maps are equal exactly if they list the same bindings.** -/
theorem beq_iff [BEq K] [LawfulBEq K] [BEq V] [LawfulBEq V] (hm : m.root.IsSized)
    (hn : n.root.IsSized) : m == n ↔ m.toList = n.toList := by
  have hbeq : (m == n) = (m.size == n.size && m.toList == n.toList) := rfl
  rw [hbeq, Bool.and_eq_true, beq_iff_eq, beq_iff_eq, and_iff_right_iff_imp]
  intro hlist
  exact hm.size_eq.trans ((congrArg List.length hlist).trans hn.size_eq.symm)

end Reading

/-! ## Maps that have a history -/

section Versions

variable [Ord K] [Std.TransOrd K] [Std.LawfulEqOrd K] [DecidableEq K]

/-- **Whatever changes have led to a map, it answers like the list of the bindings that the same
changes make in the sense of mathematics.  Two such maps are equal exactly if their lists are,
however they were made; to look first whether they share their root makes no difference.** -/
theorem versions_readAs [BEq K] [LawfulBEq K] [BEq V] [LawfulBEq V]
    (changes : List (Nat × Update K V)) (i : Nat) :
    let m := (versions changes).version i
    m.ReadsAs m.toList ∧
    (∀ key value, (key, value) ∈ m.toList ↔ (finiteMaps changes).version i key = some value) ∧
    ∀ (changes' : List (Nat × Update K V)) (i' : Nat) (shared : Bool),
      let m' := (versions changes').version i'
      (shared = true → m.root = m'.root) →
        ((shared || m == m') ↔ m.toList = m'.toList) := by
  have h := versions_standFor changes i
  refine ⟨h.readsAs, fun _ _ => h.mem_toList_iff, fun changes' i' shared => ?_⟩
  intro m' hshared
  have hbeq := beq_iff h.isSized (versions_standFor changes' i').isSized
  cases shared with
  | false => rw [Bool.false_or, hbeq]
  | true => simp only [Bool.true_or, toList, hshared rfl]

end Versions

/-- Two keys, after one of them was bound twice and a third one came and went. -/
def detour : List (Nat × Update Nat Nat) :=
  [(0, .insert 3 7 70), (1, .insert 4 2 21), (2, .insert 0 1 10), (3, .erase 7), (4, .insert 8 2 20)]

theorem versions_readAs_detour :
    ((versions detour).version 5).ReadsAs [(1, 10), (2, 20)] ∧
    ((versions detour).version 5).root ≠ ((versions branching).version 1).root ∧
    (versions detour).version 5 == (versions branching).version 1 := by
  obtain ⟨hreads, -, hequal⟩ := versions_readAs detour 5
  exact ⟨hreads, nofun, (hequal branching 1 false nofun).2 rfl⟩

end OrderedMap

end Timetable
