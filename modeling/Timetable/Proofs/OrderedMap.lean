import Timetable.OrderedMap.Basic
import Mathlib.Data.List.Nodup

/-!
# What ordered maps hold

An ordered map is judged by the list of its bindings.  `Tree.IsOrdered` says that the keys of that
list increase strictly, and as long as they do, every operation is a plain function of the list.

* `Tree.toList_insert` and `Tree.toList_erase?` say which list an update leads to: everything below
  the key, the new binding or none, everything above the key.  Rotations and merges do not show.
* `Tree.get?_eq_some_iff` and `Tree.floor?_eq` say what is found: the bindings of the list, and the
  last one up to a key.
* `OrderedMap.get?_insertWith` and `OrderedMap.get?_erase` are the two laws of a finite map;
  `isOrdered_insertWith`, `isOrdered_erase` and `isOrdered_ofList` keep them going.

Where the priorities come from plays no part in any of this.
-/

set_option autoImplicit false

namespace Timetable

universe u v

variable {K : Type u} {V : Type v} [Ord K]

/-! ## The part of a list below a key, and the part above it -/

/-- The bindings of smaller keys. -/
def below (key : K) (l : List (K × V)) : List (K × V) := l.filter fun e => (compare e.1 key).isLT

/-- The bindings of greater keys. -/
def above (key : K) (l : List (K × V)) : List (K × V) := l.filter fun e => (compare e.1 key).isGT

/-- The bindings of keys up to a key. -/
def upTo (key : K) (l : List (K × V)) : List (K × V) := l.filter fun e => (compare e.1 key).isLE

@[simp] theorem below_append (key : K) (l m : List (K × V)) :
    below key (l ++ m) = below key l ++ below key m := List.filter_append ..

@[simp] theorem above_append (key : K) (l m : List (K × V)) :
    above key (l ++ m) = above key l ++ above key m := List.filter_append ..

@[simp] theorem upTo_append (key : K) (l m : List (K × V)) :
    upTo key (l ++ m) = upTo key l ++ upTo key m := List.filter_append ..

theorem below_cons (key : K) (e : K × V) (l : List (K × V)) :
    below key (e :: l) = if (compare e.1 key).isLT then e :: below key l else below key l :=
  List.filter_cons ..

theorem above_cons (key : K) (e : K × V) (l : List (K × V)) :
    above key (e :: l) = if (compare e.1 key).isGT then e :: above key l else above key l :=
  List.filter_cons ..

theorem upTo_cons (key : K) (e : K × V) (l : List (K × V)) :
    upTo key (e :: l) = if (compare e.1 key).isLE then e :: upTo key l else upTo key l :=
  List.filter_cons ..

theorem mem_below {key : K} {e : K × V} {l : List (K × V)} :
    e ∈ below key l ↔ e ∈ l ∧ compare e.1 key = .lt := by
  rw [below, List.mem_filter, Ordering.isLT_iff_eq_lt]

theorem mem_above {key : K} {e : K × V} {l : List (K × V)} :
    e ∈ above key l ↔ e ∈ l ∧ compare e.1 key = .gt := by
  rw [above, List.mem_filter, Ordering.isGT_iff_eq_gt]

theorem mem_upTo {key : K} {e : K × V} {l : List (K × V)} :
    e ∈ upTo key l ↔ e ∈ l ∧ (compare e.1 key).isLE := by
  rw [upTo, List.mem_filter]

theorem below_eq_self {key : K} {l : List (K × V)} (h : ∀ e ∈ l, compare e.1 key = .lt) :
    below key l = l := by
  rw [below, List.filter_eq_self]
  exact fun e he => by rw [h e he]; rfl

theorem above_eq_self {key : K} {l : List (K × V)} (h : ∀ e ∈ l, compare e.1 key = .gt) :
    above key l = l := by
  rw [above, List.filter_eq_self]
  exact fun e he => by rw [h e he]; rfl

theorem below_eq_nil {key : K} {l : List (K × V)} (h : ∀ e ∈ l, compare e.1 key = .gt) :
    below key l = [] := by
  rw [below, List.filter_eq_nil_iff]
  exact fun e he => by rw [h e he]; decide

theorem above_eq_nil {key : K} {l : List (K × V)} (h : ∀ e ∈ l, compare e.1 key = .lt) :
    above key l = [] := by
  rw [above, List.filter_eq_nil_iff]
  exact fun e he => by rw [h e he]; decide

theorem upTo_eq_nil {key : K} {l : List (K × V)} (h : ∀ e ∈ l, compare e.1 key = .gt) :
    upTo key l = [] := by
  rw [upTo, List.filter_eq_nil_iff]
  exact fun e he => by rw [h e he]; decide

/-- An increasing list without a key is the part below the key and the part above it. -/
theorem below_append_above [Std.TransOrd K] [Std.LawfulEqOrd K] {key : K} {l : List (K × V)}
    (h : l.Pairwise fun a b => compare a.1 b.1 = .lt) (hk : ∀ e ∈ l, e.1 ≠ key) :
    below key l ++ above key l = l := by
  induction l with
  | nil => rfl
  | cons e l ih =>
    obtain ⟨he, hl⟩ := List.pairwise_cons.1 h
    rw [below_cons, above_cons]
    cases hc : compare e.1 key with
    | lt => simpa using ih hl fun x hx => hk x (List.mem_cons_of_mem e hx)
    | eq => exact absurd (Std.LawfulEqCmp.eq_of_compare hc) (hk e List.mem_cons_self)
    | gt =>
      have hl' : ∀ x ∈ l, compare x.1 key = .gt := fun x hx =>
        Std.TransCmp.gt_trans (Std.OrientedCmp.gt_of_lt (he x hx)) hc
      simp [below_eq_nil hl', above_eq_self hl']

namespace Tree

/-- There is nothing to take out exactly if nothing is found. -/
theorem erase?_eq_none_iff {t : Tree K V} {key : K} :
    t.erase? key = none ↔ t.get? key = none := by
  induction t with
  | leaf => simp [erase?, get?]
  | node n p k v l r ihl ihr =>
    rw [erase?, get?]
    cases compare key k <;> simp [ihl, ihr]

/-! ## Ordered trees -/

/-- The keys of a tree increase strictly from left to right. -/
def IsOrdered (t : Tree K V) : Prop := t.toList.Pairwise fun a b => compare a.1 b.1 = .lt

variable [Std.TransOrd K]

/-- A node is ordered if its subtrees are and its key lies between theirs. -/
theorem isOrdered_node {n p : Nat} {k : K} {v : V} {l r : Tree K V} :
    (node n p k v l r).IsOrdered ↔ l.IsOrdered ∧ r.IsOrdered ∧
      (∀ e ∈ l.toList, compare e.1 k = .lt) ∧ (∀ e ∈ r.toList, compare e.1 k = .gt) := by
  rw [IsOrdered, toList, List.pairwise_append, List.pairwise_cons]
  constructor
  · rintro ⟨hl, ⟨hkr, hr⟩, hlr⟩
    exact ⟨hl, hr, fun e he => hlr e he (k, v) List.mem_cons_self,
      fun e he => Std.OrientedCmp.gt_of_lt (hkr e he)⟩
  · rintro ⟨hl, hr, hlk, hrk⟩
    refine ⟨hl, ⟨fun e he => Std.OrientedCmp.lt_of_gt (hrk e he), hr⟩, fun a ha b hb => ?_⟩
    rcases List.mem_cons.1 hb with rfl | hb
    · exact hlk a ha
    · exact Std.TransCmp.lt_trans (hlk a ha) (Std.OrientedCmp.lt_of_gt (hrk b hb))

variable [Std.LawfulEqOrd K]

/-- **Looking up a key finds its binding.** -/
theorem get?_eq_some_iff {t : Tree K V} (h : t.IsOrdered) {key : K} {value : V} :
    t.get? key = some value ↔ (key, value) ∈ t.toList := by
  induction t with
  | leaf => simp [get?]
  | node n p k v l r ihl ihr =>
    obtain ⟨hl, hr, hlk, hrk⟩ := isOrdered_node.1 h
    rw [get?, toList, List.mem_append, List.mem_cons]
    cases hc : compare key k with
    | lt =>
      have hr' : (key, value) ∉ r.toList := fun he => by simpa [hc] using hrk _ he
      have hk : (key, value) ≠ (k, v) := by
        rintro ⟨⟩
        simp at hc
      simp [ihl hl, hr', hk]
    | eq =>
      have hk : key = k := Std.LawfulEqCmp.eq_of_compare hc
      subst hk
      have hl' : (key, value) ∉ l.toList := fun he => by simpa using hlk _ he
      have hr' : (key, value) ∉ r.toList := fun he => by simpa using hrk _ he
      simp [hl', hr', eq_comm]
    | gt =>
      have hl' : (key, value) ∉ l.toList := fun he => by simpa [hc] using hlk _ he
      have hk : (key, value) ≠ (k, v) := by
        rintro ⟨⟩
        simp at hc
      simp [ihr hr, hl', hk]

/-- **The last binding up to a key is found.** -/
theorem floor?_eq {t : Tree K V} (h : t.IsOrdered) (key : K) (best : Option (K × V)) :
    t.floor? key best = (upTo key t.toList).getLast?.or best := by
  induction t generalizing best with
  | leaf => rfl
  | node n p k v l r ihl ihr =>
    obtain ⟨hl, hr, hlk, hrk⟩ := isOrdered_node.1 h
    rw [floor?, toList, upTo_append, upTo_cons]
    cases hc : compare key k with
    | lt =>
      have hk : compare k key = .gt := Std.OrientedCmp.gt_of_lt hc
      have hr' : upTo key r.toList = [] := upTo_eq_nil fun e he =>
        Std.TransCmp.gt_trans (hrk e he) hk
      simp [hk, hr', ihl hl]
    | eq =>
      have hk : key = k := Std.LawfulEqCmp.eq_of_compare hc
      subst hk
      simp [upTo_eq_nil hrk]
    | gt =>
      have hk : compare k key = .lt := Std.OrientedCmp.lt_of_gt hc
      simp [hk, ihr hr, List.getLast?_cons]

/-! ## Updates of ordered trees -/

/-- **Inserting replaces the binding of a key and keeps the others.** -/
theorem toList_insert {t : Tree K V} (h : t.IsOrdered) (priority : Nat) (key : K) (value : V) :
    (t.insert priority key value).toList =
      below key t.toList ++ (key, value) :: above key t.toList := by
  induction t with
  | leaf => rfl
  | node n p k v l r ihl ihr =>
    obtain ⟨hl, hr, hlk, hrk⟩ := isOrdered_node.1 h
    rw [insert, toList, below_append, above_append, below_cons, above_cons]
    cases hc : compare key k with
    | lt =>
      have hk : compare k key = .gt := Std.OrientedCmp.gt_of_lt hc
      have hr' : ∀ e ∈ r.toList, compare e.1 key = .gt := fun e he =>
        Std.TransCmp.gt_trans (hrk e he) hk
      simp [hk, ihl hl, below_eq_nil hr', above_eq_self hr']
    | eq =>
      have hk : key = k := Std.LawfulEqCmp.eq_of_compare hc
      subst hk
      simp [below_eq_self hlk, above_eq_nil hlk, below_eq_nil hrk, above_eq_self hrk]
    | gt =>
      have hk : compare k key = .lt := Std.OrientedCmp.lt_of_gt hc
      have hl' : ∀ e ∈ l.toList, compare e.1 key = .lt := fun e he =>
        Std.TransCmp.lt_trans (hlk e he) hk
      simp [hk, ihr hr, below_eq_self hl', above_eq_nil hl']

/-- **Taking a key out drops its binding and keeps the others.** -/
theorem toList_erase? {t t' : Tree K V} (h : t.IsOrdered) {key : K}
    (ht : t.erase? key = some t') : t'.toList = below key t.toList ++ above key t.toList := by
  induction t generalizing t' with
  | leaf => simp [erase?] at ht
  | node n p k v l r ihl ihr =>
    obtain ⟨hl, hr, hlk, hrk⟩ := isOrdered_node.1 h
    rw [toList, below_append, above_append, below_cons, above_cons]
    rw [erase?] at ht
    cases hc : compare key k with
    | lt =>
      rw [hc] at ht
      obtain ⟨l', hl', rfl⟩ := Option.map_eq_some_iff.1 ht
      have hk : compare k key = .gt := Std.OrientedCmp.gt_of_lt hc
      have hr' : ∀ e ∈ r.toList, compare e.1 key = .gt := fun e he =>
        Std.TransCmp.gt_trans (hrk e he) hk
      simp [hk, ihl hl hl', below_eq_nil hr', above_eq_self hr']
    | eq =>
      rw [hc] at ht
      cases ht
      have hk : key = k := Std.LawfulEqCmp.eq_of_compare hc
      subst hk
      simp [toList_merge, below_eq_self hlk, above_eq_nil hlk, below_eq_nil hrk,
        above_eq_self hrk]
    | gt =>
      rw [hc] at ht
      obtain ⟨r', hr', rfl⟩ := Option.map_eq_some_iff.1 ht
      have hk : compare k key = .lt := Std.OrientedCmp.lt_of_gt hc
      have hl' : ∀ e ∈ l.toList, compare e.1 key = .lt := fun e he =>
        Std.TransCmp.lt_trans (hlk e he) hk
      simp [hk, ihr hr hr', below_eq_self hl', above_eq_nil hl']

end Tree

namespace OrderedMap

/-! ## Ordered maps -/

/-- The keys of a map increase strictly. -/
def IsOrdered (m : OrderedMap K V) : Prop := m.toList.Pairwise fun a b => compare a.1 b.1 = .lt

theorem isOrdered_empty : (empty : OrderedMap K V).IsOrdered := List.Pairwise.nil

variable {m : OrderedMap K V}

theorem erase_of_get?_eq_none {key : K} (hk : m.get? key = none) : m.erase key = m := by
  have hn : m.erase? key = none := Option.map_eq_none_iff.2 (Tree.erase?_eq_none_iff.2 hk)
  rw [erase, hn, Option.getD_none]

variable [Std.TransOrd K] [Std.LawfulEqOrd K]

theorem mem_toList_iff (h : m.IsOrdered) {key : K} {value : V} :
    (key, value) ∈ m.toList ↔ m.get? key = some value := (Tree.get?_eq_some_iff h).symm

theorem mem_values_iff (h : m.IsOrdered) {value : V} :
    value ∈ m.values ↔ ∃ key, m.get? key = some value := by
  simp [values, ← mem_toList_iff h]

theorem mem_keys_iff (h : m.IsOrdered) {key : K} :
    key ∈ m.keys ↔ ∃ value, m.get? key = some value := by
  simp [keys, ← mem_toList_iff h]

omit [Std.TransOrd K] [Std.LawfulEqOrd K] in
/-- The keys are listed in their order. -/
theorem pairwise_keys (h : m.IsOrdered) : m.keys.Pairwise fun a b => compare a b = .lt :=
  List.pairwise_map.2 h

omit [Std.TransOrd K] in
/-- Every key is listed once. -/
theorem nodup_keys (h : m.IsOrdered) : m.keys.Nodup := by
  refine (pairwise_keys h).imp fun {a b} hab heq => ?_
  rw [heq] at hab
  simp at hab

theorem toList_insertWith (h : m.IsOrdered) (priority : Nat) (key : K) (value : V) :
    (m.insertWith priority key value).toList =
      below key m.toList ++ (key, value) :: above key m.toList :=
  Tree.toList_insert h priority key value

theorem isOrdered_insertWith (h : m.IsOrdered) (priority : Nat) (key : K) (value : V) :
    (m.insertWith priority key value).IsOrdered := by
  rw [IsOrdered, toList_insertWith h, List.pairwise_append, List.pairwise_cons]
  refine ⟨h.filter _, ⟨fun e he => ?_, h.filter _⟩, fun a ha b hb => ?_⟩
  · exact Std.OrientedCmp.lt_of_gt (mem_above.1 he).2
  · have hak : compare a.1 key = .lt := (mem_below.1 ha).2
    rcases List.mem_cons.1 hb with rfl | hb
    · exact hak
    · exact Std.TransCmp.lt_trans hak (Std.OrientedCmp.lt_of_gt (mem_above.1 hb).2)

/-- **After an insertion a key has its new value and the others have their old ones.** -/
theorem get?_insertWith [DecidableEq K] (h : m.IsOrdered) (priority : Nat) (key : K) (value : V)
    (x : K) : (m.insertWith priority key value).get? x =
      if x = key then some value else m.get? x := by
  ext y
  rw [← mem_toList_iff (isOrdered_insertWith h priority key value), toList_insertWith h,
    List.mem_append, List.mem_cons, mem_below, mem_above, mem_toList_iff h]
  cases hc : compare x key with
  | eq =>
    have hx : x = key := Std.LawfulEqCmp.eq_of_compare hc
    subst hx
    simp [eq_comm]
  | lt | gt =>
    have hx : x ≠ key := fun hx => by simp [hx] at hc
    simp [hx]

theorem isOrdered_insert [Hashable K] (h : m.IsOrdered) (key : K) (value : V) :
    (m.insert key value).IsOrdered := isOrdered_insertWith h _ key value

theorem get?_insert [Hashable K] [DecidableEq K] (h : m.IsOrdered) (key : K) (value : V) (x : K) :
    (m.insert key value).get? x = if x = key then some value else m.get? x :=
  get?_insertWith h _ key value x

theorem toList_erase (h : m.IsOrdered) (key : K) :
    (m.erase key).toList = below key m.toList ++ above key m.toList := by
  cases hk : m.erase? key with
  | some m' =>
    obtain ⟨t', ht', rfl⟩ := Option.map_eq_some_iff.1 hk
    rw [erase, hk]
    exact Tree.toList_erase? h ht'
  | none =>
    have hn : m.get? key = none := Tree.erase?_eq_none_iff.1 (Option.map_eq_none_iff.1 hk)
    rw [erase_of_get?_eq_none hn]
    refine (below_append_above h fun e he hek => ?_).symm
    rw [← hek, (mem_toList_iff h).1 he] at hn
    cases hn

theorem isOrdered_erase (h : m.IsOrdered) (key : K) : (m.erase key).IsOrdered := by
  rw [IsOrdered, toList_erase h, List.pairwise_append]
  exact ⟨h.filter _, h.filter _, fun a ha b hb =>
    Std.TransCmp.lt_trans (mem_below.1 ha).2 (Std.OrientedCmp.lt_of_gt (mem_above.1 hb).2)⟩

/-- **After a removal a key has no value and the others have their old ones.** -/
theorem get?_erase [DecidableEq K] (h : m.IsOrdered) (key x : K) :
    (m.erase key).get? x = if x = key then none else m.get? x := by
  ext y
  rw [← mem_toList_iff (isOrdered_erase h key), toList_erase h, List.mem_append, mem_below,
    mem_above, mem_toList_iff h]
  cases hc : compare x key with
  | eq =>
    have hx : x = key := Std.LawfulEqCmp.eq_of_compare hc
    simp [hx]
  | lt | gt =>
    have hx : x ≠ key := fun hx => by simp [hx] at hc
    simp [hx]

theorem isOrdered_ofList [Hashable K] (entries : List (K × V)) :
    (ofList entries : OrderedMap K V).IsOrdered := by
  suffices h : ∀ m : OrderedMap K V, m.IsOrdered →
      (entries.foldl (fun m e => m.insert e.1 e.2) m).IsOrdered from h _ isOrdered_empty
  induction entries with
  | nil => exact fun m hm => hm
  | cons e entries ih => exact fun m hm => ih _ (isOrdered_insert hm e.1 e.2)

/-- What a key of a list of bindings may be bound to is one of the values listed for it. -/
theorem mem_of_get?_ofList [Hashable K] [DecidableEq K] {entries : List (K × V)} {key : K}
    {value : V} (h : (ofList entries).get? key = some value) : (key, value) ∈ entries := by
  suffices hs : ∀ m : OrderedMap K V, m.IsOrdered →
      (entries.foldl (fun m e => m.insert e.1 e.2) m).get? key = some value →
      m.get? key = some value ∨ (key, value) ∈ entries from
    (hs _ isOrdered_empty h).resolve_left (by simp [empty, get?, Tree.get?])
  clear h
  induction entries with
  | nil => exact fun m _ h => .inl h
  | cons e entries ih =>
    intro m hm h
    rcases ih _ (isOrdered_insert hm e.1 e.2) h with h | h
    · rw [get?_insert hm] at h
      split at h
      · next hk =>
        cases Option.some.inj h
        exact .inr (hk ▸ List.mem_cons_self)
      · exact .inl h
    · exact .inr (List.mem_cons_of_mem e h)

/-- Every key of a list of bindings is bound to something. -/
theorem exists_get?_ofList [Hashable K] [DecidableEq K] {entries : List (K × V)} {key : K}
    (h : key ∈ entries.map Prod.fst) : ∃ value, (ofList entries).get? key = some value := by
  suffices hs : ∀ m : OrderedMap K V, m.IsOrdered →
      (key ∈ entries.map Prod.fst ∨ ∃ value, m.get? key = some value) →
      ∃ value, (entries.foldl (fun m e => m.insert e.1 e.2) m).get? key = some value from
    hs _ isOrdered_empty (.inl h)
  clear h
  induction entries with
  | nil => exact fun m _ h => h.resolve_left List.not_mem_nil
  | cons e entries ih =>
    intro m hm h
    refine ih _ (isOrdered_insert hm e.1 e.2) ?_
    rw [List.map_cons, List.mem_cons] at h
    rw [get?_insert hm]
    by_cases hk : key = e.1
    · exact .inr ⟨e.2, if_pos hk⟩
    · rw [if_neg hk]
      exact h.imp_left fun h => h.resolve_left hk

omit [Std.TransOrd K] [Std.LawfulEqOrd K] in
theorem isEmpty_eq_false_of_get? {key : K} {value : V} (h : m.get? key = some value) :
    m.isEmpty = false := by
  obtain ⟨_ | _⟩ := m
  · cases h
  · rfl

/-! ## Finding the last key up to a given one -/

theorem floor?_eq (h : m.IsOrdered) (key : K) : m.floor? key = (upTo key m.toList).getLast? := by
  rw [floor?, Tree.floor?_eq h, Option.or_none]
  rfl

/-- What is found is bound to a key that is not above the given one. -/
theorem get?_of_floor? (h : m.IsOrdered) {key k : K} {v : V} (hf : m.floor? key = some (k, v)) :
    m.get? k = some v ∧ (compare k key).isLE := by
  rw [floor?_eq h] at hf
  have hmem := mem_upTo.1 (List.mem_of_getLast? hf)
  exact ⟨(mem_toList_iff h).1 hmem.1, hmem.2⟩

/-- If a key is bound, what is found up to a greater one does not lie below it. -/
theorem exists_floor? (h : m.IsOrdered) {key k : K} {v : V} (hk : m.get? k = some v)
    (hle : (compare k key).isLE) :
    ∃ k' v', m.floor? key = some (k', v') ∧ (compare k k').isLE := by
  have hmem : (k, v) ∈ upTo key m.toList := mem_upTo.2 ⟨(mem_toList_iff h).2 hk, hle⟩
  have hsorted : (upTo key m.toList).Pairwise fun a b => compare a.1 b.1 = .lt := h.filter _
  rw [floor?_eq h]
  generalize upTo key m.toList = l at hmem hsorted
  obtain ⟨l, ⟨k', v'⟩, rfl⟩ := (List.eq_nil_or_concat l).resolve_left (List.ne_nil_of_mem hmem)
  rw [List.concat_eq_append] at hmem hsorted ⊢
  refine ⟨k', v', List.getLast?_concat, ?_⟩
  rcases List.mem_append.1 hmem with hl | hl
  · rw [(List.pairwise_append.1 hsorted).2.2 _ hl (k', v') List.mem_cons_self]
    rfl
  · cases List.mem_singleton.1 hl
    simp

/-! ## Equal maps -/

/-- Ordered maps that answer alike list the same bindings. -/
theorem toList_eq_of_get?_eq {n : OrderedMap K V} (hm : m.IsOrdered) (hn : n.IsOrdered)
    (h : ∀ key, m.get? key = n.get? key) : m.toList = n.toList := by
  refine List.Perm.eq_of_pairwise (fun a b _ _ hab hba => ?_) hm hn ?_
  · rw [Std.OrientedCmp.gt_of_lt hab] at hba
    cases hba
  · refine (List.perm_ext_iff_of_nodup ?_ ?_).2 fun ⟨k, v⟩ => ?_
    · exact (nodup_keys hm).of_map _
    · exact (nodup_keys hn).of_map _
    · rw [mem_toList_iff hm, mem_toList_iff hn, h k]

end OrderedMap

end Timetable
