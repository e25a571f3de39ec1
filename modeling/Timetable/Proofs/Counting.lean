import Mathlib.Data.List.Nodup
import Mathlib.Data.Set.Card
import Timetable.Distinct
import Timetable.Identifier
import Timetable.Numeric.Natural

/-!
# Counting with lists

A count is worked out by going through a list and adding up.  What is counted is a set.
`encard_mem` is the count of the members of a list, and `encard_pairs` that of the pairs whose first
component is in a list, added up over the list.  Neither holds of lists with repetitions.
-/

set_option autoImplicit false

namespace Timetable

variable {α β : Type}

/-- A list without repetitions has as many members as it is long. -/
theorem encard_mem {l : List α} (h : l.Nodup) : {a | a ∈ l}.encard = l.length := by
  classical
  rw [← List.toFinset_card_of_nodup h, ← Set.encard_coe_eq_coe_finsetCard, List.coe_toFinset]

/-- **Pairs are counted by their first components.** -/
theorem encard_pairs {l : List α} {f : α → Set β} {n : α → Nat} (h : l.Nodup)
    (hn : ∀ a ∈ l, (f a).encard = n a) :
    {e : α × β | e.1 ∈ l ∧ e.2 ∈ f e.1}.encard = total (l.map n) := by
  induction l with
  | nil => simp
  | cons a l ih =>
    obtain ⟨ha, hl⟩ := List.nodup_cons.1 h
    have hsplit : {e : α × β | e.1 ∈ a :: l ∧ e.2 ∈ f e.1} =
        Prod.mk a '' f a ∪ {e : α × β | e.1 ∈ l ∧ e.2 ∈ f e.1} := by
      ext e
      simp only [List.mem_cons, Set.mem_ofPred_eq, Set.mem_union, Set.mem_image]
      constructor
      · rintro ⟨rfl | hl, hf⟩
        · exact .inl ⟨e.2, hf, rfl⟩
        · exact .inr ⟨hl, hf⟩
      · rintro (⟨b, hb, rfl⟩ | ⟨hl, hf⟩)
        · exact ⟨.inl rfl, hb⟩
        · exact ⟨.inr hl, hf⟩
    have hdisjoint : Disjoint (Prod.mk a '' f a) {e : α × β | e.1 ∈ l ∧ e.2 ∈ f e.1} := by
      rw [Set.disjoint_left]
      rintro e ⟨b, -, rfl⟩ hmem
      exact ha hmem.1
    rw [hsplit, Set.encard_union_eq hdisjoint, (Prod.mk_right_injective a).encard_image,
      hn a List.mem_cons_self, ih hl fun b hb => hn b (List.mem_cons_of_mem a hb), List.map_cons,
      total_cons, Nat.cast_add]

/-- The set of the members of a list is as long as the list exactly if it has no repetitions. -/
theorem length_distinct_eq_iff [Ord α] [Std.TransOrd α] [Std.LawfulEqOrd α] {xs : List α} :
    (distinct xs).length = xs.length ↔ xs.Nodup := by
  classical
  have hperm : (distinct xs).Perm xs.dedup :=
    (List.perm_ext_iff_of_nodup (nodup_distinct xs) xs.nodup_dedup).2 fun a => by
      rw [mem_distinct, List.mem_dedup]
  rw [hperm.length_eq, ← List.dedup_eq_self]
  exact ⟨(List.dedup_sublist xs).eq_of_length, congrArg List.length⟩

/-! ## Lists of different numbers -/

/-- There are no more different numbers of some bits than there are words. -/
theorem length_le_of_nodup {l : List Nat} {n : Nat} (hdup : l.Nodup) (h : ∀ a ∈ l, a < n) :
    l.length ≤ n := by
  have hsub : l.Subperm (List.range n) :=
    List.subperm_of_subset hdup fun a ha => List.mem_range.2 (h a ha)
  exact List.length_range (n := n) ▸ hsub.length_le

theorem Id.length_le_of_nodup {k : Kind} {l : List (Id k)} {n : Nat} (hdup : l.Nodup)
    (h : ∀ id ∈ l, id.val < n) : l.length ≤ n := by
  rw [← List.length_map (f := Id.val)]
  exact Timetable.length_le_of_nodup (hdup.map fun _ _ => Id.ext)
    (List.forall_mem_map.2 h)

end Timetable
