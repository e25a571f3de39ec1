import Mathlib.Data.List.Nodup
import Mathlib.Data.List.Perm.Subperm
import Mathlib.Logic.Relation
import Timetable.Program.Prerequisites

/-!
# Circles among prerequisites

The search of `Timetable.Program.Prerequisites` walks along prerequisites and takes notes on a
`Trail`.  This file says what its answer means, in terms of the relation it walks along.

* `LeadsToCircle R c`: from `c` one can get to something that leads back to itself.  Whatever does
  so does it through one of its successors (`leadsToCircle_iff`).
* `Trail.IsClear`: what has been seen and left again leads to no circle.  A walk either turns up a
  circle, or comes back with a clear trail on which its first course is noted
  (`Trail.settles_explore`).
* `firstCircular?_eq_find?`: the search names the first course of the list that leads to a circle.

Fuel is no concern, as no walk comes to a course twice before it goes back, and only courses of the
list lead anywhere.
-/

set_option autoImplicit false

namespace Timetable

open Relation

/-! ## Leading to a circle -/

/-- Something that leads back to itself can be reached. -/
def LeadsToCircle {α : Type} (R : α → α → Prop) (a : α) : Prop :=
  ∃ b, ReflTransGen R a b ∧ TransGen R b b

/-- The way to a circle starts with a step to something that leads there. -/
theorem leadsToCircle_iff {α : Type} {R : α → α → Prop} {a : α} :
    LeadsToCircle R a ↔ ∃ b, R a b ∧ LeadsToCircle R b := by
  constructor
  · rintro ⟨d, had, hd⟩
    rcases ReflTransGen.cases_head had with rfl | ⟨b, hab, hbd⟩
    · obtain ⟨b, hab, hba⟩ := TransGen.head'_iff.1 hd
      exact ⟨b, hab, a, hba, hd⟩
    · exact ⟨b, hab, d, hbd, hd⟩
  · rintro ⟨b, hab, d, hbd, hd⟩
    exact ⟨d, hbd.head hab, hd⟩

/-- One course has another one among its prerequisites. -/
def Asks (prerequisites : CourseId → List CourseId) (c d : CourseId) : Prop := d ∈ prerequisites c

namespace Trail

variable {prerequisites : CourseId → List CourseId} {walk : Trail → CourseId → Option Trail}
  {t t' : Trail} {c d : CourseId}

/-! ## What a walk remembers -/

/-- What has been seen leads to no circle, unless the walk is in the middle of it. -/
def IsClear (prerequisites : CourseId → List CourseId) (t : Trail) : Prop :=
  ∀ x ∈ t.seen, x ∈ t.path ∨ ¬ LeadsToCircle (Asks prerequisites) x

/-- The walk is back where it was, it has seen more, and what it has left is clear. -/
structure Extends (prerequisites : CourseId → List CourseId) (t t' : Trail) : Prop where
  path : t'.path = t.path
  seen : t.seen ⊆ t'.seen
  isClear : t'.IsClear prerequisites

/-- The walk stands before a course: it has come from there by prerequisites, never to the same
course twice. -/
structure Approaches (prerequisites : CourseId → List CourseId) (courses : List CourseId)
    (t : Trail) (c : CourseId) : Prop where
  isClear : t.IsClear prerequisites
  leads : ∀ x ∈ t.path, TransGen (Asks prerequisites) x c
  nodup : t.path.Nodup
  subset : t.path ⊆ courses

theorem IsClear.extends (h : t.IsClear prerequisites) : Extends prerequisites t t :=
  ⟨rfl, List.Subset.refl _, h⟩

theorem Extends.trans {t'' : Trail} (h : Extends prerequisites t t')
    (h' : Extends prerequisites t' t'') : Extends prerequisites t t'' where
  path := h'.path.trans h.path
  seen := fun _ hx => h'.seen (h.seen hx)
  isClear := h'.isClear

theorem not_leadsToCircle (h : t.IsClear prerequisites) (hseen : c ∈ t.seen) (hpath : c ∉ t.path) :
    ¬ LeadsToCircle (Asks prerequisites) c := (h c hseen).resolve_left hpath

theorem IsClear.enter (h : t.IsClear prerequisites) (c : CourseId) :
    (t.enter c).IsClear prerequisites := by
  intro x hx
  rcases List.mem_cons.1 hx with rfl | hx
  · exact .inl List.mem_cons_self
  · exact (h x hx).imp_left (List.mem_cons_of_mem c)

/-- Having entered a course, the walk stands before each of its prerequisites. -/
theorem Approaches.enter {courses : List CourseId} (h : Approaches prerequisites courses t c)
    (hc : c ∉ t.path) (hmem : c ∈ courses) (hd : d ∈ prerequisites c) :
    Approaches prerequisites courses (t.enter c) d where
  isClear := h.isClear.enter c
  leads x hx := by
    rcases List.mem_cons.1 hx with rfl | hx
    · exact .single hd
    · exact (h.leads x hx).tail hd
  nodup := List.nodup_cons.2 ⟨hc, h.nodup⟩
  subset := List.cons_subset.2 ⟨hmem, h.subset⟩

theorem Approaches.of_extends {courses : List CourseId} (h : Approaches prerequisites courses t c)
    (ht : Extends prerequisites t t') : Approaches prerequisites courses t' c where
  isClear := ht.isClear
  leads := ht.path ▸ h.leads
  nodup := ht.path ▸ h.nodup
  subset := ht.path ▸ h.subset

/-- Whatever the walk does among the prerequisites of a course it has entered, it stands before each
of them one step further from the start. -/
theorem Approaches.next {courses : List CourseId}
    (hcourses : ∀ a, prerequisites a ≠ [] → a ∈ courses) (h : Approaches prerequisites courses t c)
    (hc : c ∉ t.path) (ht : Extends prerequisites (t.enter c) t') (hd : d ∈ prerequisites c) :
    Approaches prerequisites courses t' d ∧ t'.path.length = t.path.length + 1 := by
  have hmem : c ∈ courses := hcourses c (List.ne_nil_of_mem hd)
  refine ⟨(h.enter hc hmem hd).of_extends ht, ?_⟩
  rw [ht.path, Trail.enter, List.length_cons]

/-- The courses on the path are different courses of the list. -/
theorem Approaches.length_path_le {courses : List CourseId}
    (h : Approaches prerequisites courses t c) : t.path.length ≤ courses.length :=
  (List.subperm_of_subset h.nodup h.subset).length_le

/-- Nothing is behind a walk that has yet to start. -/
theorem IsClear.approaches {courses : List CourseId} (h : t.IsClear prerequisites)
    (hpath : t.path = []) : Approaches prerequisites courses t c :=
  ⟨h, by simp [hpath], by simp [hpath], by simp [hpath]⟩

/-! ## What a walk finds -/

/-- What it means for a walk to have turned up a circle, or to be back from some courses, on its
way from a course. -/
def Settles (prerequisites : CourseId → List CourseId) (t : Trail) (c : CourseId)
    (ds : List CourseId) : Option Trail → Prop
  | none => LeadsToCircle (Asks prerequisites) c
  | some t' => Extends prerequisites t t' ∧ ∀ d ∈ ds, d ∈ t'.seen ∧ d ∉ t'.path

/-- A prerequisite in the middle of the walk closes a circle, one that was left is clear already,
and any other is walked from. -/
theorem settles_visit {courses : List CourseId} (h : Approaches prerequisites courses t d)
    (hd : d ∈ prerequisites c) (hwalk : d ∉ t.path → Settles prerequisites t d [d] (walk t d)) :
    Settles prerequisites t c [d] (visit walk t d) := by
  rw [visit]
  split
  · next hpath => exact ⟨d, .single hd, h.leads d hpath⟩
  · next hpath =>
    split
    · next hseen =>
      refine ⟨h.isClear.extends, fun x hx => ?_⟩
      cases List.mem_singleton.1 hx
      exact ⟨hseen, hpath⟩
    · specialize hwalk hpath
      cases he : walk t d with
      | none =>
        rw [he] at hwalk
        exact leadsToCircle_iff.2 ⟨d, hd, hwalk⟩
      | some t' =>
        rw [he] at hwalk
        exact hwalk

/-- Visiting prerequisites one after the other finds what visiting each of them finds. -/
theorem settles_foldlM_visit {ds : List CourseId} (ht : t.IsClear prerequisites)
    (h : ∀ t', Extends prerequisites t t' → ∀ d ∈ ds,
      Settles prerequisites t' c [d] (visit walk t' d)) :
    Settles prerequisites t c ds (ds.foldlM (visit walk) t) := by
  induction ds generalizing t with
  | nil => exact ⟨ht.extends, fun d hd => absurd hd List.not_mem_nil⟩
  | cons d ds ih =>
    have hfirst := h t ht.extends d List.mem_cons_self
    rw [List.foldlM_cons]
    cases hd : visit walk t d with
    | none =>
      rw [hd] at hfirst
      exact hfirst
    | some t' =>
      rw [hd] at hfirst
      obtain ⟨hext, hdone⟩ := hfirst
      have hrest := ih hext.isClear fun u hu b hb =>
        h u (hext.trans hu) b (List.mem_cons_of_mem d hb)
      change Settles prerequisites t c (d :: ds) (ds.foldlM (visit walk) t')
      cases hds : ds.foldlM (visit walk) t' with
      | none =>
        rw [hds] at hrest
        exact hrest
      | some u =>
        rw [hds] at hrest
        refine ⟨hext.trans hrest.1, fun b hb => ?_⟩
        rcases List.mem_cons.1 hb with rfl | hb
        · obtain ⟨hseen, hpath⟩ := hdone b List.mem_cons_self
          exact ⟨hrest.1.seen hseen, hrest.1.path ▸ hpath⟩
        · exact hrest.2 b hb

/-- The walk leaves a course once it has been to all its prerequisites; if these are clear, so is
the course. -/
theorem settles_leave {found : Option Trail} (hc : c ∉ t.path)
    (h : Settles prerequisites (t.enter c) c (prerequisites c) found) :
    Settles prerequisites t c [c] (found.map (·.leave c)) := by
  cases found with
  | none => exact h
  | some t' =>
    obtain ⟨hext, hdone⟩ := h
    have hpath : (t'.leave c).path = t.path := by
      rw [leave, hext.path, enter, List.erase_cons_head]
    have hclear : ¬ LeadsToCircle (Asks prerequisites) c := fun hcircle => by
      obtain ⟨d, hd, hcircle⟩ := leadsToCircle_iff.1 hcircle
      exact not_leadsToCircle hext.isClear (hdone d hd).1 (hdone d hd).2 hcircle
    refine ⟨⟨hpath, fun x hx => hext.seen (List.mem_cons_of_mem c hx), fun x hx => ?_⟩,
      fun x hx => ?_⟩
    · rw [hpath]
      refine (hext.isClear x hx).elim (fun hx => ?_) .inr
      rw [hext.path] at hx
      rcases List.mem_cons.1 hx with rfl | hx
      · exact .inr hclear
      · exact .inl hx
    · cases List.mem_singleton.1 hx
      exact ⟨hext.seen List.mem_cons_self, hpath ▸ hc⟩

/-- **A walk from a course turns up a circle, or leaves the course and all behind it clear.** -/
theorem settles_explore {courses : List CourseId}
    (hcourses : ∀ a, prerequisites a ≠ [] → a ∈ courses) {fuel : Nat}
    (h : Approaches prerequisites courses t c) (hc : c ∉ t.path)
    (hfuel : courses.length < fuel + t.path.length) :
    Settles prerequisites t c [c] (explore prerequisites fuel t c) := by
  induction fuel generalizing t c with
  | zero =>
    have := h.length_path_le
    omega
  | succ fuel ih =>
    rw [explore]
    refine settles_leave hc (settles_foldlM_visit (h.isClear.enter c) fun t' ht' d hd => ?_)
    obtain ⟨happr, hlength⟩ := h.next hcourses hc ht' hd
    exact settles_visit happr hd fun hd' => ih happr hd' (by omega)

end Trail

/-! ## The first course that leads to a circle -/

theorem prerequisitesIn_ne_nil {courses : List Course} {c : CourseId}
    (h : prerequisitesIn courses c ≠ []) : c ∈ courses.map (·.id) := by
  rw [prerequisitesIn] at h
  cases hf : courses.find? (·.id = c) with
  | none => simp [hf] at h
  | some course =>
    refine List.mem_map.2 ⟨course, List.mem_of_find?_eq_some hf, ?_⟩
    simpa using List.find?_some hf

/-- The search never gives a walk too little fuel. -/
theorem length_courses_lt {courses : List Course} {t : Trail} (hpath : t.path = []) :
    (courses.map (·.id)).length < courses.length + 1 + t.path.length := by
  simp [hpath]

/-- What a walk finds that is started when nothing is left to go back from. -/
theorem settles_explore_courses {courses : List Course} {t : Trail} (hpath : t.path = [])
    (ht : t.IsClear (prerequisitesIn courses)) (c : CourseId) :
    t.Settles (prerequisitesIn courses) c [c]
      (t.explore (prerequisitesIn courses) (courses.length + 1) c) :=
  Trail.settles_explore (fun _ => prerequisitesIn_ne_nil) (ht.approaches hpath)
    (hpath ▸ List.not_mem_nil) (length_courses_lt hpath)

open Classical in
theorem firstCircularFrom_eq_find? {courses rest : List Course} {t : Trail} (hpath : t.path = [])
    (ht : t.IsClear (prerequisitesIn courses)) : firstCircularFrom courses t rest =
      (rest.map (·.id)).find? fun c => LeadsToCircle (Asks (prerequisitesIn courses)) c := by
  induction rest generalizing t with
  | nil => rfl
  | cons course rest ih =>
    rw [firstCircularFrom, List.map_cons, List.find?_cons]
    split
    · next hseen =>
      have hfresh : course.id ∉ t.path := hpath ▸ List.not_mem_nil
      rw [decide_eq_false (Trail.not_leadsToCircle ht hseen hfresh), ih hpath ht]
    · have hsettles := settles_explore_courses hpath ht course.id
      cases he : t.explore (prerequisitesIn courses) (courses.length + 1) course.id with
      | none =>
        rw [he] at hsettles
        have hcircle : LeadsToCircle (Asks (prerequisitesIn courses)) course.id := hsettles
        rw [decide_eq_true hcircle]
      | some t' =>
        rw [he] at hsettles
        obtain ⟨hext, hdone⟩ := hsettles
        obtain ⟨hseen, hleft⟩ := hdone _ List.mem_cons_self
        rw [decide_eq_false (Trail.not_leadsToCircle hext.isClear hseen hleft)]
        exact ih (hext.path.trans hpath) hext.isClear

open Classical in
/-- **The search names the first course of the list that leads to a circle.** -/
theorem firstCircular?_eq_find? (courses : List Course) : firstCircular? courses =
    (courses.map (·.id)).find? fun c => LeadsToCircle (Asks (prerequisitesIn courses)) c :=
  firstCircularFrom_eq_find? rfl fun _ hx => absurd hx List.not_mem_nil

end Timetable
