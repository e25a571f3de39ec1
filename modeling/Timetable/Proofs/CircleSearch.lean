import Mathlib.Data.List.Nodup
import Mathlib.Logic.Relation
import Timetable.Proofs.Integrity

/-!
# The search for circles comes to an end

`Trail.explore` is given fuel, and `firstCircular?` gives it more than there are courses.  Here the
same search is written down as rules that know of no fuel, one for each thing a walk can do:
`Trail.Visits` for the walks along prerequisites, and `Searches` for the list of courses walks are
started from.  A derivation is a search that came to an end.

* `Trail.Visits.unique`, `Searches.unique`: the rules leave no choice.
* `Trail.explores_explore`: the fuelled walk does what the rules say.  A walk is on the way from one
  course of the list to another, never to the same one twice, so it does not run out of fuel.
* `searches_iff`: the search comes to an end, with the answer of `firstCircular?` and no other.
* `ProgramRecord.circles_named_exactly`: this is the first course that leads to a circle of the
  relation `Requires`, if there is any.
-/

set_option autoImplicit false

namespace Timetable

open Relation

namespace Trail

variable {prerequisites : CourseId → List CourseId} {walk : Trail → CourseId → Option Trail}
  {t t' : Trail} {c d : CourseId} {ds : List CourseId} {found : Option Trail}

/-! ## Walks without fuel -/

/-- A walk visits courses one after the other and comes back, with nothing if it turns up a
circle. -/
inductive Visits (prerequisites : CourseId → List CourseId) :
    Trail → List CourseId → Option Trail → Prop
  /-- There is nothing left to visit. -/
  | done {t : Trail} : Visits prerequisites t [] (some t)
  /-- The walk is in the middle of the next course. -/
  | closes {t : Trail} {d : CourseId} {ds : List CourseId} (hpath : d ∈ t.path) :
    Visits prerequisites t (d :: ds) none
  /-- The next course was seen before. -/
  | passes {t : Trail} {d : CourseId} {ds : List CourseId} {found : Option Trail}
    (hpath : d ∉ t.path) (hseen : d ∈ t.seen) (hrest : Visits prerequisites t ds found) :
    Visits prerequisites t (d :: ds) found
  /-- The walk goes on from the next course and turns up a circle. -/
  | circles {t : Trail} {d : CourseId} {ds : List CourseId} (hpath : d ∉ t.path)
    (hseen : d ∉ t.seen) (hwalk : Visits prerequisites (t.enter d) (prerequisites d) none) :
    Visits prerequisites t (d :: ds) none
  /-- The walk goes on from the next course and comes back to it. -/
  | returns {t t' : Trail} {d : CourseId} {ds : List CourseId} {found : Option Trail}
    (hpath : d ∉ t.path) (hseen : d ∉ t.seen)
    (hwalk : Visits prerequisites (t.enter d) (prerequisites d) (some t'))
    (hrest : Visits prerequisites (t'.leave d) ds found) : Visits prerequisites t (d :: ds) found

/-- A walk enters a course, visits its prerequisites and leaves it again. -/
def Explores (prerequisites : CourseId → List CourseId) (t : Trail) (c : CourseId)
    (found : Option Trail) : Prop :=
  ∃ back, Visits prerequisites (t.enter c) (prerequisites c) back ∧ found = back.map (·.leave c)

/-- **At every turn of a walk one rule applies**, so it comes back in one way at most. -/
theorem Visits.unique {found' : Option Trail} (h : Visits prerequisites t ds found)
    (h' : Visits prerequisites t ds found') : found = found' := by
  induction h generalizing found' with
  | done => cases h'; rfl
  | closes hpath =>
    cases h' with
    | closes => rfl
    | passes hpath' => exact absurd hpath hpath'
    | circles hpath' => rfl
    | returns hpath' => exact absurd hpath hpath'
  | passes hpath hseen _ ih =>
    cases h' with
    | closes hpath' => exact absurd hpath' hpath
    | passes _ _ hrest' => exact ih hrest'
    | circles _ hseen' => exact absurd hseen hseen'
    | returns _ hseen' => exact absurd hseen hseen'
  | circles hpath hseen _ ih =>
    cases h' with
    | closes => rfl
    | passes _ hseen' => exact absurd hseen' hseen
    | circles => rfl
    | returns _ _ hwalk' => cases ih hwalk'
  | returns hpath hseen _ _ ihwalk ihrest =>
    cases h' with
    | closes hpath' => exact absurd hpath' hpath
    | passes _ hseen' => exact absurd hseen' hseen
    | circles _ _ hwalk' => cases ihwalk hwalk'
    | returns _ _ hwalk' hrest' =>
      cases ihwalk hwalk'
      exact ihrest hrest'

/-! ## The fuelled walk -/

/-- Visiting courses in turn follows the rules, if the walks from them do; each of them has to leave
the trail in order for the next. -/
theorem visits_foldlM_visit (ht : t.IsClear prerequisites)
    (hsettles : ∀ t', Extends prerequisites t t' → ∀ d ∈ ds,
      Settles prerequisites t' c [d] (visit walk t' d))
    (hwalk : ∀ t', Extends prerequisites t t' → ∀ d ∈ ds, d ∉ t'.path →
      Explores prerequisites t' d (walk t' d)) :
    Visits prerequisites t ds (ds.foldlM (visit walk) t) := by
  induction ds generalizing t with
  | nil => exact .done
  | cons d ds ih =>
    have hfirst := hsettles t ht.extends d List.mem_cons_self
    have hrest : ∀ t', Extends prerequisites t t' →
        Visits prerequisites t' ds (ds.foldlM (visit walk) t') := fun t' ht' =>
      ih ht'.isClear (fun u hu b hb => hsettles u (ht'.trans hu) b (List.mem_cons_of_mem d hb))
        fun u hu b hb => hwalk u (ht'.trans hu) b (List.mem_cons_of_mem d hb)
    rw [List.foldlM_cons]
    by_cases hpath : d ∈ t.path
    · rw [visit, if_pos hpath]
      exact .closes hpath
    · obtain ⟨back, hback, heq⟩ := hwalk t ht.extends d List.mem_cons_self hpath
      rw [visit, if_neg hpath] at hfirst ⊢
      by_cases hseen : d ∈ t.seen
      · rw [if_pos hseen]
        exact .passes hpath hseen (hrest t ht.extends)
      · rw [if_neg hseen, heq] at hfirst ⊢
        cases back with
        | none => exact .circles hpath hseen hback
        | some t' => exact .returns hpath hseen hback (hrest _ hfirst.1)

/-- **A walk with more fuel than there are courses ahead follows the rules.** -/
theorem explores_explore {courses : List CourseId}
    (hcourses : ∀ a, prerequisites a ≠ [] → a ∈ courses) {fuel : Nat}
    (h : Approaches prerequisites courses t c) (hc : c ∉ t.path)
    (hfuel : courses.length < fuel + t.path.length) :
    Explores prerequisites t c (explore prerequisites fuel t c) := by
  induction fuel generalizing t c with
  | zero =>
    have := h.length_path_le
    omega
  | succ fuel ih =>
    refine ⟨_, visits_foldlM_visit (c := c) (h.isClear.enter c) (fun t' ht' d hd => ?_)
      fun t' ht' d hd hd' => ?_, rfl⟩
    · obtain ⟨happr, hlength⟩ := h.next hcourses hc ht' hd
      exact settles_visit happr hd fun hd' => settles_explore hcourses happr hd' (by omega)
    · obtain ⟨happr, hlength⟩ := h.next hcourses hc ht' hd
      exact ih happr hd' (by omega)

end Trail

/-! ## The search without fuel -/

variable {courses rest : List Course} {t : Trail} {answer : Option CourseId}

/-- The search goes through a list of courses, walks from those that were not seen before, and
answers with the first whose walk turns up a circle. -/
inductive Searches (courses : List Course) : Trail → List Course → Option CourseId → Prop
  /-- There is no course left. -/
  | done {t : Trail} : Searches courses t [] none
  /-- The next course was seen by an earlier walk. -/
  | passes {t : Trail} {c : Course} {rest : List Course} {answer : Option CourseId}
    (hseen : c.id ∈ t.seen) (hrest : Searches courses t rest answer) :
    Searches courses t (c :: rest) answer
  /-- The walk from the next course turns up a circle. -/
  | circles {t : Trail} {c : Course} {rest : List Course} (hseen : c.id ∉ t.seen)
    (hwalk : t.Explores (prerequisitesIn courses) c.id none) :
    Searches courses t (c :: rest) (some c.id)
  /-- The walk from the next course comes back to it. -/
  | returns {t t' : Trail} {c : Course} {rest : List Course} {answer : Option CourseId}
    (hseen : c.id ∉ t.seen) (hwalk : t.Explores (prerequisitesIn courses) c.id (some t'))
    (hrest : Searches courses t' rest answer) : Searches courses t (c :: rest) answer

theorem Trail.Explores.unique {prerequisites : CourseId → List CourseId} {c : CourseId}
    {found found' : Option Trail} (h : t.Explores prerequisites c found)
    (h' : t.Explores prerequisites c found') : found = found' := by
  obtain ⟨back, hback, rfl⟩ := h
  obtain ⟨back', hback', rfl⟩ := h'
  rw [hback.unique hback']

/-- The search has one answer at most. -/
theorem Searches.unique {answer' : Option CourseId} (h : Searches courses t rest answer)
    (h' : Searches courses t rest answer') : answer = answer' := by
  induction h generalizing answer' with
  | done => cases h'; rfl
  | passes hseen _ ih =>
    cases h' with
    | passes _ hrest' => exact ih hrest'
    | circles hseen' => exact absurd hseen hseen'
    | returns hseen' => exact absurd hseen hseen'
  | circles hseen hwalk =>
    cases h' with
    | passes hseen' => exact absurd hseen' hseen
    | circles => rfl
    | returns _ hwalk' => cases hwalk.unique hwalk'
  | returns hseen hwalk _ ih =>
    cases h' with
    | passes hseen' => exact absurd hseen' hseen
    | circles _ hwalk' => cases hwalk.unique hwalk'
    | returns _ hwalk' hrest' =>
      cases hwalk.unique hwalk'
      exact ih hrest'

/-- Between two walks the search stands nowhere and has left nothing unclear, so the next walk has
all its fuel. -/
theorem searches_firstCircularFrom (hpath : t.path = [])
    (ht : t.IsClear (prerequisitesIn courses)) :
    Searches courses t rest (firstCircularFrom courses t rest) := by
  induction rest generalizing t with
  | nil => exact .done
  | cons course rest ih =>
    rw [firstCircularFrom]
    by_cases hseen : course.id ∈ t.seen
    · rw [if_pos hseen]
      exact .passes hseen (ih hpath ht)
    · have hwalk := Trail.explores_explore (fun _ => prerequisitesIn_ne_nil) (ht.approaches hpath)
        (hpath ▸ List.not_mem_nil : course.id ∉ t.path) (length_courses_lt hpath)
      have hsettles := settles_explore_courses hpath ht course.id
      rw [if_neg hseen]
      cases he : t.explore (prerequisitesIn courses) (courses.length + 1) course.id with
      | none =>
        rw [he] at hwalk
        exact .circles hseen hwalk
      | some t' =>
        rw [he] at hwalk hsettles
        obtain ⟨hext, -⟩ := hsettles
        exact .returns hseen hwalk (ih (hext.path.trans hpath) hext.isClear)

/-- **The search comes to an end, with one answer.** -/
theorem searches_iff (courses : List Course) (answer : Option CourseId) :
    Searches courses {} courses answer ↔ answer = firstCircular? courses := by
  have hsearches : Searches courses {} courses (firstCircular? courses) :=
    searches_firstCircularFrom rfl fun _ hx => absurd hx List.not_mem_nil
  exact ⟨fun h => h.unique hsearches, fun h => h ▸ hsearches⟩

namespace ProgramRecord

variable {r : ProgramRecord}

/-! ## What the answer means -/

/-- What an exact search for circles among the prerequisites of a description comes to. -/
structure NamesCircles (r : ProgramRecord) : Prop where
  /-- The search comes to an end, with one answer. -/
  searches_iff (answer : Option CourseId) :
    Searches r.courses {} r.courses answer ↔ answer = firstCircular? r.courses
  /-- It names nothing if no course is, however indirectly, a prerequisite of itself. -/
  eq_none_iff : firstCircular? r.courses = none ↔ ∀ c ∈ r.courses, ¬ TransGen r.Requires c.id c.id
  /-- Otherwise it names the first course of the list from which a circle can be reached. -/
  eq_some_iff (id : CourseId) : firstCircular? r.courses = some id ↔
    ∃ before c after, r.courses = before ++ c :: after ∧ c.id = id ∧
      LeadsToCircle r.Requires id ∧ ∀ b ∈ before, ¬ LeadsToCircle r.Requires b.id
  /-- What it names is reported as a defect. -/
  mem_defects_iff (id : CourseId) :
    .circularPrerequisites id ∈ r.defects ↔ firstCircular? r.courses = some id

/-- Whatever leads back to itself is a course of the description. -/
theorem exists_course_of_transGen {a b : CourseId} (h : TransGen r.Requires a b) :
    ∃ c ∈ r.courses, c.id = a := by
  obtain ⟨d, ⟨c, hc, hid, -⟩, -⟩ := TransGen.head'_iff.1 h
  exact ⟨c, hc, hid⟩

/-- There is no course that leads to a circle if there is no circle. -/
theorem forall_not_leadsToCircle_iff : (∀ c ∈ r.courses, ¬ LeadsToCircle r.Requires c.id) ↔
    ∀ c ∈ r.courses, ¬ TransGen r.Requires c.id c.id := by
  constructor
  · exact fun h c hc hcircle => h c hc ⟨c.id, .refl, hcircle⟩
  · rintro h c - ⟨b, -, hcircle⟩
    obtain ⟨d, hd, rfl⟩ := exists_course_of_transGen hcircle
    exact h d hd hcircle

open Classical in
/-- Identifiers being unique, the search names the first course that leads to a circle of the
description. -/
theorem firstCircular?_courses (hids : (r.courses.map (·.id)).Nodup) : firstCircular? r.courses =
    (r.courses.find? fun c => LeadsToCircle r.Requires c.id).map (·.id) := by
  rw [firstCircular?_eq_find?, asks_prerequisitesIn hids, List.find?_map]
  rfl

/-- Circles are reported by the last check only. -/
theorem mem_defects_circular {id : CourseId} :
    .circularPrerequisites id ∈ r.defects ↔ firstCircular? r.courses = some id := by
  simp [defects, duplicates, blockDefects, teacherDefects, roomDefects, courseDefects,
    sectionDefects, groupDefects, dangling]

/-- **The search for circles is exact**: it comes to an end, finds nothing if there is nothing to
find, and otherwise names the first course that leads to a circle. -/
theorem circles_named_exactly (hids : (r.courses.map (·.id)).Nodup) : r.NamesCircles where
  searches_iff := Timetable.searches_iff r.courses
  eq_none_iff := by
    classical
    rw [firstCircular?_courses hids, Option.map_eq_none_iff, List.find?_eq_none,
      ← forall_not_leadsToCircle_iff]
    simp
  eq_some_iff id := by
    classical
    rw [firstCircular?_courses hids, Option.map_eq_some_iff]
    constructor
    · rintro ⟨c, hc, rfl⟩
      obtain ⟨hcircle, before, after, heq, hbefore⟩ := List.find?_eq_some_iff_append.1 hc
      exact ⟨before, c, after, heq, rfl, by simpa using hcircle, by simpa using hbefore⟩
    · rintro ⟨before, c, after, heq, rfl, hcircle, hbefore⟩
      refine ⟨c, List.find?_eq_some_iff_append.2 ⟨?_, before, after, heq, ?_⟩, rfl⟩
      · simpa using hcircle
      · simpa using hbefore
  mem_defects_iff _ := mem_defects_circular

end ProgramRecord

/-! ## A search that is led into a circle -/

namespace Siding

/-- Three courses ask for each other in a circle, and a fourth asks for one of them; two more stand
before them in the list. -/
def record : ProgramRecord where
  courses := [course 1 [2], course 2 [], course 4 [2, 5], course 5 [6], course 6 [7], course 7 [5]]
where
  course (id : Nat) (prerequisites : List Nat) : Course :=
    { id := ⟨id⟩, estimatedSize := 1, maxSize := 1, teacherIds := [],
      prerequisiteIds := prerequisites.map .mk }

end Siding

open Siding in
theorem circles_named_exactly_siding : Searches record.courses {} record.courses (some ⟨4⟩) ∧
    .circularPrerequisites ⟨4⟩ ∈ record.defects ∧ LeadsToCircle record.Requires ⟨4⟩ := by
  have hexact := ProgramRecord.circles_named_exactly (r := record) (by decide)
  have hnamed : firstCircular? record.courses = some ⟨4⟩ := by decide
  obtain ⟨_, _, _, -, -, hcircle, -⟩ := (hexact.eq_some_iff _).1 hnamed
  exact ⟨(hexact.searches_iff _).2 hnamed.symm, (hexact.mem_defects_iff _).2 hnamed, hcircle⟩

end Timetable
