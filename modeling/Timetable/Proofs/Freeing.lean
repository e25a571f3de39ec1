import Timetable.Proofs.Booking
import Timetable.Proofs.Removal

/-!
# Taking out starts only helps

A candidate that is valid stays so when starts are taken out, and so does one with no fault of its
own.  Whatever the rules count, and whomever they find in the way, there are no more of them than
before.  The rule of prerequisites is the exception, what is taken out may have been needed.

* `Rulebook.isValid_of_spares`: a candidate with no fault is valid wherever none of those placed was
  named where more was placed.  This is what makes room for a start that is forced, too.
* `Rulebook.isLocallyValid_of_holdsLess` and `Rulebook.isValid_of_isPartOf`: both kinds of validity
  carry over to where less is placed.
* `Reachable.removal_frees`: so it does after any number of starts has been taken out.
-/

set_option autoImplicit false

namespace Timetable

variable {p : Program} {book : Rulebook} {s t u : Schedule p} {c : Start}

/-! ## Parts of a schedule -/

/-- What is placed in `t` is placed in `s`, too. -/
def Schedule.IsPartOf (t s : Schedule p) : Prop := ∀ a, t.Holds a → s.Holds a

namespace Schedule.IsPartOf

theorem trans (h : u.IsPartOf t) (h' : t.IsPartOf s) : u.IsPartOf s := fun a ha => h' a (h a ha)

theorem holdsLess (h : t.IsPartOf s) : t.HoldsLess s c := fun a ha _ => h a ha

end Schedule.IsPartOf

namespace Rulebook

/-- **A candidate with no fault is valid if its section is not placed and nobody who is placed was
named where more is placed.** -/
theorem isValid_of_spares (hbook : book.IsBuiltIn) (hs : s.Coherent) (ht : t.Coherent)
    (hc : c.IsOf p) (hless : t.HoldsLess s c) (hfresh : t.startOf? c.sectionId = none)
    (hspares : ∀ r ∈ book.rules, r.Spares s c t) (hlocal : (book.validate t c).isLocallyValid) :
    (book.validate t c).isValid := by
  refine isValid_validate_iff.2 ⟨isLocallyValid_validate_iff.1 hlocal, fun r hr a hnames => ?_⟩
  have hid : a.sectionId = c.sectionId := by
    obtain ⟨kind, bounds, pins, seed, rfl⟩ := hbook r hr
    exact RuleKind.sectionId_eq_of_names hs ht hc hless (hspares _ hr) hnames
  exact (hbook.namesPlaced r hr t c a ht hc hnames).sectionId_ne hfresh hid

/-- **A candidate with no fault of its own has none where less is placed**, as long as what it builds
on is still there. -/
theorem isLocallyValid_of_holdsLess (hbook : book.IsBuiltIn) (hs : s.Coherent) (ht : t.Coherent)
    (hless : t.HoldsLess s c) (hpre : .prerequisites ∈ book.rules →
      Rule.prerequisites.Permits s c → Rule.prerequisites.Permits t c)
    (h : (book.validate s c).isLocallyValid) : (book.validate t c).isLocallyValid := by
  refine isLocallyValid_validate_iff.2 ((isLocallyValid_validate_iff.1 h).imp_right ?_)
  intro hpermits r hr
  obtain ⟨kind, bounds, pins, seed, rfl⟩ := hbook r hr
  by_cases hkind : kind = .prerequisites
  · subst hkind
    exact hpre hr (hpermits _ hr)
  · exact RuleKind.permits_of_holdsLess hs ht hless hkind (hpermits _ hr)

/-- **A valid candidate is valid where less is placed**, unless the rulebook minds prerequisites. -/
theorem isValid_of_isPartOf (hbook : book.IsBuiltIn) (hdup : .duplicateSections ∈ book.rules)
    (hpre : .prerequisites ∉ book.rules) (hs : s.Coherent) (ht : t.Coherent) (hc : c.IsOf p)
    (hpart : t.IsPartOf s) (h : (book.validate s c).isValid) : (book.validate t c).isValid := by
  refine isValid_of_spares hbook hs ht hc hpart.holdsLess ?_ (fun r hr b _ _ => ?_)
    (isLocallyValid_of_holdsLess hbook hs ht hpart.holdsLess (absurd · hpre)
      (isLocallyValid_of_isValid h))
  · refine ht.startOf?_eq_none fun a ha => ?_
    exact (hpart a ha).sectionId_ne (startOf?_eq_none_of_isValid hdup h)
  · exact (isValid_validate_iff.1 h).2 r hr b

end Rulebook

/-! ## Taking out starts -/

/-- Whether a start is taken out. -/
def Operation.isRemoval : Operation → Bool
  | removeAt _ _ => true
  | removeSection _ => true
  | _ => false

/-- What is left after a start is taken out is part of what there was. -/
theorem Operation.isPartOf_of_leads {op : Operation} (hop : op.isRemoval = true) (hs : s.Coherent)
    (h : op.Leads book s t) : t.Coherent ∧ t.IsPartOf s := by
  cases op with
  | removeAt slot room =>
    cases h
    obtain ⟨hcoh, hholds⟩ := hs.removeAt slot room
    exact ⟨hcoh, fun a ha => ((hholds a).1 ha).1⟩
  | removeSection id =>
    cases h
    obtain ⟨hcoh, hholds⟩ := hs.removeSection id
    exact ⟨hcoh, fun a ha => ((hholds a).1 ha).1⟩
  | _ => cases hop

/-- What is left after starts are taken out is part of what there was. -/
theorem Reaches.isPartOf (hs : s.Coherent)
    (h : Reaches book (fun op => op.isRemoval = true) s t) : t.Coherent ∧ t.IsPartOf s := by
  induction h with
  | refl => exact ⟨hs, fun _ ha => ha⟩
  | step _ hop hleads ih =>
    obtain ⟨hcoh, hpart⟩ := Operation.isPartOf_of_leads hop ih.1 hleads
    exact ⟨hcoh, hpart.trans ih.2⟩

/-- **Taking out starts makes no candidate invalid**, unless the rulebook minds prerequisites. -/
theorem Reachable.removal_frees (hbook : book.IsBuiltIn) (hdup : .duplicateSections ∈ book.rules)
    (hroom : .roomConflict ∈ book.rules) (hpre : .prerequisites ∉ book.rules)
    (h : Reachable book s) (hremoved : Reaches book (fun op => op.isRemoval = true) s t)
    (hc : c.IsOf p) :
    ((book.validate s c).isValid → (book.validate t c).isValid) ∧
      ((book.validate s c).isLocallyValid → (book.validate t c).isLocallyValid) := by
  have hs := h.coherent hdup hroom hbook
  obtain ⟨ht, hpart⟩ := hremoved.isPartOf hs
  exact ⟨Rulebook.isValid_of_isPartOf hbook hdup hpre hs ht hc hpart,
    Rulebook.isLocallyValid_of_holdsLess hbook hs ht hpart.holdsLess (absurd · hpre)⟩

theorem removal_frees_second :
    let book := Sequel.bookOf [.resources, .teacherGroupCap, .lunch, .locked]
    let s := (book.assign (.empty Sequel.program) Sequel.first).2
    s.starts = [Sequel.first] ∧ (s.removeSection ⟨1⟩).2.starts = [] ∧
      (book.validate (s.removeSection ⟨1⟩).2 Sequel.second).isValid := by
  refine ⟨by decide +kernel, by decide +kernel, ?_⟩
  refine (Reachable.removal_frees (Sequel.isUnpinned_bookOf _).isBuiltIn
    (Sequel.duplicateSections_mem _) (Sequel.roomConflict_mem _)
    (@Sequel.rule_not_mem _ .prerequisites (by decide))
    (Reaches.refl.assign trivial Sequel.isOf_first) ?_ Sequel.isOf_second).1 (by decide +kernel)
  exact @Reaches.step _ _ _ _ _ _ (.removeSection ⟨1⟩) .refl rfl rfl

end Timetable
