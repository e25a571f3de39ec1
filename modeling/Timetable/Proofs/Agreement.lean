import Timetable.Proofs.Replay

/-!
# When the indexes of a schedule agree

A start is added to the index of its room and to the index of the sections, under different keys.
Neither index is asked what it holds under its key: if a section is placed that is placed already,
the index of the room it was in goes on listing it, and if it is placed where another section
starts, the index of the sections goes on telling that the other one is there.
`IsOrdered.indexesMatch_add_iff` says that these are the only two ways to lose the agreement.

Nothing but the rules prevents either of them.  `AgreementKept kinds` asks for the agreement of all
schedules to which placing, forcing and removing lead under rules of some kinds, and for what
depends on it: that a start that is looked up by room and period is there, and that the rooms
together list every start once.  `agreementKept_iff` says that this is so exactly if there are the
rules against placing a section twice and against using a room twice.
-/

set_option autoImplicit false

namespace Timetable

variable {p : Program}

namespace Schedule

variable {s : Schedule p} {c a : Start}

/-! ## What agreement means -/

/-- The indexes of the rooms hold a section at a slot exactly if the index of the sections has it
start there. -/
def IndexesMatch (s : Schedule p) : Prop := ∀ room slot id,
  s.sectionAt? room slot = some id ↔ ∃ a, s.startOf? id = some a ∧ a.roomId = room ∧ a.slot = slot

/-- The indexes match, and it makes no difference by which of them a start is found. -/
structure InAgreement (s : Schedule p) : Prop where
  indexesMatch : s.IndexesMatch
  of_startingAt? : ∀ {q : Period} {room : RoomId} {a : Start}, q ∈ p.periods →
    s.startingAt? q.slot room = some a → a.roomId = room ∧ a.periodId = q.id
  startsIn_perm : (p.rooms.flatMap fun r => s.startsIn r.id).Perm s.starts

/-- **Adding a start keeps the indexes matched exactly if neither of them has anything else under
the key of the start.** -/
theorem IsOrdered.indexesMatch_add_iff (hs : s.IsOrdered) (h : s.IndexesMatch) :
    (s.add c).IndexesMatch ↔
      (∀ a, s.startOf? c.sectionId = some a → a.roomId = c.roomId ∧ a.slot = c.slot) ∧
        ∀ id, s.sectionAt? c.roomId c.slot = some id → id = c.sectionId := by
  have hadd : (s.add c).startOf? c.sectionId = some c := by rw [hs.startOf?_add, if_pos rfl]
  constructor
  · intro hm
    constructor
    · intro a ha
      by_contra hne
      -- the room the section was in still lists it
      have hat := (h a.roomId a.slot c.sectionId).2 ⟨a, ha, rfl, rfl⟩
      rw [← (hs.sectionAt?_add c _ _).trans (if_neg hne)] at hat
      obtain ⟨b, hb, hroom, hslot⟩ := (hm _ _ _).1 hat
      rw [hadd] at hb
      cases hb
      exact hne ⟨hroom.symm, hslot.symm⟩
    · intro id hid
      by_contra hne
      -- the section that was there is still said to be
      obtain ⟨a, ha, hroom, hslot⟩ := (h _ _ _).1 hid
      rw [← (hs.startOf?_add c id).trans (if_neg hne)] at ha
      have hat := (hm _ _ _).2 ⟨a, ha, hroom, hslot⟩
      rw [hs.sectionAt?_add, if_pos ⟨rfl, rfl⟩] at hat
      exact hne (Option.some.inj hat).symm
  · rintro ⟨hsection, hroom⟩ room slot id
    rw [hs.sectionAt?_add, hs.startOf?_add]
    by_cases hkey : room = c.roomId ∧ slot = c.slot <;> by_cases hid : id = c.sectionId
    · obtain ⟨rfl, rfl⟩ := hkey
      simp [hid]
    · obtain ⟨rfl, rfl⟩ := hkey
      simp only [and_self, if_true, if_neg hid]
      refine ⟨fun he => absurd (Option.some.inj he).symm hid, fun hex => ?_⟩
      exact absurd (hroom id ((h _ _ _).2 hex)) hid
    · subst hid
      rw [if_neg hkey, if_pos rfl, h]
      constructor
      · rintro ⟨a, ha, rfl, rfl⟩
        exact absurd (hsection a ha) hkey
      · rintro ⟨a, ha, rfl, rfl⟩
        cases ha
        exact absurd ⟨rfl, rfl⟩ hkey
    · rw [if_neg hkey, if_neg hid, h]

/-! ## Coherent schedules -/

namespace Coherent

variable (h : s.Coherent)

include h

theorem mem_startsIn_iff {room : RoomId} : a ∈ s.startsIn room ↔ s.Holds a ∧ a.roomId = room := by
  have hslot : a ∈ s.startsIn room ↔ ∃ slot, s.startingAt? slot room = some a := by
    simp only [startsIn, startingAt?_eq_bind, sectionAt?]
    cases hindex : s.rooms.get? room with
    | none => simp
    | some index =>
      simp only [List.mem_filterMap, OrderedMap.mem_values_iff (h.index hindex),
        Option.bind_some, Option.bind_eq_some_iff]
      constructor
      · rintro ⟨id, ⟨slot, hid⟩, ha⟩
        exact ⟨slot, id, hid, ha⟩
      · rintro ⟨slot, id, hid, ha⟩
        exact ⟨id, ⟨slot, hid⟩, ha⟩
  simp only [hslot, h.startingAt?_eq_some_iff, exists_and_left, exists_eq', and_true]

theorem nodup_startsIn (room : RoomId) : (s.startsIn room).Nodup := by
  rw [startsIn]
  split
  · exact List.nodup_nil
  · next index hindex =>
    have hslot : ∀ {e a}, e ∈ index.toList → s.startOf? e.2 = some a → a.slot = e.1 := by
      intro e a he ha
      have hget := (OrderedMap.mem_toList_iff (h.index hindex)).1 he
      obtain ⟨b, hb, -, hslot⟩ := h.sectionAt?_eq_some_iff.1
        (Option.bind_eq_some_iff.2 ⟨index, hindex, hget⟩)
      cases hb.symm.trans ha
      exact hslot
    refine List.pairwise_filterMap.2 (List.pairwise_map.2 ?_)
    refine List.Pairwise.imp_of_mem ?_
      (List.pairwise_map.1 (OrderedMap.nodup_keys (h.index hindex)))
    intro e e' he he' hne a ha a' ha' hab
    exact hne ((hslot he ha).symm.trans ((congrArg Start.slot hab).trans (hslot he' ha')))

/-- **In a coherent schedule the indexes agree.** -/
theorem inAgreement : s.InAgreement where
  indexesMatch _ _ _ := h.sectionAt?_eq_some_iff
  of_startingAt? {q room a} hq ha := by
    obtain ⟨hold, hroom, hslot⟩ := h.startingAt?_eq_some_iff.1 ha
    have hperiod := (h.isOf_of_holds hold).periodAt?_slot
    rw [hslot, p.periodAt?_slot hq] at hperiod
    exact ⟨hroom, (Option.some.inj hperiod).symm⟩
  startsIn_perm := by
    refine (List.perm_ext_iff_of_nodup ?_ h.nodup_starts).2 fun a => ?_
    · refine List.nodup_flatMap.2 ⟨fun r _ => h.nodup_startsIn r.id, ?_⟩
      refine (List.pairwise_map.1 (p.nodup_ids (f := Room.id) rfl)).imp fun hne a ha ha' => hne ?_
      rw [← (h.mem_startsIn_iff.1 ha).2, ← (h.mem_startsIn_iff.1 ha').2]
    · simp only [List.mem_flatMap, h.mem_startsIn_iff, h.mem_starts_iff]
      constructor
      · rintro ⟨r, -, ha, -⟩
        exact ha
      · intro ha
        obtain ⟨-, room, -, -, hroom, -⟩ := Start.make_eq_ok_iff.1 (h.isOf_of_holds ha)
        have hid : room.id = a.roomId := by simpa using List.find?_some hroom
        exact ⟨room, List.mem_of_find?_eq_some hroom, ha, hid.symm⟩

end Coherent

end Schedule

/-! ## Agreement under a configuration -/

/-- Lots decide whom a rule names, never whether it accepts. -/
theorem RuleKind.accepts_of_seed {s : Schedule p} {c : Start} {bounds : SizeBounds} {pins : Pins}
    {seed : UInt64} {kind : RuleKind} (seed' : UInt64)
    (h : (kind.rule bounds pins seed).Accepts s c) : (kind.rule bounds pins seed').Accepts s c := by
  cases kind with
  | resources => exact Rule.accepts_resources_iff.2 (Rule.accepts_resources_iff.1 h)
  | teacherGroupCap =>
    exact Rule.accepts_teacherGroupCap_iff.2 (Rule.accepts_teacherGroupCap_iff.1 h)
  | _ => exact h

/-- Whether a single start is placed or taken out. -/
def Operation.isUpdate : Operation → Bool
  | assign _ => true
  | force _ => true
  | removeAt _ _ => true
  | removeSection _ => true
  | _ => false

/-- Under every configuration with the given rules, the indexes of a schedule agree whatever is
placed, forced and taken out. -/
def AgreementKept (kinds : List RuleKind) : Prop :=
  ∀ (p : Program) (config : RuleConfig) (s : Schedule p), config.rules = kinds →
    Reaches config.rulebook (fun op => op.isUpdate = true) (.empty p) s → s.InAgreement

theorem agreementKept_of_mem {kinds : List RuleKind} (hdup : .duplicateSections ∈ kinds)
    (hroom : .roomConflict ∈ kinds) : AgreementKept kinds := by
  rintro p config s rfl hreach
  exact (RuleConfig.coherent_of_reaches hdup hroom hreach).inAgreement

/-! ## Two ways to lose it

There are two rooms, and two sections of different teachers, at a single period.  Once the first
section is placed, each of two further placements is objected to by one rule only. -/

namespace Overwritten

def record : ProgramRecord where
  teachers := [{ id := ⟨1⟩, periodIds := [⟨1⟩] }, { id := ⟨2⟩, periodIds := [⟨1⟩] }]
  rooms := [{ id := ⟨1⟩, capacity := 10, periodIds := [⟨1⟩] },
    { id := ⟨2⟩, capacity := 10, periodIds := [⟨1⟩] }]
  courses := [
    { id := ⟨1⟩, estimatedSize := 5, maxSize := 5, teacherIds := [⟨1⟩] },
    { id := ⟨2⟩, estimatedSize := 5, maxSize := 5, teacherIds := [⟨2⟩] }]
  sections := [
    { id := ⟨1⟩, courseId := ⟨1⟩, length := 1 },
    { id := ⟨2⟩, courseId := ⟨2⟩, length := 1 }]
  blocks := [{ id := ⟨1⟩, periods := [{ id := ⟨1⟩ }] }]

def program : Program := ⟨record, by rfl⟩

/-- The first section in the first room. -/
def first : Start := ⟨⟨⟨1⟩, 0⟩, ⟨1⟩, ⟨1⟩, ⟨1⟩, 1⟩

/-- The first section in the second room. -/
def moved : Start := ⟨⟨⟨1⟩, 0⟩, ⟨2⟩, ⟨1⟩, ⟨1⟩, 1⟩

/-- The second section in the first room. -/
def intruder : Start := ⟨⟨⟨1⟩, 0⟩, ⟨1⟩, ⟨2⟩, ⟨1⟩, 1⟩

/-- Only the first section is placed. -/
def held : Schedule program := (Schedule.empty program).add first

theorem isOf_first : first.IsOf program := by rfl

theorem coherent_held : held.Coherent :=
  Schedule.Coherent.empty.add isOf_first rfl fun a ha => by cases ha

/-- The second placements, and the rules that object to them. -/
def overwriting : List (RuleKind × Start) :=
  [(.duplicateSections, moved), (.roomConflict, intruder)]

theorem isOf_overwriting : ∀ e ∈ overwriting, e.2.IsOf program := by
  intro e he
  simp only [overwriting, List.mem_cons, List.not_mem_nil, or_false] at he
  rcases he with rfl | rfl <;> rfl

/-- The first section may be placed under any rules, and only one rule objects to each of the second
placements. -/
theorem accepts_overwriting : ∀ e ∈ overwriting, ∀ kind ∈ RuleKind.all, kind ≠ e.1 →
    (kind.rule {} .none 0).Accepts (.empty program) first ∧
      (kind.rule {} .none 0).Accepts held e.2 := by
  decide +kernel

/-- After either of the second placements the indexes do not match. -/
theorem not_indexesMatch_overwriting : ∀ e ∈ overwriting, ¬ (held.add e.2).IndexesMatch := by
  intro e he hmatch
  obtain ⟨hsection, hroom⟩ := (coherent_held.toIsOrdered.indexesMatch_add_iff
    coherent_held.inAgreement.indexesMatch).1 hmatch
  simp only [overwriting, List.mem_cons, List.not_mem_nil, or_false] at he
  rcases he with rfl | rfl
  · exact absurd (hsection first (by decide +kernel)).1 (by decide)
  · exact absurd (hroom first.sectionId (by decide +kernel)) (by decide)

theorem not_agreementKept {e : RuleKind × Start} (he : e ∈ overwriting) {kinds : List RuleKind}
    (hmissing : e.1 ∉ kinds) : ¬ AgreementKept kinds := by
  intro hkept
  let config : RuleConfig := { rules := kinds }
  have hbook : config.rulebook.IsUnpinned := config.isUnpinned_rulebook rfl
  have haccepts : ∀ r ∈ config.rulebook.rules,
      r.Accepts (.empty program) first ∧ r.Accepts held e.2 := by
    intro r hr
    obtain ⟨i, kind, hkind, rfl⟩ := config.mem_rules_rulebook.1 hr
    have hne : kind ≠ e.1 := fun heq => hmissing (heq ▸ List.mem_of_getElem? hkind)
    obtain ⟨hfirst, hsecond⟩ := accepts_overwriting e he kind (by cases kind <;> decide) hne
    exact ⟨RuleKind.accepts_of_seed _ hfirst, RuleKind.accepts_of_seed _ hsecond⟩
  have hfirst : (config.rulebook.assign (.empty program) first).2 = held :=
    Rulebook.assign_of_isValid (hbook.isValid_validate_iff.2 fun r hr => (haccepts r hr).1)
  have hsecond : (config.rulebook.assign held e.2).2 = held.add e.2 :=
    Rulebook.assign_of_isValid (hbook.isValid_validate_iff.2 fun r hr => (haccepts r hr).2)
  have hheld : Reaches config.rulebook (fun op => op.isUpdate = true) (.empty program) held :=
    hfirst ▸ Reaches.refl.assign rfl isOf_first
  have hadded : Reaches config.rulebook (fun op => op.isUpdate = true) (.empty program)
      (held.add e.2) :=
    hsecond ▸ hheld.assign rfl (isOf_overwriting e he)
  exact not_indexesMatch_overwriting e he (hkept program config _ rfl hadded).indexesMatch

end Overwritten

/-- **The indexes of all schedules agree exactly if no section may be placed twice and no room used
twice.** -/
theorem agreementKept_iff {kinds : List RuleKind} :
    AgreementKept kinds ↔ .duplicateSections ∈ kinds ∧ .roomConflict ∈ kinds := by
  constructor
  · intro hkept
    constructor
    · by_contra hmissing
      exact Overwritten.not_agreementKept List.mem_cons_self hmissing hkept
    · by_contra hmissing
      exact Overwritten.not_agreementKept (List.mem_cons_of_mem _ List.mem_cons_self) hmissing hkept
  · rintro ⟨hdup, hroom⟩
    exact agreementKept_of_mem hdup hroom

/-- The agreement is not kept under every rulebook: it is lost if there are no rules at all. -/
theorem not_agreementKept_nil : ¬ ∀ kinds, AgreementKept kinds := fun hkept =>
  Overwritten.not_agreementKept List.mem_cons_self List.not_mem_nil (hkept [])

end Timetable
