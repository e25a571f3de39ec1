import Timetable.Proofs.Booking

/-!
# Pinned placements under a search

A section that is pinned is meant to stay where it is.  The rule of pinned placements sees to this by
finding fault with other starts that come into the room of a pinned one or take its teachers while
it is in session, so that they never get as far as evicting it.

This guards against evictions for the room and for teachers, and only against those.  The rules of
equipment, of caps and of lunches name starts in other rooms, of other teachers or at other times,
and a pinned one is taken out like any other.  `pinsSurvive_iff` says that this is all there is to
it: whatever starts are placed, forced, moved or exchanged, the pinned placements stay, exactly if
none of these three rules is configured.

For the one half, `HoldsPins.eq_of_names` shows that no other rule names a pinned start.  For the
other half one program is enough (`Contested`), in which each of the three rules has its own reason
to evict the pinned start.
-/

set_option autoImplicit false

namespace Timetable

/-! ## Looking up pins -/

namespace Pins

variable {pinned : List Triple} {id : SectionId} {t : Triple}

theorem mem_of_find?_ofList (h : (ofList pinned).find? id = some t) :
    t ∈ pinned ∧ t.sectionId = id := by
  obtain ⟨t', ht', he⟩ := List.mem_map.1 (OrderedMap.mem_of_get?_ofList h)
  cases he
  exact ⟨ht', rfl⟩

theorem exists_find?_ofList (h : t ∈ pinned) : ∃ t', (ofList pinned).find? t.sectionId = some t' := by
  refine OrderedMap.exists_get?_ofList ?_
  rw [List.map_map]
  exact List.mem_map_of_mem h

theorem holds_iff {pins : Pins} {c : Start} :
    pins.holds c ↔ ∃ t, pins.find? c.sectionId = some t ∧ allows t c := by
  rw [holds]
  cases pins.find? c.sectionId with
  | none => simp
  | some t => simp

theorem allows_iff {c : Start} : allows t c ↔ t.roomId = c.roomId ∧ t.periodId = c.periodId := by
  simp only [allows, Bool.and_eq_true, decide_eq_true_eq]

theorem isEmpty_eq_false_of_holds {pins : Pins} {c : Start} (h : pins.holds c) :
    pins.isEmpty = false := by
  obtain ⟨t, ht, -⟩ := holds_iff.1 h
  exact OrderedMap.isEmpty_eq_false_of_get? ht

end Pins

variable {p : Program} {book : Rulebook} {pinned : List Triple} {s t : Schedule p} {a b c : Start}

/-- Every pinned section is placed where it is pinned to. -/
def HoldsPins (pinned : List Triple) (s : Schedule p) : Prop :=
  ∀ t ∈ pinned, ∃ a, s.startOf? t.sectionId = some a ∧ Pins.allows t a

/-! ## What the rule of pinned placements guards against -/

/-- A pinned section is not placed anywhere else. -/
theorem Rule.holds_of_permits_locked {pins : Pins} {t : Triple} (h : (locked pins).Permits s c)
    (ht : pins.find? c.sectionId = some t) : pins.holds c := by
  refine Pins.holds_iff.2 ⟨t, ht, ?_⟩
  have hstart := (permits_iff.1 h).1
  simp only [locked, ht] at hstart
  by_contra hn
  cases hstart _ (mem_require_iff.2 ⟨Bool.eq_false_iff.2 hn, rfl⟩)

/-- A start that overlaps a pinned one is in another room and of other teachers. -/
theorem Rule.apart_of_permits_locked {pins : Pins} (hs : s.Coherent) (hc : c.IsOf p)
    (h : (locked pins).Permits s c) (ha : s.Holds a) (hpin : pins.holds a)
    (hne : a.sectionId ≠ c.sectionId) (hac : a.overlaps c) :
    a.roomId ≠ c.roomId ∧ ¬ p.shareTeacher c.sectionId a.sectionId := by
  obtain ⟨m, hm, o, ho, rfl⟩ := (exists_mem_occurring_presents_iff hs hc).2 ⟨ha, hac⟩
  have hpresent := (permits_iff.1 h).2 m hm
  simp only [locked, Pins.isEmpty_eq_false_of_holds hpin, Bool.false_eq_true, if_false] at hpresent
  rw [← sectionId_of_mem_presents hm] at hne ⊢
  rw [← roomId_of_mem_presents hm]
  change o.sectionId ≠ m.sectionId at hne
  change _ ∧ ¬ p.shareTeacher m.sectionId o.sectionId
  have hmem : o ∈ (s.occurring m.slot).filter fun o =>
      o.sectionId ≠ m.sectionId && pins.holds o.start :=
    List.mem_filter.2 ⟨ho, by simpa only [hpin, Bool.and_true, decide_eq_true_eq] using hne⟩
  by_contra hn
  have hclash : (decide (o.start.roomId ≠ m.roomId) && !p.shareTeacher m.sectionId o.sectionId) =
      false := by
    refine Bool.eq_false_iff.2 fun hapart => hn ?_
    simpa only [Bool.and_eq_true, Bool.not_eq_true', decide_eq_true_eq, Bool.not_eq_true]
      using hapart
  cases hpresent _ (List.mem_flatMap.2 ⟨o, hmem, mem_require_iff.2 ⟨hclash, rfl⟩⟩)

/-! ## Starts that are pinned -/

namespace HoldsPins

variable (h : HoldsPins pinned s)

include h

/-- What is placed for a pinned section is at the pin. -/
theorem holds_of_mem {t : Triple} (ht : t ∈ pinned) (ha : s.startOf? t.sectionId = some a)
    (hid : a.sectionId = t.sectionId) : (Pins.ofList pinned).holds a := by
  obtain ⟨t', ht'⟩ := Pins.exists_find?_ofList ht
  obtain ⟨hmem, hid'⟩ := Pins.mem_of_find?_ofList ht'
  obtain ⟨a', ha', hallows⟩ := h t' hmem
  rw [hid', ha] at ha'
  cases ha'
  exact Pins.holds_iff.2 ⟨t', hid ▸ ht', hallows⟩

/-- A start at a pin is placed already. -/
theorem holds_of_isOf (hs : s.Coherent) (hc : c.IsOf p) (hpin : (Pins.ofList pinned).holds c) :
    s.Holds c := by
  obtain ⟨t, ht, hallows⟩ := Pins.holds_iff.1 hpin
  obtain ⟨hmem, hid⟩ := Pins.mem_of_find?_ofList ht
  obtain ⟨a, ha, hallows'⟩ := h t hmem
  obtain ⟨hof, haid⟩ := hs.isOf ha
  obtain ⟨hr, hq⟩ := Pins.allows_iff.1 hallows
  obtain ⟨hr', hq'⟩ := Pins.allows_iff.1 hallows'
  have hac : a = c := hof.eq_of_ids hc (haid.trans hid) (hr'.symm.trans hr) (hq'.symm.trans hq)
  rw [← hac]
  exact hs.holds_of_startOf? ha

end HoldsPins

/-- A start that is not in itself at fault is at the pin of its section, if there is one. -/
theorem Rulebook.holds_of_isLocallyValid (hlocked : .locked book.pins ∈ book.rules)
    (hv : (book.validate s c).isLocallyValid) {t : Triple}
    (ht : book.pins.find? c.sectionId = some t) : book.pins.holds c := by
  rcases isLocallyValid_validate_iff.1 hv with hpin | hpermits
  · exact hpin
  · exact Rule.holds_of_permits_locked (hpermits _ hlocked) ht

/-! ## Pinned starts stay -/

section Survival

variable (hs : s.Coherent) (hlocked : .locked book.pins ∈ book.rules)
  (hpins : book.pins = .ofList pinned) (hheld : HoldsPins pinned s)

include hs hlocked hpins hheld

/-- What may be placed for a section that is placed at its pin is just that. -/
theorem HoldsPins.eq_of_sectionId_eq (hc : c.IsOf p) (ha : s.Holds a) (hpin : book.pins.holds a)
    {u : Schedule p} (hv : (book.validate u c).isLocallyValid) (hid : a.sectionId = c.sectionId) :
    a = c := by
  obtain ⟨t, ht, -⟩ := Pins.holds_iff.1 hpin
  rw [hid] at ht
  have hcpin := Rulebook.holds_of_isLocallyValid hlocked hv ht
  rw [hpins] at hcpin
  have hc' := hheld.holds_of_isOf hs hc hcpin
  rw [Schedule.Holds, ← hid, ha] at hc'
  exact Option.some.inj hc'

/-- **Only the rules of equipment, of caps and of lunches name a pinned start.** -/
theorem HoldsPins.eq_of_names (hteachers : s.NoTeacherTwice) (hc : c.IsOf p)
    (hv : (book.validate s c).isLocallyValid) {kind : RuleKind} {bounds : RuleKind.SizeBounds}
    {pins : Pins} {seed : UInt64}
    (hkind : kind ≠ .resources ∧ kind ≠ .teacherGroupCap ∧ kind ≠ .lunch)
    (hnames : (kind.rule bounds pins seed).Names s c a) (hpin : book.pins.holds a) : a = c := by
  have ha := RuleKind.holds_of_names hs hc hnames
  -- either the candidate is at a pin and thus placed, or the rule of pinned placements permits it
  have hcases : s.Holds c ∨ (Rule.locked book.pins).Permits s c := by
    rcases Rulebook.isLocallyValid_validate_iff.1 hv with hcpin | hpermits
    · rw [hpins] at hcpin
      exact .inl (hheld.holds_of_isOf hs hc hcpin)
    · exact .inr (hpermits _ hlocked)
  cases kind with
  | duplicateSections =>
    have hid := (hs.isOf (Rule.names_duplicateSections_iff.1 hnames)).2
    exact hheld.eq_of_sectionId_eq hs hlocked hpins hc ha hpin hv hid
  | teacherConflict =>
    obtain ⟨-, hac, hne, hshare⟩ := (Rule.names_teacherConflict_iff hs hc).1 hnames
    rcases hcases with hc' | hpermits
    · by_contra hn
      obtain ⟨slot, hslot⟩ := ((hs.isOf_of_holds ha).overlaps_iff hc).1 hac
      exact hteachers a (hs.mem_starts_iff.2 ha) c (hs.mem_starts_iff.2 hc') hn
        ((p.shareTeacher_comm _ _).1 hshare) slot hslot
    · exact absurd hshare (Rule.apart_of_permits_locked hs hc hpermits ha hpin hne hac).2
  | roomConflict =>
    obtain ⟨-, hac, hne, hr⟩ := (Rule.names_roomConflict_iff hs hc).1 hnames
    rcases hcases with hc' | hpermits
    · exact hs.apart ha hc' hr hac
    · exact absurd hr (Rule.apart_of_permits_locked hs hc hpermits ha hpin hne hac).1
  | localConflict => exact absurd hnames Rule.not_names_localConflict
  | roomProperties => exact absurd hnames Rule.not_names_roomProperties
  | resources => exact absurd rfl hkind.1
  | prerequisites => exact absurd hnames Rule.not_names_prerequisites
  | gradeRange => exact absurd hnames Rule.not_names_gradeRange
  | teacherGroupCap => exact absurd rfl hkind.2.1
  | lunch => exact absurd rfl hkind.2.2
  | locked => exact absurd hnames Rule.not_names_locked

/-- An exchange does not move a pinned start. -/
theorem HoldsPins.holds_exchange (hdup : .duplicateSections ∈ book.rules)
    (hroom : .roomConflict ∈ book.rules) (ha : s.Holds a) (hpin : book.pins.holds a) {x y : Start}
    {t : Schedule p} (ht : Move.swapPair book s x y = .ok t) : t.Holds a := by
  rcases Move.swapPair_cases ht with rfl | ⟨first, second, hfirst, hsecond, hv, hv', rfl⟩
  · exact ha
  · obtain ⟨hfirstOf, -, -, hfirstId⟩ := Start.isOf_of_make hfirst
    obtain ⟨hsecondOf, -, -, hsecondId⟩ := Start.isOf_of_make hsecond
    obtain ⟨hwithout, hholds⟩ := Move.coherent_without hs x y
    have hhalf := Rulebook.coherent_add hwithout hdup hroom hfirstOf hv
    rw [Rulebook.holds_add_of_isValid hhalf hdup hv',
      Rulebook.holds_add_of_isValid hwithout hdup hv, hholds]
    -- a pinned section that is exchanged is put back at its pin
    by_cases hxa : a.sectionId = x.sectionId
    · exact .inl (hheld.eq_of_sectionId_eq hs hlocked hpins hsecondOf ha hpin
        (Rulebook.isLocallyValid_of_isValid hv') (hxa.trans hsecondId.symm))
    · by_cases hya : a.sectionId = y.sectionId
      · exact .inr (.inl (hheld.eq_of_sectionId_eq hs hlocked hpins hfirstOf ha hpin
          (Rulebook.isLocallyValid_of_isValid hv) (hya.trans hfirstId.symm)))
      · exact .inr (.inr ⟨ha, hxa, hya⟩)

end Survival

/-- Pinned placements stay if all pinned starts do. -/
theorem HoldsPins.of_forall (hs : s.Coherent) (h : HoldsPins pinned s)
    (hkeep : ∀ a, s.Holds a → (Pins.ofList pinned).holds a → t.Holds a) : HoldsPins pinned t := by
  intro t' ht'
  obtain ⟨a, ha, hallows⟩ := h t' ht'
  have hid := (hs.isOf ha).2
  refine ⟨a, ?_, hallows⟩
  rw [← hid]
  exact hkeep a (hs.holds_of_startOf? ha) (h.holds_of_mem ht' ha hid)

/-- **Without the rules of equipment, of caps and of lunches, placing and exchanging starts preserves
the pinned placements.** -/
theorem HoldsPins.preserved (hbook : book.IsBuiltIn) (hdup : .duplicateSections ∈ book.rules)
    (hroom : .roomConflict ∈ book.rules) (hteacher : .teacherConflict ∈ book.rules)
    (hlocked : .locked book.pins ∈ book.rules) (hpins : book.pins = .ofList pinned)
    (hharmless : ∀ {kind bounds pins seed}, RuleKind.rule bounds pins seed kind ∈ book.rules →
      kind ≠ .resources ∧ kind ≠ .teacherGroupCap ∧ kind ≠ .lunch) :
    Preserved book fun s : Schedule p => Edits book (.empty p) s ∧ HoldsPins pinned s where
  assign {s c} hc h := by
    have hs := h.1.coherent hdup hroom .empty
    exact ⟨h.1.assign hc, h.2.of_forall hs fun a ha _ => Rulebook.holds_assign hs hdup ha⟩
  force {s c} hc h := by
    have hs := h.1.coherent hdup hroom .empty
    refine ⟨h.1.force hdup hroom hbook.namesPlaced .empty hc, h.2.of_forall hs fun a ha hpin => ?_⟩
    refine Rulebook.holds_force hbook hs hdup hc ha fun hv hmem => ?_
    obtain ⟨r, hr, hnames⟩ := Rulebook.mem_evictions_validate_iff.1 hmem
    obtain ⟨kind, bounds, pins, seed, rfl⟩ := hbook r hr
    exact h.2.eq_of_names hs hlocked hpins (h.1.noTeacherTwice hdup hroom hteacher) hc hv
      (hharmless hr) hnames (hpins ▸ hpin)
  exchange {s t x y} h ht := by
    have hs := h.1.coherent hdup hroom .empty
    refine ⟨h.1.exchange hdup hroom .empty ht, h.2.of_forall hs fun a ha hpin => ?_⟩
    exact h.2.holds_exchange hs hlocked hpins hdup hroom ha (hpins ▸ hpin) ht

/-! ## Survival under a configuration -/

/-- Under every configuration with the given rules, pinned placements that can be loaded together
and are in place stay there, whatever is placed, forced, moved or exchanged. -/
def PinsSurvive (kinds : List RuleKind) : Prop :=
  ∀ (p : Program) (config : RuleConfig) (s t : Schedule p), config.rules = kinds →
    (∃ loaded, config.rulebook.load p config.pinned = .ok loaded) →
    Reachable config.rulebook s → HoldsPins config.pinned s →
    Reaches config.rulebook (fun op => op.isPlacing = true) s t → HoldsPins config.pinned t

/-- Under a configuration with the guarding rules and without the other three, placing and exchanging
starts preserves the pinned placements. -/
theorem HoldsPins.preserved_rulebook {config : RuleConfig}
    (hdup : .duplicateSections ∈ config.rules) (hteacher : .teacherConflict ∈ config.rules)
    (hroom : .roomConflict ∈ config.rules) (hlocked : .locked ∈ config.rules)
    (hresources : .resources ∉ config.rules) (hcap : .teacherGroupCap ∉ config.rules)
    (hlunch : .lunch ∉ config.rules) :
    Preserved config.rulebook fun s : Schedule p =>
      Edits config.rulebook (.empty p) s ∧ HoldsPins config.pinned s := by
  obtain ⟨_, hdup⟩ := RuleConfig.exists_rule_mem hdup
  obtain ⟨_, hteacher⟩ := RuleConfig.exists_rule_mem hteacher
  obtain ⟨_, hroom⟩ := RuleConfig.exists_rule_mem hroom
  obtain ⟨_, hlocked⟩ := RuleConfig.exists_rule_mem hlocked
  refine HoldsPins.preserved config.isBuiltIn_rulebook hdup hroom hteacher hlocked rfl
    fun {kind _ _ _} hmem => ?_
  have hkind := RuleConfig.mem_of_rule_mem hmem
  refine ⟨?_, ?_, ?_⟩ <;> rintro rfl <;> contradiction

theorem pinsSurvive_of_harmless {kinds : List RuleKind} (hdup : .duplicateSections ∈ kinds)
    (hteacher : .teacherConflict ∈ kinds) (hroom : .roomConflict ∈ kinds) (hlocked : .locked ∈ kinds)
    (hresources : .resources ∉ kinds) (hcap : .teacherGroupCap ∉ kinds) (hlunch : .lunch ∉ kinds) :
    PinsSurvive kinds := by
  rintro p config s t rfl - hreach hheld hleads
  have hpres := HoldsPins.preserved_rulebook (p := p) hdup hteacher hroom hlocked hresources hcap
    hlunch
  obtain ⟨_, hdup⟩ := RuleConfig.exists_rule_mem hdup
  obtain ⟨_, hroom⟩ := RuleConfig.exists_rule_mem hroom
  exact (hpres.reaches ⟨hreach.edits hdup hroom config.isBuiltIn_rulebook, hheld⟩ hleads).2

/-! ## Three ways to evict a pinned start

One section is pinned to the first of two lunch periods, where it borrows the only unit of a
resource.  Each of three others has nothing to do with its room, and shares no teacher with it while
it is in session.  Still there is a rule for each of them by which the pinned section has to go. -/

namespace Contested

def record : ProgramRecord where
  teachers := [{ id := ⟨1⟩, periodIds := [⟨1⟩, ⟨2⟩] }, { id := ⟨2⟩, periodIds := [⟨1⟩, ⟨2⟩] },
    { id := ⟨3⟩, periodIds := [⟨1⟩, ⟨2⟩] }]
  rooms := [{ id := ⟨1⟩, capacity := 10, periodIds := [⟨1⟩, ⟨2⟩] },
    { id := ⟨2⟩, capacity := 10, periodIds := [⟨1⟩, ⟨2⟩] }]
  courses := [
    { id := ⟨1⟩, estimatedSize := 5, maxSize := 5, teacherIds := [⟨1⟩], resourceIds := [⟨1⟩] },
    { id := ⟨2⟩, estimatedSize := 5, maxSize := 5, teacherIds := [⟨2⟩], resourceIds := [⟨1⟩] },
    { id := ⟨3⟩, estimatedSize := 5, maxSize := 5, teacherIds := [⟨3⟩] },
    { id := ⟨4⟩, estimatedSize := 5, maxSize := 5, teacherIds := [⟨1⟩] }]
  sections := [{ id := ⟨1⟩, courseId := ⟨1⟩, length := 1 }, { id := ⟨2⟩, courseId := ⟨2⟩, length := 1 },
    { id := ⟨3⟩, courseId := ⟨3⟩, length := 1 }, { id := ⟨4⟩, courseId := ⟨4⟩, length := 1 }]
  blocks := [{ id := ⟨1⟩, periods := [{ id := ⟨1⟩, isLunch := true }, { id := ⟨2⟩, isLunch := true }] }]
  resources := [{ id := ⟨1⟩, floating := 1 }]
  groups := [{ id := ⟨1⟩, teacherIds := [⟨1⟩, ⟨3⟩], cap := 1 }]

def program : Program := ⟨record, by rfl⟩

/-- The first section is pinned to the first room and period. -/
def pin : Triple := ⟨⟨1⟩, ⟨1⟩, ⟨1⟩, true⟩

def config (kinds : List RuleKind) : RuleConfig := { rules := kinds, pinned := [pin] }

/-- The start that is pinned. -/
def pinnedStart : Start := ⟨⟨⟨1⟩, 0⟩, ⟨1⟩, ⟨1⟩, ⟨1⟩, 1⟩

/-- A section that needs the resource at the same time. -/
def borrower : Start := ⟨⟨⟨1⟩, 0⟩, ⟨2⟩, ⟨2⟩, ⟨1⟩, 1⟩

/-- A section of another teacher of a group that teaches one section at a time. -/
def colleague : Start := ⟨⟨⟨1⟩, 0⟩, ⟨2⟩, ⟨3⟩, ⟨1⟩, 1⟩

/-- A section of the same teacher in the other lunch period. -/
def laterLesson : Start := ⟨⟨⟨1⟩, 1⟩, ⟨2⟩, ⟨4⟩, ⟨2⟩, 1⟩

def rivals : List Start := [borrower, colleague, laterLesson]

/-- Only the pinned section is placed. -/
def held : Schedule program := (Schedule.empty program).add pinnedStart

theorem isOf_pinnedStart : pinnedStart.IsOf program := by rfl

theorem isOf_rival : ∀ c ∈ rivals, c.IsOf program := by
  intro c hc
  simp only [rivals, List.mem_cons, List.not_mem_nil, or_false] at hc
  rcases hc with rfl | rfl | rfl <;> rfl

theorem coherent_held : held.Coherent :=
  Schedule.Coherent.empty.add isOf_pinnedStart rfl fun a ha => by cases ha

theorem holds_held_iff : held.Holds a ↔ a = pinnedStart := by
  rw [held, Schedule.Coherent.empty.holds_add rfl]
  exact or_iff_left fun ha => by cases ha

theorem holds_pinnedStart : (Pins.ofList [pin]).holds pinnedStart := by decide +kernel

theorem holdsPins_held : HoldsPins [pin] held := by
  intro t ht
  cases List.mem_singleton.1 ht
  exact ⟨pinnedStart, by decide +kernel, by decide +kernel⟩

variable (kinds : List RuleKind)

/-- The pinned section may be placed under any rules: nothing is in its way, and no fault is found
with what is pinned. -/
theorem isValid_pinnedStart :
    ((config kinds).rulebook.validate (.empty program) pinnedStart).isValid := by
  refine Rulebook.isValid_validate_iff.2 ⟨.inl holds_pinnedStart, fun r hr a ha => ?_⟩
  obtain ⟨kind, bounds, pins, seed, rfl⟩ := (config kinds).isBuiltIn_rulebook r hr
  cases RuleKind.holds_of_names .empty isOf_pinnedStart ha

theorem load_pin : (config kinds).rulebook.load program [pin] = .ok held := by
  have horder : (config kinds).rulebook.placementOrder [(true, pinnedStart)] = [pinnedStart] :=
    List.perm_singleton.1 (Rulebook.placementOrder_perm _ _)
  have hplace : (config kinds).rulebook.placeAll (.empty program) [pinnedStart] = .ok held := by
    rw [Rulebook.placeAll]
    refine (if_pos (isValid_pinnedStart kinds)).trans (congrArg Except.ok ?_)
    exact Rulebook.assign_of_isValid (isValid_pinnedStart kinds)
  rw [← hplace, ← horder]
  rfl

theorem reachable_held : Reachable (config kinds).rulebook held := by
  have hreach : Reachable (config kinds).rulebook
      ((config kinds).rulebook.assign (.empty program) pinnedStart).2 :=
    Reaches.refl.assign trivial isOf_pinnedStart
  rwa [Rulebook.assign_of_isValid (isValid_pinnedStart kinds)] at hreach

/-- No rule finds fault with a rival, be the pinned section placed or not. -/
theorem permits_rival {r : Rule} (hr : r ∈ (config kinds).rulebook.rules) {c : Start}
    (hc : c ∈ rivals) : r.Permits held c ∧ r.Permits (held.remove pinnedStart) c := by
  obtain ⟨i, kind, -, rfl⟩ := (config kinds).mem_rules_rulebook.1 hr
  have hall : ∀ kind ∈ RuleKind.all, ∀ c ∈ rivals, ∀ s ∈ [held, held.remove pinnedStart],
      ∀ o ∈ (kind.rule (config []).bounds (.ofList [pin]) 0).objections s c, o.isFlaw = false := by
    decide +kernel
  have hkind : kind ∈ RuleKind.all := by cases kind <;> decide
  exact ⟨RuleKind.permits_of_seed _ (hall kind hkind c hc _ List.mem_cons_self),
    RuleKind.permits_of_seed _ (hall kind hkind c hc _ (List.mem_cons_of_mem _ List.mem_cons_self))⟩

section Rival

variable {kind : RuleKind} (hkind : kind ∈ kinds) (hc : c ∈ rivals)
  (hnames : ∀ bounds pins seed, (kind.rule bounds pins seed).Names held c pinnedStart)

include hkind hc hnames

/-- A rival that names the pinned section evicts it, and there is nothing else to evict. -/
theorem evictions_rival :
    ((config kinds).rulebook.validate held c).evictions = [pinnedStart] := by
  refine Rulebook.evictions_eq_singleton fun a => ⟨?_, ?_⟩
  · intro ha
    exact holds_held_iff.1 (Rulebook.holds_of_mem_evictions (config kinds).isBuiltIn_rulebook
      coherent_held (isOf_rival c hc) (Rulebook.mem_evictions_validate_iff.2 ha))
  · rintro rfl
    obtain ⟨seed, hmem⟩ := @RuleConfig.exists_rule_mem (config kinds) kind hkind
    exact ⟨_, hmem, hnames _ _ _⟩

/-- **A rival that names the pinned section takes its place.** -/
theorem force_rival :
    ((config kinds).rulebook.force held c).2 = (held.remove pinnedStart).add c := by
  have hlocal : ((config kinds).rulebook.validate held c).isLocallyValid :=
    Rulebook.isLocallyValid_validate_iff.2 (.inr fun r hr => (permits_rival kinds hr hc).1)
  have hcleared : (config kinds).rulebook.cleared held c = held.remove pinnedStart := by
    rw [Rulebook.cleared, evictions_rival kinds hkind hc hnames]
    rfl
  rw [← hcleared]
  refine Rulebook.force_of_isValid hlocal ?_
  rw [hcleared]
  -- without the pinned section nothing is placed, so nobody can be named
  refine Rulebook.isValid_validate_iff.2
    ⟨.inr fun r hr => (permits_rival kinds hr hc).2, fun r hr a ha => ?_⟩
  obtain ⟨kind, bounds, pins, seed, rfl⟩ := (config kinds).isBuiltIn_rulebook r hr
  have hpinned : held.Holds pinnedStart := holds_held_iff.2 rfl
  have ha' := RuleKind.holds_of_names (coherent_held.remove hpinned) (isOf_rival c hc) ha
  obtain ⟨ha', hne⟩ := (coherent_held.holds_remove hpinned).1 ha'
  exact hne (holds_held_iff.1 ha')

theorem not_pinsSurvive_of_names : ¬ PinsSurvive kinds := by
  intro hsurvive
  have hafter := hsurvive program (config kinds) held ((config kinds).rulebook.force held c).2 rfl
    ⟨held, load_pin kinds⟩ (reachable_held kinds) holdsPins_held
    (Reaches.refl.force rfl (isOf_rival c hc))
  rw [force_rival kinds hkind hc hnames] at hafter
  obtain ⟨a, ha, -⟩ := hafter pin List.mem_cons_self
  have hgone : ∀ c ∈ rivals, ((held.remove pinnedStart).add c).startOf? pin.sectionId = none := by
    decide +kernel
  rw [hgone c hc] at ha
  cases ha

end Rival

/-! ### The three rules -/

theorem names_borrower (seed : UInt64) :
    (Rule.resources seed).Names held borrower pinnedStart := by
  have hborrowers : Rule.borrowers held ⟨borrower, 0, ⟨1⟩⟩ ⟨1⟩ = [pinnedStart] := by
    decide +kernel
  refine Rule.names_resources_iff.2 ⟨⟨borrower, 0, ⟨1⟩⟩, by decide +kernel, ⟨1⟩, by decide +kernel,
    by decide +kernel, ?_, ?_⟩
  · rw [hborrowers]
    decide +kernel
  · rw [hborrowers, List.perm_singleton.1 (Rule.drawLots_perm (Rule.lot seed _ _) [pinnedStart])]
    decide +kernel

theorem names_colleague (seed : UInt64) :
    (Rule.teacherGroupCap seed).Names held colleague pinnedStart := by
  have hstarts : Rule.groupStarts held ⟨colleague, 0, ⟨1⟩⟩ (program.group ⟨1⟩) =
      [(pinnedStart, 1)] := by
    decide +kernel
  refine Rule.names_teacherGroupCap_iff.2 ⟨⟨colleague, 0, ⟨1⟩⟩, by decide +kernel, ⟨3⟩,
    by decide +kernel, ⟨1⟩, by decide +kernel, by decide +kernel, by decide +kernel, ?_⟩
  rw [hstarts, List.perm_singleton.1 (Rule.drawLots_perm (Rule.lot seed _ _) [(pinnedStart, 1)])]
  decide +kernel

theorem names_laterLesson : Rule.lunch.Names held laterLesson pinnedStart :=
  Rule.names_lunch_iff.2 (by decide +kernel)

theorem not_pinsSurvive_of_resources (h : .resources ∈ kinds) : ¬ PinsSurvive kinds :=
  not_pinsSurvive_of_names kinds h List.mem_cons_self fun _ _ seed => names_borrower seed

theorem not_pinsSurvive_of_teacherGroupCap (h : .teacherGroupCap ∈ kinds) : ¬ PinsSurvive kinds :=
  not_pinsSurvive_of_names kinds h (List.mem_cons_of_mem _ List.mem_cons_self) fun _ _ seed =>
    names_colleague seed

theorem not_pinsSurvive_of_lunch (h : .lunch ∈ kinds) : ¬ PinsSurvive kinds :=
  not_pinsSurvive_of_names kinds h
    (List.mem_cons_of_mem _ (List.mem_cons_of_mem _ List.mem_cons_self)) fun _ _ _ =>
      names_laterLesson

end Contested

/-- **Pinned placements survive every search exactly if there is no rule of equipment, of caps or of
lunches.** -/
theorem pinsSurvive_iff {kinds : List RuleKind} (hdup : .duplicateSections ∈ kinds)
    (hteacher : .teacherConflict ∈ kinds) (hroom : .roomConflict ∈ kinds)
    (hlocked : .locked ∈ kinds) : PinsSurvive kinds ↔
      .resources ∉ kinds ∧ .teacherGroupCap ∉ kinds ∧ .lunch ∉ kinds := by
  constructor
  · intro h
    exact ⟨fun hmem => Contested.not_pinsSurvive_of_resources kinds hmem h,
      fun hmem => Contested.not_pinsSurvive_of_teacherGroupCap kinds hmem h,
      fun hmem => Contested.not_pinsSurvive_of_lunch kinds hmem h⟩
  · rintro ⟨hresources, hcap, hlunch⟩
    exact pinsSurvive_of_harmless hdup hteacher hroom hlocked hresources hcap hlunch

theorem pinsSurvive_guarding_rules :
    PinsSurvive [.duplicateSections, .teacherConflict, .roomConflict, .locked] ∧
      ¬ PinsSurvive [.duplicateSections, .teacherConflict, .roomConflict, .locked, .lunch] :=
  ⟨(pinsSurvive_iff (by decide) (by decide) (by decide) (by decide)).2 (by decide),
    fun h => absurd ((pinsSurvive_iff (by decide) (by decide) (by decide) (by decide)).1 h)
      (by decide)⟩

/-- Guarding the room and the teachers of pinned placements is not enough to keep them. -/
theorem not_pinsSurvive_resources : ¬ ∀ kinds : List RuleKind, .duplicateSections ∈ kinds →
    .teacherConflict ∈ kinds → .roomConflict ∈ kinds → .locked ∈ kinds → PinsSurvive kinds := by
  intro h
  let kinds : List RuleKind :=
    [.duplicateSections, .teacherConflict, .roomConflict, .locked, .resources]
  exact Contested.not_pinsSurvive_of_resources kinds (by decide)
    (h kinds (by decide) (by decide) (by decide) (by decide))

end Timetable
