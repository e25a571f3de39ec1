import Timetable.Proofs.Batch
import Timetable.Proofs.Rulebook

/-!
# Schedules that can be reached

An `Operation` is something that can be done to a schedule: placing a start, with or without force,
taking one out, loading, and the moves of a search.  `Reaches book allowed s t` says that operations
of an allowed kind lead from `s` to `t`, and `Reachable book s` that any operations lead to `s` from
the schedule with nothing placed.

However involved an operation is, it only ever takes out starts that are placed and adds starts that
are valid at that moment.  `Edits book s t` is a sequence of such single edits, and
`Reachable.edits` reduces reachability to it, so that an invariant needs to be checked for two kinds
of edit only.  That the evictions are placed when they are taken out is up to the rules
(`Rulebook.NamesPlaced`), who are asked for it in coherent schedules only.  Coherence therefore is
carried along: `Edits.coherent`.

What the moves do, whatever they draw, is to place starts and to exchange two of them.  A property
that is preserved by these is preserved by every move, and so by a whole search: `Preserved.move`,
`Preserved.reaches`.

Some properties do not even depend on which starts are valid and which are evicted.  Those are kept by
everything, under any rules at all: `KeptByEdits.reachable`.
-/

set_option autoImplicit false

namespace Timetable

/-! ## Operations -/

/-- Something that can be done to a schedule. -/
inductive Operation
  | assign (c : Start)
  | force (c : Start)
  | removeAt (slot : Slot) (room : RoomId)
  | removeSection (id : SectionId)
  | load (triples : List Triple)
  | loadLenient (triples : List Triple)
  /-- One of the moves of a search, at a temperature and with any source of random draws. -/
  | move {G : Type} [RandomSource G] (kind : MoveKind) (temperature : Float) (rng : G)
  /-- What the swapping move does with two starts, however it came to draw them. -/
  | exchange (a b : Start)

namespace Operation

/-- Whether a schedule is loaded, which does away with the one there was. -/
def isLoad : Operation → Bool
  | load _ => true
  | loadLenient _ => true
  | _ => false

/-- Whether starts are placed, be it by a move: everything that a search does. -/
def isPlacing : Operation → Bool
  | assign _ => true
  | force _ => true
  | move _ _ _ => true
  | exchange _ _ => true
  | _ => false

variable {p : Program}

/-- An operation leads from a schedule to another one.  Only starts of the program are placed. -/
def Leads (book : Rulebook) (s t : Schedule p) : Operation → Prop
  | assign c => c.IsOf p ∧ (book.assign s c).2 = t
  | force c => c.IsOf p ∧ (book.force s c).2 = t
  | removeAt slot room => (s.removeAt slot room).2 = t
  | removeSection id => (s.removeSection id).2 = t
  | load triples => book.load p triples = .ok t
  | loadLenient triples => book.loadLenient p triples = .ok t
  | move kind temperature rng =>
    ∃ step, kind.move book s temperature rng = .ok step ∧ step.state = t
  | exchange a b => Move.swapPair book s a b = .ok t

end Operation

variable {p : Program} {book : Rulebook} {s t : Schedule p}

/-- Allowed operations lead from a schedule to another one, one after the other. -/
inductive Reaches (book : Rulebook) (allowed : Operation → Prop) (s : Schedule p) :
    Schedule p → Prop
  | refl : Reaches book allowed s s
  | step {t u : Schedule p} {op : Operation} :
    Reaches book allowed s t → allowed op → op.Leads book t u → Reaches book allowed s u

/-- Operations of any kind lead to a schedule from the one with nothing placed. -/
def Reachable (book : Rulebook) (s : Schedule p) : Prop :=
  Reaches book (fun _ => True) (.empty p) s

theorem Reaches.assign {allowed : Operation → Prop} (h : Reaches book allowed s t) {c : Start}
    (hop : allowed (.assign c)) (hc : c.IsOf p) :
    Reaches book allowed s (book.assign t c).2 := h.step hop ⟨hc, rfl⟩

theorem Reaches.force {allowed : Operation → Prop} (h : Reaches book allowed s t) {c : Start}
    (hop : allowed (.force c)) (hc : c.IsOf p) :
    Reaches book allowed s (book.force t c).2 := h.step hop ⟨hc, rfl⟩

/-! ## Moves -/

/-- A property that is preserved by placing and by exchanging starts. -/
structure Preserved (book : Rulebook) (P : Schedule p → Prop) : Prop where
  assign : ∀ {s c}, c.IsOf p → P s → P (book.assign s c).2
  force : ∀ {s c}, c.IsOf p → P s → P (book.force s c).2
  exchange : ∀ {s t a b}, P s → Move.swapPair book s a b = .ok t → P t

namespace Move

variable {G : Type} [RandomSource G] {P : Schedule p → Prop}

theorem swapTimes_preserves (hP : Preserved book P) {n : Nat} {rng : G}
    {step : Step G (Schedule p)} (hs : P s) (h : swapTimes book n s rng = .ok step) :
    P step.state := by
  induction n generalizing s rng with
  | zero =>
    cases h
    exact hs
  | succ n ih =>
    rw [swapTimes] at h
    split at h
    · cases h
      exact hs
    · simp only at h
      split at h
      · obtain ⟨t, ht, h⟩ := bind_eq_ok_iff.1 h
        exact ih (hP.exchange hs ht) h
      · exact ih hs h

end Move

/-- **A move preserves whatever placing and exchanging starts preserve.** -/
theorem Preserved.move {G : Type} [RandomSource G] {P : Schedule p → Prop}
    (hP : Preserved book P) {kind : MoveKind} {temperature : Float} {rng : G}
    {step : Step G (Schedule p)} (hs : P s)
    (h : kind.move book s temperature rng = .ok step) : P step.state := by
  cases kind with
  | greedy =>
    obtain ⟨-, -, h⟩ := (Move.meets_placeBatch (P := fun _ => P) (fun hc _ => hP.assign hc)
      (fun _ => hs) temperature rng).of_eq_ok h
    exact h
  | destructive =>
    obtain ⟨-, -, h⟩ := (Move.meets_placeBatch (P := fun _ => P) (fun hc _ => hP.force hc)
      (fun _ => hs) temperature rng).of_eq_ok h
    exact h
  | destructiveByRoom =>
    obtain ⟨-, -, -, h⟩ := (Move.meets_fillRooms (P := fun _ => P) (fun hc _ => hP.force hc)
      (fun _ => hs) temperature rng).of_eq_ok h
    exact h
  | swapping =>
    obtain ⟨n, -, h⟩ := bind_eq_ok_iff.1 h
    exact Move.swapTimes_preserves hP hs h

/-- An operation that places starts preserves what placing and exchanging starts preserve. -/
theorem Preserved.leads {P : Schedule p → Prop} (hP : Preserved book P) {op : Operation}
    (hop : op.isPlacing = true) (hs : P s) (h : op.Leads book s t) : P t := by
  cases op with
  | assign c =>
    obtain ⟨hc, rfl⟩ := h
    exact hP.assign hc hs
  | force c =>
    obtain ⟨hc, rfl⟩ := h
    exact hP.force hc hs
  | move kind temperature rng =>
    obtain ⟨step, hstep, rfl⟩ := h
    exact hP.move hs hstep
  | exchange a b => exact hP.exchange hs h
  | removeAt slot room => cases hop
  | removeSection id => cases hop
  | load triples => cases hop
  | loadLenient triples => cases hop

/-- **A search preserves whatever placing and exchanging starts preserve.** -/
theorem Preserved.reaches {P : Schedule p → Prop} (hP : Preserved book P) (hs : P s)
    (h : Reaches book (fun op => op.isPlacing = true) s t) : P t := by
  induction h with
  | refl => exact hs
  | step _ hop hleads ih => exact hP.leads hop ih hleads

/-! ## Exchanging two starts -/

/-- The schedule without the sections of two starts. -/
def Move.without (s : Schedule p) (a b : Start) : Schedule p :=
  ((s.removeSection a.sectionId).2.removeSection b.sectionId).2

theorem Move.coherent_without (hs : s.Coherent) (a b : Start) : (without s a b).Coherent ∧
    ∀ d, (without s a b).Holds d ↔
      s.Holds d ∧ d.sectionId ≠ a.sectionId ∧ d.sectionId ≠ b.sectionId := by
  obtain ⟨ha, hholdsa⟩ := hs.removeSection a.sectionId
  obtain ⟨hb, hholdsb⟩ := ha.removeSection b.sectionId
  refine ⟨hb, fun d => ?_⟩
  rw [without, hholdsb, hholdsa, and_assoc]

/-- **Each of two sections is placed where the other one was, if it is valid there once both are taken
out and the other is placed; else nothing happens.** -/
theorem Move.swapPair_cases {a b : Start} (h : Move.swapPair book s a b = .ok t) :
    t = s ∨ ∃ first second, Start.make p a.periodId a.roomId b.sectionId = .ok first ∧
      Start.make p b.periodId b.roomId a.sectionId = .ok second ∧
      (book.validate (without s a b) first).isValid ∧
      (book.validate ((without s a b).add first) second).isValid ∧
      t = ((without s a b).add first).add second := by
  rw [swapPair] at h
  split at h
  · cases h
    exact .inl rfl
  · obtain ⟨first, hfirst, h⟩ := bind_eq_ok_iff.1 h
    obtain ⟨second, hsecond, h⟩ := bind_eq_ok_iff.1 h
    cases first with
    | none =>
      cases h
      exact .inl rfl
    | some first =>
      cases second with
      | none =>
        cases h
        exact .inl rfl
      | some second =>
        rw [PlacementError.toOption_eq_ok_some_iff] at hfirst hsecond
        change (if (!(book.validate (without s a b) first).isValid) = true then Except.ok s
          else Except.ok (if (book.validate (book.assign (without s a b) first).2 second).isValid
            then (book.assign (book.assign (without s a b) first).2 second).2 else s)) =
          Except.ok t at h
        by_cases hv : (book.validate (without s a b) first).isValid
        · rw [if_neg (by simp [hv]), Rulebook.assign_of_isValid hv] at h
          by_cases hv' : (book.validate ((without s a b).add first) second).isValid
          · rw [if_pos hv', Rulebook.assign_of_isValid hv'] at h
            cases h
            exact .inr ⟨first, second, hfirst, hsecond, hv, hv', rfl⟩
          · rw [if_neg hv'] at h
            cases h
            exact .inl rfl
        · rw [if_pos (by simp [hv])] at h
          cases h
          exact .inl rfl

/-! ## Single edits -/

/-- Starts that are placed are taken out, and starts that are valid are added. -/
inductive Edits (book : Rulebook) (s : Schedule p) : Schedule p → Prop
  | refl : Edits book s s
  | remove {t : Schedule p} {a : Start} : Edits book s t → t.Holds a → Edits book s (t.remove a)
  | add {t : Schedule p} {c : Start} : Edits book s t → c.IsOf p → (book.validate t c).isValid →
    Edits book s (t.add c)

namespace Edits

theorem assign (h : Edits book s t) {c : Start} (hc : c.IsOf p) :
    Edits book s (book.assign t c).2 := by
  rcases book.assign_cases t c with he | ⟨hv, he⟩
  · rwa [he]
  · rw [he]
    exact h.add hc hv

theorem placeSome (h : Edits book s t) {l : List Start} (hl : ∀ c ∈ l, c.IsOf p) :
    Edits book s (book.placeSome t l) := by
  induction l generalizing t with
  | nil => exact h
  | cons c l ih =>
    exact ih (h.assign (hl c List.mem_cons_self)) fun b hb => hl b (List.mem_cons_of_mem c hb)

theorem placeAll (h : Edits book s t) {u : Schedule p} {l : List Start} (hl : ∀ c ∈ l, c.IsOf p)
    (hu : book.placeAll t l = .ok u) : Edits book s u := by
  rw [← Rulebook.placeSome_of_placeAll hu]
  exact h.placeSome hl

theorem removeSection (h : Edits book s t) (ht : t.Coherent) (id : SectionId) :
    Edits book s (t.removeSection id).2 := by
  rw [Schedule.removeSection]
  split
  · exact h
  · next ha => exact h.remove (ht.holds_of_startOf? ha)

theorem removeAt (h : Edits book s t) (ht : t.Coherent) (slot : Slot) (room : RoomId) :
    Edits book s (t.removeAt slot room).2 := by
  rw [Schedule.removeAt]
  split
  · exact h
  · next ha => exact h.remove (ht.startingAt?_eq_some_iff.1 ha).1

theorem foldl_remove (h : Edits book s t) (ht : t.Coherent) {l : List Start}
    (hl : ∀ a ∈ l, t.Holds a) (hnodup : l.Nodup) :
    Edits book s (l.foldl Schedule.remove t) := by
  induction l generalizing t with
  | nil => exact h
  | cons a l ih =>
    obtain ⟨hal, hnodup⟩ := List.nodup_cons.1 hnodup
    have ha := hl a List.mem_cons_self
    exact ih (h.remove ha) (ht.remove ha) (fun b hb => (ht.holds_remove ha).2
      ⟨hl b (List.mem_cons_of_mem a hb), fun hba => hal (hba ▸ hb)⟩) hnodup

end Edits

/-! ## Coherence -/

namespace Rulebook

variable {c : Start}

/-- A section that may be placed is not placed. -/
theorem startOf?_eq_none_of_isValid (hdup : .duplicateSections ∈ book.rules)
    (hv : (book.validate s c).isValid) : s.startOf? c.sectionId = none := by
  refine Option.eq_none_iff_forall_ne_some.2 fun a ha => ?_
  exact (isValid_validate_iff.1 hv).2 _ hdup a (Rule.names_duplicateSections_iff.2 ha)

/-- A start that may be placed keeps clear of the starts in its room. -/
theorem not_overlaps_of_isValid (h : s.Coherent) (hdup : .duplicateSections ∈ book.rules)
    (hroom : .roomConflict ∈ book.rules) (hc : c.IsOf p) (hv : (book.validate s c).isValid) :
    ∀ a, s.Holds a → a.roomId = c.roomId → ¬ a.overlaps c := by
  intro a ha hr hac
  exact (isValid_validate_iff.1 hv).2 _ hroom a ((Rule.names_roomConflict_iff h hc).2
    ⟨ha, hac, ha.sectionId_ne (startOf?_eq_none_of_isValid hdup hv), hr⟩)

/-- **A start that is valid may be added.** -/
theorem coherent_add (h : s.Coherent) (hdup : .duplicateSections ∈ book.rules)
    (hroom : .roomConflict ∈ book.rules) (hc : c.IsOf p) (hv : (book.validate s c).isValid) :
    (s.add c).Coherent :=
  h.add hc (startOf?_eq_none_of_isValid hdup hv) (not_overlaps_of_isValid h hdup hroom hc hv)

theorem starts_add (h : s.Coherent) (hdup : .duplicateSections ∈ book.rules)
    (hroom : .roomConflict ∈ book.rules) (hc : c.IsOf p) (hv : (book.validate s c).isValid) :
    (s.add c).starts.Perm (c :: s.starts) :=
  h.starts_add hc (startOf?_eq_none_of_isValid hdup hv)
    (not_overlaps_of_isValid h hdup hroom hc hv)

/-! ### What stays -/

theorem holds_of_mem_evictions (hbook : book.IsBuiltIn) (hs : s.Coherent) (hc : c.IsOf p)
    {a : Start} (ha : a ∈ (book.validate s c).evictions) : s.Holds a :=
  hbook.namesPlaced.holds_of_mem_evictions hs hc ha

/-- Without the evictions there is what there was before and is not evicted. -/
theorem coherent_cleared (hbook : book.IsBuiltIn) (hs : s.Coherent) (hc : c.IsOf p) :
    (book.cleared s c).Coherent ∧
      ∀ a, (book.cleared s c).Holds a ↔ s.Holds a ∧ a ∉ (book.validate s c).evictions :=
  coherent_foldl_remove hs (fun _ ha => holds_of_mem_evictions hbook hs hc ha) (nodup_evictions _)

theorem holds_add_of_isValid (hs : s.Coherent) (hdup : .duplicateSections ∈ book.rules)
    (hv : (book.validate s c).isValid) {a : Start} : (s.add c).Holds a ↔ a = c ∨ s.Holds a :=
  hs.holds_add (startOf?_eq_none_of_isValid hdup hv)

theorem holds_assign (hs : s.Coherent) (hdup : .duplicateSections ∈ book.rules) {a : Start}
    (ha : s.Holds a) : (book.assign s c).2.Holds a := by
  rcases book.assign_cases s c with he | ⟨hv, he⟩
  · rwa [he]
  · rw [he, holds_add_of_isValid hs hdup hv]
    exact .inr ha

/-- Forcing a start leaves everything in place that it does not evict. -/
theorem holds_force (hbook : book.IsBuiltIn) (hs : s.Coherent)
    (hdup : .duplicateSections ∈ book.rules) (hc : c.IsOf p) {a : Start} (ha : s.Holds a)
    (hkeep : (book.validate s c).isLocallyValid → a ∈ (book.validate s c).evictions → a = c) :
    (book.force s c).2.Holds a := by
  rcases book.force_cases s c with he | ⟨hlocal, hv, he⟩
  · rwa [he]
  · obtain ⟨hcleared, hholds⟩ := coherent_cleared hbook hs hc
    rw [he, holds_add_of_isValid hcleared hdup hv, hholds]
    by_cases hmem : a ∈ (book.validate s c).evictions
    · exact .inl (hkeep hlocal hmem)
    · exact .inr ⟨ha, hmem⟩

end Rulebook

section Coherence

variable (hdup : .duplicateSections ∈ book.rules) (hroom : .roomConflict ∈ book.rules)

include hdup hroom

/-- **Edits keep a schedule coherent.** -/
theorem Edits.coherent (hs : s.Coherent) (h : Edits book s t) : t.Coherent := by
  induction h with
  | refl => exact hs
  | remove _ ha ih => exact ih.remove ha
  | add _ hc hv ih => exact Rulebook.coherent_add ih hdup hroom hc hv

/-- **What holds of no starts, is kept when starts are left out, and is kept when a valid start is
added, holds of whatever edits lead to.** -/
theorem Edits.invariant {P : List Start → Prop} (nil : P [])
    (mono : ∀ {l m : List Start}, l.Subperm m → P m → P l)
    (add : ∀ {t : Schedule p} {c : Start}, t.Coherent → c.IsOf p →
      t.startOf? c.sectionId = none → (book.validate t c).isValid → P t.starts → P (c :: t.starts))
    (h : Edits book (.empty p) s) : P s.starts := by
  induction h with
  | refl => exact nil
  | @remove t a h ha ih =>
    have ht := h.coherent hdup hroom .empty
    exact mono ((List.sublist_cons_self a _).subperm.trans (ht.starts_remove ha).symm.subperm) ih
  | @add t c h hc hv ih =>
    have ht := h.coherent hdup hroom .empty
    have hfresh := Rulebook.startOf?_eq_none_of_isValid hdup hv
    exact mono (Rulebook.starts_add ht hdup hroom hc hv).subperm (add ht hc hfresh hv ih)

/-- Taking out two sections amounts to edits. -/
theorem Edits.without (hs : s.Coherent) (h : Edits book s t) (a b : Start) :
    Edits book s (Move.without t a b) := by
  have ha := h.removeSection (h.coherent hdup hroom hs) a.sectionId
  exact ha.removeSection (ha.coherent hdup hroom hs) b.sectionId

theorem Edits.exchange (hs : s.Coherent) (h : Edits book s t) {a b : Start} {u : Schedule p}
    (hu : Move.swapPair book t a b = .ok u) : Edits book s u := by
  rcases Move.swapPair_cases hu with rfl | ⟨first, second, hfirst, hsecond, hv, hv', rfl⟩
  · exact h
  · have hcleared := h.without hdup hroom hs a b
    exact (hcleared.add (Start.isOf_of_make hfirst).1 hv).add (Start.isOf_of_make hsecond).1 hv'

theorem Edits.force (hnames : book.NamesPlaced p) (hs : s.Coherent) (h : Edits book s t) {c : Start}
    (hc : c.IsOf p) : Edits book s (book.force t c).2 := by
  rcases book.force_cases t c with he | ⟨-, hv, he⟩
  · rwa [he]
  · have ht := h.coherent hdup hroom hs
    rw [he]
    exact (h.foldl_remove ht (fun a ha => hnames.holds_of_mem_evictions ht hc ha)
      (Rulebook.nodup_evictions _)).add hc hv

/-- Placing and exchanging starts amounts to edits. -/
theorem Edits.preserved (hnames : book.NamesPlaced p) (hs : s.Coherent) :
    Preserved book (Edits book s) where
  assign hc h := h.assign hc
  force hc h := h.force hdup hroom hnames hs hc
  exchange h hu := h.exchange hdup hroom hs hu

/-! ## Loading -/

/-- Whether a start is placed before the others: it is marked or it is where its section is pinned
to. -/
def Rulebook.isLocked (book : Rulebook) (e : Bool × Start) : Bool := e.1 || book.pins.holds e.2

omit hdup hroom in
theorem Rulebook.placementOrder_eq_append (book : Rulebook) (starts : List (Bool × Start)) :
    book.placementOrder starts = sorted ((starts.filter book.isLocked).map (·.2)) ++
      sorted ((starts.filter (!book.isLocked ·)).map (·.2)) := by
  rw [placementOrder, List.partition_eq_filter_filter]
  rfl

omit hdup hroom in
/-- The placement order is an order of the starts to be placed. -/
theorem Rulebook.placementOrder_perm (book : Rulebook) (starts : List (Bool × Start)) :
    (book.placementOrder starts).Perm (starts.map (·.2)) := by
  rw [placementOrder_eq_append]
  refine ((sorted_perm _).append (sorted_perm _)).trans ?_
  rw [← List.map_append]
  exact (List.filter_append_perm _ starts).map _

omit hdup hroom in
theorem Rulebook.mem_placementOrder {starts : List (Bool × Start)} {c : Start} :
    c ∈ book.placementOrder starts ↔ ∃ marked, (marked, c) ∈ starts := by
  rw [(book.placementOrder_perm starts).mem_iff, List.mem_map]
  exact ⟨fun ⟨⟨marked, _⟩, hmem, he⟩ => ⟨marked, he ▸ hmem⟩, fun ⟨marked, hmem⟩ => ⟨_, hmem, rfl⟩⟩

omit hdup hroom in
/-- What triples stand for are starts of the program. -/
theorem Rulebook.isOf_of_mapM_resolve {triples : List Triple} {starts : List (Bool × Start)}
    (h : triples.mapM (fun t => (t.resolve p).map fun s => (t.locked, s)) = .ok starts) {c : Start}
    (hc : c ∈ book.placementOrder starts) : c.IsOf p := by
  obtain ⟨marked, hmem⟩ := mem_placementOrder.1 hc
  obtain ⟨triple, -, hmake⟩ := exists_of_mem_mapM h hmem
  obtain ⟨start, hmake, he⟩ := map_eq_ok_iff.1 hmake
  cases he
  exact (Start.isOf_of_make hmake).1

omit hdup hroom in
/-- So it is if triples that stand for nothing are left out. -/
theorem Rulebook.isOf_of_mapM_toOption {triples : List Triple}
    {starts : List (Option (Bool × Start))}
    (h : triples.mapM (fun t =>
      PlacementError.toOption ((t.resolve p).map fun s => (t.locked, s))) = .ok starts) {c : Start}
    (hc : c ∈ book.placementOrder (starts.filterMap id)) : c.IsOf p := by
  obtain ⟨marked, hmem⟩ := mem_placementOrder.1 hc
  obtain ⟨entry, hentry, he⟩ := List.mem_filterMap.1 hmem
  cases he
  obtain ⟨triple, -, hmake⟩ := exists_of_mem_mapM h hentry
  have hmake := PlacementError.toOption_eq_ok_some_iff.1 hmake
  obtain ⟨start, hmake, he⟩ := map_eq_ok_iff.1 hmake
  cases he
  exact (Start.isOf_of_make hmake).1

omit hdup hroom in
theorem Edits.load {triples : List Triple} (h : book.load p triples = .ok t) :
    Edits book (.empty p) t := by
  obtain ⟨starts, hstarts, h⟩ := bind_eq_ok_iff.1 h
  exact Edits.refl.placeAll (fun c => Rulebook.isOf_of_mapM_resolve hstarts) h

omit hdup hroom in
theorem Edits.loadLenient {triples : List Triple} (h : book.loadLenient p triples = .ok t) :
    Edits book (.empty p) t := by
  obtain ⟨starts, hstarts, h⟩ := bind_eq_ok_iff.1 h
  cases h
  exact Edits.refl.placeSome fun c => Rulebook.isOf_of_mapM_toOption hstarts

/-! ## Reachability by edits -/

theorem Edits.leads (hnames : book.NamesPlaced p) (h : Edits book (.empty p) s) {op : Operation}
    (hop : op.Leads book s t) : Edits book (.empty p) t := by
  have hpres := Edits.preserved hdup hroom hnames (Schedule.Coherent.empty (p := p))
  have hs := h.coherent hdup hroom .empty
  cases op with
  | removeAt slot room =>
    cases hop
    exact h.removeAt hs slot room
  | removeSection id =>
    cases hop
    exact h.removeSection hs id
  | load triples => exact Edits.load hop
  | loadLenient triples => exact Edits.loadLenient hop
  | assign _ | force _ | move _ _ _ | exchange _ _ => exact hpres.leads rfl h hop

/-- **Whatever can be reached can be reached by single edits**, as long as only starts are evicted
that are placed. -/
theorem Reaches.edits_of_namesPlaced (hnames : book.NamesPlaced p) {allowed : Operation → Prop}
    (h : Reaches book allowed (.empty p) s) : Edits book (.empty p) s := by
  induction h with
  | refl => exact .refl
  | step _ _ hleads ih => exact ih.leads hdup hroom hnames hleads

theorem Reaches.edits (hbook : book.IsBuiltIn) {allowed : Operation → Prop}
    (h : Reaches book allowed (.empty p) s) : Edits book (.empty p) s :=
  h.edits_of_namesPlaced hdup hroom hbook.namesPlaced

/-- **Whatever can be reached is coherent.** -/
theorem Reaches.coherent (hbook : book.IsBuiltIn) {allowed : Operation → Prop}
    (h : Reaches book allowed (.empty p) s) : s.Coherent :=
  (h.edits hdup hroom hbook).coherent hdup hroom .empty

end Coherence

/-- What can be reached under a configuration with the rules against double booking is coherent. -/
theorem RuleConfig.coherent_of_reaches {config : RuleConfig}
    (hdup : .duplicateSections ∈ config.rules) (hroom : .roomConflict ∈ config.rules)
    {allowed : Operation → Prop} (h : Reaches config.rulebook allowed (.empty p) s) :
    s.Coherent := by
  obtain ⟨_, hdup⟩ := exists_rule_mem hdup
  obtain ⟨_, hroom⟩ := exists_rule_mem hroom
  exact h.coherent hdup hroom config.isBuiltIn_rulebook

/-! ## Properties that do not depend on the rules -/

/-- The property is kept when a start with the property `A` is added, valid or not, and when any start
is taken out. -/
structure KeptByEdits (A : Start → Prop) (P : Schedule p → Prop) : Prop where
  add : ∀ {s c}, A c → P s → P (s.add c)
  remove : ∀ {s a}, P s → P (s.remove a)

namespace KeptByEdits

variable {A : Start → Prop} {P : Schedule p → Prop} (h : KeptByEdits A P)

include h

theorem assign (book : Rulebook) {c : Start} (hc : A c) (hs : P s) : P (book.assign s c).2 := by
  rcases book.assign_cases s c with he | ⟨-, he⟩
  · rwa [he]
  · rw [he]
    exact h.add hc hs

theorem placeSome (book : Rulebook) {l : List Start} (hl : ∀ c ∈ l, A c) (hs : P s) :
    P (book.placeSome s l) := by
  induction l generalizing s with
  | nil => exact hs
  | cons c l ih =>
    exact ih (fun b hb => hl b (List.mem_cons_of_mem c hb))
      (h.assign book (hl c List.mem_cons_self) hs)

theorem foldl_remove (l : List Start) (hs : P s) : P (l.foldl Schedule.remove s) := by
  induction l generalizing s with
  | nil => exact hs
  | cons a l ih => exact ih (h.remove hs)

theorem force (book : Rulebook) {c : Start} (hc : A c) (hs : P s) : P (book.force s c).2 := by
  rcases book.force_cases s c with he | ⟨-, -, he⟩
  · rwa [he]
  · rw [he]
    exact h.add hc (h.foldl_remove _ hs)

theorem removeSection (id : SectionId) (hs : P s) : P (s.removeSection id).2 := by
  rw [Schedule.removeSection]
  split
  · exact hs
  · exact h.remove hs

theorem removeAt (slot : Slot) (room : RoomId) (hs : P s) : P (s.removeAt slot room).2 := by
  rw [Schedule.removeAt]
  split
  · exact hs
  · exact h.remove hs

theorem without (a b : Start) (hs : P s) : P (Move.without s a b) :=
  h.removeSection _ (h.removeSection _ hs)

omit h in
theorem edits (h : KeptByEdits (Start.IsOf p) P) (hs : P s) (hedits : Edits book s t) : P t := by
  induction hedits with
  | refl => exact hs
  | remove _ _ ih => exact h.remove ih
  | add _ hc _ ih => exact h.add hc ih

omit h in
theorem preserved (h : KeptByEdits (Start.IsOf p) P) : Preserved book P where
  assign hc hs := h.assign book hc hs
  force hc hs := h.force book hc hs
  exchange hs hu := by
    rcases Move.swapPair_cases hu with rfl | ⟨first, second, hfirst, hsecond, -, -, rfl⟩
    · exact hs
    · exact h.add (Start.isOf_of_make hsecond).1
        (h.add (Start.isOf_of_make hfirst).1 (h.without _ _ hs))

omit h in
/-- **What is kept by edits is kept by everything that can be done to a schedule**, whichever rules
there are. -/
theorem reachable (h : KeptByEdits (Start.IsOf p) P) (hempty : P (.empty p))
    (hreach : Reachable book s) : P s := by
  induction hreach with
  | refl => exact hempty
  | @step t u op _ _ hleads ih =>
    cases op with
    | removeAt slot room =>
      cases hleads
      exact h.removeAt slot room ih
    | removeSection id =>
      cases hleads
      exact h.removeSection id ih
    | load triples => exact h.edits hempty (Edits.load hleads)
    | loadLenient triples => exact h.edits hempty (Edits.loadLenient hleads)
    | assign _ | force _ | move _ _ _ | exchange _ _ => exact h.preserved.leads rfl ih hleads

end KeptByEdits

end Timetable
