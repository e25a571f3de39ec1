import Mathlib.Logic.Relation
import Timetable.Proofs.Booking

/-!
# Swapping permutes sections over fixed places

To exchange two starts, both are taken out, and then either section is placed where the other one
was.  If both halves of this are accepted, the same sections are placed as before and the same rooms
and periods are taken (`Schedule.Rearranges`), by other sections.  On all other ways out the
schedule is the one from before (`Move.swapPair_cases`), so that nothing in between is ever seen.

The swapping move exchanges one pair after the other, drawn from the schedule as it is by then, so it
rearranges the schedule, however often it is to swap and whatever it draws:
`Reachable.swapping_rearranges`.

That the end of a run does not fit its machine word cannot be handled otherwise than by giving up.
It takes a block of more than `2 ^ 31` periods (`IsOverlong`).
-/

set_option autoImplicit false

namespace Timetable

open Relation

variable {G : Type} [RandomSource G] {p : Program} {book : Rulebook} {s t u : Schedule p}
  {a b : Start}

/-! ## Rearrangements -/

namespace Schedule

/-- The rooms and first periods that are taken. -/
def places (s : Schedule p) : List (RoomId × PeriodId) :=
  s.starts.map fun a => (a.roomId, a.periodId)

/-- The same sections are placed, and the same places are taken. -/
structure Rearranges (t s : Schedule p) : Prop where
  scheduled : t.scheduled = s.scheduled
  places : t.places.Perm s.places

theorem Rearranges.refl (s : Schedule p) : s.Rearranges s := ⟨rfl, .refl _⟩

theorem Rearranges.trans (h : u.Rearranges t) (h' : t.Rearranges s) : u.Rearranges s :=
  ⟨h.scheduled.trans h'.scheduled, h.places.trans h'.places⟩

/-- Sections are listed in their order, so it is enough that the same ones are placed. -/
theorem Coherent.scheduled_eq_of_perm (hs : s.Coherent) (ht : t.Coherent)
    (h : (t.starts.map (·.sectionId)).Perm (s.starts.map (·.sectionId))) :
    t.scheduled = s.scheduled := by
  rw [ht.map_sectionId_starts, hs.map_sectionId_starts] at h
  refine h.eq_of_pairwise (fun a b _ _ hab hba => ?_) (OrderedMap.pairwise_keys ht.sections)
    (OrderedMap.pairwise_keys hs.sections)
  rw [Std.OrientedCmp.gt_of_lt hab] at hba
  cases hba

/-- Exchanging the sections of two starts rearranges the schedule. -/
theorem Coherent.rearranges (hs : s.Coherent) (ht : t.Coherent) {a b first second : Start}
    {l : List Start} (hbefore : s.starts.Perm (a :: b :: l))
    (hafter : t.starts.Perm (second :: first :: l)) (hfirst : first.sectionId = b.sectionId)
    (hsecond : second.sectionId = a.sectionId)
    (hplace : (first.roomId, first.periodId) = (a.roomId, a.periodId))
    (hplace' : (second.roomId, second.periodId) = (b.roomId, b.periodId)) : t.Rearranges s where
  scheduled := by
    refine hs.scheduled_eq_of_perm ht ((hafter.map _).trans (.trans ?_ (hbefore.map _).symm))
    rw [List.map_cons, List.map_cons, List.map_cons, List.map_cons, hfirst, hsecond]
  places := by
    refine (hafter.map _).trans (.trans ?_ (hbefore.map _).symm)
    rw [List.map_cons, List.map_cons, List.map_cons, List.map_cons, hplace, hplace']
    exact List.Perm.swap _ _ _

end Schedule

/-! ## What cannot be handled -/

/-- The end of a run does not fit a machine word, and there is a block with room for such a run. -/
def IsOverlong (p : Program) (f : Fault) : Prop :=
  f = .overflow ∧ ∃ b ∈ p.blocks, wordSize 31 < b.length

theorem Program.exists_block_of_lt {n : Nat} {id : BlockId} (h : n < (p.block id).length) :
    ∃ b ∈ p.blocks, n < b.length := by
  rw [Program.block] at h
  cases hb : p.block? id with
  | none =>
    rw [hb] at h
    exact absurd h (Nat.not_lt_zero n)
  | some b =>
    rw [hb] at h
    exact ⟨b, (p.block?_eq_some_iff.1 hb).1, h⟩

/-- A section can be started where another one is placed, or it takes a very long block. -/
theorem Start.meets_make (ha : a.IsOf p) (hb : b.IsOf p) : Meets (fun _ => True) (IsOverlong p)
    (PlacementError.toOption (Start.make p a.periodId a.roomId b.sectionId)) := by
  cases h : PlacementError.toOption (Start.make p a.periodId a.roomId b.sectionId) with
  | ok c => trivial
  | error f =>
    obtain ⟨period, room, held, hq, -, hheld, hword, rfl⟩ :=
      Start.make_eq_fault_iff.1 (PlacementError.toOption_eq_error_iff.1 h)
    obtain ⟨entry, hentry, hlength⟩ := hb.exists_section
    have hindex : period.index = a.slot.index := by
      obtain ⟨period', _, _, hq', -, -, -, -, hmake⟩ := Start.make_eq_ok_iff.1 ha
      rw [hq] at hq'
      cases hq'
      rw [hmake]
      rfl
    rw [hheld] at hentry
    cases hentry
    have hstop := ha.stop_le
    have hstop' := hb.stop_le
    have hpos := ha.length_pos
    have h31 : wordSize 31 = 2147483648 := rfl
    have h32 : wordSize 32 = 4294967296 := rfl
    refine ⟨rfl, ?_⟩
    -- one of the two blocks is longer than half of what a machine word can hold
    rcases Nat.lt_or_ge (wordSize 31) (p.block a.slot.blockId).length with hlong | hshort
    · exact Program.exists_block_of_lt hlong
    · have hlong : wordSize 31 < (p.block b.slot.blockId).length := by omega
      exact Program.exists_block_of_lt hlong

/-! ## One exchange -/

namespace Move

/-- Both halves of an exchange are accepted: `first` is where `a` was, and `second` where `b` was. -/
structure Accepted (book : Rulebook) (s : Schedule p) (a b first second : Start) : Prop where
  make_first : Start.make p a.periodId a.roomId b.sectionId = .ok first
  make_second : Start.make p b.periodId b.roomId a.sectionId = .ok second
  isValid_first : (book.validate (without s a b) first).isValid
  isValid_second : (book.validate ((without s a b).add first) second).isValid

/-- Two starts are to be exchanged, which they are if both halves are accepted. -/
def Exchanges (book : Rulebook) (s t : Schedule p) : Prop :=
  ∃ a ∈ s.starts, ∃ b ∈ s.starts, swapPair book s a b = .ok t

/-- **If either half of an exchange is refused, nothing changes.** -/
theorem swapPair_of_refused (h : swapPair book s a b = .ok t)
    (hrefused : ∀ first second, ¬ Accepted book s a b first second) : t = s := by
  rcases swapPair_cases h with rfl | ⟨first, second, hfirst, hsecond, hv, hv', -⟩
  · rfl
  · exact absurd ⟨hfirst, hsecond, hv, hv'⟩ (hrefused first second)

theorem starts_without (hs : s.Coherent) (ha : s.Holds a) (hb : s.Holds b)
    (hne : a.sectionId ≠ b.sectionId) : s.starts.Perm (a :: b :: (without s a b).starts) := by
  have hb' : (s.remove a).Holds b :=
    (hs.holds_remove ha).2 ⟨hb, fun hba => hne (congrArg Start.sectionId hba).symm⟩
  have hwithout : without s a b = (s.remove a).remove b := by
    simp only [Schedule.Holds] at ha hb'
    simp only [without, Schedule.removeSection, ha, hb']
  rw [hwithout]
  exact (hs.starts_remove ha).trans (((hs.remove ha).starts_remove hb').cons a)

section Coherence

variable (hdup : .duplicateSections ∈ book.rules) (hroom : .roomConflict ∈ book.rules)

include hdup hroom

/-- **Exchanging two starts rearranges the schedule.** -/
theorem rearranges_of_swapPair (hs : s.Coherent) (ha : s.Holds a) (hb : s.Holds b)
    (h : swapPair book s a b = .ok t) : t.Rearranges s := by
  by_cases hid : a.sectionId = b.sectionId
  · rw [swapPair, if_pos hid] at h
    cases h
    exact .refl s
  have ht := (Edits.refl.exchange hdup hroom hs h).coherent hdup hroom hs
  rcases swapPair_cases h with rfl | ⟨first, second, hfirst, hsecond, hv, hv', rfl⟩
  · exact .refl t
  obtain ⟨hof, hq, hr, hsection⟩ := Start.isOf_of_make hfirst
  obtain ⟨hof', hq', hr', hsection'⟩ := Start.isOf_of_make hsecond
  have hrest := (coherent_without hs a b).1
  have hhalf := Rulebook.coherent_add hrest hdup hroom hof hv
  have hafter := (Rulebook.starts_add hhalf hdup hroom hof' hv').trans
    ((Rulebook.starts_add hrest hdup hroom hof hv).cons second)
  exact hs.rearranges ht (starts_without hs ha hb hid) hafter hsection hsection'
    (by rw [hr, hq]) (by rw [hr', hq'])

theorem meets_swapPair (hs : s.Coherent) (ha : a ∈ s.starts) (hb : b ∈ s.starts) :
    Meets (fun t => t.Coherent ∧ t.Rearranges s ∧ Exchanges book s t) (IsOverlong p)
      (swapPair book s a b) := by
  have haof := hs.isOf_of_mem_starts ha
  have hbof := hs.isOf_of_mem_starts hb
  have hfaults : Meets (fun _ => True) (IsOverlong p) (swapPair book s a b) := by
    rw [swapPair]
    split
    · trivial
    · refine (Start.meets_make haof hbof).bind fun first _ =>
        (Start.meets_make hbof haof).bind fun second _ => ?_
      cases first <;> cases second <;> try trivial
      simp only
      split <;> trivial
  cases h : swapPair book s a b with
  | error f => rwa [h] at hfaults
  | ok t =>
    exact ⟨(Edits.refl.exchange hdup hroom hs h).coherent hdup hroom hs,
      rearranges_of_swapPair hdup hroom hs (hs.mem_starts_iff.1 ha) (hs.mem_starts_iff.1 hb) h,
      a, ha, b, hb, h⟩

/-! ## One exchange after the other -/

/-- **However often sections are swapped, the schedule is rearranged.** -/
theorem meets_swapTimes (n : Nat) (hs : s.Coherent) (rng : G) :
    Meets (fun step => step.state.Rearranges s ∧ ReflTransGen (Exchanges book) s step.state)
      (IsOverlong p) (swapTimes book n s rng) := by
  induction n generalizing s rng with
  | zero => exact ⟨.refl s, .refl⟩
  | succ n ih =>
    rw [swapTimes]
    split
    · exact ⟨.refl s, .refl⟩
    · simp only
      split
      · next a b ha hb =>
        refine (meets_swapPair hdup hroom hs (Schedule.mem_starts_of_nthStart? ha)
          (Schedule.mem_starts_of_nthStart? hb)).bind ?_
        rintro t ⟨ht, hfirst, hexchange⟩
        refine (ih ht _).imp ?_
        rintro step ⟨hrest, hsteps⟩
        exact ⟨hrest.trans hfirst, hsteps.head hexchange⟩
      · exact ih hs _

end Coherence

end Move

/-- **Swapping places the same sections in the same places as before, and a swap of which either
half is refused changes nothing.**

The move may be given up because the end of a run does not fit its machine word; then there is a block
of more than `2 ^ 31` periods. -/
theorem Reachable.swapping_rearranges (hbook : book.IsBuiltIn)
    (hdup : .duplicateSections ∈ book.rules) (hroom : .roomConflict ∈ book.rules)
    (h : Reachable book s) {temperature : Float} {n : Nat} (hcount : swapCount temperature = .ok n) :
    (∀ rng : G, (∃ step, MoveKind.swapping.move book s temperature rng = .ok step ∧
        step.state.Rearranges s ∧ ReflTransGen (Move.Exchanges book) s step.state) ∨
      MoveKind.swapping.move book s temperature rng = .error .overflow ∧
        ∃ b ∈ p.blocks, wordSize 31 < b.length) ∧
    ∀ a ∈ s.starts, ∀ b ∈ s.starts, ∀ t, Move.swapPair book s a b = .ok t →
      (∀ first second, ¬ Move.Accepted book s a b first second) → t = s := by
  have hs := h.coherent hdup hroom hbook
  refine ⟨fun rng => ?_, fun a _ b _ t => Move.swapPair_of_refused⟩
  have hmove : MoveKind.swapping.move book s temperature rng = Move.swapTimes book n s rng := by
    rw [MoveKind.move, Move.swap, hcount, ok_bind]
  rw [hmove]
  rcases (Move.meets_swapTimes hdup hroom n hs rng).exists_or with hstep | ⟨f, hf, rfl, hblock⟩
  · exact .inl hstep
  · exact .inr ⟨hf, hblock⟩

/-- Two courses change places.  If one of them builds on the other, it cannot be moved before that,
and they stay where they are. -/
theorem swapping_rearranges_bothPlaced :
    (let book := Sequel.bookOf []
      let s := Sequel.bothPlaced book
      ∃ step, MoveKind.swapping.move book s 0.0 (Generator.ofSeed 3) = .ok step ∧
        s.starts.map (fun a => (a.sectionId, a.periodId)) = [(⟨1⟩, ⟨1⟩), (⟨2⟩, ⟨2⟩)] ∧
        step.state.starts.map (fun a => (a.sectionId, a.periodId)) = [(⟨1⟩, ⟨2⟩), (⟨2⟩, ⟨1⟩)] ∧
        step.state.Rearranges s) ∧
    let book := Sequel.bookOf [.prerequisites]
    let s := Sequel.bothPlaced book
    s.places = [(⟨1⟩, ⟨1⟩), (⟨1⟩, ⟨2⟩)] ∧
      (∀ rng : Generator, ∃ step, MoveKind.swapping.move book s 0.0 rng = .ok step ∧
        step.state.Rearranges s) ∧
      ∀ t, Move.swapPair book s Sequel.first Sequel.second = .ok t → t = s := by
  have hcount : swapCount 0.0 = .ok 1 := by decide +kernel
  have hblocks : ¬ ∃ b ∈ Sequel.program.blocks, wordSize 31 < b.length := by decide
  constructor
  · intro book s
    obtain ⟨hmove, -⟩ := Reachable.swapping_rearranges (G := Generator)
      (Sequel.isUnpinned_bookOf _).isBuiltIn (Sequel.duplicateSections_mem _)
      (Sequel.roomConflict_mem _) (Sequel.reaches_bothPlaced book trivial trivial) hcount
    rcases hmove (Generator.ofSeed 3) with ⟨step, hstep, hrearranges, -⟩ | ⟨-, hblock⟩
    · have hswapped : (MoveKind.swapping.move book s 0.0 (Generator.ofSeed 3)).toOption.map
          (·.state.starts.map fun a => (a.sectionId, a.periodId)) =
            some [(⟨1⟩, ⟨2⟩), (⟨2⟩, ⟨1⟩)] := by
        decide +kernel
      rw [hstep] at hswapped
      exact ⟨step, hstep, by decide +kernel, Option.some.inj hswapped, hrearranges⟩
    · exact absurd hblock hblocks
  intro book s
  obtain ⟨hmove, hpair⟩ := Reachable.swapping_rearranges (G := Generator)
    (Sequel.isUnpinned_bookOf _).isBuiltIn (Sequel.duplicateSections_mem _)
    (Sequel.roomConflict_mem _) (Sequel.reaches_bothPlaced book trivial trivial) hcount
  have hstarts : s.starts = [Sequel.first, Sequel.second] := by decide +kernel
  refine ⟨by decide +kernel, fun rng => ?_, fun t ht => hpair Sequel.first ?_ Sequel.second ?_ t ht
    fun first second haccepted => ?_⟩
  · rcases hmove rng with ⟨step, hstep, hrearranges, -⟩ | ⟨-, hblock⟩
    · exact ⟨step, hstep, hrearranges⟩
    · exact absurd hblock hblocks
  · rw [hstarts]
    decide
  · rw [hstarts]
    decide
  · have hfirst : first = Sequel.moved := (Except.ok.inj haccepted.make_first).symm
    have hv := haccepted.isValid_first
    rw [hfirst] at hv
    revert hv
    decide +kernel

end Timetable
