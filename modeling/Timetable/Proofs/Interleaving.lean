import Timetable.Proofs.Rounds
import Timetable.Search.Interleaving

/-!
# Searches step by step

A search of a crew goes on in steps of the coordinators and of the workers, and any order of them is
possible.  What can be said of it nevertheless rests on what is true of every round, however far it
has come (`Round.Sound`): its workers are those of the crew, all of them started from the best state
when the round began, what they offer they have found, and when the coordinator has stopped waiting,
then either the flag is raised or all of them are gone.  The last of these is where the reports have
to be counted: each comes from a worker that is gone, so when there are as many as there are
workers, nobody is left.  `Crew.Step.sound` says that every step preserves this.

* `Crew.Step.becomes`, `Crew.Reaches.becomes`: what was true of a round once and stays true.
* `Crew.Step.best_of_isOver`: the workers of a round that is over leave the best state alone.
* `Crew.Reaches.holds`: what workers pass from their first state to what they find is true of the
  best state all along.
-/

set_option autoImplicit false

namespace Timetable

open Relation

/-! ## Lists that are changed in one place -/

section List

variable {α : Type} {l : List α}

theorem getElem?_set_eq_some_iff {k j : Nat} {x y z : α} (h : l[k]? = some x) :
    (l.set k y)[j]? = some z ↔ j = k ∧ z = y ∨ j ≠ k ∧ l[j]? = some z := by
  have hk : k < l.length := (List.getElem?_eq_some_iff.1 h).1
  by_cases hj : j = k
  · subst hj
    simp [hk, eq_comm]
  · simp [hj, List.getElem?_set_ne (Ne.symm hj)]

theorem getElem?_concat_eq_some_iff {j : Nat} {y z : α} :
    (l ++ [y])[j]? = some z ↔ l[j]? = some z ∨ j = l.length ∧ z = y := by
  rcases Nat.lt_trichotomy j l.length with hj | rfl | hj
  · simp [List.getElem?_append_left hj, Nat.ne_of_lt hj]
  · simp [eq_comm]
  · have hnone : l[j]? = none := List.getElem?_eq_none (Nat.le_of_lt hj)
    have hnone' : (l ++ [y])[j]? = none :=
      List.getElem?_eq_none (by simpa [Nat.succ_le_iff] using hj)
    simp [hnone, hnone', Nat.ne_of_gt hj]

end List

variable {S R : Type}

/-! ## What stays -/

/-- Whether a worker has had hold of the best state, or never will. -/
def Phase.hasOffered : Phase S R → Bool
  | reporting | gone => true
  | walking | offering _ => false

/-- What stays when a round goes on. -/
structure Round.Becomes (r r' : Round S R) : Prop where
  opening : r'.opening = r.opening
  temperature : r'.temperature = r.temperature
  isOver : r.stage.isOver → r'.stage.isOver
  offered : ∀ {i : Nat} {w : Worker S R}, r.workers[i]? = some w → w.phase.hasOffered →
    ∃ w' : Worker S R, r'.workers[i]? = some w' ∧ w'.phase.hasOffered

theorem Round.Becomes.refl (r : Round S R) : r.Becomes r :=
  ⟨rfl, rfl, id, fun {_ w} hw hoffered => ⟨w, hw, hoffered⟩⟩

theorem Round.Becomes.trans {r q v : Round S R} (h : r.Becomes q) (h' : q.Becomes v) :
    r.Becomes v where
  opening := h'.opening.trans h.opening
  temperature := h'.temperature.trans h.temperature
  isOver hover := h'.isOver (h.isOver hover)
  offered hw hoffered := by
    obtain ⟨w', hw', hoffered'⟩ := h.offered hw hoffered
    exact h'.offered hw' hoffered'

/-- The coordinator makes no steps in a round that is over. -/
theorem Crew.Coordinates.isOver_eq_false {crew : Crew S R} {number : Nat} {r r' : Round S R}
    (h : crew.Coordinates number r r') : r.stage.isOver = false := by
  cases h <;> simp_all [Stage.isOver]

theorem Crew.Coordinates.becomes {crew : Crew S R} {number : Nat} {r r' : Round S R}
    (h : crew.Coordinates number r r') : r.Becomes r' where
  opening := by cases h <;> rfl
  temperature := by cases h <;> rfl
  isOver hover := by
    rw [h.isOver_eq_false] at hover
    cases hover
  offered {i w} hw hoffered := by
    cases h with
    | send _ _ => exact ⟨w, getElem?_concat_eq_some_iff.2 (.inl hw), hoffered⟩
    | _ => exact ⟨w, hw, hoffered⟩

variable [LT R] [DecidableLT R]

/-! ## Workers -/

namespace Worker

variable {steps sent : Nat} {cancelled : Bool} {best best' : Scored S R} {w w' : Worker S R}

/-- What a worker has found is what its walk has come to, and the walk was not cut short unless the
flag has been raised since. -/
def HasFound (steps : Nat) (cancelled : Bool) (w : Worker S R) (found : Scored S R) : Prop :=
  ∃ seen walk, (cancelled = false → ∀ step, seen step = false) ∧
    w.annealer.run steps w.start seen = .ok walk ∧ found = (walk.best, walk.bestScore)

namespace Acts

variable (h : w.Acts steps cancelled best w' best' sent)

include h

theorem annealer_eq : w'.annealer = w.annealer := by cases h <;> rfl

theorem start_eq : w'.start = w.start := by cases h <;> rfl

/-- A worker that is gone does nothing. -/
theorem not_isGone : w.phase.isGone = false := by
  cases h <;> simp only [*, Phase.isGone]

theorem hasOffered (hoffered : w.phase.hasOffered) : w'.phase.hasOffered := by
  cases h <;> simp_all [Phase.hasOffered]

/-- **A worker leaves the best state alone, unless it has something to offer and the flag is not
raised.** -/
theorem best_cases : best' = best ∨ ∃ found, w.phase = .offering found ∧ cancelled = false ∧
    best' = keepBetter best found ∧ w' = { w with phase := .reporting } ∧ sent = 0 := by
  cases h with
  | offer hphase hcancelled => exact .inr ⟨_, hphase, hcancelled, rfl, rfl, rfl⟩
  | _ => exact .inl rfl

/-- Who reports goes. -/
theorem sent_le : sent ≤ if w'.phase.isGone then 1 else 0 := by
  cases h <;> simp [Phase.isGone]

/-- What a worker comes to offer it has found. -/
theorem hasFound {found : Scored S R} (hfound : w'.phase = .offering found) :
    w'.HasFound steps cancelled found := by
  cases h with
  | finish hphase hseen hrun =>
    cases hfound
    exact ⟨_, _, hseen, hrun, rfl⟩
  | fail _ => cases hfound
  | offer _ _ => cases hfound
  | leave _ _ => cases hfound
  | report _ => cases hfound

end Acts

end Worker

/-! ## Rounds -/

/-- What is true of the round with a number, however far it has come. -/
structure Round.Sound (crew : Crew S R) (number : Nat) (r : Round S R) : Prop where
  length_le : r.workers.length ≤ crew.size
  length_eq : r.stage ≠ .sending → r.workers.length = crew.size
  recruited : ∀ {i : Nat} {w : Worker S R}, r.workers[i]? = some w →
    w.annealer = (crew.worker number i r.temperature r.opening).annealer ∧ w.start = r.opening.1
  hasFound : ∀ {i : Nat} {w : Worker S R} {found}, r.workers[i]? = some w →
    w.phase = .offering found →
    w.HasFound crew.config.steps r.cancelled found
  /-- There are no more reports than workers that are gone. -/
  reports_le : r.received + r.unread ≤ r.workers.countP (·.phase.isGone)
  stopped : r.stage.isOver → r.cancelled = true ∨ ∀ w ∈ r.workers, w.phase.isGone

namespace Round.Sound

variable {crew : Crew S R} {number : Nat} {r r' : Round S R} (hr : r.Sound crew number)

include hr

/-- When all reports are in, all workers are gone. -/
theorem forall_isGone (hreceived : r.received = crew.size) : ∀ w ∈ r.workers, w.phase.isGone := by
  have hall : r.workers.countP (·.phase.isGone) = r.workers.length := by
    have hcount := List.countP_le_length (p := fun w : Worker S R => w.phase.isGone)
      (l := r.workers)
    have hreports := hr.reports_le
    have hlength := hr.length_le
    omega
  exact List.countP_eq_length.1 hall

/-- **The coordinator keeps a round sound.** -/
theorem coordinate (h : crew.Coordinates number r r') : r'.Sound crew number := by
  cases h with
  | send hstage hlt =>
    refine { hr with
      length_le := by simpa [Nat.succ_le_iff] using hlt
      length_eq := fun hne => absurd hstage hne
      recruited := fun {i w} hw => ?_
      hasFound := fun {i w found} hw hphase => ?_
      reports_le := ?_
      stopped := fun hover => by simp [hstage, Stage.isOver] at hover }
    · rcases getElem?_concat_eq_some_iff.1 hw with hw | ⟨rfl, rfl⟩
      · exact hr.recruited hw
      · exact ⟨rfl, rfl⟩
    · rcases getElem?_concat_eq_some_iff.1 hw with hw | ⟨rfl, rfl⟩
      · exact hr.hasFound hw hphase
      · cases hphase
    · rw [List.countP_append]
      exact Nat.le_trans hr.reports_le (Nat.le_add_right _ _)
  | await hstage hlength =>
    exact { hr with
      length_eq := fun _ => hlength
      stopped := fun hover => by cases hover }
  | receive hstage hlt hunread =>
    refine { hr with reports_le := ?_ }
    have hreports := hr.reports_le
    simp only [hunread] at hreports ⊢
    omega
  | complete hstage hreceived =>
    exact { hr with
      length_eq := fun _ => hr.length_eq (by simp [hstage])
      stopped := fun _ => .inr (hr.forall_isGone hreceived) }
  | deadline hstage _ =>
    exact { hr with
      length_eq := fun _ => hr.length_eq (by simp [hstage])
      hasFound := fun hw hphase => by
        obtain ⟨seen, walk, -, hrun, hfound⟩ := hr.hasFound hw hphase
        exact ⟨seen, walk, fun hc => (by cases hc), hrun, hfound⟩
      stopped := fun _ => .inl rfl }
  | disconnect hstage _ _ hgone =>
    exact { hr with
      length_eq := fun _ => hr.length_eq (by simp [hstage])
      stopped := fun _ => .inr fun w hw => by rw [hgone w hw]; rfl }

/-- **A worker keeps its round sound.** -/
theorem act {i : Nat} {w w' : Worker S R} {best best' : Scored S R} {sent : Nat}
    (hw : r.workers[i]? = some w)
    (h : w.Acts crew.config.steps r.cancelled best w' best' sent) :
    { r with workers := r.workers.set i w', unread := r.unread + sent }.Sound crew number where
  length_le := by simpa using hr.length_le
  length_eq hne := by simpa using hr.length_eq hne
  recruited {j v} hv := by
    rcases (getElem?_set_eq_some_iff hw).1 hv with ⟨rfl, rfl⟩ | ⟨-, hv⟩
    · rw [h.annealer_eq, h.start_eq]
      exact hr.recruited hw
    · exact hr.recruited hv
  hasFound {j v found} hv hphase := by
    rcases (getElem?_set_eq_some_iff hw).1 hv with ⟨rfl, rfl⟩ | ⟨-, hv⟩
    · exact h.hasFound hphase
    · exact hr.hasFound hv hphase
  reports_le := by
    obtain ⟨hi, hget⟩ := List.getElem?_eq_some_iff.1 hw
    have hcount := List.countP_set (p := fun v : Worker S R => v.phase.isGone) (a := w') hi
    rw [hget, h.not_isGone] at hcount
    have hsent := h.sent_le
    have hreports := hr.reports_le
    simp only [Bool.false_eq_true, if_false, Nat.sub_zero] at hcount
    simp only [hcount]
    omega
  stopped hover := by
    refine (hr.stopped hover).imp_right fun hgone => ?_
    -- somebody who is gone does not act
    have hgone := hgone w (List.mem_of_getElem? hw)
    rw [h.not_isGone] at hgone
    cases hgone

/-- **When a round is over, its workers leave the best state alone.** -/
theorem best_of_isOver (hover : r.stage.isOver) {i : Nat} {w w' : Worker S R}
    {best best' : Scored S R} {sent : Nat} (hw : r.workers[i]? = some w)
    (h : w.Acts crew.config.steps r.cancelled best w' best' sent) : best' = best := by
  rcases h.best_cases with hbest | ⟨found, -, hcancelled, -⟩
  · exact hbest
  · rcases hr.stopped hover with hraised | hgone
    · rw [hcancelled] at hraised
      cases hraised
    · have hgone := hgone w (List.mem_of_getElem? hw)
      rw [h.not_isGone] at hgone
      cases hgone

end Round.Sound

/-- A round that has just begun is sound. -/
theorem Round.sound_begin (crew : Crew S R) (number : Nat) (temperature : Float)
    (opening : Scored S R) : ({ temperature, opening } : Round S R).Sound crew number where
  length_le := Nat.zero_le _
  length_eq hne := absurd rfl hne
  recruited hw := by cases hw
  hasFound hw := by cases hw
  reports_le := Nat.le_refl 0
  stopped hover := by cases hover

/-! ## Steps -/

/-- The best state has a property, and so had the best state at the beginning of every round. -/
structure Scene.Holds (Q : Scored S R → Prop) (s : Scene S R) : Prop where
  best : Q s.best
  opening : ∀ {k : Nat} {r : Round S R}, s.rounds[k]? = some r → Q r.opening

namespace Crew

variable {crew : Crew S R} {s t u : Scene S R} {turn : Turn}

/-- Steps lead from one scene to another. -/
def Reaches (crew : Crew S R) : Scene S R → Scene S R → Prop :=
  ReflTransGen fun s t => ∃ turn, crew.Step s turn t

theorem Reaches.refl : crew.Reaches s s := ReflTransGen.refl

theorem Reaches.step (h : crew.Reaches s t) (hstep : crew.Step t turn u) : crew.Reaches s u :=
  h.tail ⟨turn, hstep⟩

theorem Reaches.trans (h : crew.Reaches s t) (h' : crew.Reaches t u) : crew.Reaches s u :=
  ReflTransGen.trans h h'

/-- All rounds are sound, and only the last one need not be closed. -/
structure Sound (crew : Crew S R) (rounds : List (Round S R)) : Prop where
  round : ∀ {k} {r : Round S R}, rounds[k]? = some r → r.Sound crew k
  closed : ∀ {k} {r : Round S R}, rounds[k]? = some r → k + 1 < rounds.length → r.stage = .closed

/-- A round may be replaced by a sound one, which has to be closed if the old one had to. -/
theorem Sound.set {rounds : List (Round S R)} (h : crew.Sound rounds) {k : Nat} {r r' : Round S R}
    (hr : rounds[k]? = some r) (hr' : r'.Sound crew k)
    (hclosed : r.stage = .closed → r'.stage = .closed) : crew.Sound (rounds.set k r') where
  round hj := by
    rcases (getElem?_set_eq_some_iff hr).1 hj with ⟨rfl, rfl⟩ | ⟨-, hj⟩
    · exact hr'
    · exact h.round hj
  closed hj hlt := by
    rw [List.length_set] at hlt
    rcases (getElem?_set_eq_some_iff hr).1 hj with ⟨rfl, rfl⟩ | ⟨-, hj⟩
    · exact hclosed (h.closed hr hlt)
    · exact h.closed hj hlt

/-- **Every step keeps all rounds sound.** -/
theorem Step.sound (h : crew.Step s turn t) (hs : crew.Sound s.rounds) : crew.Sound t.rounds := by
  cases h with
  | begin temperature hclosed =>
    constructor
    · intro k r hr
      rcases getElem?_concat_eq_some_iff.1 hr with hr | ⟨rfl, rfl⟩
      · exact hs.round hr
      · exact Round.sound_begin crew _ temperature s.best
    · intro k r hr hlt
      rcases getElem?_concat_eq_some_iff.1 hr with hr | ⟨rfl, rfl⟩
      · exact hclosed r (List.mem_of_getElem? hr)
      · simp at hlt
  | coordinate hr hcoord =>
    refine hs.set hr ((hs.round hr).coordinate hcoord) fun hclosed => ?_
    have hover := hcoord.isOver_eq_false
    rw [hclosed] at hover
    cases hover
  | act hr hw hact => exact hs.set hr ((hs.round hr).act hw hact) id
  | @close k r elapsed hr hstage =>
    have hround := hs.round hr
    refine hs.set hr { hround with
      length_eq := fun _ => hround.length_eq (by simp [hstage])
      stopped := fun _ => hround.stopped (by simp [hstage, Stage.isOver]) } fun _ => rfl

/-- A scene that can be reached has sound rounds. -/
theorem Reaches.sound (h : crew.Reaches s t) (hs : crew.Sound s.rounds) : crew.Sound t.rounds := by
  induction h with
  | refl => exact hs
  | tail _ hstep ih => exact hstep.choose_spec.sound ih

/-! ### What becomes of a round -/

/-- **In every step every round goes on.** -/
theorem Step.becomes (h : crew.Step s turn t) {k : Nat} {r : Round S R}
    (hr : s.rounds[k]? = some r) : ∃ r', t.rounds[k]? = some r' ∧ r.Becomes r' := by
  have hset : ∀ {j} {o r' : Round S R}, s.rounds[j]? = some o → o.Becomes r' →
      ∃ q, (s.rounds.set j r')[k]? = some q ∧ r.Becomes q := by
    intro j o r' ho hbecomes
    by_cases hk : k = j
    · subst hk
      cases hr.symm.trans ho
      exact ⟨r', (getElem?_set_eq_some_iff ho).2 (.inl ⟨rfl, rfl⟩), hbecomes⟩
    · exact ⟨r, (getElem?_set_eq_some_iff ho).2 (.inr ⟨hk, hr⟩), .refl r⟩
  cases h with
  | begin temperature _ => exact ⟨r, getElem?_concat_eq_some_iff.2 (.inl hr), .refl r⟩
  | coordinate ho hcoord => exact hset ho hcoord.becomes
  | @act j i o w w' best sent ho hw hact =>
    refine hset ho ⟨rfl, rfl, id, fun {i' v} hv hoffered => ?_⟩
    by_cases hi : i' = i
    · subst hi
      cases hw.symm.trans hv
      exact ⟨w', (getElem?_set_eq_some_iff hw).2 (.inl ⟨rfl, rfl⟩), hact.hasOffered hoffered⟩
    · exact ⟨v, (getElem?_set_eq_some_iff hw).2 (.inr ⟨hi, hv⟩), hoffered⟩
  | close elapsed ho _ =>
    exact hset ho ⟨rfl, rfl, fun _ => rfl, fun {_ w} hw hoffered => ⟨w, hw, hoffered⟩⟩

theorem Reaches.becomes (h : crew.Reaches s t) {k : Nat} {r : Round S R}
    (hr : s.rounds[k]? = some r) : ∃ r', t.rounds[k]? = some r' ∧ r.Becomes r' := by
  induction h with
  | refl => exact ⟨r, hr, .refl r⟩
  | tail _ hstep ih =>
    obtain ⟨q, hq, hbecomes⟩ := ih
    obtain ⟨v, hv, hbecomes'⟩ := hstep.choose_spec.becomes hq
    exact ⟨v, hv, hbecomes.trans hbecomes'⟩

/-- A round that is there after a step was there before, or has just begun from the best state. -/
theorem Step.precedes (h : crew.Step s turn t) {k : Nat} {r : Round S R}
    (hr : t.rounds[k]? = some r) : (∃ q, s.rounds[k]? = some q ∧ q.Becomes r) ∨
      turn = .begin ∧ k = s.rounds.length ∧
        ∃ temperature, r = { temperature, opening := s.best } := by
  cases hq : s.rounds[k]? with
  | some q =>
    obtain ⟨r', hr', hbecomes⟩ := h.becomes hq
    cases hr.symm.trans hr'
    exact .inl ⟨q, rfl, hbecomes⟩
  | none =>
    cases h with
    | begin temperature _ =>
      rcases getElem?_concat_eq_some_iff.1 hr with hr | ⟨hk, rfl⟩
      · rw [hq] at hr
        cases hr
      · exact .inr ⟨rfl, hk, temperature, rfl⟩
    | _ =>
      -- no other step adds to the rounds
      have hlength := List.getElem?_eq_none_iff.1 hq
      obtain ⟨hlt, -⟩ := List.getElem?_eq_some_iff.1 hr
      rw [List.length_set] at hlt
      exact absurd hlt (Nat.not_lt.2 hlength)

/-! ### The best state -/

/-- The worker `i` of the round `k`, which is not over, replaces the best state by what it has
found. -/
structure Improves (crew : Crew S R) (s t : Scene S R) (k i : Nat) (r : Round S R) (w : Worker S R)
    (found : Scored S R) : Prop where
  round : s.rounds[k]? = some r
  worker : r.workers[i]? = some w
  stage : r.stage.isOver = false
  phase : w.phase = .offering found
  hasFound : w.HasFound crew.config.steps false found
  lt : s.best.2 < found.2
  best : t.best = found
  rounds : t.rounds =
    s.rounds.set k { r with workers := r.workers.set i { w with phase := .reporting } }

/-- **A step leaves the best state alone, or it is that of a worker who has found a better one.** -/
theorem Step.best_cases (h : crew.Step s turn t) (hs : crew.Sound s.rounds) : t.best = s.best ∨
    ∃ k i r w found, turn = .act k i ∧ crew.Improves s t k i r w found := by
  cases h with
  | @act k i r w w' best sent hr hw hact =>
    have hround := hs.round hr
    cases hover : r.stage.isOver with
    | true => exact .inl (hround.best_of_isOver hover hw hact)
    | false =>
      rcases hact.best_cases with hbest | ⟨found, hphase, hcancelled, hbest, rfl, rfl⟩
      · exact .inl hbest
      · rcases keepBetter_cases s.best found with hkeep | ⟨hlt, hkeep⟩
        · exact .inl (hbest.trans hkeep)
        · exact .inr ⟨k, i, r, w, found, rfl, hr, hw, hover, hphase,
            hcancelled ▸ hround.hasFound hw hphase, hlt, hbest.trans hkeep, rfl⟩
  | _ => exact .inl rfl

/-- **The workers of a round that is over leave the best state alone.** -/
theorem Step.best_of_isOver {k i : Nat} (h : crew.Step s (.act k i) t) (hs : crew.Sound s.rounds)
    {r : Round S R} (hr : s.rounds[k]? = some r) (hover : r.stage.isOver) : t.best = s.best := by
  rcases h.best_cases hs with hbest | ⟨k', i', r', w, found, hturn, himproves⟩
  · exact hbest
  · cases hturn
    cases hr.symm.trans himproves.round
    have hstage := himproves.stage
    rw [hover] at hstage
    cases hstage

section Holds

variable {Q : Scored S R → Prop}
  (hQ : ∀ {cooling seed seen walk} {opening : Scored S R}, Q opening →
    (crew.recruit cooling seed).run crew.config.steps opening.1 seen = .ok walk →
      Q (walk.best, walk.bestScore))

include hQ

theorem Step.holds (h : crew.Step s turn t) (hs : crew.Sound s.rounds) (hholds : s.Holds Q) :
    t.Holds Q where
  best := by
    rcases h.best_cases hs with hbest | ⟨k, i, r, w, found, -, himproves⟩
    · exact hbest ▸ hholds.best
    · obtain ⟨seen, walk, -, hrun, rfl⟩ := himproves.hasFound
      obtain ⟨hannealer, hstart⟩ := (hs.round himproves.round).recruited himproves.worker
      rw [hannealer, hstart] at hrun
      exact himproves.best ▸ hQ (hholds.opening himproves.round) hrun
  opening {k r} hr := by
    rcases h.precedes hr with ⟨q, hq, hbecomes⟩ | ⟨-, -, temperature, rfl⟩
    · exact hbecomes.opening ▸ hholds.opening hq
    · exact hholds.best

/-- **What workers pass from the state they start from to the one they find holds of the best state
all along.** -/
theorem Reaches.holds (h : crew.Reaches s t) (hs : crew.Sound s.rounds) (hholds : s.Holds Q) :
    t.Holds Q := by
  induction h with
  | refl => exact hholds
  | tail hreach hstep ih => exact hstep.choose_spec.holds hQ (Reaches.sound hreach hs) ih

end Holds

/-- Nothing has happened when a search sets out. -/
theorem sound_opening (initial : S) : crew.Sound (crew.opening initial).rounds where
  round hr := by cases hr
  closed hr := by cases hr

omit [LT R] [DecidableLT R] in
theorem holds_opening {Q : Scored S R → Prop} {initial : S} (h : Q (initial, crew.score initial)) :
    (crew.opening initial).Holds Q where
  best := h
  opening hr := by cases hr

end Crew

end Timetable
