import Mathlib.Data.List.Nodup
import Timetable.Proofs.Interleaving

/-!
# Rounds one after another

`Search.round` plays a round as if its workers reported one after the other, in an order that is
given.  With everybody at work at the same time it is not clear that there is such an order, since
workers of several rounds are under way, and the comparison with the best state comes at a different
time than the report.

* `Crew.Reaches.exists_order`: for every round of a search of `Search.crew` there is an order in
  which `Search.round` comes to the same best state.
* `Search.exists_reaches_round`: whatever `Search.round` comes to with workers that report in some
  order can come about step by step, with the same score in the history.
* `Search.exists_reaches_iterateWith`: so whole searches that are played round by round are among
  those that go on step by step.
-/

set_option autoImplicit false

namespace Timetable

open Relation

variable {S R : Type}

/-! ## Reports in some order -/

/-- What is seen of a worker when it reports; nothing of one that has failed. -/
def Outcome.event? : Outcome S R → Option (Event S R)
  | finished found _ => some (.result found)
  | failed => none

/-- The workers with the numbers of a list report, one after the other, and no others do. -/
def Arrival.ofOrder (order : List Nat) : Arrival S R := fun outcomes =>
  order.filterMap fun i => outcomes[i]?.bind Outcome.event?

theorem Arrival.deadline_not_mem_ofOrder (order : List Nat) (outcomes : List (Outcome S R)) :
    .deadline ∉ ofOrder order outcomes := by
  intro h
  obtain ⟨i, -, hi⟩ := List.mem_filterMap.1 h
  obtain ⟨o, -, ho⟩ := Option.bind_eq_some_iff.1 hi
  cases o <;> cases ho

theorem Arrival.ofOrder_append (order order' : List Nat) (outcomes : List (Outcome S R)) :
    ofOrder (order ++ order') outcomes = ofOrder order outcomes ++ ofOrder order' outcomes :=
  List.filterMap_append

theorem Arrival.ofOrder_cons (i : Nat) (order : List Nat) (outcomes : List (Outcome S R)) :
    ofOrder (i :: order) outcomes = ofOrder [i] outcomes ++ ofOrder order outcomes :=
  ofOrder_append [i] order outcomes

theorem Arrival.ofOrder_singleton {outcomes : List (Outcome S R)} {i elapsed : Nat}
    {found : Scored S R} (h : outcomes[i]? = some (.finished found elapsed)) :
    ofOrder [i] outcomes = [.result found] := by
  simp only [ofOrder, List.filterMap_cons, List.filterMap_nil, h, Option.bind_some, Outcome.event?]

variable [LT R] [DecidableLT R]

/-- Events before the deadline are dealt with before the others. -/
theorem settle_append {best : Scored S R} {l m : List (Event S R)} (h : .deadline ∉ l) :
    (settle best (l ++ m)).1 = (settle (settle best l).1 m).1 := by
  induction l generalizing best with
  | nil => rfl
  | cons e l ih =>
    obtain ⟨hne, hl⟩ := not_or.1 (mt List.mem_cons.2 h)
    cases e with
    | deadline => exact absurd rfl hne
    | loss => exact ih hl
    | result found => exact ih hl

/-- Every worker reports once at most, so that all that matters is the order. -/
def Arrival.ReportsOnce (arrive : Arrival S R) : Prop := ∀ outcomes, ∃ order : List Nat,
  order.Nodup ∧ ∀ best, (settle best (arrive outcomes)).1 = (settle best (ofOrder order outcomes)).1

/-! ### Reports in order -/

/-- What is said of a worker before the deadline. -/
def Outcome.onTime? (timeout : Nat) : Outcome S R → Option (Event S R)
  | finished found elapsed => if elapsed ≤ timeout then some (.result found) else none
  | failed => some .loss

/-- Whether a worker brings something back before the deadline. -/
def Outcome.isOnTime (timeout : Nat) : Outcome S R → Bool
  | finished _ elapsed => elapsed ≤ timeout
  | failed => false

/-- Nothing comes of losses, so they may be left out. -/
theorem settle_filterMap {α : Type} {f g : α → Option (Event S R)} {p : α → Bool}
    (hkeep : ∀ x, p x = true → f x = g x) (hdrop : ∀ x, p x = false → f x = none ∨ f x = some .loss)
    (l : List α) (best : Scored S R) :
    (settle best (l.filterMap f)).1 = (settle best ((l.filter p).filterMap g)).1 := by
  induction l generalizing best with
  | nil => rfl
  | cons x l ih =>
    cases hx : p x with
    | true =>
      rw [List.filter_cons_of_pos hx, List.filterMap_cons, List.filterMap_cons, hkeep x hx]
      cases g x with
      | none => exact ih best
      | some e =>
        cases e with
        | deadline => rfl
        | loss => exact ih best
        | result found => exact ih _
    | false =>
      rw [List.filter_cons_of_neg (by simp [hx]), List.filterMap_cons]
      rcases hdrop x hx with hf | hf <;> rw [hf] <;> exact ih best

/-- A list is found by looking up all its places. -/
theorem filterMap_getElem?_range {α : Type} (l : List α) :
    (List.range l.length).filterMap (l[·]?) = l := by
  induction l with
  | nil => rfl
  | cons x l ih =>
    rw [List.length_cons, List.range_succ_eq_map, List.filterMap_cons]
    simp only [List.getElem?_cons_zero, List.filterMap_map, Function.comp_def,
      List.getElem?_cons_succ, ih]

/-- What comes after the deadline does not count. -/
theorem Arrival.settle_inOrder (timeout : Nat) (outcomes : List (Outcome S R)) (best : Scored S R) :
    (settle best (inOrder timeout outcomes)).1 =
      (settle best (outcomes.filterMap (·.onTime? timeout))).1 := by
  have hnone : .deadline ∉ outcomes.filterMap (·.onTime? timeout) := fun h => by
    obtain ⟨o, -, ho⟩ := List.mem_filterMap.1 h
    cases o with
    | finished found elapsed =>
      rw [Outcome.onTime?] at ho
      split at ho <;> cases ho
    | failed => cases ho
  unfold inOrder
  extract_lets onTime late
  have honTime : onTime = outcomes.filterMap (·.onTime? timeout) := by
    refine List.filterMap_congr fun o _ => ?_
    cases o <;> rfl
  split
  · rw [honTime]
  · rw [honTime, settle_append hnone]
    rfl

theorem Arrival.inOrder_reportsOnce (timeout : Nat) :
    (inOrder timeout : Arrival S R).ReportsOnce := by
  intro outcomes
  refine ⟨(List.range outcomes.length).filter fun i => outcomes[i]?.any (·.isOnTime timeout),
    List.nodup_range.filter _, fun best => ?_⟩
  have hall : outcomes.filterMap (·.onTime? timeout) = (List.range outcomes.length).filterMap
      fun i => outcomes[i]?.bind (·.onTime? timeout) := by
    conv_lhs => rw [← filterMap_getElem?_range outcomes, List.filterMap_filterMap]
  rw [settle_inOrder, hall, ofOrder]
  refine settle_filterMap (fun i hi => ?_) (fun i hi => ?_) _ best
  · cases ho : outcomes[i]? with
    | none => rfl
    | some o =>
      rw [ho] at hi
      cases o with
      | finished found elapsed => exact if_pos (of_decide_eq_true hi)
      | failed => cases hi
  · cases ho : outcomes[i]? with
    | none => exact .inl rfl
    | some o =>
      rw [ho] at hi
      cases o with
      | finished found elapsed => exact .inl (if_neg (of_decide_eq_false hi))
      | failed => exact .inr rfl

/-! ## The outcomes of a round -/

namespace Search

/-- What the workers of a round come to if they are not stopped. -/
def outcomes (search : Search S R) (number : Nat) (temperature : Float) (start : S) :
    List (Outcome S R) :=
  (search.config.seeds number).map (search.outcome temperature start)

variable {search : Search S R}

theorem length_outcomes {number : Nat} {temperature : Float} {start : S} :
    (search.outcomes number temperature start).length = search.crew.size := by
  simp only [outcomes, RoundConfig.seeds, List.length_map, List.length_range]
  rfl

/-- The workers of a round are numbered up to the size of the crew. -/
theorem getElem?_outcomes {number i : Nat} (hi : i < search.crew.size) (temperature : Float)
    (start : S) : (search.outcomes number temperature start)[i]? =
      some (search.outcome temperature start (search.config.workerSeed number i)) := by
  have hi : i < Nat.max search.config.workers 1 := hi
  simp only [outcomes, RoundConfig.seeds, List.getElem?_map, List.getElem?_range hi,
    Option.map_some]

/-- What a worker of the crew offers before the flag is raised is its outcome. -/
theorem outcome_of_hasFound {w : Worker S R} {found : Scored S R} {temperature : Float}
    {seed : UInt64} (h : w.HasFound search.config.steps false found)
    (hannealer : w.annealer = search.annealer temperature seed) :
    ∃ elapsed, search.outcome temperature w.start seed = .finished found elapsed := by
  obtain ⟨seen, walk, hseen, hrun, rfl⟩ := h
  have hnever : seen = fun _ => false := funext (hseen rfl)
  rw [hannealer, hnever] at hrun
  exact ⟨walk.elapsed, by rw [outcome, hrun]⟩

end Search

/-! ## An order for what has happened -/

/-- The best state when the next round begins, or now if there is none yet. -/
def Scene.after (s : Scene S R) (k : Nat) : Scored S R :=
  (s.rounds[k + 1]?.map (·.opening)).getD s.best

/-- The best state is what workers of the round have made of it, reporting in some order. -/
def Round.Yields (search : Search S R) (number : Nat) (r : Round S R) (best : Scored S R) : Prop :=
  ∃ order : List Nat, order.Nodup ∧
    (∀ i ∈ order, ∃ w, r.workers[i]? = some w ∧ w.phase.hasOffered) ∧
    best = (settle r.opening
      (Arrival.ofOrder order (search.outcomes number r.temperature r.opening.1))).1

theorem Round.Yields.becomes {search : Search S R} {number : Nat} {r r' : Round S R}
    {best : Scored S R} (h : r.Yields search number best) (hr : r.Becomes r') :
    r'.Yields search number best := by
  obtain ⟨order, hnodup, hoffered, hbest⟩ := h
  refine ⟨order, hnodup, fun i hi => ?_, ?_⟩
  · obtain ⟨w, hw, hw'⟩ := hoffered i hi
    exact hr.offered hw hw'
  · rw [hr.opening, hr.temperature]
    exact hbest

namespace Crew

section After

variable {crew : Crew S R} {s t : Scene S R} {turn : Turn} {k : Nat}

omit [LT R] [DecidableLT R] in
theorem after_eq_best (h : s.rounds[k + 1]? = none) : s.after k = s.best := by
  rw [Scene.after, h]
  rfl

theorem Step.after_eq_of_lt (h : crew.Step s turn t) (hk : k + 1 < s.rounds.length) :
    t.after k = s.after k := by
  have hr := List.getElem?_eq_getElem hk
  obtain ⟨r', hr', hbecomes⟩ := h.becomes hr
  simp only [Scene.after, hr, hr', Option.map_some, Option.getD_some, hbecomes.opening]

/-- The best state after the last round is still the one before the step. -/
theorem Step.after_eq_best (h : crew.Step s turn t) (hk : s.rounds[k + 1]? = none)
    (hbest : t.best = s.best) : t.after k = s.best := by
  cases hr : t.rounds[k + 1]? with
  | none => rw [Crew.after_eq_best hr, hbest]
  | some r =>
    rcases h.precedes hr with ⟨q, hq, -⟩ | ⟨-, -, temperature, rfl⟩
    · rw [hk] at hq
      cases hq
    · simp only [Scene.after, hr, Option.map_some, Option.getD_some]

end After

variable {search : Search S R} {s t : Scene S R} {turn : Turn}

/-- A worker that has found something better reports after those that have reported. -/
theorem Improves.yields {k i : Nat} {r q : Round S R} {w : Worker S R} {found : Scored S R}
    (h : search.crew.Improves s t k i r w found) (hs : search.crew.Sound s.rounds)
    (hyields : r.Yields search k s.best) (hq : t.rounds[k]? = some q) :
    q.Yields search k t.best := by
  obtain ⟨order, hnodup, hoffered, hbest⟩ := hyields
  rw [h.rounds] at hq
  obtain ⟨-, rfl⟩ | ⟨hne, -⟩ := (getElem?_set_eq_some_iff h.round).1 hq
  · have hround := hs.round h.round
    obtain ⟨hannealer, hstart⟩ := hround.recruited h.worker
    obtain ⟨elapsed, houtcome⟩ := Search.outcome_of_hasFound h.hasFound hannealer
    have hi : i < search.crew.size :=
      Nat.lt_of_lt_of_le (List.getElem?_eq_some_iff.1 h.worker).1 hround.length_le
    have hfound : (search.outcomes k r.temperature r.opening.1)[i]? =
        some (.finished found elapsed) := by
      rw [Search.getElem?_outcomes hi, ← hstart]
      exact congrArg some houtcome
    -- who reports now has not reported before
    have hfresh : i ∉ order := fun hmem => by
      obtain ⟨v, hv, hphase⟩ := hoffered i hmem
      cases hv.symm.trans h.worker
      rw [h.phase] at hphase
      cases hphase
    refine ⟨order ++ [i], ?_, fun j hj => ?_, ?_⟩
    · exact List.nodup_append.2 ⟨hnodup, List.nodup_singleton i, fun j hj j' hj' hjj' =>
        hfresh (List.mem_singleton.1 hj' ▸ hjj' ▸ hj)⟩
    · by_cases hji : j = i
      · exact ⟨_, (getElem?_set_eq_some_iff h.worker).2 (.inl ⟨hji, rfl⟩), rfl⟩
      · have hj := (List.mem_append.1 hj).resolve_right fun hj => hji (List.mem_singleton.1 hj)
        obtain ⟨v, hv, hphase⟩ := hoffered j hj
        exact ⟨v, (getElem?_set_eq_some_iff h.worker).2 (.inr ⟨hji, hv⟩), hphase⟩
    · rw [Arrival.ofOrder_append, settle_append (Arrival.deadline_not_mem_ofOrder _ _),
        Arrival.ofOrder_singleton hfound, ← hbest, h.best]
      exact (if_pos h.lt).symm
  · exact absurd rfl hne

/-- **After every step there is an order in which the workers of each round have reported.** -/
theorem Step.yields (h : search.crew.Step s turn t) (hs : search.crew.Sound s.rounds)
    (hyields : ∀ {k : Nat} {r : Round S R}, s.rounds[k]? = some r → r.Yields search k (s.after k))
    {k : Nat} {r : Round S R} (hr : t.rounds[k]? = some r) : r.Yields search k (t.after k) := by
  rcases h.precedes hr with ⟨q, hq, hbecomes⟩ | ⟨rfl, rfl, temperature, rfl⟩
  · have hold := hyields hq
    rcases Nat.lt_or_ge (k + 1) s.rounds.length with hlt | hge
    · rw [h.after_eq_of_lt hlt]
      exact hold.becomes hbecomes
    · have hnext : s.rounds[k + 1]? = none := List.getElem?_eq_none hge
      rw [Crew.after_eq_best hnext] at hold
      rcases h.best_cases hs with hbest | ⟨j, i, r', w, found, rfl, himproves⟩
      · rw [h.after_eq_best hnext hbest]
        exact hold.becomes hbecomes
      · -- the round of the worker is not over, so it is the last one
        have hj : j = k := by
          have hjlt := (List.getElem?_eq_some_iff.1 himproves.round).1
          have hklt := (List.getElem?_eq_some_iff.1 hq).1
          by_contra hne
          have hclosed := hs.closed himproves.round (by omega)
          have hstage := himproves.stage
          rw [hclosed] at hstage
          cases hstage
        subst hj
        cases hq.symm.trans himproves.round
        have hnone : t.rounds[j + 1]? = none := by
          rw [himproves.rounds, List.getElem?_eq_none_iff, List.length_set]
          exact hge
        rw [Crew.after_eq_best hnone]
        exact himproves.yields hs hold hr
  · -- nobody has reported in a round that has just begun
    cases h with
    | begin _ _ =>
      exact ⟨[], List.nodup_nil, nofun, Crew.after_eq_best (List.getElem?_eq_none (by simp))⟩

theorem Reaches.yields {initial : S} (h : search.crew.Reaches (search.crew.opening initial) s)
    {k : Nat} {r : Round S R} (hr : s.rounds[k]? = some r) : r.Yields search k (s.after k) := by
  induction h generalizing k r with
  | refl => cases hr
  | tail hreach hstep ih =>
    exact hstep.choose_spec.yields (Reaches.sound hreach (sound_opening initial)) ih hr

/-- **In every round of a search the workers might as well have reported one after the other.** -/
theorem Reaches.exists_order {initial : S}
    (h : search.crew.Reaches (search.crew.opening initial) s) {k : Nat} {r : Round S R}
    (hr : s.rounds[k]? = some r) : ∃ order : List Nat, order.Nodup ∧
      ∀ (number : Nat) (progress : Progress S R), progress.rounds = k →
        (search.round (.ofOrder order) number r.temperature r.opening progress).1.best =
          some (s.after k) := by
  obtain ⟨order, hnodup, -, hbest⟩ := h.yields hr
  refine ⟨order, hnodup, fun number progress hrounds => ?_⟩
  rw [hbest, ← hrounds]
  rfl

end Crew

/-! ## Steps for what is reported -/

/-- The scene when another round is played. -/
def Scene.playing (s : Scene S R) (best : Scored S R) (r : Round S R) : Scene S R :=
  { s with best, rounds := s.rounds ++ [r] }

namespace Crew

section Playing

variable {crew : Crew S R} {s : Scene S R} {best best' : Scored S R} {r r' : Round S R}

omit [LT R] [DecidableLT R] in
theorem getElem?_rounds_playing : (s.playing best r).rounds[s.rounds.length]? = some r :=
  List.getElem?_concat_length

omit [LT R] [DecidableLT R] in
theorem set_rounds_playing :
    (s.playing best r).rounds.set s.rounds.length r' = s.rounds ++ [r'] := by
  simp [Scene.playing]

theorem reaches_coordinate (h : crew.Coordinates s.rounds.length r r') :
    crew.Reaches (s.playing best r) (s.playing best r') := by
  have hstep := Step.coordinate (s := s.playing best r) getElem?_rounds_playing h
  rw [set_rounds_playing] at hstep
  exact Reaches.refl.step hstep

theorem reaches_act {i sent : Nat} {w w' : Worker S R} (hw : r.workers[i]? = some w)
    (h : w.Acts crew.config.steps r.cancelled best w' best' sent) :
    crew.Reaches (s.playing best r) (s.playing best' { r with
      workers := r.workers.set i w', unread := r.unread + sent }) := by
  have hstep := Step.act (s := s.playing best r) getElem?_rounds_playing hw h
  rw [set_rounds_playing] at hstep
  exact Reaches.refl.step hstep

/-- The workers of a round with their numbers, none of whom has done anything. -/
def workers (crew : Crew S R) (number n : Nat) (temperature : Float) (opening : Scored S R) :
    List (Worker S R) :=
  (List.range n).map fun i => crew.worker number i temperature opening

/-- All workers may be sent out at once. -/
theorem reaches_send (temperature : Float) {n : Nat} (hn : n ≤ crew.size) :
    crew.Reaches (s.playing s.best { temperature, opening := s.best })
      (s.playing s.best
        { temperature, opening := s.best
          workers := crew.workers s.rounds.length n temperature s.best }) := by
  induction n with
  | zero => exact .refl
  | succ n ih =>
    have hlength : (crew.workers s.rounds.length n temperature s.best).length = n := by
      simp [workers]
    refine (ih (Nat.le_of_succ_le hn)).trans (reaches_coordinate ?_)
    have hnext : crew.workers s.rounds.length (n + 1) temperature s.best =
        crew.workers s.rounds.length n temperature s.best ++
          [crew.worker s.rounds.length n temperature s.best] := by
      simp [workers, List.range_succ]
    have hsend : crew.Coordinates s.rounds.length _ _ := .send
      (r := { temperature, opening := s.best
              workers := crew.workers s.rounds.length n temperature s.best }) rfl
      (hlength.symm ▸ hn)
    rw [hlength] at hsend
    rw [hnext]
    exact hsend

end Playing

end Crew

namespace Search

open Crew

variable (search : Search S R) {s : Scene S R}

/-- A worker that has done nothing may walk and offer what it finds, and nothing else happens. -/
theorem exists_reaches_offer {temperature : Float} {opening best : Scored S R} {r : Round S R}
    (hcancelled : r.cancelled = false) {i : Nat}
    (hw : r.workers[i]? = some (search.crew.worker s.rounds.length i temperature opening))
    (hi : i < search.crew.size) :
    ∃ r', search.crew.Reaches (s.playing best r) (s.playing (settle best (Arrival.ofOrder [i]
        (search.outcomes s.rounds.length temperature opening.1))).1 r') ∧
      r'.stage = r.stage ∧ r'.received = r.received ∧ r'.cancelled = r.cancelled ∧
      ∀ j, j ≠ i → r'.workers[j]? = r.workers[j]? := by
  have houtcome : (search.outcomes s.rounds.length temperature opening.1)[i]? = _ :=
    Search.getElem?_outcomes hi temperature opening.1
  cases hrun : (search.annealer temperature
      (search.config.workerSeed s.rounds.length i)).run search.config.steps opening.1 with
  | error f =>
    -- a worker that fails offers nothing
    rw [Search.outcome, hrun] at houtcome
    refine ⟨r, ?_, rfl, rfl, rfl, fun _ _ => rfl⟩
    simp only [Arrival.ofOrder, List.filterMap_cons, houtcome, Option.bind_some, Outcome.event?]
    exact .refl
  | ok walk =>
    rw [Search.outcome, hrun] at houtcome
    have hwalk : (search.crew.worker s.rounds.length i temperature opening).Acts
        search.crew.config.steps r.cancelled best _ best 0 := .finish rfl (fun _ _ => rfl) hrun
    have hoffered := (reaches_act (s := s) hw hwalk).trans (reaches_act (i := i)
      ((getElem?_set_eq_some_iff hw).2 (.inl ⟨rfl, rfl⟩)) (.offer rfl hcancelled))
    rw [Arrival.ofOrder_singleton houtcome]
    refine ⟨_, hoffered, rfl, rfl, rfl, fun j hj => ?_⟩
    simp only [List.getElem?_set_ne (Ne.symm hj)]

/-- **Workers that have done nothing may offer what they find in any order.** -/
theorem exists_reaches_offers (temperature : Float) (opening : Scored S R) {order : List Nat}
    (hnodup : order.Nodup) {best : Scored S R} {r : Round S R} (hcancelled : r.cancelled = false)
    (hworkers : ∀ i ∈ order, i < search.crew.size →
      r.workers[i]? = some (search.crew.worker s.rounds.length i temperature opening)) :
    ∃ r', search.crew.Reaches (s.playing best r) (s.playing (settle best (Arrival.ofOrder order
        (search.outcomes s.rounds.length temperature opening.1))).1 r') ∧
      r'.stage = r.stage ∧ r'.received = r.received := by
  induction order generalizing best r with
  | nil => exact ⟨r, .refl, rfl, rfl⟩
  | cons i order ih =>
    obtain ⟨hfresh, hnodup⟩ := List.nodup_cons.1 hnodup
    rw [Arrival.ofOrder_cons, settle_append (Arrival.deadline_not_mem_ofOrder _ _)]
    by_cases hi : i < search.crew.size
    · obtain ⟨q, hq, hstage, hreceived, hcancelled', hothers⟩ :=
        search.exists_reaches_offer hcancelled (hworkers i List.mem_cons_self hi) hi
      obtain ⟨r', hr', hstage', hreceived'⟩ := ih hnodup (hcancelled'.trans hcancelled)
        fun j hj hlt => by
          rw [hothers j fun hji => hfresh (hji ▸ hj)]
          exact hworkers j (List.mem_cons_of_mem i hj) hlt
      exact ⟨r', hq.trans hr', hstage'.trans hstage, hreceived'.trans hreceived⟩
    · -- there is no worker with this number
      have hnone : (search.outcomes s.rounds.length temperature opening.1)[i]? = none :=
        List.getElem?_eq_none (by rw [Search.length_outcomes]; exact Nat.not_lt.1 hi)
      have hnobody : Arrival.ofOrder [i] (search.outcomes s.rounds.length temperature opening.1) =
          [] := by
        simp only [Arrival.ofOrder, List.filterMap_cons, List.filterMap_nil, hnone,
          Option.bind_none]
      rw [hnobody]
      exact ih hnodup hcancelled fun j hj => hworkers j (List.mem_cons_of_mem i hj)

/-- A round may be played in which the workers report in some order. -/
theorem exists_reaches_ofOrder (hclosed : ∀ r ∈ s.rounds, r.stage = .closed) (temperature : Float)
    {order : List Nat} (hnodup : order.Nodup) :
    ∃ r report, r.stage = .closed ∧
      let best := (settle s.best (Arrival.ofOrder order
        (search.outcomes s.rounds.length temperature s.best.1))).1
      report.bestScore = best.2 ∧ search.crew.Reaches s
        { best, rounds := s.rounds ++ [r], history := report :: s.history } := by
  -- all workers are sent out
  have hbegin : search.crew.Reaches s (s.playing s.best { temperature, opening := s.best }) :=
    Reaches.refl.step (.begin temperature hclosed)
  have hlength : (search.crew.workers s.rounds.length search.crew.size temperature s.best).length =
      search.crew.size := by
    simp [workers]
  have hsent := (hbegin.trans (reaches_send temperature (Nat.le_refl search.crew.size))).trans
    (reaches_coordinate (.await rfl hlength))
  have hwalking : ∀ i ∈ order, i < search.crew.size →
      (search.crew.workers s.rounds.length search.crew.size temperature s.best)[i]? =
        some (search.crew.worker s.rounds.length i temperature s.best) := fun i _ hi => by
    simp [workers, hi]
  -- those of the given order get hold of the best state, the others are late
  obtain ⟨q, hq, hstage, hreceived⟩ := search.exists_reaches_offers temperature s.best hnodup
    (r := { temperature, opening := s.best, stage := .waiting
            workers := search.crew.workers s.rounds.length search.crew.size temperature s.best })
    rfl hwalking
  have hearly : q.received < search.crew.size := by
    rw [hreceived]
    exact Nat.lt_of_lt_of_le Nat.zero_lt_one (Nat.le_max_right _ _)
  have hleft := (hsent.trans hq).trans (reaches_coordinate (.deadline hstage hearly))
  have hclose := hleft.step (.close 1 getElem?_rounds_playing rfl)
  rw [set_rounds_playing] at hclose
  exact ⟨_, _, rfl, rfl, hclose⟩

end Search

/-! ## Whole searches -/

/-- What a search that is played round by round knows of itself is true of the scene. -/
structure Progress.Describes (progress : Progress S R) (s : Scene S R) : Prop where
  best : progress.best = some s.best
  rounds : progress.rounds = s.rounds.length
  history : progress.history.map (·.bestScore) = s.history.map (·.bestScore)
  closed : ∀ r ∈ s.rounds, r.stage = .closed

namespace Search

variable (search : Search S R) {s : Scene S R} {progress : Progress S R}

/-- **Whatever a round comes to can come about step by step.** -/
theorem exists_reaches_round (hs : progress.Describes s) {arrive : Arrival S R}
    (harrive : arrive.ReportsOnce) (number : Nat) (temperature : Float) :
    ∃ t, search.crew.Reaches s t ∧
      (search.round arrive number temperature s.best progress).1.Describes t := by
  obtain ⟨order, hnodup, hsettle⟩ :=
    harrive (search.outcomes s.rounds.length temperature s.best.1)
  obtain ⟨r, report, hr, hscore, hreach⟩ :=
    search.exists_reaches_ofOrder hs.closed temperature hnodup
  have hbest : (settle s.best (arrive
      ((search.config.seeds progress.rounds).map (search.outcome temperature s.best.1)))).1 =
        (settle s.best (Arrival.ofOrder order
          (search.outcomes s.rounds.length temperature s.best.1))).1 := by
    rw [← hsettle, outcomes, hs.rounds]
  refine ⟨_, hreach, ?_, ?_, ?_, fun q hq => ?_⟩
  · exact congrArg some hbest
  · simp only [round, hs.rounds, List.length_append, List.length_singleton]
  · simp only [round, List.map_cons, hs.history, hbest, hscore]
  · rcases List.mem_append.1 hq with hq | hq
    · exact hs.closed q hq
    · rw [List.mem_singleton.1 hq, hr]

/-- **Whatever rounds come to can come about step by step.** -/
theorem exists_reaches_playRounds {arrive : Nat → Arrival S R}
    (harrive : ∀ number, (arrive number).ReportsOnce) (total todo idle : Nat)
    (hs : progress.Describes s) : ∃ t, search.crew.Reaches s t ∧
      (search.playRounds arrive total todo idle s.best progress).Describes t := by
  induction todo generalizing idle s progress with
  | zero => exact ⟨s, .refl, hs⟩
  | succ todo ih =>
    obtain ⟨t, hst, ht⟩ := search.exists_reaches_round hs (harrive (total - (todo + 1)))
      (total - (todo + 1)) (search.primary (total - (todo + 1)) total)
    rw [playRounds]
    simp only [ht.best, Option.getD_some]
    split
    · obtain ⟨u, htu, hu⟩ := ih 0 ht
      exact ⟨u, hst.trans htu, hu⟩
    · split
      · exact ⟨t, hst, ht⟩
      · obtain ⟨u, htu, hu⟩ := ih _ ht
        exact ⟨u, hst.trans htu, hu⟩

/-- **A search that is played round by round goes on step by step.** -/
theorem exists_reaches_iterateWith [LE R] [DecidableLE R] {arrive : Nat → Arrival S R}
    (harrive : ∀ number, (arrive number).ReportsOnce) (rounds : Nat) (initial : S) :
    ∃ s, search.crew.Reaches (search.crew.opening initial) s ∧
      (search.iterateWith arrive rounds initial {}).Describes s :=
  search.exists_reaches_playRounds harrive rounds rounds 0 ⟨rfl, rfl, rfl, nofun⟩

end Search

end Timetable
