import Mathlib.Data.List.Nodup
import Timetable.Config
import Timetable.Proofs.Outcome
import Timetable.Search.IntegerWalk

/-!
# Seeds of workers

The workers of a search are numbered over all rounds of all calls, and the seed of a worker is the
base seed plus its number, multiplied by a constant in a word of 64 bits.  The constant has an
inverse, so two workers share a seed only if their numbers are the same in a word.

* `RoundConfig.flatMap_seeds`: the workers of the rounds are numbered one after the other.
* `Search.Played` says how far a search can come by any calls, and `Search.Played.numbers` that the
  numbering goes on from call to call, whatever ends a call.
* `Search.Played.seedsApart`: so no two workers share a seed, as long as their numbers fit words.
-/

set_option autoImplicit false

namespace Timetable

/-! ## Spreading numbers over a word -/

/-- The number that undoes a multiplication by `goldenGamma`. -/
def goldenInverse : UInt64 := 0xf1de83e19937733d

theorem goldenGamma_mul_goldenInverse : goldenGamma * goldenInverse = 1 := by decide

theorem mul_goldenGamma_injective {a b : UInt64} (h : a * goldenGamma = b * goldenGamma) :
    a = b := by
  have hundo : ∀ c : UInt64, c * goldenGamma * goldenInverse = c := fun c => by
    rw [UInt64.mul_assoc, goldenGamma_mul_goldenInverse, UInt64.mul_one]
  rw [← hundo a, h, hundo b]

theorem toUInt64_injective {i j : Nat} (hi : i < wordSize 64) (hj : j < wordSize 64)
    (h : i.toUInt64 = j.toUInt64) : i = j := by
  have hnat := congrArg UInt64.toNat h
  rwa [Nat.toUInt64_eq, Nat.toUInt64_eq, UInt64.toNat_ofNat_of_lt' hi,
    UInt64.toNat_ofNat_of_lt' hj] at hnat

namespace RoundConfig

variable (c : RoundConfig)

/-- The seed of the worker that has a number among the workers of all rounds. -/
def seedAt (i : Nat) : UInt64 := (c.seed + i.toUInt64) * goldenGamma

theorem workerSeed_eq_seedAt (round worker : Nat) :
    c.workerSeed round worker = c.seedAt (round * c.workers + worker) := rfl

theorem seedAt_injective {i j : Nat} (hi : i < wordSize 64) (hj : j < wordSize 64)
    (h : c.seedAt i = c.seedAt j) : i = j :=
  toUInt64_injective hi hj ((UInt64.add_right_inj c.seed).1 (mul_goldenGamma_injective h))

variable {c}

/-- A round has as many seeds as there are workers. -/
theorem seeds_eq (hworkers : 0 < c.workers) (round : Nat) :
    c.seeds round = (List.range c.workers).map (c.workerSeed round) := by
  have hmax : Nat.max c.workers 1 = c.workers := Nat.max_eq_left hworkers
  rw [seeds, hmax]

/-- **The workers of the rounds are numbered one after the other.** -/
theorem flatMap_seeds (hworkers : 0 < c.workers) (rounds : Nat) :
    (List.range rounds).flatMap c.seeds = (List.range (rounds * c.workers)).map c.seedAt := by
  induction rounds with
  | zero => simp
  | succ rounds ih =>
    rw [List.range_succ, List.flatMap_append, ih, List.flatMap_singleton, seeds_eq hworkers,
      Nat.succ_mul, List.range_add, List.map_append, List.map_map]
    rfl

/-- The number of a worker tells its round and which one of the round it is. -/
theorem number_injective {n round round' worker worker' : Nat} (hworker : worker < n)
    (hworker' : worker' < n) (h : round * n + worker = round' * n + worker') :
    round = round' ∧ worker = worker' := by
  have hdiv := congrArg (· / n) h
  simp only [Nat.mul_comm _ n, Nat.mul_add_div (Nat.zero_lt_of_lt hworker),
    Nat.div_eq_of_lt hworker, Nat.div_eq_of_lt hworker', Nat.add_zero] at hdiv
  exact ⟨hdiv, Nat.add_left_cancel (hdiv ▸ h)⟩

end RoundConfig

/-! ## The rounds of all calls -/

/-- The seeds that were handed out in all rounds, the first round first. -/
def Progress.seeds {S R : Type} (progress : Progress S R) : List UInt64 :=
  progress.history.reverse.flatMap (·.seeds)

namespace Search

variable {S R : Type} {search : Search S R}

/-- The rounds so far were handed out the seeds of the first rounds, one after the other. -/
def Numbers (search : Search S R) (progress : Progress S R) : Prop :=
  progress.history.reverse.map (·.seeds) = (List.range progress.rounds).map search.config.seeds

/-- No two workers of the rounds so far share a seed. -/
structure SeedsApart (search : Search S R) (progress : Progress S R) : Prop where
  /-- What was handed out are the seeds of the workers of the rounds, in order. -/
  seeds_eq : progress.seeds = (List.range progress.rounds).flatMap search.config.seeds
  nodup : progress.seeds.Nodup
  workerSeed_injective : ∀ round < progress.rounds, ∀ round' < progress.rounds,
    ∀ worker < search.config.workers, ∀ worker' < search.config.workers,
      search.config.workerSeed round worker = search.config.workerSeed round' worker' →
        round = round' ∧ worker = worker'

/-- Rounds that are numbered one after the other hand out different seeds. -/
theorem Numbers.apart {progress : Progress S R} (h : search.Numbers progress)
    (hworkers : 0 < search.config.workers)
    (hfits : ∀ round < progress.rounds,
      round * search.config.workers + search.config.workers < wordSize 64) :
    search.SeedsApart progress := by
  have hseeds : progress.seeds = (List.range progress.rounds).flatMap search.config.seeds := by
    rw [Progress.seeds, List.flatMap_def, h, List.flatMap_def]
  have hnumber : ∀ i < progress.rounds * search.config.workers, i < wordSize 64 := by
    intro i hi
    cases hrounds : progress.rounds with
    | zero =>
      rw [hrounds, Nat.zero_mul] at hi
      exact absurd hi (Nat.not_lt_zero i)
    | succ last =>
      rw [hrounds, Nat.succ_mul] at hi
      exact Nat.lt_trans hi (hfits last (hrounds ▸ Nat.lt_succ_self last))
  refine ⟨hseeds, ?_, ?_⟩
  · rw [hseeds, RoundConfig.flatMap_seeds hworkers]
    refine List.nodup_range.map_on fun i hi j hj => ?_
    exact search.config.seedAt_injective (hnumber i (List.mem_range.1 hi))
      (hnumber j (List.mem_range.1 hj))
  · intro round hround round' hround' worker hworker worker' hworker' heq
    refine RoundConfig.number_injective hworker hworker' ?_
    have hlt := hfits round hround
    have hlt' := hfits round' hround'
    rw [RoundConfig.workerSeed_eq_seedAt, RoundConfig.workerSeed_eq_seedAt] at heq
    exact search.config.seedAt_injective (by omega) (by omega) heq

section Rounds

variable [LT R] [DecidableLT R]

/-- A round goes on with the numbering. -/
theorem numbers_round {progress : Progress S R} (h : search.Numbers progress) (arrive : Arrival S R)
    (number : Nat) (temperature : Float) (best : Scored S R) :
    search.Numbers (search.round arrive number temperature best progress).1 := by
  change (_ :: progress.history).reverse.map (·.seeds) = (List.range (progress.rounds + 1)).map _
  rw [List.reverse_cons, List.map_append, h, List.range_succ, List.map_append]
  rfl

theorem numbers_playRounds (arrive : Nat → Arrival S R) (total todo idle : Nat) (best : Scored S R)
    {progress : Progress S R} (h : search.Numbers progress) :
    search.Numbers (search.playRounds arrive total todo idle best progress) := by
  induction todo generalizing idle best progress with
  | zero => exact h
  | succ todo ih =>
    rw [playRounds]
    have hround := numbers_round h (arrive (total - (todo + 1))) (total - (todo + 1))
      (search.primary (total - (todo + 1)) total) best
    dsimp only
    split
    · exact ih 0 _ hround
    · split
      · exact hround
      · exact ih _ _ hround

theorem numbers_playFor (arrive : Nat → Arrival S R) (duration fuel number spent idle : Nat)
    (best : Scored S R) {progress : Progress S R} (h : search.Numbers progress) :
    search.Numbers (search.playFor arrive duration fuel number spent idle best progress) := by
  induction fuel generalizing number spent idle best progress with
  | zero => exact h
  | succ fuel ih =>
    rw [playFor]
    have hround := numbers_round h (arrive number) number
      (search.primary spent (Nat.max duration 1)) best
    split
    · exact h
    · dsimp only
      split
      · exact ih _ _ 0 _ hround
      · split
        · exact hround
        · exact ih _ _ _ _ hround

end Rounds

/-! ## Several calls -/

variable [LT R] [DecidableLT R] [LE R] [DecidableLE R]

/-- How far a search can come by calls of both kinds, one after the other. -/
inductive Played (search : Search S R) : Progress S R → Prop
  | start : Played search {}
  /-- A call for a number of rounds, in which the workers report in any way. -/
  | iterate {progress : Progress S R} (arrive : Nat → Arrival S R) (rounds : Nat) (initial : S) :
    Played search progress → Played search (search.iterateWith arrive rounds initial progress)
  /-- A call for a time. -/
  | iterateFor {progress : Progress S R} (duration : Nat) (initial : S) :
    Played search progress → Played search (search.iterateFor duration initial progress)

/-- **The numbering of the workers goes on from call to call.** -/
theorem Played.numbers {progress : Progress S R} (h : search.Played progress) :
    search.Numbers progress := by
  induction h with
  | start => rfl
  | iterate arrive rounds initial _ ih => exact numbers_playRounds arrive rounds rounds 0 _ ih
  | iterateFor duration initial _ ih => exact numbers_playFor _ duration duration 0 0 0 _ ih

/-- **No two workers share a seed.**  This is so for all configurations that make sense and all base
seeds, through all rounds of all calls, as long as the numbers of the workers fit words. -/
theorem Played.seedsApart {c : SearchConfig} (hvalid : c.validate = .ok ()) {seed : UInt64}
    (hconfig : search.config = { c.roundConfig with seed }) {progress : Progress S R}
    (h : search.Played progress)
    (hfits : ∀ round < progress.rounds, round * c.workers + c.workers < wordSize 64) :
    search.SeedsApart progress := by
  have hworkers : 0 < search.config.workers := by
    obtain ⟨-, -, hworkers, -⟩ := SearchConfig.validate_eq_ok_iff.1 hvalid
    rw [hconfig]
    exact Nat.pos_of_ne_zero hworkers
  refine h.numbers.apart hworkers ?_
  rw [hconfig]
  exact hfits

end Search

namespace Stroll

/-- Two workers, with a base seed that makes the sums wrap around. -/
def config : SearchConfig where
  terms := [{ metric := .sectionsScheduled }]
  moves := [{ kind := .greedy }]
  workers := 2
  steps := 0
  seed := some 0xffffffffffffffff

def search : Search Int Int where
  config := config.roundConfig
  score := id
  move := (Stride.fixed 1).move
  acceptance := .greedy
  primary := CoolingKind.linear.cooling
  sub := CoolingKind.linear.cooling

/-- Two rounds, and then another three in a second call. -/
def progress : Progress Int Int := search.iterate 3 0 (search.iterate 2 0 {})

end Stroll

open Stroll in
theorem seedsApart_stroll : config.validate = .ok () ∧ search.Played progress ∧
    progress.rounds = 5 ∧ progress.seeds.length = 10 ∧ search.SeedsApart progress := by
  have hvalid : config.validate = .ok () := by rfl
  have hplayed : search.Played progress := by
    let inOrder : Nat → Arrival Int Int := fun _ => .inOrder config.timeout
    exact (Search.Played.start.iterate inOrder 2 0).iterate inOrder 3 0
  have hrounds : progress.rounds = 5 := by rfl
  refine ⟨hvalid, hplayed, hrounds, by rfl, hplayed.seedsApart hvalid rfl fun round hround => ?_⟩
  rw [hrounds] at hround
  change round * 2 + 2 < 18446744073709551616
  omega

end Timetable
