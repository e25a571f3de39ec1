import Timetable.Calendar
import Timetable.Config
import Timetable.Directory
import Timetable.Distinct
import Timetable.Fault
import Timetable.History
import Timetable.Identifier
import Timetable.Json.Basic
import Timetable.Json.Decode
import Timetable.Json.Form
import Timetable.Json.Printer
import Timetable.Json.Reader
import Timetable.Move.Basic
import Timetable.Move.Kind
import Timetable.Move.Placing
import Timetable.Move.Swapping
import Timetable.Numeric.Decimal
import Timetable.Numeric.Double
import Timetable.Numeric.Natural
import Timetable.Numeric.Shortest
import Timetable.Offering
import Timetable.OrderedMap.Basic
import Timetable.OrderedMap.Cursor
import Timetable.OrderedMap.Printer
import Timetable.OrderedMap.Tree
import Timetable.OrderedMap.Update
import Timetable.Pins
import Timetable.Placement
import Timetable.Program.Basic
import Timetable.Program.Integrity
import Timetable.Program.Prerequisites
import Timetable.Program.Query
import Timetable.Program.Reading
import Timetable.Program.Record
import Timetable.Proofs.Agreement
import Timetable.Proofs.BackToBack
import Timetable.Proofs.Batch
import Timetable.Proofs.Booking
import Timetable.Proofs.Circle
import Timetable.Proofs.Clash
import Timetable.Proofs.Force
import Timetable.Proofs.Freeing
import Timetable.Proofs.Integrity
import Timetable.Proofs.Interleaving
import Timetable.Proofs.Law
import Timetable.Proofs.Limits
import Timetable.Proofs.Linearization
import Timetable.Proofs.Loading
import Timetable.Proofs.LockedFirst
import Timetable.Proofs.Lookup
import Timetable.Proofs.Lots
import Timetable.Proofs.NoPanic
import Timetable.Proofs.Occupancy
import Timetable.Proofs.OrderedMap
import Timetable.Proofs.Outcome
import Timetable.Proofs.Outline
import Timetable.Proofs.Pinned
import Timetable.Proofs.Placement
import Timetable.Proofs.Placing
import Timetable.Proofs.Program
import Timetable.Proofs.Reachable
import Timetable.Proofs.Removal
import Timetable.Proofs.Replay
import Timetable.Proofs.Rounds
import Timetable.Proofs.Rule
import Timetable.Proofs.Rulebook
import Timetable.Proofs.Schedule
import Timetable.Proofs.SearchInvariant
import Timetable.Proofs.SharedBest
import Timetable.Proofs.Strict.Move
import Timetable.Proofs.Strict.Program
import Timetable.Proofs.Strict.Rule
import Timetable.Proofs.Strict.Rulebook
import Timetable.Proofs.Strict.Score
import Timetable.Proofs.Swapping
import Timetable.Proofs.Versions
import Timetable.Proofs.Walk
import Timetable.Random.Choice
import Timetable.Random.Generator
import Timetable.Random.Source
import Timetable.Report
import Timetable.Rule.Basic
import Timetable.Rule.Booking
import Timetable.Rule.Capacity
import Timetable.Rule.House
import Timetable.Rule.Kind
import Timetable.Rule.Pinning
import Timetable.Rule.Timing
import Timetable.Rulebook
import Timetable.Schedule.Basic
import Timetable.Schedule.Printer
import Timetable.Scheduler
import Timetable.Score.Metric
import Timetable.Score.Weighted
import Timetable.Search.Acceptance
import Timetable.Search.Annealer
import Timetable.Search.Cooling
import Timetable.Search.IntegerWalk
import Timetable.Search.Interleaving
import Timetable.Search.Rounds
import Timetable.Text.Hidden
import Timetable.Text.Quoted
import Timetable.Venue
import Timetable.Proofs.Navigation
import Timetable.Proofs.Verdict
import Timetable.Proofs.Idempotence
import Timetable.Proofs.Annealing
import Timetable.Proofs.Timeline
import Timetable.Proofs.Counting
import Timetable.Proofs.Covering
import Timetable.Proofs.CircleSearch
import Timetable.Proofs.CommitOrder
import Timetable.Proofs.Drawable
import Timetable.Proofs.Fitting
import Timetable.Proofs.Product
import Timetable.Proofs.MoveSizes
import Timetable.Proofs.Seeds
