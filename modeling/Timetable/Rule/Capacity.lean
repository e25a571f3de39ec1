import Timetable.Random.Choice
import Timetable.Rule.Basic

/-!
# Rules of size and supply

* `localConflict`: the room has the right size, and room and teachers are available.
* `roomProperties`: the room has what the course requires and is not reserved for others.
* `resources`: equipment is in the room or can be borrowed from the floating pool.
* `teacherGroupCap`: no teacher group teaches more than its cap allows.

The last two may have to choose among several starts that could make way.  They choose by lot, and
the lot depends only on a seed, the candidate and the pool or group contended for, so that asking
again gives the same answer.
-/

set_option autoImplicit false

namespace Timetable.Rule

/-! ## Size and availability -/

/-- The quotient of two numbers, infinite if the second is zero. -/
def ratio (a b : Nat) : Float :=
  if b = 0 then 1.0 / 0.0 else a.toFloat / b.toFloat

/-- The seats of the room are at least `minimum` times the students the course may have and at most
`maximum` times those it expects, and in every period of the run all teachers and the room are
available. -/
def localConflict (minimum maximum : Float) : Rule where
  name := "LOCAL_CONFLICT"
  onStart {p} _ c :=
    let course := p.courseOf c.sectionId
    let capacity := (p.room c.roomId).capacity
    let title := course.title
    let largest := course.maxSize
    let expected := course.estimatedSize
    require (ratio capacity largest ≥ minimum)
      s!"{c.roomId} seats {capacity}, {title} takes up to {largest}" ++
    require (ratio capacity expected ≤ maximum)
      s!"{c.roomId} seats {capacity}, too large for {expected} expected in {title}"
  onPresent {p} _ m :=
    require ((p.compatiblePeriods m.sectionId).contains m.periodId)
      s!"a teacher of {m.sectionId} is unavailable at {m.periodId}" ++
    require ((p.roomPeriods m.roomId).contains m.periodId)
      s!"{m.roomId} is unavailable at {m.periodId}"

/-- The room has every property the course requires and is reserved by none it does not require. -/
def roomProperties : Rule where
  name := "ROOM_PROPERTIES"
  onStart {p} _ c :=
    let required := (p.courseOf c.sectionId).propertyIds
    let offered := (p.room c.roomId).propertyIds
    let missing := required.filter fun q => !offered.contains q
    let unwanted := (p.bindingProperties c.roomId).filter fun q => !required.contains q
    (missing.map fun q => .flaw s!"{c.roomId} lacks {q}") ++
    (unwanted.map fun q => .flaw s!"{c.roomId} is reserved for courses requiring {q}")

/-! ## Drawing lots -/

/-- The seed of the lot that is drawn for one candidate and one pool. -/
def lotSeed (seed : UInt64) (m : Present) (pool : Nat) : UInt64 :=
  [m.sectionId.val, m.roomId.val, m.periodId.val, pool].foldl
    (fun h v => rotateLeft ((h ^^^ v.toUInt64) * goldenGamma) 29) seed

/-- The source that the lot for one candidate and one pool is drawn from. -/
def lot (seed : UInt64) (m : Present) (pool : Nat) : Generator := .ofSeed (lotSeed seed m pool)

/-- An order of a list, drawn by lot.  It does not depend on the order the list had. -/
def drawLots {G α : Type} [RandomSource G] [Ord α] (rng : G) (xs : List α) : List α :=
  (RandomSource.shuffle rng (sorted xs)).1

/-! ## Equipment -/

/-- The resources a section needs and its room does not supply. -/
def borrowed (p : Program) (id : SectionId) (room : RoomId) : List ResourceId :=
  (p.courseOf id).resourceIds.filter fun r => !(p.room room).resourceIds.contains r

/-- The sections in session that borrow a resource, other than the candidate's. -/
def borrowers {p : Program} (s : Schedule p) (m : Present) (r : ResourceId) : List Start :=
  ((s.occurring m.slot).filter fun o =>
    o.sectionId ≠ m.sectionId && (borrowed p o.sectionId o.roomId).contains r).map (·.start)

/-- What the pool of one resource has against a period of a run: nothing if a unit is left, a flaw
if there are no units at all, else a clash with so many borrowers that a unit becomes free. -/
def poolObjections {p : Program} (seed : UInt64) (s : Schedule p) (m : Present)
    (r : ResourceId) : List Objection :=
  let others := borrowers s m r
  let units := (p.resource r).floating
  if others.length < units then []
  else if units = 0 then [.flaw s!"{m.roomId} lacks {r} and none float"]
  else
    [.clash ((drawLots (lot seed m r.val) others).take (others.length + 1 - units))
      s!"all {units} floating {r} are in use at {m.periodId}"]

/-- Required equipment is in the room or can be borrowed, and the room is not reserved for courses
that require other equipment. -/
def resources (seed : UInt64) : Rule where
  name := "RESOURCES"
  onStart {p} _ c :=
    let required := (p.courseOf c.sectionId).resourceIds
    let unwanted := (p.bindingResources c.roomId).filter fun r => !required.contains r
    unwanted.map fun r => .flaw s!"{c.roomId} is reserved for courses requiring {r}"
  onPresent {p} s m := (borrowed p m.sectionId m.roomId).flatMap (poolObjections seed s m)

/-! ## Caps of teacher groups -/

/-- The number of entries in the teacher list of a section that belong to a group. -/
def members (p : Program) (g : TeacherGroup) (id : SectionId) : Nat :=
  ((p.teachersOf id).filter (g.teacherIds.contains ·)).length

/-- Starts an entry of `Start × Nat` is compared by, then the number. -/
instance : Ord (Start × Nat) := ⟨fun a b => (compare a.1 b.1).then (compare a.2 b.2)⟩

/-- The starts to drop, one after the other, until the load is down to the cap. -/
def shed (cap : Nat) : (load : Nat) → List (Start × Nat) → List Start
  | _, [] => []
  | load, (s, n) :: rest => if load ≤ cap then [] else s :: shed cap (load - n) rest

/-- What the cap of one group has against a period of a run. -/
def capObjections {p : Program} (seed : UInt64) (s : Schedule p) (m : Present) (id : GroupId) :
    List Objection :=
  let g := p.group id
  let name := g.name
  let cap := g.cap
  let own := members p g m.sectionId
  if own > cap then [.flaw s!"{m.sectionId} alone exceeds the cap of {name}"]
  else
    let others := (((s.occurring m.slot).filter (·.sectionId ≠ m.sectionId)).map fun o =>
      (o.start, members p g o.sectionId)).filter (·.2 > 0)
    let load := own + total (others.map (·.2))
    if load ≤ cap then []
    else
      [.clash (shed cap load (drawLots (lot seed m id.val) others).reverse)
        s!"{name} would exceed its cap of {cap} at {m.periodId}"]

/-- In every period at most `cap` entries of a group are teaching.  If the candidate brings it above
that, so many sections are named that it fits. -/
def teacherGroupCap (seed : UInt64) : Rule where
  name := "TEACHER_GROUP_CAP"
  onPresent {p} s m :=
    (distinct ((p.teachersOf m.sectionId).flatMap p.groupsOf)).flatMap (capObjections seed s m)

end Timetable.Rule
