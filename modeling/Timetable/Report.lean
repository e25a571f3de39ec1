import Timetable.Placement

/-!
# Reports on a candidate

Whether a start may be placed is reported, not raised: a `Report` collects what the rules object to.

* A *local* conflict is a fault of the candidate itself.  Only another placement helps.
* A *global* conflict names scheduled starts the candidate clashes with.  Taking them away helps.

A rule raises an `Objection`; the report notes which rule raised it and whether it looked at the
whole run or at one period of it.
-/

set_option autoImplicit false

namespace Timetable

/-- What a rule looks at: a whole run, or one period of it. -/
inductive Candidate
  | run (s : Start)
  | moment (m : Present)
  deriving DecidableEq, Repr, Inhabited

/-- The text of a candidate. -/
def Candidate.text : Candidate → String
  | run s => s.text
  | moment m => m.text

/-- What a rule has against a candidate. -/
inductive Objection
  /-- The candidate itself is wrong. -/
  | flaw (explanation : String)
  /-- The candidate clashes with scheduled starts. -/
  | clash (starts : List Start) (explanation : String)
  deriving DecidableEq, Repr, Inhabited

/-- An objection, and who raised it against what. -/
structure Finding where
  rule : String
  candidate : Candidate
  objection : Objection
  deriving DecidableEq, Repr, Inhabited

/-- A fault of the candidate itself. -/
structure LocalConflict where
  rule : String
  candidate : Candidate
  explanation : String
  deriving DecidableEq, Repr, Inhabited

/-- A clash with starts that are scheduled. -/
structure GlobalConflict where
  rule : String
  candidate : Candidate
  /-- The starts, once each and in their order. -/
  clashes : List Start
  explanation : String
  deriving DecidableEq, Repr, Inhabited

/-- What the rules have to say about a start. -/
structure Report where
  candidate : Start
  locals : List LocalConflict
  globals : List GlobalConflict
  deriving DecidableEq, Repr, Inhabited

/-- The local conflict a finding amounts to. -/
def Finding.localConflict? (f : Finding) : Option LocalConflict :=
  match f.objection with
  | .flaw explanation => some ⟨f.rule, f.candidate, explanation⟩
  | .clash .. => none

/-- The global conflict a finding amounts to.  A clash with nothing is none. -/
def Finding.globalConflict? (f : Finding) : Option GlobalConflict :=
  match f.objection with
  | .flaw _ => none
  | .clash [] _ => none
  | .clash starts explanation => some ⟨f.rule, f.candidate, distinct starts, explanation⟩

namespace Report

/-- The report made of some findings.  A candidate that is exempt has no local conflicts. -/
def ofFindings (candidate : Start) (exempt : Bool) (findings : List Finding) : Report where
  candidate
  locals := if exempt then [] else findings.filterMap (·.localConflict?)
  globals := findings.filterMap (·.globalConflict?)

variable (r : Report)

/-- Whether there is nothing against the candidate. -/
def isValid : Bool := r.locals.isEmpty && r.globals.isEmpty

/-- Whether nothing is wrong with the candidate itself. -/
def isLocallyValid : Bool := r.locals.isEmpty

/-- All starts the candidate clashes with. -/
def evictions : List Start := distinct (r.globals.flatMap (·.clashes))

/-- A start is to be evicted if some conflict names it. -/
theorem mem_evictions {s : Start} : s ∈ r.evictions ↔ ∃ c ∈ r.globals, s ∈ c.clashes := by
  simp [evictions, mem_distinct]

/-- The text of a local conflict. -/
def localText (c : LocalConflict) : String := s!"{c.rule}: {c.explanation}"

/-- The text of a global conflict, which lists the clashes. -/
def globalText (c : GlobalConflict) : String :=
  let clashes := ", ".intercalate (c.clashes.map (·.text))
  s!"{c.rule}: {c.explanation} ({clashes})"

/-- A report says that the candidate is valid, or lists what is against it. -/
def text : String :=
  if r.isValid then s!"{r.candidate} is valid"
  else "; ".intercalate (r.locals.map localText ++ r.globals.map globalText)

end Report

end Timetable
