import Timetable.Identifier
import Timetable.Numeric.Natural

/-!
# Faults

A `Fault` is a reason why a computation is given up for good, as opposed to a refusal that the
caller is expected to handle: a question about an entity that the program does not have, or a sum
that does not fit the machine word it is kept in.
-/

set_option autoImplicit false

namespace Timetable

/-- Why a computation is given up. -/
inductive Fault
  /-- The entity asked about is not part of the program. -/
  | absent (kind : Kind) (id : Nat) (program : String)
  /-- A sum does not fit its machine word. -/
  | overflow
  /-- A step of a search gave up, with a text that says why. -/
  | aborted (reason : String)
  deriving DecidableEq, Repr, Inhabited

/-- The text of a fault. -/
def Fault.message : Fault → String
  | absent kind id program =>
    let label := kind.label
    s!"{label} {id} is not part of program '{program}'"
  | overflow => "attempt to add with overflow"
  | aborted reason => reason

/-- The sum of two numbers, which has to fit a machine word of so many bits. -/
def addWithin (bits a b : Nat) : Except Fault Nat :=
  if a + b < wordSize bits then .ok (a + b) else .error .overflow

theorem addWithin_eq_ok {bits a b : Nat} (h : a + b < wordSize bits) :
    addWithin bits a b = .ok (a + b) := if_pos h

theorem addWithin_eq_error {bits a b : Nat} (h : wordSize bits ≤ a + b) :
    addWithin bits a b = .error .overflow := if_neg (Nat.not_lt.2 h)

/-- The sum of a list of numbers, which are added one after the other and have to fit a machine word
of so many bits all the time. -/
def totalWithin (bits : Nat) (ns : List Nat) : Except Fault Nat := ns.foldlM (addWithin bits) 0

theorem foldlM_addWithin {bits : Nat} (ns : List Nat) {a : Nat} (ha : a < wordSize bits) :
    ns.foldlM (addWithin bits) a = addWithin bits a (total ns) := by
  induction ns generalizing a with
  | nil => exact (addWithin_eq_ok (b := 0) ha).symm
  | cons n ns ih =>
    rw [List.foldlM_cons, total_cons]
    by_cases h : a + n < wordSize bits
    · rw [addWithin_eq_ok h]
      refine (ih h).trans ?_
      rw [addWithin, addWithin, Nat.add_assoc]
    · rw [addWithin_eq_error (Nat.not_lt.1 h), addWithin_eq_error (by omega)]
      rfl

/-- **It is enough that the whole sum fits.** -/
theorem totalWithin_eq (bits : Nat) (ns : List Nat) : totalWithin bits ns =
    if total ns < wordSize bits then .ok (total ns) else .error .overflow := by
  rw [totalWithin, foldlM_addWithin ns (wordSize_eq_pow bits ▸ Nat.two_pow_pos bits), addWithin,
    Nat.zero_add]

end Timetable
