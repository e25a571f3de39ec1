/-!
# Machine words and totals

* `wordSize bits` is the number of values of a machine word, the bound that numbers kept in one have
  to stay below; `lowBits bits n` is what a word keeps of a number that does not.
* `total` is the sum of a list.  It does not depend on the order, by `total_eq_of_perm`.
-/

set_option autoImplicit false

namespace Timetable

/-- The number of values of a machine word of so many bits. -/
def wordSize (bits : Nat) : Nat := 1 <<< bits

theorem wordSize_eq_pow (bits : Nat) : wordSize bits = Nat.pow 2 bits := Nat.one_shiftLeft bits

/-- What a machine word of so many bits keeps of a number. -/
def lowBits (bits n : Nat) : Nat := n % wordSize bits

theorem lowBits_le (bits n : Nat) : lowBits bits n ≤ n := Nat.mod_le n _

theorem lowBits_eq {bits n : Nat} (h : n < wordSize bits) : lowBits bits n = n := Nat.mod_eq_of_lt h

/-- The sum of a list of numbers. -/
def total (ns : List Nat) : Nat := ns.foldr (· + ·) 0

@[simp] theorem total_nil : total [] = 0 := rfl

@[simp] theorem total_cons (n : Nat) (ns : List Nat) : total (n :: ns) = n + total ns := rfl

theorem total_eq_of_perm {l m : List Nat} (h : l.Perm m) : total l = total m := h.sum_nat

end Timetable
