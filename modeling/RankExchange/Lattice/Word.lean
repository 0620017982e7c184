import RankExchange.Memory

/-!
# Checked machine words

Lattice arithmetic takes place in 64-bit words.  A result that leaves the word
is a fault and never wraps around.
-/

namespace RankExchange

inductive ArithmeticFault
  | productOverflow
  | sumOverflow
  | zeroDivisor
  | remainderOverflow
  | outOfBounds (length index : Nat)
  | noRoom
  deriving DecidableEq, Repr

def ArithmeticFault.message : ArithmeticFault → String
  | .productOverflow => "attempt to multiply with overflow"
  | .sumOverflow => "attempt to add with overflow"
  | .zeroDivisor => "attempt to calculate the remainder with a divisor of zero"
  | .remainderOverflow => "attempt to calculate the remainder with overflow"
  | .outOfBounds length index =>
      s!"index out of bounds: the len is {length} but the index is {index}"
  | .noRoom => Memory.refusal

namespace Word

def count : Nat := UInt64.size

def bytes (words : Nat) : Nat := 8 * words

/-- The number of words that stand for numbers without a sign, and the least of
those that stand for a negative one. -/
def half : Nat := 0x8000000000000000

def mul (a b : Nat) : Except ArithmeticFault Nat :=
  if a * b < count then .ok (a * b) else .error .productOverflow

def add (a b : Nat) : Except ArithmeticFault Nat :=
  if a + b < count then .ok (a + b) else .error .sumOverflow

/-- The signed number that has the same word. -/
def signed (n : Nat) : Int :=
  if n < half then n else (n : Int) - count

/-- The unsigned number that has the same word. -/
def unsigned (z : Int) : Nat :=
  (z % count).toNat

def addSigned (a b : Int) : Except ArithmeticFault Int :=
  if -half ≤ a + b ∧ a + b < half then .ok (a + b) else .error .sumOverflow

/-- The remainder that is never negative; the quotient of the least number by
minus one leaves the word. -/
def remainder (a b : Int) : Except ArithmeticFault Int :=
  if b = 0 then .error .zeroDivisor
  else if a = -half ∧ b = -1 then .error .remainderOverflow
  else .ok (a % b)

theorem mul_eq_ok {a b : Nat} (h : a * b < count) : mul a b = .ok (a * b) := by
  simp [mul, h]

theorem add_eq_ok {a b : Nat} (h : a + b < count) : add a b = .ok (a + b) := by
  simp [add, h]

theorem signed_of_lt {n : Nat} (h : n < half) : signed n = n :=
  if_pos h

theorem unsigned_natCast {n : Nat} (h : n < count) : unsigned n = n := by
  simp only [unsigned, count, UInt64.size] at h ⊢
  omega

end Word

end RankExchange
