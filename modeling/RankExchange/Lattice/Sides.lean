import RankExchange.Lattice.Factors

/-!
# Balanced sides

A number of blocks is laid out in a given number of dimensions as close to a
cube as its prime factors allow: the factors, largest first, each lengthen the
shortest side there is.
-/

namespace RankExchange

namespace Sides

/-- Multiplies the first of the shortest sides. -/
def lengthen (sides : List Nat) (factor : Nat) : Except ArithmeticFault (List Nat) :=
  match sides.min? with
  | none => .ok []
  | some shortest => sides.replace shortest <$> Word.mul shortest factor

/-- The sides of `count` blocks in so many dimensions, longest first. -/
def balance (count dimensions : Nat) : Except ArithmeticFault (List Nat) :=
  if dimensions = 0 then .ok []
  else do
    let factors ← Factors.descending count
    let sides ← factors.foldlM lengthen (List.replicate dimensions 1)
    return sides.mergeSort (fun a b => decide (b ≤ a))

@[simp] theorem balance_zero (count : Nat) : balance count 0 = .ok [] := by
  simp [balance]

end Sides

/-- The sides of a lattice of `count` blocks, if there is room for them. -/
def balancedSides (count dimensions : Nat) : Except ArithmeticFault (List Nat) :=
  if Memory.admits (Word.bytes dimensions) then Sides.balance count dimensions
  else .error .noRoom

theorem balancedSides_of_admits {dimensions : Nat}
    (h : Memory.admits (Word.bytes dimensions) = true) (count : Nat) :
    balancedSides count dimensions = Sides.balance count dimensions :=
  if_pos h

end RankExchange
