import RankExchange.Lattice.Sides
import RankExchange.RankSet

/-!
# Lattices of ranks

The ranks of a group fill a rectangular lattice in row-major order, the last
dimension fastest.  A periodic lattice wraps around at every edge.
-/

namespace RankExchange

structure Lattice where
  sides : List Nat
  periodic : Bool
  deriving DecidableEq, Repr

namespace Lattice

def balanced (size dimensions : Nat) (periodic : Bool) : Except ArithmeticFault Lattice :=
  (⟨·, periodic⟩) <$> balancedSides size dimensions

def size (lattice : Lattice) : Except ArithmeticFault Nat :=
  lattice.sides.foldlM Word.mul 1

/-- Splits a number by the given sides, the last one first, into coordinates
and what is left above them. -/
def digits : List Nat → Nat → Except ArithmeticFault (Nat × List Nat)
  | [], rank => .ok (rank, [])
  | side :: sides, rank => do
      let (rest, coordinates) ← digits sides rank
      if side = 0 then .error .zeroDivisor
      else .ok (rest / side, rest % side :: coordinates)

def coordinates (lattice : Lattice) (rank : Nat) : Except ArithmeticFault (List Nat) :=
  Prod.snd <$> digits lattice.sides rank

/-- The rank at some coordinates; the longer of the two lists is cut off. -/
def rankAt (lattice : Lattice) (coordinates : List Nat) : Except ArithmeticFault Nat :=
  (coordinates.zip lattice.sides).foldlM
    (fun rank (coordinate, side) => do Word.add (← Word.mul rank side) coordinate) 0

/-- Moves a coordinate within a side, or off the edge of a lattice that does
not wrap around. -/
def displace (periodic : Bool) (side coordinate : Nat) (displacement : Int) :
    Except ArithmeticFault (Option Nat) := do
  let target ← Word.addSigned (Word.signed coordinate) displacement
  if periodic then
    let wrapped ← Word.remainder target (Word.signed side)
    return some (Word.unsigned wrapped)
  else if 0 ≤ target ∧ target < Word.signed side then
    return some (Word.unsigned target)
  else
    return none

/-- The rank that lies `displacement` blocks away along a dimension. -/
def shift (lattice : Lattice) (rank dimension : Nat) (displacement : Int) :
    Except ArithmeticFault (Option Nat) := do
  match lattice.sides[dimension]? with
  | none => .error (.outOfBounds lattice.sides.length dimension)
  | some side =>
      let coordinates ← lattice.coordinates rank
      match ← displace lattice.periodic side (coordinates.getD dimension 0) displacement with
      | none => return none
      | some moved => some <$> lattice.rankAt (coordinates.set dimension moved)

/-- The ranks one step away in some dimension. -/
def neighbors (lattice : Lattice) (rank : Nat) : Except ArithmeticFault RankSet :=
  (List.range lattice.sides.length).foldlM
    (fun found dimension => do
      let before ← lattice.shift rank dimension (-1)
      let after ← lattice.shift rank dimension 1
      return (before.toList ++ after.toList).foldl RankSet.insert found)
    RankSet.empty

@[simp] theorem digits_nil (rank : Nat) : digits [] rank = .ok (rank, []) := rfl

end Lattice

end RankExchange
