import RankExchange.Coder.Basic
import RankExchange.Lattice.Word
import RankExchange.Numeral

/-!
# Strips of a ring

Heat spreads on a ring of cells that is cut into one strip for each rank.  A
strip has a guard cell at either end, which holds what its neighbour has at the
edge.  Cells are the bits of double-precision numbers, and the operations on
them are a parameter.
-/

namespace RankExchange

abbrev Cell := UInt64

structure Arithmetic where
  add : Cell → Cell → Cell
  relax : (before cell after : Cell) → Cell
  bell : (place length : Nat) → Cell

/-- The operations of the machine: heat starts as a bell around the middle, and a
step adds to a cell a quarter of what its neighbours have more than it. -/
def Arithmetic.machine : Arithmetic where
  add a b := (Float.ofBits a + Float.ofBits b).toBits
  relax before cell after :=
    let u := Float.ofBits cell
    (u + 0.25 * ((Float.ofBits before - 2.0 * u) + Float.ofBits after)).toBits
  bell place length :=
    let distance := (Float.ofNat place / Float.ofNat length - 0.5) / 0.1
    (-(distance * distance)).exp.toBits

def Cell.negativeZero : Cell := 0x8000000000000000

structure Strip where
  left : Cell
  cells : List Cell
  right : Cell
  deriving DecidableEq, Repr

namespace Strip

/-- The strip of a rank at the start, if there is room for it; place 0 of the
ring is its left guard on rank 0. -/
def initial (arith : Arithmetic) (rank size width : Nat) : Except ArithmeticFault Strip := do
  let places ← Word.add width 2
  if Memory.admits (Word.bytes places) then
    let start ← Word.mul rank width
    let length ← Word.mul size width
    let last ← Word.add start (width + 1)
    return {
      left := arith.bell start length
      cells := (List.range width).map (fun i => arith.bell (start + (i + 1)) length)
      right := arith.bell last length }
  else .error .noRoom

/-- The cells next to the guards; without cells, the guards are next to each
other. -/
def first (strip : Strip) : Cell := strip.cells.headD strip.right
def last (strip : Strip) : Cell := strip.cells.getLastD strip.left

def spread (arith : Arithmetic) (before : Cell) : List Cell → Cell → List Cell
  | [], _ => []
  | cell :: rest, after =>
      arith.relax before cell (rest.headD after) :: spread arith cell rest after

def step (arith : Arithmetic) (strip : Strip) : Strip :=
  { strip with cells := spread arith strip.left strip.cells strip.right }

def heat (arith : Arithmetic) (strip : Strip) : Cell :=
  strip.cells.foldl arith.add Cell.negativeZero

def edges (strip : Strip) : Bytes :=
  wordBytes strip.first ++ wordBytes strip.last

/-- Takes over the guards from what the neighbours tell. -/
def guarded? (strip : Strip) (fromLeft fromRight : Bytes) : Option Strip := do
  let left ← (words fromLeft)[1]?
  let right ← (words fromRight)[0]?
  return { strip with left, right }

end Strip

def Cell.bytes (cells : List Cell) : Bytes :=
  cells.flatMap wordBytes

/-- The coder of one number: reads the only whole word of a payload. -/
def Cell.coder : Coder Cell where
  encode cell := .ok (wordBytes cell)
  decode data :=
    match words data with
    | [cell] => .ok cell
    | _ => .error (.codec (.notEightBytes data.length))

end RankExchange
