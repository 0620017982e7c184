import Mathlib.Algebra.BigOperators.Group.List.Basic
import Mathlib.Data.List.Forall2
import RankExchange.Lattice.Basic

/-!
# Ranks and their coordinates

A lattice whose sides are positive and whose size is a word numbers its cells in
row-major order.  The coordinates of a rank are the digits of a number in mixed
radix, read off from the last side by division; the rank is put together from the
first one by multiplication.  Both are stated here in exact arithmetic, by recursion
on the sides, and the words are shown to compute them without a fault.
-/

namespace RankExchange

namespace Lattice

/-- The digits of a number in the radices `sides`, the last one fastest. -/
def cell : List Nat → Nat → List Nat
  | [], _ => []
  | side :: sides, rank => rank / sides.prod % side :: cell sides rank

def index : List Nat → List Nat → Nat
  | _ :: sides, digit :: digits => digit * sides.prod + index sides digits
  | _, _ => 0

def Within (sides digits : List Nat) : Prop :=
  List.Forall₂ (· < ·) digits sides

instance (sides digits : List Nat) : Decidable (Within sides digits) :=
  inferInstanceAs (Decidable (List.Forall₂ (· < ·) digits sides))

variable {sides digits : List Nat} {rank : Nat}

theorem prod_pos_of_within (h : Within sides digits) : 0 < sides.prod := by
  induction h with
  | nil => exact Nat.one_pos
  | cons hdigit _ ih =>
      rw [List.prod_cons]
      exact Nat.mul_pos (Nat.zero_lt_of_lt hdigit) ih

theorem within_cell (hpositive : ∀ side ∈ sides, 0 < side) : Within sides (cell sides rank) := by
  induction sides with
  | nil => exact .nil
  | cons side sides ih =>
      have hside : 0 < side := hpositive side List.mem_cons_self
      apply List.Forall₂.cons (Nat.mod_lt _ hside)
      exact ih (fun other hother => hpositive other (List.mem_cons_of_mem side hother))

theorem index_lt (h : Within sides digits) : index sides digits < sides.prod := by
  induction h with
  | nil => exact Nat.one_pos
  | @cons digit side digits sides hdigit _ ih =>
      have hblock : (digit + 1) * sides.prod ≤ side * sides.prod :=
        Nat.mul_le_mul_right sides.prod hdigit
      rw [Nat.succ_mul] at hblock
      rw [index, List.prod_cons]
      omega

theorem index_cell : index sides (cell sides rank) = rank % sides.prod := by
  induction sides with
  | nil => exact (Nat.mod_one rank).symm
  | cons side sides ih =>
      rw [cell, index, ih, List.prod_cons, Nat.mul_comm side, Nat.mod_mul,
        Nat.mul_comm sides.prod, Nat.add_comm]

/-- Whole turns through the lattice lead back to the same cell. -/
theorem cell_add_mul (turns : Nat) : cell sides (turns * sides.prod + rank) = cell sides rank := by
  -- A turn of the lattice is `side` turns of what is left without its first side.
  induction sides generalizing turns with
  | nil => rfl
  | cons side sides ih =>
      have hturns : turns * (side * sides.prod) = turns * side * sides.prod :=
        (Nat.mul_assoc turns side sides.prod).symm
      rw [cell, cell, List.prod_cons, hturns, ih (turns * side)]
      rcases Nat.eq_zero_or_pos sides.prod with hzero | hpos
      · rw [hzero, Nat.mul_zero, Nat.zero_add]
      · rw [Nat.mul_comm (turns * side), Nat.mul_add_div hpos, Nat.mul_comm turns,
          Nat.mul_add_mod]

theorem cell_index (h : Within sides digits) : cell sides (index sides digits) = digits := by
  induction h with
  | nil => rfl
  | @cons digit side digits sides hdigit hdigits ih =>
      have hlt : index sides digits < sides.prod := index_lt hdigits
      have hpos : 0 < sides.prod := prod_pos_of_within hdigits
      have hfirst : (digit * sides.prod + index sides digits) / sides.prod = digit := by
        rw [Nat.mul_comm, Nat.mul_add_div hpos, Nat.div_eq_of_lt hlt, Nat.add_zero]
      rw [index, cell, hfirst, Nat.mod_eq_of_lt hdigit, cell_add_mul, ih]

/-- Within a lattice, ranks and cells stand for each other. -/
theorem index_eq_iff (hdigits : Within sides digits) (hrank : rank < sides.prod) :
    index sides digits = rank ↔ cell sides rank = digits := by
  constructor
  · intro heq
    rw [← heq, cell_index hdigits]
  · intro heq
    rw [← heq, index_cell, Nat.mod_eq_of_lt hrank]

structure Proper (lattice : Lattice) : Prop where
  positive : ∀ side ∈ lattice.sides, 0 < side
  fits : lattice.sides.prod < Word.count

theorem digits_eq (hpositive : ∀ side ∈ sides, 0 < side) (rank : Nat) :
    Lattice.digits sides rank = .ok (rank / sides.prod, cell sides rank) := by
  induction sides with
  | nil => simp [cell]
  | cons side sides ih =>
      have hne : side ≠ 0 := Nat.ne_of_gt (hpositive side List.mem_cons_self)
      have hrest : Lattice.digits sides rank = .ok (rank / sides.prod, cell sides rank) :=
        ih (fun other hother => hpositive other (List.mem_cons_of_mem side hother))
      have hquotient : rank / sides.prod / side = rank / (side * sides.prod) := by
        rw [Nat.div_div_eq_div_mul, Nat.mul_comm]
      rw [Lattice.digits, hrest, cell, List.prod_cons, ← hquotient]
      exact if_neg hne

def hornerStep (rank : Nat) (next : Nat × Nat) : Except ArithmeticFault Nat := do
  Word.add (← Word.mul rank next.2) next.1

theorem hornerStep_eq {digit side : Nat} (hroom : rank * side + digit < Word.count) :
    hornerStep rank (digit, side) = .ok (rank * side + digit) := by
  have hmul : Word.mul rank side = .ok (rank * side) := Word.mul_eq_ok (by omega)
  unfold hornerStep
  rw [hmul]
  exact Word.add_eq_ok hroom

/-- All further steps, from whatever the earlier coordinates have come to. -/
theorem foldlM_hornerStep (h : Within sides digits) :
    ∀ start, start * sides.prod + index sides digits < Word.count →
      (digits.zip sides).foldlM hornerStep start =
        .ok (start * sides.prod + index sides digits) := by
  -- The rank that is reached in the end bounds each number on the way to it.
  induction h with
  | nil => exact fun start _ => congrArg Except.ok (Nat.mul_one start).symm
  | @cons digit side digits sides _ hdigits ih =>
      intro start hroom
      have hpos : 0 < sides.prod := prod_pos_of_within hdigits
      have hregroup : start * (side * sides.prod) + (digit * sides.prod + index sides digits) =
          (start * side + digit) * sides.prod + index sides digits := by
        rw [Nat.add_mul, Nat.mul_assoc, Nat.add_assoc]
      rw [index, List.prod_cons, hregroup] at hroom ⊢
      have hle : start * side + digit ≤ (start * side + digit) * sides.prod :=
        Nat.le_mul_of_pos_right _ hpos
      have hhorner : hornerStep start (digit, side) = .ok (start * side + digit) :=
        hornerStep_eq (by omega)
      rw [List.zip_cons_cons, List.foldlM_cons, hhorner]
      exact ih (start * side + digit) hroom

theorem foldlM_mul (hpositive : ∀ side ∈ sides, 0 < side) :
    ∀ start, start * sides.prod < Word.count →
      sides.foldlM Word.mul start = .ok (start * sides.prod) := by
  induction sides with
  | nil => exact fun start _ => congrArg Except.ok (Nat.mul_one start).symm
  | cons side sides ih =>
      intro start hroom
      have hrest : ∀ other ∈ sides, 0 < other :=
        fun other hother => hpositive other (List.mem_cons_of_mem side hother)
      rw [List.prod_cons, ← Nat.mul_assoc] at hroom ⊢
      have hle : start * side ≤ start * side * sides.prod :=
        Nat.le_mul_of_pos_right _ (List.prod_pos_iff_forall_pos_nat.2 hrest)
      have hmul : Word.mul start side = .ok (start * side) := Word.mul_eq_ok (by omega)
      rw [List.foldlM_cons, hmul]
      exact ih hrest (start * side) hroom

namespace Proper

variable {lattice : Lattice} (h : lattice.Proper)

include h

theorem size_eq : lattice.size = .ok lattice.sides.prod := by
  have hroom : 1 * lattice.sides.prod < Word.count := by
    rw [Nat.one_mul]
    exact h.fits
  have hfold := foldlM_mul h.positive 1 hroom
  rw [Nat.one_mul] at hfold
  exact hfold

theorem coordinates_eq (rank : Nat) :
    lattice.coordinates rank = .ok (cell lattice.sides rank) := by
  unfold coordinates
  rw [digits_eq h.positive]
  rfl

theorem rankAt_eq (hdigits : Within lattice.sides digits) :
    lattice.rankAt digits = .ok (index lattice.sides digits) := by
  have hroom : 0 * lattice.sides.prod + index lattice.sides digits < Word.count := by
    have hlt : index lattice.sides digits < lattice.sides.prod := index_lt hdigits
    have hfits : lattice.sides.prod < Word.count := h.fits
    omega
  have hfold := foldlM_hornerStep hdigits 0 hroom
  rw [Nat.zero_mul, Nat.zero_add] at hfold
  exact hfold

/-- Ranks and coordinates determine each other, and no step of the way from one to the
other leaves the word. -/
theorem rankAt_inverse_coordinates :
    ∃ size, lattice.size = .ok size ∧ size = lattice.sides.prod ∧
      (∀ rank, ∃ coordinates, lattice.coordinates rank = .ok coordinates ∧
        Within lattice.sides coordinates ∧
        lattice.rankAt coordinates = .ok (rank % size) ∧
        (rank < size → lattice.rankAt coordinates = .ok rank)) ∧
      ∀ coordinates, Within lattice.sides coordinates →
        ∃ rank, rank < size ∧ lattice.rankAt coordinates = .ok rank ∧
          lattice.coordinates rank = .ok coordinates := by
  refine ⟨lattice.sides.prod, h.size_eq, rfl, fun rank => ?_, fun coordinates hwithin => ?_⟩
  · have hwithin : Within lattice.sides (cell lattice.sides rank) := within_cell h.positive
    have hrank : lattice.rankAt (cell lattice.sides rank) = .ok (rank % lattice.sides.prod) := by
      rw [h.rankAt_eq hwithin, index_cell]
    refine ⟨cell lattice.sides rank, h.coordinates_eq rank, hwithin, hrank, fun hlt => ?_⟩
    rw [hrank, Nat.mod_eq_of_lt hlt]
  · refine ⟨index lattice.sides coordinates, index_lt hwithin, h.rankAt_eq hwithin, ?_⟩
    rw [h.coordinates_eq, cell_index hwithin]

end Proper

/-- Seven sides whose lattice has as many ranks as a word can count. -/
def widest : Lattice := ⟨[3, 5, 17, 257, 641, 65537, 6700417], false⟩

theorem rankAt_inverse_of_widest : widest.Proper ∧ widest.size = .ok 0xffffffffffffffff ∧
    widest.coordinates 0xffffffffffffffff = .ok [0, 0, 0, 0, 0, 0, 0] ∧
    ∃ rank, rank < 0xffffffffffffffff ∧
      widest.rankAt [2, 4, 16, 256, 640, 65536, 6700416] = .ok rank ∧
      widest.coordinates rank = .ok [2, 4, 16, 256, 640, 65536, 6700416] := by
  have hproper : widest.Proper := ⟨by decide, by decide⟩
  obtain ⟨size, hsize, hprod, _, hcells⟩ := hproper.rankAt_inverse_coordinates
  have hcount : size = 0xffffffffffffffff := hprod
  rw [hcount] at hsize hcells
  have hwithin : Within widest.sides [2, 4, 16, 256, 640, 65536, 6700416] := by decide
  exact ⟨hproper, hsize, by decide, hcells _ hwithin⟩

end Lattice

end RankExchange
