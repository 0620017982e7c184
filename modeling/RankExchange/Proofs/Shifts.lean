import RankExchange.Proofs.Coordinates

/-!
# Shifts in exact arithmetic

A shift adds to one coordinate and leaves the others.  On a lattice whose sides are
signed words the sum is the only step that can leave the word, and as long as it does
not, the rank found is the one that exact arithmetic gives.  The laws of shifts follow
from those of remainders.
-/

namespace RankExchange

namespace Word

def IsSigned (number : Int) : Prop :=
  -half ≤ number ∧ number < half

instance (number : Int) : Decidable (IsSigned number) :=
  inferInstanceAs (Decidable (_ ∧ _))

theorem addSigned_of_isSigned {a b : Int} (h : IsSigned (a + b)) : addSigned a b = .ok (a + b) :=
  if_pos h

theorem addSigned_of_not_isSigned {a b : Int} (h : ¬ IsSigned (a + b)) :
    addSigned a b = .error .sumOverflow :=
  if_neg h

theorem remainder_of_pos {a b : Int} (h : 0 < b) : remainder a b = .ok (a % b) := by
  have hne : ¬ b = 0 := by omega
  have hminus : ¬ (a = -half ∧ b = -1) := by omega
  unfold remainder
  rw [if_neg hne, if_neg hminus]

theorem unsigned_of_nonneg {number : Int} (hnonneg : 0 ≤ number) (hlt : number < half) :
    unsigned number = number.toNat := by
  have hcount : half < count := by decide
  have hcast : (number.toNat : Int) = number := Int.toNat_of_nonneg hnonneg
  calc
    unsigned number = unsigned (number.toNat : Int) := by rw [hcast]
    _ = number.toNat := unsigned_natCast (by omega)

theorem isSigned_pred {n : Nat} (h : n < half) : IsSigned (n + -1) :=
  ⟨by omega, by omega⟩

theorem isSigned_succ {n : Nat} (h : n + 1 < half) : IsSigned (n + 1) :=
  ⟨by omega, by omega⟩

end Word

namespace Lattice

/-- Where a coordinate comes to lie on a side.  Off the edge there is no place, unless
the lattice wraps around. -/
def land (periodic : Bool) (side : Nat) (target : Int) : Option Nat :=
  if periodic then some (target % side).toNat
  else if 0 ≤ target ∧ target < side then some target.toNat
  else none

def withDigit (lattice : Lattice) (rank dimension digit : Nat) : Nat :=
  index lattice.sides ((cell lattice.sides rank).set dimension digit)

section Side

variable {periodic : Bool} {side digit : Nat} {displacement target : Int}

theorem land_true : land true side target = some (target % side).toNat := rfl

theorem land_false_eq_some_iff :
    land false side target = some digit ↔ target = digit ∧ digit < side := by
  by_cases hinside : 0 ≤ target ∧ target < side
  · have hclear : land false side target = some target.toNat := if_pos hinside
    rw [hclear, Option.some_inj]
    omega
  · have hclear : land false side target = none := if_neg hinside
    rw [hclear]
    constructor
    · intro heq
      cases heq
    · intro heq
      exact absurd (by omega) hinside

theorem toNat_emod_lt (hside : 0 < side) : (target % side).toNat < side := by
  have hlt : target % side < side := Int.emod_lt_of_pos target (by omega)
  omega

theorem land_lt (hside : 0 < side) (h : land periodic side target = some digit) :
    digit < side := by
  cases periodic with
  | false => exact (land_false_eq_some_iff.1 h).2
  | true =>
      rw [← Option.some_inj.1 h]
      exact toNat_emod_lt hside

/-- A second displacement may start from the coordinate that the first one has led to. -/
theorem land_true_add (hside : 0 < side) :
    land true side ((target % side).toNat + displacement) =
      land true side (target + displacement) := by
  have hnonneg : 0 ≤ target % side := Int.emod_nonneg target (by omega)
  rw [land_true, land_true, Int.toNat_of_nonneg hnonneg, Int.emod_add_emod]

theorem land_true_add_mul (turns : Int) (hdigit : digit < side) :
    land true side (digit + turns * side) = some digit := by
  rw [land_true, Int.add_mul_emod_self_right]
  congr 1
  rw [Int.emod_eq_of_lt (by omega) (by omega), Int.toNat_natCast]

variable (hdigit : digit < side) (hsigned : side < Word.half)

include hdigit hsigned

theorem displace_of_isSigned (hsum : Word.IsSigned (digit + displacement)) :
    displace periodic side digit displacement =
      .ok (land periodic side (digit + displacement)) := by
  have hadd : Word.addSigned (Word.signed digit) displacement = .ok (digit + displacement) := by
    rw [Word.signed_of_lt (by omega)]
    exact Word.addSigned_of_isSigned hsum
  unfold displace
  rw [hadd, Word.signed_of_lt hsigned]
  cases periodic with
  | false =>
      by_cases hinside : 0 ≤ (digit : Int) + displacement ∧ (digit : Int) + displacement < side
      · have hunsigned := Word.unsigned_of_nonneg hinside.1 hsum.2
        simp [land, hinside, hunsigned, bind, Except.bind, pure, Except.pure]
      · simp [land, hinside, bind, Except.bind, pure, Except.pure]
  | true =>
      have hpos : (0 : Int) < side := by omega
      have hnonneg : 0 ≤ ((digit : Int) + displacement) % side :=
        Int.emod_nonneg _ (by omega)
      have hlt : ((digit : Int) + displacement) % side < side := Int.emod_lt_of_pos _ hpos
      have hunsigned := Word.unsigned_of_nonneg hnonneg (by omega)
      simp [land, Word.remainder_of_pos hpos, hunsigned, bind, Except.bind, pure, Except.pure]

theorem displace_of_not_isSigned (hsum : ¬ Word.IsSigned (digit + displacement)) :
    displace periodic side digit displacement = .error .sumOverflow := by
  have hadd : Word.addSigned (Word.signed digit) displacement = .error .sumOverflow := by
    rw [Word.signed_of_lt (by omega)]
    exact Word.addSigned_of_not_isSigned hsum
  unfold displace
  rw [hadd]
  rfl

end Side

section Digits

variable {sides digits : List Nat} {dimension side digit : Nat}

theorem Within.exists_digit (h : Within sides digits) (hside : sides[dimension]? = some side) :
    ∃ digit, digits[dimension]? = some digit ∧ digit < side := by
  induction h generalizing dimension with
  | nil => cases hside
  | cons hfirst _ ih =>
      cases dimension with
      | zero =>
          cases hside
          exact ⟨_, rfl, hfirst⟩
      | succ dimension => exact ih hside

theorem Within.set (h : Within sides digits) (hside : sides[dimension]? = some side)
    (hdigit : digit < side) : Within sides (digits.set dimension digit) := by
  induction h generalizing dimension with
  | nil => cases hside
  | cons hfirst hrest ih =>
      cases dimension with
      | zero =>
          cases hside
          exact .cons hdigit hrest
      | succ dimension => exact .cons hfirst (ih hside)

variable (hdigit : digits[dimension]? = some digit)

include hdigit

theorem getD_of_getElem? : digits.getD dimension 0 = digit := by
  rw [List.getD_eq_getElem?_getD, hdigit, Option.getD_some]

theorem getElem?_set_of_getElem? (moved : Nat) :
    (digits.set dimension moved)[dimension]? = some moved :=
  List.getElem?_set_self (List.getElem?_eq_some_iff.1 hdigit).1

theorem set_of_getElem? : digits.set dimension digit = digits := by
  obtain ⟨hlt, heq⟩ := List.getElem?_eq_some_iff.1 hdigit
  rw [← heq, List.set_getElem_self]

/-- Who agrees in all other dimensions differs by one digit. -/
theorem eq_set_of_getElem? {there : List Nat} {moved : Nat}
    (hmoved : there[dimension]? = some moved)
    (hrest : ∀ dimension', dimension' ≠ dimension → there[dimension']? = digits[dimension']?) :
    there = digits.set dimension moved := by
  apply List.ext_getElem?
  intro dimension'
  by_cases heq : dimension' = dimension
  · rw [heq, hmoved, getElem?_set_of_getElem? hdigit]
  · rw [hrest dimension' heq, List.getElem?_set_ne (Ne.symm heq)]

end Digits

namespace Proper

variable {lattice : Lattice} (h : lattice.Proper) {rank dimension side digit : Nat}
  {displacement : Int} (hside : lattice.sides[dimension]? = some side)
  (hdigit : (cell lattice.sides rank)[dimension]? = some digit)

include h hside hdigit

/-- A shift finds the rank with the coordinate that the displacement has led to. -/
theorem shift_of_displace {found : Option Nat}
    (hdisplace : displace lattice.periodic side digit displacement = .ok found)
    (hfound : ∀ moved, found = some moved → moved < side) :
    lattice.shift rank dimension displacement =
      .ok (found.map (lattice.withDigit rank dimension)) := by
  unfold shift
  rw [hside, h.coordinates_eq]
  change ((displace lattice.periodic side _ displacement).bind _) = _
  rw [getD_of_getElem? hdigit, hdisplace]
  cases found with
  | none => rfl
  | some moved =>
      have hwithin : Within lattice.sides ((cell lattice.sides rank).set dimension moved) :=
        (within_cell h.positive).set hside (hfound moved rfl)
      change some <$> lattice.rankAt ((cell lattice.sides rank).set dimension moved) = _
      rw [h.rankAt_eq hwithin]
      rfl

theorem shift_of_displace_error {fault : ArithmeticFault}
    (hdisplace : displace lattice.periodic side digit displacement = .error fault) :
    lattice.shift rank dimension displacement = .error fault := by
  unfold shift
  rw [hside, h.coordinates_eq]
  change ((displace lattice.periodic side _ displacement).bind _) = _
  rw [getD_of_getElem? hdigit, hdisplace]
  rfl

end Proper

/-- Each side is a signed word, too. -/
structure Navigable (lattice : Lattice) : Prop extends lattice.Proper where
  signed : ∀ side ∈ lattice.sides, side < Word.half

namespace Navigable

variable {lattice : Lattice} (h : lattice.Navigable) {rank other dimension side digit moved : Nat}
  {displacement : Int}

include h

theorem exists_digit (rank : Nat) (hside : lattice.sides[dimension]? = some side) :
    ∃ digit, (cell lattice.sides rank)[dimension]? = some digit ∧ digit < side :=
  (within_cell h.positive).exists_digit hside

variable (hside : lattice.sides[dimension]? = some side)

include hside

theorem side_pos : 0 < side :=
  h.positive side (List.mem_of_getElem? hside)

theorem side_lt_half : side < Word.half :=
  h.signed side (List.mem_of_getElem? hside)

section Digit

variable (hmoved : moved < side)

include hmoved

theorem within_set : Within lattice.sides ((cell lattice.sides rank).set dimension moved) :=
  (within_cell h.positive).set hside hmoved

theorem withDigit_lt : lattice.withDigit rank dimension moved < lattice.sides.prod :=
  index_lt (h.within_set hside hmoved)

theorem cell_withDigit : cell lattice.sides (lattice.withDigit rank dimension moved) =
    (cell lattice.sides rank).set dimension moved :=
  cell_index (h.within_set hside hmoved)

theorem withDigit_eq_iff (hother : other < lattice.sides.prod) :
    lattice.withDigit rank dimension moved = other ↔
      cell lattice.sides other = (cell lattice.sides rank).set dimension moved :=
  index_eq_iff (h.within_set hside hmoved) hother

theorem withDigit_withDigit :
    lattice.withDigit (lattice.withDigit rank dimension moved) dimension digit =
      lattice.withDigit rank dimension digit := by
  rw [withDigit, h.cell_withDigit hside hmoved, List.set_set]
  rfl

theorem withDigit_comm {dimension' side' digit : Nat}
    (hside' : lattice.sides[dimension']? = some side') (hne : dimension ≠ dimension')
    (hdigit : digit < side') :
    lattice.withDigit (lattice.withDigit rank dimension moved) dimension' digit =
      lattice.withDigit (lattice.withDigit rank dimension' digit) dimension moved := by
  rw [withDigit, h.cell_withDigit hside hmoved, withDigit, h.cell_withDigit hside' hdigit,
    List.set_comm _ _ hne]

end Digit

section Shift

variable (hdigit : (cell lattice.sides rank)[dimension]? = some digit)

include hdigit

theorem digit_lt : digit < side := by
  obtain ⟨digit', hdigit', hlt⟩ := h.exists_digit rank hside
  rw [hdigit] at hdigit'
  cases hdigit'
  exact hlt

theorem withDigit_self (hrank : rank < lattice.sides.prod) :
    lattice.withDigit rank dimension digit = rank := by
  rw [h.withDigit_eq_iff hside (h.digit_lt hside hdigit) hrank, set_of_getElem? hdigit]

/-- A shift is exact as long as its sum is a signed word. -/
theorem shift_of_isSigned (hsum : Word.IsSigned (digit + displacement)) :
    lattice.shift rank dimension displacement =
      .ok ((land lattice.periodic side (digit + displacement)).map
        (lattice.withDigit rank dimension)) := by
  have hdisplace : displace lattice.periodic side digit displacement =
      .ok (land lattice.periodic side (digit + displacement)) :=
    displace_of_isSigned (h.digit_lt hside hdigit) (h.side_lt_half hside) hsum
  exact h.shift_of_displace hside hdigit hdisplace
    (fun moved hclear => land_lt (h.side_pos hside) hclear)

theorem shift_of_not_isSigned (hsum : ¬ Word.IsSigned (digit + displacement)) :
    lattice.shift rank dimension displacement = .error .sumOverflow := by
  have hdisplace : displace lattice.periodic side digit displacement = .error .sumOverflow :=
    displace_of_not_isSigned (h.digit_lt hside hdigit) (h.side_lt_half hside) hsum
  exact h.shift_of_displace_error hside hdigit hdisplace

theorem shift_of_land (hsum : Word.IsSigned (digit + displacement))
    (hclear : land lattice.periodic side (digit + displacement) = some moved) :
    lattice.shift rank dimension displacement =
      .ok (some (lattice.withDigit rank dimension moved)) := by
  rw [h.shift_of_isSigned hside hdigit hsum, hclear]
  rfl

theorem shift_eq_some_iff : lattice.shift rank dimension displacement = .ok (some other) ↔
    Word.IsSigned (digit + displacement) ∧ other < lattice.sides.prod ∧
      ∃ moved, land lattice.periodic side (digit + displacement) = some moved ∧
        cell lattice.sides other = (cell lattice.sides rank).set dimension moved := by
  constructor
  · intro hshift
    by_cases hsum : Word.IsSigned (digit + displacement)
    · rw [h.shift_of_isSigned hside hdigit hsum] at hshift
      obtain ⟨moved, hclear, hmoved⟩ := Option.map_eq_some_iff.1 (Except.ok.inj hshift)
      have hlt : moved < side := land_lt (h.side_pos hside) hclear
      rw [← hmoved]
      exact ⟨hsum, h.withDigit_lt hside hlt, moved, hclear, h.cell_withDigit hside hlt⟩
    · rw [h.shift_of_not_isSigned hside hdigit hsum] at hshift
      cases hshift
  · intro hother
    obtain ⟨hsum, hlt, moved, hclear, hcell⟩ := hother
    have hmoved : lattice.withDigit rank dimension moved = other :=
      (h.withDigit_eq_iff hside (land_lt (h.side_pos hside) hclear) hlt).2 hcell
    rw [h.shift_of_land hside hdigit hsum hclear, hmoved]

theorem exists_shift (hsum : Word.IsSigned (digit + displacement))
    (hclear : land lattice.periodic side (digit + displacement) = some moved) :
    ∃ other, other < lattice.sides.prod ∧
      lattice.shift rank dimension displacement = .ok (some other) ∧
      lattice.coordinates other = .ok ((cell lattice.sides rank).set dimension moved) := by
  have hmoved : moved < side := land_lt (h.side_pos hside) hclear
  refine ⟨lattice.withDigit rank dimension moved, h.withDigit_lt hside hmoved,
    h.shift_of_land hside hdigit hsum hclear, ?_⟩
  rw [h.coordinates_eq, h.cell_withDigit hside hmoved]

end Shift

/-- A shift finds the rank that exact arithmetic gives, for every displacement whose sum
with the coordinate is no greater than the signed words.  If the sum is greater, the
shift breaks off. -/
theorem shift_exact (hlow : -Word.half ≤ displacement) (rank : Nat) :
    lattice.size = .ok lattice.sides.prod ∧
      ∃ (here : List Nat) (digit : Nat), lattice.coordinates rank = .ok here ∧
      here[dimension]? = some digit ∧
      (digit + displacement < Word.half →
        (lattice.periodic = true → ∃ other, other < lattice.sides.prod ∧
          lattice.shift rank dimension displacement = .ok (some other) ∧
          lattice.coordinates other =
            .ok (here.set dimension ((digit + displacement) % side).toNat)) ∧
        (lattice.periodic = false → 0 ≤ digit + displacement → digit + displacement < side →
          ∃ other, other < lattice.sides.prod ∧
            lattice.shift rank dimension displacement = .ok (some other) ∧
            lattice.coordinates other =
              .ok (here.set dimension (digit + displacement).toNat)) ∧
        (lattice.periodic = false → ¬ (0 ≤ digit + displacement ∧ digit + displacement < side) →
          lattice.shift rank dimension displacement = .ok none)) ∧
      (Word.half ≤ digit + displacement →
        lattice.shift rank dimension displacement = .error .sumOverflow) := by
  obtain ⟨digit, hdigit, hlt⟩ := h.exists_digit rank hside
  refine ⟨h.size_eq, cell lattice.sides rank, digit, h.coordinates_eq rank, hdigit,
    fun hhigh => ?_, fun hhigh => ?_⟩
  · have hsum : Word.IsSigned (digit + displacement) := ⟨by omega, hhigh⟩
    refine ⟨fun hperiodic => ?_, fun hopen hnonneg hinside => ?_, fun hopen hoff => ?_⟩
    · apply h.exists_shift hside hdigit hsum
      rw [hperiodic, land_true]
    · apply h.exists_shift hside hdigit hsum
      rw [hopen, land_false_eq_some_iff]
      omega
    · have hclear : land lattice.periodic side (digit + displacement) = none := by
        rw [hopen]
        exact if_neg hoff
      rw [h.shift_of_isSigned hside hdigit hsum, hclear]
      rfl
  · apply h.shift_of_not_isSigned hside hdigit
    intro hsum
    exact absurd hsum.2 (Int.not_lt.2 hhigh)

end Navigable

/-- A short and a long side that wrap around, and as many ranks as a word can count. -/
def longTorus : Lattice := ⟨[3, 0x5555555555555555], true⟩

theorem shift_exact_of_least : longTorus.Navigable ∧ ∃ other, other < longTorus.sides.prod ∧
    longTorus.shift 0 1 (-Word.half) = .ok (some other) ∧
    longTorus.coordinates other = .ok [0, 0x2aaaaaaaaaaaaaaa] := by
  have hnavigable : longTorus.Navigable := ⟨⟨by decide, by decide⟩, by decide⟩
  obtain ⟨_, here, digit, hhere, hdigit, hexact, _⟩ :=
    hnavigable.shift_exact (rfl : longTorus.sides[1]? = some 0x5555555555555555)
      (Int.le_refl (-Word.half)) 0
  cases hhere
  cases hdigit
  exact ⟨hnavigable, (hexact (by decide)).1 rfl⟩

/-- The second of three ranks can neither step off the edge nor go around by the greatest
displacement: the sum leaves the signed words. -/
theorem shift_of_farthest :
    (Navigable ⟨[3], false⟩ ∧ coordinates ⟨[3], false⟩ 1 = .ok [1] ∧
      land false 3 (1 + (Word.half - 1)) = none ∧
      shift ⟨[3], false⟩ 1 0 (Word.half - 1) = .error .sumOverflow) ∧
    Navigable ⟨[3], true⟩ ∧ coordinates ⟨[3], true⟩ 1 = .ok [1] ∧
      land true 3 (1 + (Word.half - 1)) = some 2 ∧
      shift ⟨[3], true⟩ 1 0 (Word.half - 1) = .error .sumOverflow := by
  have hnavigable : ∀ periodic, Navigable ⟨[3], periodic⟩ :=
    fun periodic => ⟨⟨by simp, (by decide : 3 < Word.count)⟩, by simp [Word.half]⟩
  exact ⟨⟨hnavigable false, by decide, by decide, by decide⟩, hnavigable true, by decide,
    by decide, by decide⟩

end Lattice

end RankExchange
