import RankExchange.Proofs.Shifts

/-!
# How shifts go together

On a lattice that wraps around, the shifts along the dimensions commute and add up, and
whole turns lead back.  On one that does not, a shift that arrives can be undone, and two
that follow each other are one.  Nothing is asked of the displacements but that the sums
with the coordinates are signed words.
-/

namespace RankExchange

namespace Lattice

/-- The sum of a coordinate and a displacement is a signed word. -/
def Admits (lattice : Lattice) (rank dimension : Nat) (displacement : Int) : Prop :=
  ∀ (coordinates : List Nat) (digit : Nat), lattice.coordinates rank = .ok coordinates →
    coordinates[dimension]? = some digit → Word.IsSigned (digit + displacement)

/-- What holds of the shifts of a lattice: with a sum that is a signed word they answer, and
they change one coordinate.  If the lattice wraps around, no step and whole turns rest, and
shifts add up and commute; if it does not, they can be undone and joined. -/
structure ShiftLaws (lattice : Lattice) : Prop where
  counts : lattice.size = .ok lattice.sides.prod
  answers : ∀ {rank dimension : Nat} {a : Int}, rank < lattice.sides.prod →
    dimension < lattice.sides.length → lattice.Admits rank dimension a →
    ∃ found, lattice.shift rank dimension a = .ok found
  frames : ∀ {rank dimension other : Nat} {a : Int}, rank < lattice.sides.prod →
    dimension < lattice.sides.length → lattice.shift rank dimension a = .ok (some other) →
    other < lattice.sides.prod ∧ ∃ here there, lattice.coordinates rank = .ok here ∧
      lattice.coordinates other = .ok there ∧
      ∀ dimension', dimension' ≠ dimension → there[dimension']? = here[dimension']?
  rests : lattice.periodic = true → ∀ {rank dimension : Nat}, rank < lattice.sides.prod →
    dimension < lattice.sides.length → lattice.shift rank dimension 0 = .ok (some rank)
  turns : lattice.periodic = true → ∀ {rank dimension side : Nat} {count : Int},
    rank < lattice.sides.prod → lattice.sides[dimension]? = some side →
    lattice.Admits rank dimension (count * side) →
    lattice.shift rank dimension (count * side) = .ok (some rank)
  adds : lattice.periodic = true → ∀ {rank dimension : Nat} {a b : Int},
    rank < lattice.sides.prod → dimension < lattice.sides.length →
    lattice.Admits rank dimension a →
    ∃ next, lattice.shift rank dimension a = .ok (some next) ∧
      (lattice.Admits next dimension b → lattice.Admits rank dimension (a + b) →
        ∃ last, lattice.shift next dimension b = .ok (some last) ∧
          lattice.shift rank dimension (a + b) = .ok (some last))
  commutes : lattice.periodic = true → ∀ {rank dimension dimension' : Nat} {a b : Int},
    rank < lattice.sides.prod → dimension < lattice.sides.length →
    dimension' < lattice.sides.length → dimension ≠ dimension' →
    lattice.Admits rank dimension a → lattice.Admits rank dimension' b →
    ∃ next next' last, lattice.shift rank dimension a = .ok (some next) ∧
      lattice.shift next dimension' b = .ok (some last) ∧
      lattice.shift rank dimension' b = .ok (some next') ∧
      lattice.shift next' dimension a = .ok (some last)
  returns : lattice.periodic = false → ∀ {rank other dimension : Nat} {a : Int},
    rank < lattice.sides.prod → other < lattice.sides.prod → dimension < lattice.sides.length →
    (lattice.shift rank dimension a = .ok (some other) ↔
      lattice.shift other dimension (-a) = .ok (some rank))
  joins : lattice.periodic = false → ∀ {rank next last dimension : Nat} {a b : Int},
    rank < lattice.sides.prod → dimension < lattice.sides.length →
    lattice.shift rank dimension a = .ok (some next) →
    lattice.shift next dimension b = .ok (some last) →
    lattice.shift rank dimension (a + b) = .ok (some last)

namespace Navigable

variable {lattice : Lattice} (h : lattice.Navigable)
  {rank next other last dimension side digit moved : Nat} {a b displacement : Int}

include h

theorem admits_iff (hdigit : (cell lattice.sides rank)[dimension]? = some digit) :
    lattice.Admits rank dimension displacement ↔ Word.IsSigned (digit + displacement) := by
  constructor
  · intro hadmits
    exact hadmits _ digit (h.coordinates_eq rank) hdigit
  · intro hsum coordinates digit' hcoordinates hdigit'
    rw [h.coordinates_eq] at hcoordinates
    cases hcoordinates
    rw [hdigit] at hdigit'
    cases hdigit'
    exact hsum

section Side

variable (hside : lattice.sides[dimension]? = some side)

include hside

theorem getElem?_withDigit_self (hmoved : moved < side) :
    (cell lattice.sides (lattice.withDigit rank dimension moved))[dimension]? = some moved := by
  obtain ⟨digit, hdigit, _⟩ := h.exists_digit rank hside
  rw [h.cell_withDigit hside hmoved, getElem?_set_of_getElem? hdigit]

theorem getElem?_withDigit_of_ne {dimension' : Nat} (hmoved : moved < side)
    (hne : dimension ≠ dimension') :
    (cell lattice.sides (lattice.withDigit rank dimension moved))[dimension']? =
      (cell lattice.sides rank)[dimension']? := by
  rw [h.cell_withDigit hside hmoved, List.getElem?_set_ne hne]

theorem exists_shift_of_admits (hadmits : lattice.Admits rank dimension a) :
    ∃ found, lattice.shift rank dimension a = .ok found := by
  obtain ⟨digit, hdigit, _⟩ := h.exists_digit rank hside
  exact ⟨_, h.shift_of_isSigned hside hdigit ((h.admits_iff hdigit).1 hadmits)⟩

theorem frame_of_shift (hshift : lattice.shift rank dimension a = .ok (some other)) :
    other < lattice.sides.prod ∧ ∃ here there, lattice.coordinates rank = .ok here ∧
      lattice.coordinates other = .ok there ∧
      ∀ dimension', dimension' ≠ dimension → there[dimension']? = here[dimension']? := by
  obtain ⟨digit, hdigit, _⟩ := h.exists_digit rank hside
  obtain ⟨_, hother, moved, _, hcell⟩ := (h.shift_eq_some_iff hside hdigit).1 hshift
  refine ⟨hother, cell lattice.sides rank, cell lattice.sides other, h.coordinates_eq rank,
    h.coordinates_eq other, fun dimension' hne => ?_⟩
  rw [hcell, List.getElem?_set_ne hne.symm]

section Wrapped

variable (hperiodic : lattice.periodic = true)

include hperiodic

/-- On a lattice that wraps around, each shift arrives. -/
theorem shift_wrapped (hdigit : (cell lattice.sides rank)[dimension]? = some digit)
    (hadmits : lattice.Admits rank dimension a) : lattice.shift rank dimension a =
      .ok (some (lattice.withDigit rank dimension ((digit + a) % side).toNat)) := by
  apply h.shift_of_land hside hdigit ((h.admits_iff hdigit).1 hadmits)
  rw [hperiodic, land_true]

theorem shift_turns {count : Int} (hrank : rank < lattice.sides.prod)
    (hadmits : lattice.Admits rank dimension (count * side)) :
    lattice.shift rank dimension (count * side) = .ok (some rank) := by
  obtain ⟨digit, hdigit, hlt⟩ := h.exists_digit rank hside
  have hclear : land true side (digit + count * side) = some digit := land_true_add_mul count hlt
  rw [h.shift_wrapped hside hperiodic hdigit hadmits, Option.some_inj.1 hclear,
    h.withDigit_self hside hdigit hrank]

theorem shift_zero (hrank : rank < lattice.sides.prod) :
    lattice.shift rank dimension 0 = .ok (some rank) := by
  obtain ⟨digit, hdigit, hlt⟩ := h.exists_digit rank hside
  have hhalf : side < Word.half := h.side_lt_half hside
  have hadmits : lattice.Admits rank dimension (0 * side) := by
    rw [h.admits_iff hdigit, Word.IsSigned]
    omega
  have hturns := h.shift_turns hside hperiodic hrank hadmits
  rw [Int.zero_mul] at hturns
  exact hturns

theorem exists_shift_add (hadmits : lattice.Admits rank dimension a) :
    ∃ next, lattice.shift rank dimension a = .ok (some next) ∧
      (lattice.Admits next dimension b → lattice.Admits rank dimension (a + b) →
        ∃ last, lattice.shift next dimension b = .ok (some last) ∧
          lattice.shift rank dimension (a + b) = .ok (some last)) := by
  obtain ⟨digit, hdigit, _⟩ := h.exists_digit rank hside
  have hmoved : ((digit + a) % side).toNat < side := toNat_emod_lt (h.side_pos hside)
  refine ⟨_, h.shift_wrapped hside hperiodic hdigit hadmits, fun hnext hsum => ?_⟩
  refine ⟨_, ?_, h.shift_wrapped hside hperiodic hdigit hsum⟩
  have hclear : land true side (((digit + a) % side).toNat + b) =
      land true side (digit + a + b) := land_true_add (h.side_pos hside)
  rw [h.shift_wrapped hside hperiodic (h.getElem?_withDigit_self hside hmoved) hnext,
    h.withDigit_withDigit hside hmoved, Option.some_inj.1 hclear, Int.add_assoc]

theorem exists_shift_comm {dimension' side' : Nat}
    (hside' : lattice.sides[dimension']? = some side') (hne : dimension ≠ dimension')
    (hadmits : lattice.Admits rank dimension a) (hadmits' : lattice.Admits rank dimension' b) :
    ∃ next next' last, lattice.shift rank dimension a = .ok (some next) ∧
      lattice.shift next dimension' b = .ok (some last) ∧
      lattice.shift rank dimension' b = .ok (some next') ∧
      lattice.shift next' dimension a = .ok (some last) := by
  obtain ⟨digit, hdigit, _⟩ := h.exists_digit rank hside
  obtain ⟨digit', hdigit', _⟩ := h.exists_digit rank hside'
  have hmoved : ((digit + a) % side).toNat < side := toNat_emod_lt (h.side_pos hside)
  have hmoved' : ((digit' + b) % side').toNat < side' := toNat_emod_lt (h.side_pos hside')
  -- What a shift leaves as it is decides where a shift in another dimension leads.
  have hkept' : (cell lattice.sides (lattice.withDigit rank dimension
      ((digit + a) % side).toNat))[dimension']? = some digit' := by
    rw [h.getElem?_withDigit_of_ne hside hmoved hne, hdigit']
  have hkept : (cell lattice.sides (lattice.withDigit rank dimension'
      ((digit' + b) % side').toNat))[dimension]? = some digit := by
    rw [h.getElem?_withDigit_of_ne hside' hmoved' hne.symm, hdigit]
  have hnext := (h.admits_iff hkept').2 ((h.admits_iff hdigit').1 hadmits')
  have hnext' := (h.admits_iff hkept).2 ((h.admits_iff hdigit).1 hadmits)
  refine ⟨_, _, _, h.shift_wrapped hside hperiodic hdigit hadmits,
    h.shift_wrapped hside' hperiodic hkept' hnext,
    h.shift_wrapped hside' hperiodic hdigit' hadmits', ?_⟩
  rw [h.shift_wrapped hside hperiodic hkept hnext',
    h.withDigit_comm hside hmoved hside' hne hmoved']

end Wrapped

section Open

variable (hopen : lattice.periodic = false)

include hopen

/-- Where a lattice does not wrap around, a shift arrives exactly at what lies on it. -/
theorem shift_open_iff (hdigit : (cell lattice.sides rank)[dimension]? = some digit) :
    lattice.shift rank dimension a = .ok (some other) ↔
      other < lattice.sides.prod ∧ ∃ moved : Nat, digit + a = moved ∧ moved < side ∧
        cell lattice.sides other = (cell lattice.sides rank).set dimension moved := by
  have hhalf : side < Word.half := h.side_lt_half hside
  rw [h.shift_eq_some_iff hside hdigit, hopen]
  constructor
  · intro hother
    obtain ⟨_, hlt, moved, hclear, hcell⟩ := hother
    obtain ⟨hsum, hmoved⟩ := land_false_eq_some_iff.1 hclear
    exact ⟨hlt, moved, hsum, hmoved, hcell⟩
  · intro hother
    obtain ⟨hlt, moved, hsum, hmoved, hcell⟩ := hother
    refine ⟨?_, hlt, moved, land_false_eq_some_iff.2 ⟨hsum, hmoved⟩, hcell⟩
    rw [hsum, Word.IsSigned]
    omega

theorem shift_neg (hrank : rank < lattice.sides.prod)
    (hshift : lattice.shift rank dimension a = .ok (some other)) :
    lattice.shift other dimension (-a) = .ok (some rank) := by
  obtain ⟨digit, hdigit, hlt⟩ := h.exists_digit rank hside
  obtain ⟨_, moved, hsum, hmoved, hcell⟩ := (h.shift_open_iff hside hopen hdigit).1 hshift
  have hdigit' : (cell lattice.sides other)[dimension]? = some moved := by
    rw [hcell, getElem?_set_of_getElem? hdigit]
  rw [h.shift_open_iff hside hopen hdigit']
  refine ⟨hrank, digit, by omega, hlt, ?_⟩
  rw [hcell, List.set_set, set_of_getElem? hdigit]

theorem shift_join (hshift : lattice.shift rank dimension a = .ok (some next))
    (hshift' : lattice.shift next dimension b = .ok (some last)) :
    lattice.shift rank dimension (a + b) = .ok (some last) := by
  obtain ⟨digit, hdigit, _⟩ := h.exists_digit rank hside
  obtain ⟨_, moved, hsum, _, hcell⟩ := (h.shift_open_iff hside hopen hdigit).1 hshift
  have hdigit' : (cell lattice.sides next)[dimension]? = some moved := by
    rw [hcell, getElem?_set_of_getElem? hdigit]
  obtain ⟨hlast, moved', hsum', hmoved', hcell'⟩ :=
    (h.shift_open_iff hside hopen hdigit').1 hshift'
  rw [h.shift_open_iff hside hopen hdigit]
  refine ⟨hlast, moved', by omega, hmoved', ?_⟩
  rw [hcell', hcell, List.set_set]

end Open

end Side

theorem shiftLaws : lattice.ShiftLaws where
  counts := h.size_eq
  answers := fun _ hdimension hadmits =>
    h.exists_shift_of_admits (List.getElem?_eq_getElem hdimension) hadmits
  frames := fun _ hdimension hshift =>
    h.frame_of_shift (List.getElem?_eq_getElem hdimension) hshift
  rests := fun hperiodic _ _ hrank hdimension =>
    h.shift_zero (List.getElem?_eq_getElem hdimension) hperiodic hrank
  turns := fun hperiodic _ _ _ _ hrank hside hadmits =>
    h.shift_turns hside hperiodic hrank hadmits
  adds := fun hperiodic _ _ _ _ _ hdimension hadmits =>
    h.exists_shift_add (List.getElem?_eq_getElem hdimension) hperiodic hadmits
  commutes := fun hperiodic _ _ _ _ _ _ hdimension hdimension' hne hadmits hadmits' =>
    h.exists_shift_comm (List.getElem?_eq_getElem hdimension) hperiodic
      (List.getElem?_eq_getElem hdimension') hne hadmits hadmits'
  returns := fun hopen _ _ _ a hrank hother hdimension => by
    have hside := List.getElem?_eq_getElem hdimension
    constructor
    · exact h.shift_neg hside hopen hrank
    · intro hback
      have hforth := h.shift_neg hside hopen hother hback
      rw [Int.neg_neg] at hforth
      exact hforth
  joins := fun hopen _ _ _ _ _ _ _ hdimension hshift hshift' =>
    h.shift_join (List.getElem?_eq_getElem hdimension) hopen hshift hshift'

end Navigable

/-- The greatest displacement and back again. -/
theorem shiftLaws_of_longTorus : longTorus.Navigable ∧ longTorus.ShiftLaws ∧
    ∃ next, longTorus.shift 0 1 (Word.half - 1) = .ok (some next) ∧
      longTorus.shift next 1 (1 - Word.half) = .ok (some 0) := by
  have hnavigable : longTorus.Navigable := ⟨⟨by decide, by decide⟩, by decide⟩
  have hlaws : longTorus.ShiftLaws := hnavigable.shiftLaws
  have hadmits : longTorus.Admits 0 1 (Word.half - 1) := (hnavigable.admits_iff rfl).2 (by decide)
  have hback : longTorus.Admits 0x2aaaaaaaaaaaaaaa 1 (1 - Word.half) :=
    (hnavigable.admits_iff rfl).2 (by decide)
  have hrest : longTorus.Admits 0 1 (Word.half - 1 + (1 - Word.half)) :=
    (hnavigable.admits_iff rfl).2 (by decide)
  obtain ⟨next, hnext, hadds⟩ := hlaws.adds rfl (by decide) (by decide) hadmits
  have hplace : longTorus.shift 0 1 (Word.half - 1) = .ok (some 0x2aaaaaaaaaaaaaaa) := by decide
  cases hnext.symm.trans hplace
  obtain ⟨last, hlast, hsum⟩ := hadds hback hrest
  cases hsum.symm.trans (hlaws.rests rfl (by decide) (by decide))
  exact ⟨hnavigable, hlaws, _, hplace, hlast⟩

end Lattice

end RankExchange
