import Mathlib.Tactic.Choose
import RankExchange.Proofs.Rounds
import RankExchange.Proofs.Shifts

/-!
# Neighbours on a lattice

The neighbours of a rank are what the shifts by one block find, in all dimensions and both
directions.  They are the ranks that share a face with it, so each rank is a neighbour of
its neighbours, as it takes for an exchange.
-/

namespace RankExchange

namespace Lattice

/-- The second coordinate comes right after the first one on its side. -/
def Precedes (periodic : Bool) (side a b : Nat) : Prop :=
  if periodic then (a + 1) % side = b % side else a + 1 = b

instance (periodic : Bool) (side a b : Nat) : Decidable (Precedes periodic side a b) :=
  inferInstanceAs (Decidable (if periodic then (a + 1) % side = b % side else a + 1 = b))

/-- Two ranks have the same coordinates but in one dimension, and lie one step apart
there. -/
def Adjacent (lattice : Lattice) (rank other : Nat) : Prop :=
  ∃ (here there : List Nat) (dimension side a b : Nat), lattice.coordinates rank = .ok here ∧
    lattice.coordinates other = .ok there ∧ lattice.sides[dimension]? = some side ∧
    here[dimension]? = some a ∧ there[dimension]? = some b ∧
    (Precedes lattice.periodic side a b ∨ Precedes lattice.periodic side b a) ∧
    ∀ dimension', dimension' ≠ dimension → there[dimension']? = here[dimension']?

section Steps

variable {periodic : Bool} {side a b : Nat} {target : Int}

theorem land_true_eq_some_iff (hside : 0 < side) :
    land true side target = some b ↔ b < side ∧ target % side = (b : Int) % side := by
  have hnonneg : 0 ≤ target % side := Int.emod_nonneg target (by omega)
  have hlt : target % side < side := Int.emod_lt_of_pos target (by omega)
  rw [land_true, Option.some_inj]
  constructor
  · intro heq
    have hb : (b : Int) = target % side := by omega
    rw [hb, Int.emod_emod]
    omega
  · intro hb
    rw [hb.2, Int.emod_eq_of_lt (by omega) (by omega), Int.toNat_natCast]

theorem land_succ_iff (hside : 0 < side) :
    land periodic side (a + 1) = some b ↔ b < side ∧ Precedes periodic side a b := by
  cases periodic with
  | false =>
      rw [land_false_eq_some_iff]
      simp only [Precedes, Bool.false_eq_true, if_false]
      omega
  | true =>
      rw [land_true_eq_some_iff hside]
      simp only [Precedes, if_true]
      norm_cast

theorem land_pred_iff (hside : 0 < side) :
    land periodic side (a + -1) = some b ↔ b < side ∧ Precedes periodic side b a := by
  cases periodic with
  | false =>
      rw [land_false_eq_some_iff]
      simp only [Precedes, Bool.false_eq_true, if_false]
      omega
  | true =>
      have hback : ((a : Int) + -1) % side = (b : Int) % side ↔
          ((b : Int) + 1) % side = (a : Int) % side := by
        rw [← Int.emod_add_cancel_right 1, Int.neg_add_cancel_right, eq_comm]
      rw [land_true_eq_some_iff hside, hback]
      simp only [Precedes, if_true]
      norm_cast

theorem precedes_self_iff (ha : a < side) :
    Precedes periodic side a a ↔ periodic = true ∧ side = 1 := by
  cases periodic with
  | false => simp [Precedes]
  | true =>
      simp only [Precedes, if_true, true_and]
      rcases Nat.lt_or_eq_of_le ha with hlt | heq
      · rw [Nat.mod_eq_of_lt hlt, Nat.mod_eq_of_lt ha]
        omega
      · rw [← heq, Nat.mod_self, Nat.mod_eq_of_lt (Nat.lt_succ_self a)]
        omega

end Steps

theorem Adjacent.symm {lattice : Lattice} {rank other : Nat} (h : lattice.Adjacent rank other) :
    lattice.Adjacent other rank := by
  obtain ⟨here, there, dimension, side, a, b, hhere, hthere, hside, ha, hb, hstep, hrest⟩ := h
  exact ⟨there, here, dimension, side, b, a, hthere, hhere, hside, hb, ha, hstep.symm,
    fun dimension' hne => (hrest dimension' hne).symm⟩

/-- The two shifts in one dimension, and what they add to the ranks found. -/
def visit (lattice : Lattice) (rank : Nat) (found : RankSet) (dimension : Nat) :
    Except ArithmeticFault RankSet := do
  let before ← lattice.shift rank dimension (-1)
  let after ← lattice.shift rank dimension 1
  return (before.toList ++ after.toList).foldl RankSet.insert found

def Finds (lattice : Lattice) (rank dimension other : Nat) : Prop :=
  lattice.shift rank dimension (-1) = .ok (some other) ∨
    lattice.shift rank dimension 1 = .ok (some other)

theorem exists_visit {lattice : Lattice} {rank dimension : Nat} {before after : Option Nat}
    (hbefore : lattice.shift rank dimension (-1) = .ok before)
    (hafter : lattice.shift rank dimension 1 = .ok after) (found : RankSet) :
    ∃ next, lattice.visit rank found dimension = .ok next ∧
      ∀ other, other ∈ next ↔ other ∈ found ∨ lattice.Finds rank dimension other := by
  refine ⟨(before.toList ++ after.toList).foldl RankSet.insert found, ?_, fun other => ?_⟩
  · unfold visit
    rw [hbefore, hafter]
    rfl
  · rw [RankSet.mem_foldl_insert, List.mem_append, Option.mem_toList, Option.mem_toList,
      Finds, hbefore, hafter, Except.ok.injEq, Except.ok.injEq]

theorem exists_foldlM_visit {lattice : Lattice} {rank : Nat} {dimensions : List Nat}
    (hshifts : ∀ dimension ∈ dimensions, ∃ before after,
      lattice.shift rank dimension (-1) = .ok before ∧
        lattice.shift rank dimension 1 = .ok after) :
    ∀ found, ∃ peers, dimensions.foldlM (lattice.visit rank) found = .ok peers ∧
      ∀ other, other ∈ peers ↔
        other ∈ found ∨ ∃ dimension ∈ dimensions, lattice.Finds rank dimension other := by
  induction dimensions with
  | nil =>
      intro found
      exact ⟨found, rfl, fun other => by simp⟩
  | cons dimension dimensions ih =>
      intro found
      obtain ⟨before, after, hbefore, hafter⟩ := hshifts dimension List.mem_cons_self
      obtain ⟨next, hnext, hmem⟩ := exists_visit hbefore hafter found
      obtain ⟨peers, hpeers, hrest⟩ := ih
        (fun other hother => hshifts other (List.mem_cons_of_mem dimension hother)) next
      refine ⟨peers, ?_, fun other => ?_⟩
      · rw [List.foldlM_cons, hnext]
        exact hpeers
      · rw [hrest, hmem, or_assoc]
        simp only [List.mem_cons, exists_eq_or_imp]

namespace Navigable

variable {lattice : Lattice} (h : lattice.Navigable) {rank other dimension side digit moved : Nat}

include h

theorem exists_neighbors (rank : Nat) : ∃ peers, lattice.neighbors rank = .ok peers ∧
    ∀ other, other ∈ peers ↔
      ∃ dimension, dimension < lattice.sides.length ∧ lattice.Finds rank dimension other := by
  have hshifts : ∀ dimension ∈ List.range lattice.sides.length, ∃ before after,
      lattice.shift rank dimension (-1) = .ok before ∧
        lattice.shift rank dimension 1 = .ok after := by
    intro dimension hdimension
    have hside : lattice.sides[dimension]? = some _ :=
      List.getElem?_eq_getElem (List.mem_range.1 hdimension)
    obtain ⟨digit, hdigit, hlt⟩ := h.exists_digit rank hside
    have hhalf : _ < Word.half := h.side_lt_half hside
    exact ⟨_, _, h.shift_of_isSigned hside hdigit (Word.isSigned_pred (by omega)),
      h.shift_of_isSigned hside hdigit (Word.isSigned_succ (by omega))⟩
  obtain ⟨peers, hpeers, hmem⟩ := exists_foldlM_visit hshifts RankSet.empty
  refine ⟨peers, hpeers, fun other => ?_⟩
  rw [hmem]
  simp only [RankSet.not_mem_empty, false_or, List.mem_range]

theorem lt_of_finds (hside : lattice.sides[dimension]? = some side)
    (hfinds : lattice.Finds rank dimension other) : other < lattice.sides.prod := by
  obtain ⟨digit, hdigit, _⟩ := h.exists_digit rank hside
  cases hfinds with
  | inl hbefore => exact ((h.shift_eq_some_iff hside hdigit).1 hbefore).2.1
  | inr hafter => exact ((h.shift_eq_some_iff hside hdigit).1 hafter).2.1

theorem finds_iff (hside : lattice.sides[dimension]? = some side)
    (hdigit : (cell lattice.sides rank)[dimension]? = some digit)
    (hother : other < lattice.sides.prod) : lattice.Finds rank dimension other ↔
      ∃ moved, moved < side ∧
        (Precedes lattice.periodic side digit moved ∨
          Precedes lattice.periodic side moved digit) ∧
        cell lattice.sides other = (cell lattice.sides rank).set dimension moved := by
  have hlt : digit < side := h.digit_lt hside hdigit
  have hhalf : side < Word.half := h.side_lt_half hside
  have hpos : 0 < side := h.side_pos hside
  have hbefore : Word.IsSigned (digit + -1) := Word.isSigned_pred (by omega)
  have hafter : Word.IsSigned (digit + 1) := Word.isSigned_succ (by omega)
  rw [Finds, h.shift_eq_some_iff hside hdigit, h.shift_eq_some_iff hside hdigit]
  simp only [hbefore, hafter, hother, true_and, land_pred_iff hpos, land_succ_iff hpos]
  rw [← exists_or]
  apply exists_congr
  intro moved
  tauto

/-- The ranks that the shifts find are those that share a face. -/
theorem exists_finds_iff (hother : other < lattice.sides.prod) :
    (∃ dimension, dimension < lattice.sides.length ∧ lattice.Finds rank dimension other) ↔
      lattice.Adjacent rank other := by
  constructor
  · intro hfound
    obtain ⟨dimension, hdimension, hfinds⟩ := hfound
    have hside : lattice.sides[dimension]? = some _ := List.getElem?_eq_getElem hdimension
    obtain ⟨digit, hdigit, _⟩ := h.exists_digit rank hside
    obtain ⟨moved, _, hstep, hcell⟩ := (h.finds_iff hside hdigit hother).1 hfinds
    refine ⟨_, _, dimension, _, digit, moved, h.coordinates_eq rank, h.coordinates_eq other,
      hside, hdigit, ?_, hstep, fun dimension' hne => ?_⟩
    · rw [hcell, getElem?_set_of_getElem? hdigit]
    · rw [hcell, List.getElem?_set_ne hne.symm]
  · intro hadjacent
    obtain ⟨here, there, dimension, side, digit, moved, hhere, hthere, hside, hdigit, hmoved,
      hstep, hrest⟩ := hadjacent
    cases (h.coordinates_eq rank).symm.trans hhere
    cases (h.coordinates_eq other).symm.trans hthere
    refine ⟨dimension, (List.getElem?_eq_some_iff.1 hside).1, ?_⟩
    rw [h.finds_iff hside hdigit hother]
    exact ⟨moved, h.digit_lt hside hmoved, hstep, eq_set_of_getElem? hdigit hmoved hrest⟩

/-- A rank shares a face with itself only across the edge of a side of length one. -/
theorem adjacent_self_iff :
    lattice.Adjacent rank rank ↔ lattice.periodic = true ∧ 1 ∈ lattice.sides := by
  constructor
  · intro hadjacent
    obtain ⟨here, there, dimension, side, digit, moved, hhere, hthere, hside, hdigit, hmoved,
      hstep, _⟩ := hadjacent
    cases (h.coordinates_eq rank).symm.trans hhere
    cases (h.coordinates_eq rank).symm.trans hthere
    cases hdigit.symm.trans hmoved
    rw [or_self, precedes_self_iff (h.digit_lt hside hdigit)] at hstep
    rw [← hstep.2]
    exact ⟨hstep.1, List.mem_of_getElem? hside⟩
  · intro hone
    obtain ⟨dimension, hside⟩ := List.mem_iff_getElem?.1 hone.2
    obtain ⟨digit, hdigit, hlt⟩ := h.exists_digit rank hside
    have hstep : Precedes lattice.periodic 1 digit digit := (precedes_self_iff hlt).2 ⟨hone.1, rfl⟩
    exact ⟨_, _, dimension, 1, digit, digit, h.coordinates_eq rank, h.coordinates_eq rank, hside,
      hdigit, hdigit, .inl hstep, fun _ _ => rfl⟩

/-- The neighbours of a rank are the ranks that share a face with it, and the neighbours of
all ranks make the peers of an exchange. -/
theorem neighbors_exact : lattice.size = .ok lattice.sides.prod ∧ ∃ peers : Nat → RankSet,
    (∀ rank, rank < lattice.sides.prod → lattice.neighbors rank = .ok (peers rank) ∧
      (∀ other, other ∈ peers rank → other < lattice.sides.prod) ∧
      (∀ other, other < lattice.sides.prod →
        (other ∈ peers rank ↔ lattice.Adjacent rank other) ∧
        (other ∈ peers rank ↔ rank ∈ peers other)) ∧
      (rank ∈ peers rank ↔ lattice.periodic = true ∧ 1 ∈ lattice.sides)) ∧
    Reciprocal lattice.sides.prod peers := by
  choose peers hpeers hmem using h.exists_neighbors
  have hbound : ∀ rank other, other ∈ peers rank → other < lattice.sides.prod := by
    intro rank other hother
    obtain ⟨dimension, hdimension, hfinds⟩ := (hmem rank other).1 hother
    exact h.lt_of_finds (List.getElem?_eq_getElem hdimension) hfinds
  have hadjacent : ∀ rank other, other < lattice.sides.prod →
      (other ∈ peers rank ↔ lattice.Adjacent rank other) := by
    intro rank other hother
    rw [hmem, h.exists_finds_iff hother]
  have hmutual : ∀ rank other, rank < lattice.sides.prod → other < lattice.sides.prod →
      (other ∈ peers rank ↔ rank ∈ peers other) := by
    intro rank other hrank hother
    rw [hadjacent rank other hother, hadjacent other rank hrank]
    exact ⟨Adjacent.symm, Adjacent.symm⟩
  refine ⟨h.size_eq, peers, fun rank hrank => ⟨hpeers rank, hbound rank, fun other hother =>
    ⟨hadjacent rank other hother, hmutual rank other hrank hother⟩, ?_⟩, ?_⟩
  · rw [hadjacent rank rank hrank, h.adjacent_self_iff]
  · intro rank other hrank hother
    have hlt : other < lattice.sides.prod := hbound rank other hother
    exact ⟨hlt, (hmutual rank other hrank hlt).1 hother⟩

end Navigable

/-- Sides of lengths one and two, where both directions lead to the same rank, and one that
is as long as a side can be. -/
def longLoops : Lattice := ⟨[2, 1, 0x7fffffffffffffff], true⟩

theorem neighbors_exact_of_longLoops : longLoops.Navigable ∧ ∃ peers : RankSet,
    longLoops.neighbors 0 = .ok peers ∧ 0 ∈ peers ∧ 0x7ffffffffffffffe ∈ peers := by
  have hnavigable : longLoops.Navigable := ⟨⟨by decide, by decide⟩, by decide⟩
  have haround : longLoops.Adjacent 0 0x7ffffffffffffffe := by
    refine ⟨[0, 0, 0], [0, 0, 0x7ffffffffffffffe], 2, 0x7fffffffffffffff, 0,
      0x7ffffffffffffffe, by decide, by decide, rfl, rfl, rfl, .inr (by decide), ?_⟩
    intro dimension hne
    match dimension with
    | 0 => rfl
    | 1 => rfl
    | 2 => exact absurd rfl hne
    | dimension + 3 => rfl
  obtain ⟨_, peers, hpeers, _⟩ := hnavigable.neighbors_exact
  obtain ⟨hneighbors, _, hothers, hself⟩ := hpeers 0 (by decide)
  exact ⟨hnavigable, peers 0, hneighbors, hself.2 ⟨rfl, by decide⟩,
    (hothers 0x7ffffffffffffffe (by decide)).1.2 haround⟩

end Lattice

end RankExchange
