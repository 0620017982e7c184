import Mathlib.Algebra.BigOperators.Group.List.Basic
import Mathlib.Tactic.Simproc.Factors
import RankExchange.Proofs.Coordinates
import RankExchange.Proofs.TrialDivision

/-!
# Balanced sides

Each factor goes to a shortest side.  The product of all sides grows by the factor, so in
the end it is the number of blocks and on the way it is a word; and no side becomes longer
than a shortest one times the greatest factor.
-/

namespace RankExchange

namespace Sides

/-- The sides after a factor has gone to the first of the shortest. -/
def grown (sides : List Nat) (factor : Nat) : List Nat :=
  match sides.min? with
  | none => []
  | some shortest => sides.replace shortest (shortest * factor)

theorem replace_perm {a b : Nat} {list : List Nat} (h : a ∈ list) :
    (list.replace a b).Perm (b :: list.erase a) := by
  induction list with
  | nil => cases h
  | cons head list ih =>
      by_cases heq : head = a
      · rw [heq, List.replace_cons_self, List.erase_cons_head]
      · have hmem : a ∈ list := (List.mem_cons.1 h).resolve_left (Ne.symm heq)
        have hne : (head == a) = false := beq_false_of_ne heq
        have hne' : (a == head) = false := beq_false_of_ne (Ne.symm heq)
        rw [List.replace_cons, hne', List.erase_cons_tail (by rw [hne]; decide)]
        exact ((ih hmem).cons head).trans (.swap b head _)

section Grown

variable {sides : List Nat} {shortest factor side : Nat}

theorem grown_perm (h : sides.min? = some shortest) :
    (grown sides factor).Perm (shortest * factor :: sides.erase shortest) := by
  unfold grown
  rw [h]
  exact replace_perm (List.min?_mem h)

@[simp] theorem length_grown : (grown sides factor).length = sides.length := by
  unfold grown
  cases h : sides.min? with
  | none => rw [List.min?_eq_none_iff.1 h]
  | some shortest => exact List.length_replace

theorem mem_grown (h : side ∈ grown sides factor) :
    side ∈ sides ∨ ∃ shortest, sides.min? = some shortest ∧ side = shortest * factor := by
  cases hmin : sides.min? with
  | none =>
      unfold grown at h
      rw [hmin] at h
      cases h
  | some shortest =>
      rcases List.mem_cons.1 ((grown_perm hmin).mem_iff.1 h) with heq | hmem
      · exact .inr ⟨shortest, rfl, heq⟩
      · exact .inl (List.mem_of_mem_erase hmem)

theorem prod_grown (h : sides ≠ []) : (grown sides factor).prod = sides.prod * factor := by
  cases hmin : sides.min? with
  | none => exact absurd (List.min?_eq_none_iff.1 hmin) h
  | some shortest =>
      rw [(grown_perm hmin).prod_eq, List.prod_cons, Nat.mul_right_comm,
        List.prod_erase (List.min?_mem hmin)]

theorem pos_of_mem_grown (hpos : ∀ side ∈ sides, 0 < side) (hfactor : 0 < factor)
    (h : side ∈ grown sides factor) : 0 < side := by
  rcases mem_grown h with hmem | ⟨shortest, hmin, heq⟩
  · exact hpos side hmem
  · rw [heq]
    exact Nat.mul_pos (hpos shortest (List.min?_mem hmin)) hfactor

/-- The longer side is at most all sides together, so it is a word if their product is. -/
theorem lengthen_eq (hpos : ∀ side ∈ sides, 0 < side)
    (hroom : sides.prod * factor < Word.count) :
    lengthen sides factor = .ok (grown sides factor) := by
  unfold lengthen grown
  cases hmin : sides.min? with
  | none => rfl
  | some shortest =>
      have hprod : 0 < sides.prod := List.prod_pos_iff_forall_pos_nat.2 hpos
      have hle : shortest ≤ sides.prod :=
        Nat.le_of_dvd hprod (List.dvd_prod (List.min?_mem hmin))
      have hword : shortest * factor < Word.count :=
        Nat.lt_of_le_of_lt (Nat.mul_le_mul_right factor hle) hroom
      change sides.replace shortest <$> Word.mul shortest factor = _
      rw [Word.mul_eq_ok hword]
      rfl

end Grown

/-- No side is longer than another one times the greatest factor. -/
structure Level (top : Nat) (sides : List Nat) : Prop where
  positive : ∀ side ∈ sides, 0 < side
  skew : ∀ longer ∈ sides, ∀ shorter ∈ sides, longer ≤ shorter * top

theorem level_replicate {top dimensions : Nat} (htop : 0 < top) :
    Level top (List.replicate dimensions 1) where
  positive := fun side hside => by
    rw [List.eq_of_mem_replicate hside]
    exact Nat.one_pos
  skew := fun longer hlonger shorter hshorter => by
    rw [List.eq_of_mem_replicate hlonger, List.eq_of_mem_replicate hshorter, Nat.one_mul]
    exact htop

section Fold

variable {top factor : Nat} {factors sides : List Nat}

theorem Level.grown (h : Level top sides) (hfactor : 0 < factor) (htop : factor ≤ top) :
    Level top (grown sides factor) where
  positive := fun side hside => pos_of_mem_grown h.positive hfactor hside
  skew := fun longer hlonger shorter hshorter => by
    have hgrows : ∀ side ∈ Sides.grown sides factor, ∃ old ∈ sides, old ≤ side := by
      intro side hside
      rcases mem_grown hside with hmem | ⟨shortest, hmin, heq⟩
      · exact ⟨side, hmem, Nat.le_refl side⟩
      · exact ⟨shortest, List.min?_mem hmin, heq ▸ Nat.le_mul_of_pos_right shortest hfactor⟩
    obtain ⟨old, hold, hle⟩ := hgrows shorter hshorter
    have hmul : old * top ≤ shorter * top := Nat.mul_le_mul_right top hle
    rcases mem_grown hlonger with hmem | ⟨shortest, hmin, heq⟩
    · exact Nat.le_trans (h.skew longer hmem old hold) hmul
    · have hshortest : shortest ≤ old := (List.min?_eq_some_iff.1 hmin).2 old hold
      rw [heq]
      exact Nat.le_trans (Nat.mul_le_mul hshortest htop) hmul

theorem Level.foldl_grown (h : Level top sides)
    (hfactors : ∀ factor ∈ factors, 0 < factor ∧ factor ≤ top) :
    Level top (factors.foldl Sides.grown sides) := by
  induction factors generalizing sides with
  | nil => exact h
  | cons factor factors ih =>
      have hfactor := hfactors factor List.mem_cons_self
      exact ih (h.grown hfactor.1 hfactor.2)
        (fun other hother => hfactors other (List.mem_cons_of_mem factor hother))

@[simp] theorem length_foldl_grown (factors sides : List Nat) :
    (factors.foldl grown sides).length = sides.length := by
  induction factors generalizing sides with
  | nil => rfl
  | cons factor factors ih => rw [List.foldl_cons, ih, length_grown]

theorem grown_ne_nil (h : sides ≠ []) : grown sides factor ≠ [] := by
  rw [← List.length_pos_iff, length_grown, List.length_pos_iff]
  exact h

theorem prod_foldl_grown (h : sides ≠ []) :
    (factors.foldl grown sides).prod = sides.prod * factors.prod := by
  induction factors generalizing sides with
  | nil => rw [List.foldl_nil, List.prod_nil, Nat.mul_one]
  | cons factor factors ih =>
      rw [List.foldl_cons, ih (grown_ne_nil h), prod_grown h, List.prod_cons, Nat.mul_assoc]

theorem foldlM_lengthen (hne : sides ≠ []) (hpos : ∀ side ∈ sides, 0 < side)
    (hfactors : ∀ factor ∈ factors, 0 < factor)
    (hroom : sides.prod * factors.prod < Word.count) :
    factors.foldlM lengthen sides = .ok (factors.foldl grown sides) := by
  induction factors generalizing sides with
  | nil => rfl
  | cons factor factors ih =>
      have hrest : ∀ other ∈ factors, 0 < other :=
        fun other hother => hfactors other (List.mem_cons_of_mem factor hother)
      have hfactor : 0 < factor := hfactors factor List.mem_cons_self
      rw [List.prod_cons, ← Nat.mul_assoc] at hroom
      have hroom' : sides.prod * factor < Word.count :=
        Nat.lt_of_le_of_lt
          (Nat.le_mul_of_pos_right _ (List.prod_pos_iff_forall_pos_nat.2 hrest)) hroom
      rw [← prod_grown hne] at hroom
      rw [List.foldlM_cons, lengthen_eq hpos hroom', List.foldl_cons]
      exact ih (grown_ne_nil hne) (fun _ => pos_of_mem_grown hpos hfactor) hrest hroom

end Fold

def shape (count dimensions : Nat) : List Nat :=
  (count.primeFactorsList.reverse.foldl grown (List.replicate dimensions 1)).mergeSort
    (fun a b => decide (b ≤ a))

structure Balances (count dimensions : Nat) (sides : List Nat) : Prop where
  length_eq : sides.length = dimensions
  positive : ∀ side ∈ sides, 0 < side
  sorted : sides.Pairwise (· ≥ ·)
  prod_eq : sides.prod = count
  skew : 2 ≤ count → ∃ top, top.Prime ∧ top ∣ count ∧ (∀ q, q.Prime → q ∣ count → q ≤ top) ∧
    ∀ longer ∈ sides, ∀ shorter ∈ sides, longer ≤ shorter * top

section Shape

variable {count dimensions : Nat}

theorem shape_perm : (shape count dimensions).Perm
    (count.primeFactorsList.reverse.foldl grown (List.replicate dimensions 1)) :=
  List.mergeSort_perm _ _

theorem pairwise_shape : (shape count dimensions).Pairwise (· ≥ ·) := by
  have hsorted := @List.pairwise_mergeSort Nat (fun a b => decide (b ≤ a))
    (fun a b c hab hbc => by simp only [decide_eq_true_eq] at *; omega)
    (fun a b => by simp only [Bool.or_eq_true, decide_eq_true_eq]; omega)
    (count.primeFactorsList.reverse.foldl grown (List.replicate dimensions 1))
  exact hsorted.imp of_decide_eq_true

/-- The order leaves only one way to write the sides down. -/
theorem shape_eq {sides : List Nat} (hsorted : sides.Pairwise (· ≥ ·))
    (hperm : sides.Perm
      (count.primeFactorsList.reverse.foldl grown (List.replicate dimensions 1))) :
    shape count dimensions = sides :=
  (shape_perm.trans hperm.symm).eq_of_pairwise
    (fun _ _ _ _ hge hle => Nat.le_antisymm hle hge) pairwise_shape hsorted

theorem replicate_ne_nil (hdimensions : 0 < dimensions) :
    List.replicate dimensions 1 ≠ [] := by
  rw [← List.length_pos_iff, List.length_replicate]
  exact hdimensions

theorem prod_shape (hcount : count ≠ 0) (hdimensions : 0 < dimensions) :
    (shape count dimensions).prod = count := by
  rw [shape_perm.prod_eq, prod_foldl_grown (replicate_ne_nil hdimensions), List.prod_replicate,
    Nat.one_pow, Nat.one_mul, List.prod_reverse, Nat.prod_primeFactorsList hcount]

theorem level_shape {top : Nat} (htop : 0 < top)
    (hle : ∀ q, q.Prime → q ∣ count → q ≤ top) : Level top (shape count dimensions) := by
  have hlevel : Level top
      (count.primeFactorsList.reverse.foldl grown (List.replicate dimensions 1)) := by
    apply (level_replicate htop).foldl_grown
    intro factor hfactor
    have hmem : factor ∈ count.primeFactorsList := List.mem_reverse.1 hfactor
    have hprime : factor.Prime := Nat.prime_of_mem_primeFactorsList hmem
    exact ⟨hprime.pos, hle factor hprime (Nat.dvd_of_mem_primeFactorsList hmem)⟩
  exact ⟨fun side hside => hlevel.positive side (shape_perm.mem_iff.1 hside),
    fun longer hlonger shorter hshorter => hlevel.skew longer (shape_perm.mem_iff.1 hlonger)
      shorter (shape_perm.mem_iff.1 hshorter)⟩

theorem exists_greatest (hcount : 2 ≤ count) :
    ∃ top, top.Prime ∧ top ∣ count ∧ ∀ q, q.Prime → q ∣ count → q ≤ top := by
  have hmem : count.minFac ∈ count.primeFactorsList :=
    (Nat.mem_primeFactorsList (by omega)).2
      ⟨Nat.minFac_prime (by omega), Nat.minFac_dvd count⟩
  obtain ⟨top, htop⟩ := Option.isSome_iff_exists.1 (List.isSome_max?_of_mem hmem)
  obtain ⟨hin, hle⟩ := List.max?_eq_some_iff.1 htop
  refine ⟨top, Nat.prime_of_mem_primeFactorsList hin, Nat.dvd_of_mem_primeFactorsList hin,
    fun q hq hdvd => hle q ?_⟩
  exact (Nat.mem_primeFactorsList (by omega)).2 ⟨hq, hdvd⟩

theorem balances_shape (hcount : 1 ≤ count) (hdimensions : 1 ≤ dimensions) :
    Balances count dimensions (shape count dimensions) where
  length_eq := by rw [shape_perm.length_eq, length_foldl_grown, List.length_replicate]
  -- Above all prime factors there is `count` itself.
  positive := (level_shape hcount (fun q _ hdvd => Nat.le_of_dvd hcount hdvd)).positive
  sorted := pairwise_shape
  prod_eq := prod_shape (Nat.ne_of_gt hcount) hdimensions
  skew := fun htwo => by
    obtain ⟨top, hprime, hdvd, hle⟩ := exists_greatest htwo
    exact ⟨top, hprime, hdvd, hle, (level_shape hprime.pos hle).skew⟩

/-- Words can hold all that there is between the factors and the sides. -/
theorem balance_eq_ok (hdimensions : 0 < dimensions) (hcount : count < Word.count)
    (hover : ¬ Factors.Overlarge count) :
    balance count dimensions = .ok (shape count dimensions) := by
  have hprod : count.primeFactorsList.reverse.prod < Word.count := by
    rw [List.prod_reverse]
    rcases Nat.eq_zero_or_pos count with hzero | hpos
    · rw [hzero, Nat.primeFactorsList_zero]
      decide
    · rw [Nat.prod_primeFactorsList (Nat.ne_of_gt hpos)]
      exact hcount
  have hfactors : ∀ factor ∈ count.primeFactorsList.reverse, 0 < factor :=
    fun factor hfactor => Nat.pos_of_mem_primeFactorsList (List.mem_reverse.1 hfactor)
  have hones : ∀ side ∈ List.replicate dimensions 1, 0 < side :=
    (level_replicate Nat.one_pos).positive
  have hfold := foldlM_lengthen (replicate_ne_nil hdimensions) hones hfactors (by
    rw [List.prod_replicate, Nat.one_pow, Nat.one_mul]
    exact hprod)
  unfold balance
  rw [if_neg (Nat.ne_of_gt hdimensions), Factors.descending_eq_ok hcount hover]
  change (count.primeFactorsList.reverse.foldlM lengthen _ >>= fun sides => pure _) = _
  rw [hfold]
  rfl

theorem balance_eq_error (hdimensions : 0 < dimensions) (hcount : count < Word.count)
    (hover : Factors.Overlarge count) :
    balance count dimensions = .error .productOverflow := by
  unfold balance
  rw [if_neg (Nat.ne_of_gt hdimensions),
    (Factors.descending_eq_error_iff hcount).2 ⟨rfl, hover⟩]
  rfl

end Shape

end Sides

section Results

variable {count dimensions : Nat} {fault : ArithmeticFault}

theorem balancedSides_of_not_admits (h : ¬ Memory.admits (Word.bytes dimensions) = true) :
    balancedSides count dimensions = .error .noRoom :=
  if_neg h

theorem balancedSides_eq_ok (hdimensions : 0 < dimensions) (hcount : count < Word.count)
    (hover : ¬ Factors.Overlarge count) (hroom : Memory.admits (Word.bytes dimensions) = true) :
    balancedSides count dimensions = .ok (Sides.shape count dimensions) := by
  rw [balancedSides_of_admits hroom, Sides.balance_eq_ok hdimensions hcount hover]

/-- Sides are refused for want of memory, and for the primes that trial division breaks off
for. -/
theorem balancedSides_eq_error_iff (hcount : count < Word.count) :
    balancedSides count dimensions = .error fault ↔
      if Memory.admits (Word.bytes dimensions) then
        fault = .productOverflow ∧ 0 < dimensions ∧ Factors.Overlarge count
      else fault = .noRoom := by
  split
  · next hroom =>
      rw [balancedSides_of_admits hroom]
      rcases Nat.eq_zero_or_pos dimensions with hzero | hpos
      · simp [hzero]
      · by_cases hover : Factors.Overlarge count
        · simp [Sides.balance_eq_error hpos hcount hover, hover, hpos, eq_comm]
        · simp [Sides.balance_eq_ok hpos hcount hover, hover]
  · next hroom =>
      rw [balancedSides_of_not_admits hroom]
      simp [eq_comm]

theorem balanced_eq_error_iff {periodic : Bool} :
    Lattice.balanced count dimensions periodic = .error fault ↔
      balancedSides count dimensions = .error fault := by
  unfold Lattice.balanced
  cases balancedSides count dimensions with
  | error fault' => exact ⟨fun h => by cases h; rfl, fun h => by cases h; rfl⟩
  | ok sides => simp

theorem not_overlarge_of_primeFactors {factors : List Nat} (hcount : count < Word.count)
    (hfactors : primeFactors count = .ok factors) : ¬ Factors.Overlarge count := by
  intro hover
  have herror := (primeFactors_eq_error_iff hcount).2 ⟨rfl, hover⟩
  cases hfactors.symm.trans herror

/-- Sides for which there is room come to the number of blocks, and so does the size of their
lattice. -/
theorem balancedSides_exact {factors : List Nat} (hcount : 1 ≤ count)
    (hword : count < Word.count) (hfactors : primeFactors count = .ok factors)
    (hdimensions : 1 ≤ dimensions) (hroom : Memory.admits (Word.bytes dimensions) = true) :
    ∃ sides, balancedSides count dimensions = .ok sides ∧
      Sides.Balances count dimensions sides ∧
      ∀ periodic, Lattice.balanced count dimensions periodic = .ok ⟨sides, periodic⟩ ∧
        Lattice.size ⟨sides, periodic⟩ = .ok count := by
  have hsides := balancedSides_eq_ok hdimensions hword
    (not_overlarge_of_primeFactors hword hfactors) hroom
  have hbalances : Sides.Balances count dimensions (Sides.shape count dimensions) :=
    Sides.balances_shape hcount hdimensions
  refine ⟨Sides.shape count dimensions, hsides, hbalances, fun periodic => ⟨?_, ?_⟩⟩
  · unfold Lattice.balanced
    rw [hsides]
    rfl
  · have hproper : Lattice.Proper ⟨Sides.shape count dimensions, periodic⟩ :=
      ⟨hbalances.positive, by rw [hbalances.prod_eq]; exact hword⟩
    rw [hproper.size_eq, hbalances.prod_eq]

section TwoHundred

theorem primeFactors_twoHundred : primeFactors 200 = .ok [2, 2, 2, 5, 5] := by
  have hfactors : Nat.primeFactorsList 200 = [2, 2, 2, 5, 5] := by simp
  rw [primeFactors_eq_ok (by decide) (Factors.not_overlarge_of_lt (by decide)), hfactors]

theorem balancedSides_twoHundred : balancedSides 200 3 = .ok [8, 5, 5] := by
  have hfactors : Nat.primeFactorsList 200 = [2, 2, 2, 5, 5] := by simp
  have hshape : Sides.shape 200 3 = [8, 5, 5] := by
    apply Sides.shape_eq (by decide)
    rw [hfactors]
    decide
  rw [balancedSides_eq_ok (by decide) (by decide) (Factors.not_overlarge_of_lt (by decide))
    (by decide), hshape]

theorem balancedSides_exact_of_twoHundred : primeFactors 200 = .ok [2, 2, 2, 5, 5] ∧
    balancedSides 200 3 = .ok [8, 5, 5] ∧ Sides.Balances 200 3 [8, 5, 5] := by
  have hroom : Memory.admits (Word.bytes 3) = true := by decide
  obtain ⟨sides, hsides, hbalances, _⟩ :=
    balancedSides_exact (by decide) (by decide) primeFactors_twoHundred (by decide) hroom
  cases hsides.symm.trans balancedSides_twoHundred
  exact ⟨primeFactors_twoHundred, balancedSides_twoHundred, hbalances⟩

end TwoHundred

/-- One block has sides in every number of dimensions, but from 2 ^ 60 on no memory has room
for them. -/
theorem noRoom_of_longList : primeFactors 1 = .ok [] ∧
    balancedSides 1 0x1000000000000000 = .error .noRoom ∧
    Lattice.balanced 1 0x1000000000000000 false = .error .noRoom := by
  have hfactors : primeFactors 1 = .ok [] := by
    rw [primeFactors_eq_ok (by decide) (Factors.not_overlarge_of_lt (by decide)),
      Nat.primeFactorsList_one]
  have hsides : balancedSides 1 0x1000000000000000 = .error .noRoom :=
    balancedSides_of_not_admits (by decide)
  exact ⟨hfactors, hsides, balanced_eq_error_iff.2 hsides⟩

end Results

end RankExchange
