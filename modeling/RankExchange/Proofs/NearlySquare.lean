import Mathlib.Algebra.Group.Action.Defs
import Mathlib.Algebra.IsPrimePow
import Mathlib.Algebra.Order.BigOperators.Group.List
import Mathlib.Tactic.NormNum.Prime
import RankExchange.Proofs.BalancedSides

/-!
# How close to a cube the sides are

The longest side gets its last factor when it is a shortest one.  The factor is then the
least so far, and all sides are at least as long as the longest one will be without it.  If
other sides of the same product are all shorter than that, they cannot hold three factors
of this size each, and if they hold two at most, there are too few of them: so a side that
is longer than it has to be is longer than the cube of its least prime factor.  The
exponent by which it can be too long is bounded in all cases.
-/

namespace RankExchange

namespace Sides

section Weight

variable {bound least : Nat}

/-- The part of a block of length `bound` that a factor takes up if none below `least`
counts: a factor that has no second one beside it takes up both places. -/
def share (bound least p : Nat) : Nat :=
  if p < least then 0 else if p * least ≤ bound then 1 else 2

/-- The places that all prime factors of a number take up. -/
def weight (bound least n : Nat) : Nat :=
  (n.primeFactorsList.map (share bound least)).sum

theorem one_le_share {p : Nat} (h : least ≤ p) : 1 ≤ share bound least p := by
  unfold share
  split <;> [omega; split <;> omega]

theorem share_eq_two {p : Nat} (h : least ≤ p) (hbound : bound < p * least) :
    share bound least p = 2 := by
  unfold share
  rw [if_neg (Nat.not_lt_of_le h), if_neg (Nat.not_le_of_lt hbound)]

theorem weight_mul {a b : Nat} (ha : a ≠ 0) (hb : b ≠ 0) :
    weight bound least (a * b) = weight bound least a + weight bound least b := by
  unfold weight
  rw [((Nat.perm_primeFactorsList_mul ha hb).map _).sum_eq, List.map_append, List.sum_append]

theorem weight_prod {sides : List Nat} (hpos : ∀ side ∈ sides, 0 < side) :
    weight bound least sides.prod = (sides.map (weight bound least)).sum := by
  induction sides with
  | nil => simp [weight]
  | cons side sides ih =>
      have hrest : ∀ other ∈ sides, 0 < other :=
        fun other hother => hpos other (List.mem_cons_of_mem side hother)
      rw [List.prod_cons, List.map_cons, List.sum_cons, ← ih hrest]
      exact weight_mul (Nat.ne_of_gt (hpos side List.mem_cons_self))
        (Nat.ne_of_gt (List.prod_pos_iff_forall_pos_nat.2 hrest))

/-- How long a block is at least whose factors take up one, two or three places. -/
theorem prod_of_shares (hcube : bound < least ^ 3) {factors : List Nat}
    (hpos : ∀ factor ∈ factors, 0 < factor) :
    (1 ≤ (factors.map (share bound least)).sum → least ≤ factors.prod) ∧
      (2 ≤ (factors.map (share bound least)).sum → bound < factors.prod * least) ∧
      (3 ≤ (factors.map (share bound least)).sum → bound < factors.prod) := by
  induction factors with
  | nil => simp
  | cons factor factors ih =>
      have hrest : ∀ other ∈ factors, 0 < other :=
        fun other hother => hpos other (List.mem_cons_of_mem factor hother)
      have hfactor : 0 < factor := hpos factor List.mem_cons_self
      have hprod : 0 < factors.prod := List.prod_pos_iff_forall_pos_nat.2 hrest
      obtain ⟨hone, htwo, hthree⟩ := ih hrest
      have hle : factor ≤ factor * factors.prod := Nat.le_mul_of_pos_right factor hprod
      have hle' : factors.prod ≤ factor * factors.prod := Nat.le_mul_of_pos_left _ hfactor
      rw [List.map_cons, List.sum_cons, List.prod_cons]
      rcases Nat.lt_or_ge factor least with hsmall | hlarge
      · have hshare : share bound least factor = 0 := if_pos hsmall
        rw [hshare, Nat.zero_add]
        refine ⟨fun h => Nat.le_trans (hone h) hle', fun h => ?_, fun h => ?_⟩
        · exact Nat.lt_of_lt_of_le (htwo h) (Nat.mul_le_mul_right least hle')
        · exact Nat.lt_of_lt_of_le (hthree h) hle'
      · refine ⟨fun _ => Nat.le_trans hlarge hle, ?_⟩
        rcases Nat.lt_or_ge bound (factor * least) with hlong | hshort
        · -- The factor fills the block alone.
          rw [share_eq_two hlarge hlong]
          refine ⟨fun _ => ?_, fun h => ?_⟩
          · exact Nat.lt_of_lt_of_le hlong (Nat.mul_le_mul_right least hle)
          · exact Nat.lt_of_lt_of_le hlong (Nat.mul_le_mul_left factor (hone (by omega)))
        · have hshare : share bound least factor = 1 := by
            rw [share, if_neg (Nat.not_lt_of_le hlarge), if_pos hshort]
          rw [hshare]
          refine ⟨fun h => ?_, fun h => ?_⟩
          · have hsquare : least * least ≤ factor * factors.prod :=
              Nat.mul_le_mul hlarge (hone (by omega))
            rw [Nat.pow_succ, Nat.pow_two] at hcube
            exact Nat.lt_of_lt_of_le hcube (Nat.mul_le_mul_right least hsquare)
          · rw [Nat.mul_comm]
            exact Nat.lt_of_lt_of_le (htwo (by omega)) (Nat.mul_le_mul_left _ hlarge)

theorem weight_le_two {n : Nat} (hpos : 0 < n) (hle : n ≤ bound) (hcube : bound < least ^ 3) :
    weight bound least n ≤ 2 := by
  apply Nat.le_of_not_lt
  intro hweight
  have hfactors : ∀ factor ∈ n.primeFactorsList, 0 < factor :=
    fun _ hfactor => Nat.pos_of_mem_primeFactorsList hfactor
  have hlong := (prod_of_shares hcube hfactors).2.2 hweight
  rw [Nat.prod_primeFactorsList (Nat.ne_of_gt hpos)] at hlong
  exact Nat.not_lt_of_le hle hlong

/-- A side that leaves no room for another factor takes up both places. -/
theorem two_le_weight {side : Nat} (hleast : least ≤ bound) (hlong : bound < side * least)
    (hfactors : ∀ q, q.Prime → q ∣ side → least ≤ q) : 2 ≤ weight bound least side := by
  have hne : side ≠ 0 := by
    intro hzero
    rw [hzero, Nat.zero_mul] at hlong
    exact Nat.not_lt_zero bound hlong
  have hle : ∀ factor ∈ side.primeFactorsList, least ≤ factor := fun factor hfactor =>
    hfactors factor (Nat.prime_of_mem_primeFactorsList hfactor)
      (Nat.dvd_of_mem_primeFactorsList hfactor)
  have hprod : side.primeFactorsList.prod = side := Nat.prod_primeFactorsList hne
  unfold weight
  match side.primeFactorsList, hle, hprod with
  | [], _, hone =>
      rw [List.prod_nil] at hone
      rw [← hone, Nat.one_mul] at hlong
      exact absurd hlong (Nat.not_lt_of_le hleast)
  | [factor], hle, hone =>
      rw [List.prod_singleton] at hone
      have hshare := share_eq_two (hle factor List.mem_cons_self) (hone ▸ hlong)
      rw [List.map_singleton, List.sum_singleton, hshare]
  | first :: second :: factors, hle, _ =>
      have hfirst : 1 ≤ share bound least first := one_le_share (hle first List.mem_cons_self)
      have hsecond : 1 ≤ share bound least second :=
        one_le_share (hle second (List.mem_cons_of_mem first List.mem_cons_self))
      rw [List.map_cons, List.map_cons, List.sum_cons, List.sum_cons]
      omega

end Weight

/-- The sides to which a side gets its last factor, none of them shorter than it is then. -/
structure Closing (count side factor : Nat) (sides : List Nat) : Prop where
  positive : ∀ other ∈ sides, 0 < other
  prime : factor.Prime
  side_eq : ∃ shortest ∈ sides, side = shortest * factor
  le_mul : ∀ other ∈ sides, side ≤ other * factor
  least : ∀ q, q.Prime → q ∣ sides.prod → factor ≤ q
  rest : sides.prod * factor ∣ count

section Closing

variable {count dimensions side factor : Nat} {factors sides : List Nat}

theorem exists_last_factor (h : side ∈ factors.foldl grown sides) :
    side ∈ sides ∨ ∃ before factor after shortest, factors = before ++ factor :: after ∧
      (before.foldl grown sides).min? = some shortest ∧ side = shortest * factor := by
  induction factors using List.reverseRecOn with
  | nil => exact .inl h
  | append_singleton factors last ih =>
      rw [List.foldl_append, List.foldl_cons, List.foldl_nil] at h
      rcases mem_grown h with hmem | ⟨shortest, hmin, heq⟩
      · rcases ih hmem with hstart | ⟨before, factor, after, shortest, hsplit, hmin, heq⟩
        · exact .inl hstart
        · refine .inr ⟨before, factor, after ++ [last], shortest, ?_, hmin, heq⟩
          rw [hsplit, List.append_assoc, List.cons_append]
      · exact .inr ⟨factors, last, [], shortest, rfl, hmin, heq⟩

theorem exists_closing (hcount : count ≠ 0) (hdimensions : 0 < dimensions)
    (hside : side ∈ shape count dimensions) (hne : side ≠ 1) :
    ∃ factor sides, sides.length = dimensions ∧ Closing count side factor sides := by
  rcases exists_last_factor (shape_perm.mem_iff.1 hside) with hone | hlast
  · exact absurd (List.eq_of_mem_replicate hone) hne
  obtain ⟨before, factor, after, shortest, hsplit, hmin, heq⟩ := hlast
  have hprime : ∀ p ∈ before ++ factor :: after, p.Prime := by
    intro p hp
    rw [← hsplit, List.mem_reverse] at hp
    exact Nat.prime_of_mem_primeFactorsList hp
  have hbefore : ∀ p ∈ before, p.Prime := fun p hp => hprime p (List.mem_append_left _ hp)
  have hsorted : (before ++ factor :: after).Pairwise (· ≥ ·) := by
    rw [← hsplit, List.pairwise_reverse]
    exact (Nat.primeFactorsList_sorted count).pairwise
  have hprod : (before.foldl grown (List.replicate dimensions 1)).prod = before.prod := by
    rw [prod_foldl_grown (replicate_ne_nil hdimensions), List.prod_replicate, Nat.one_pow,
      Nat.one_mul]
  have hdvd : before.prod * factor ∣ count := by
    refine ⟨after.prod, ?_⟩
    rw [← Nat.prod_primeFactorsList hcount, ← List.prod_reverse, hsplit, List.prod_append,
      List.prod_cons, Nat.mul_assoc]
  refine ⟨factor, before.foldl grown (List.replicate dimensions 1), ?_, ?_, ?_, ?_, ?_, ?_, ?_⟩
  · rw [length_foldl_grown, List.length_replicate]
  · refine ((level_replicate (Nat.pos_of_ne_zero hcount)).foldl_grown fun p hp => ?_).positive
    have hp' : p ∈ count.primeFactorsList :=
      List.mem_reverse.1 (hsplit ▸ List.mem_append_left _ hp)
    exact ⟨(hbefore p hp).pos, Nat.le_of_mem_primeFactorsList hp'⟩
  · exact hprime factor (List.mem_append_right before List.mem_cons_self)
  · exact ⟨shortest, List.min?_mem hmin, heq⟩
  · intro other hother
    rw [heq]
    exact Nat.mul_le_mul_right factor ((List.min?_eq_some_iff.1 hmin).2 other hother)
  · intro q hq hqdvd
    rw [hprod] at hqdvd
    have hmem : q ∈ before :=
      mem_list_primes_of_dvd_prod hq.prime (fun p hp => (hbefore p hp).prime) hqdvd
    exact (List.pairwise_append.1 hsorted).2.2 q hmem factor List.mem_cons_self
  · rw [hprod]
    exact hdvd

namespace Closing

variable (h : Closing count side factor sides)

include h

theorem minFac_eq : side.minFac = factor := by
  obtain ⟨shortest, hmem, heq⟩ := h.side_eq
  have hdvd : factor ∣ side := heq ▸ Nat.dvd_mul_left factor shortest
  apply Nat.le_antisymm (Nat.minFac_le_of_dvd h.prime.two_le hdvd)
  have hne : side ≠ 1 := by
    intro hone
    exact h.prime.one_lt.ne' (Nat.dvd_one.1 (hone ▸ hdvd))
  have hleast : side.minFac ∣ shortest * factor := heq ▸ Nat.minFac_dvd side
  rcases (Nat.minFac_prime hne).dvd_mul.1 hleast with hshortest | hfactor
  · exact h.least _ (Nat.minFac_prime hne)
      (Nat.dvd_trans hshortest (List.dvd_prod hmem))
  · exact Nat.le_of_eq ((Nat.prime_dvd_prime_iff_eq (Nat.minFac_prime hne) h.prime).1 hfactor).symm

theorem side_dvd : side ∣ count := by
  obtain ⟨shortest, hmem, heq⟩ := h.side_eq
  rw [heq]
  exact Nat.dvd_trans (Nat.mul_dvd_mul_right (List.dvd_prod hmem) factor) h.rest

section Others

variable {others : List Nat} {bound : Nat} (hlength : others.length = sides.length)
  (hpos : ∀ other ∈ others, 0 < other) (hbound : ∀ other ∈ others, other ≤ bound)
  (hprod : others.prod = count)

include hlength hpos hbound hprod

/-- The side with its last factor left out, and all sides as long, fit into the others. -/
theorem pow_le : side ^ sides.length ≤ bound ^ sides.length * factor ^ (sides.length - 1) := by
  obtain ⟨shortest, hmem, _⟩ := h.side_eq
  have hone : sides.length - 1 + 1 = sides.length :=
    Nat.sub_add_cancel (List.length_pos_of_mem hmem)
  have hmap : (sides.map (· * factor)).prod = sides.prod * factor ^ sides.length := by
    rw [List.prod_map_mul, List.map_id', List.map_const', List.prod_replicate]
  have hsides : side ^ sides.length ≤ (sides.map (· * factor)).prod := by
    have hle := List.pow_card_le_prod (sides.map (· * factor)) side (fun longer hlonger => by
      obtain ⟨other, hother, heq⟩ := List.mem_map.1 hlonger
      exact heq ▸ h.le_mul other hother)
    rw [List.length_map] at hle
    exact hle
  have hcount : sides.prod * factor ≤ bound ^ sides.length := by
    have hothers : others.prod ≤ bound ^ others.length :=
      List.prod_le_pow_card others bound hbound
    have hcount : 0 < others.prod := List.prod_pos_iff_forall_pos_nat.2 hpos
    rw [hlength] at hothers
    exact Nat.le_trans (Nat.le_of_dvd hcount (hprod ▸ h.rest)) hothers
  calc
    side ^ sides.length ≤ sides.prod * factor ^ (sides.length - 1 + 1) := by
      rw [hone, ← hmap]
      exact hsides
    _ = sides.prod * factor * factor ^ (sides.length - 1) := by
      rw [Nat.pow_succ, Nat.mul_comm (factor ^ _), Nat.mul_assoc]
    _ ≤ bound ^ sides.length * factor ^ (sides.length - 1) := Nat.mul_le_mul_right _ hcount

/-- Other sides that are all shorter would have to hold the last factor and all before it,
two in each at most, and there are as many as two in each without the last. -/
theorem cube_le (hlonger : bound < side) : factor ^ 3 ≤ bound := by
  apply Nat.le_of_not_lt
  intro hcube
  obtain ⟨rest, hrest⟩ := h.rest
  have hcount : count ≠ 0 :=
    hprod ▸ Nat.ne_of_gt (List.prod_pos_iff_forall_pos_nat.2 hpos)
  have hne : sides.prod * factor ≠ 0 := fun hzero => hcount (by rw [hrest, hzero, Nat.zero_mul])
  have hfactor : factor ≤ bound := by
    have hdvd : factor ∣ others.prod := by
      rw [hprod, hrest]
      exact Nat.dvd_mul_right_of_dvd (Nat.dvd_mul_left factor sides.prod) rest
    obtain ⟨other, hother, hdvd⟩ := (Prime.dvd_prod_iff h.prime.prime).1 hdvd
    exact Nat.le_trans (Nat.le_of_dvd (hpos other hother) hdvd) (hbound other hother)
  have hothers : weight bound factor count ≤ sides.length * 2 := by
    have hle := List.sum_le_card_nsmul (others.map (weight bound factor)) 2 (fun part hpart => by
      obtain ⟨other, hother, heq⟩ := List.mem_map.1 hpart
      exact heq ▸ weight_le_two (hpos other hother) (hbound other hother) hcube)
    rw [← weight_prod hpos, hprod, List.length_map, hlength, smul_eq_mul] at hle
    exact hle
  have hsides : sides.length * 2 ≤ weight bound factor sides.prod := by
    have hle := List.card_nsmul_le_sum (sides.map (weight bound factor)) 2 (fun part hpart => by
      obtain ⟨other, hother, heq⟩ := List.mem_map.1 hpart
      exact heq ▸ two_le_weight hfactor (Nat.lt_of_lt_of_le hlonger (h.le_mul other hother))
        (fun q hq hdvd => h.least q hq (Nat.dvd_trans hdvd (List.dvd_prod hother))))
    rw [← weight_prod h.positive, List.length_map, smul_eq_mul] at hle
    exact hle
  have hlast : 1 ≤ weight bound factor factor := by
    rw [weight, Nat.primeFactorsList_prime h.prime, List.map_singleton, List.sum_singleton]
    exact one_le_share (Nat.le_refl factor)
  have hwhole : weight bound factor count =
      weight bound factor sides.prod + weight bound factor factor + weight bound factor rest := by
    rw [hrest, weight_mul hne (right_ne_zero_of_mul (hrest ▸ hcount)),
      weight_mul (left_ne_zero_of_mul hne) h.prime.ne_zero]
  omega

theorem le_of_le_cube (hcube : side ≤ factor ^ 3) : side ≤ bound := by
  apply Nat.le_of_not_lt
  intro hlonger
  have hle : factor ^ 3 ≤ bound := h.cube_le hlength hpos hbound hprod hlonger
  exact Nat.not_lt_of_le (Nat.le_trans hcube hle) hlonger

/-- By how much the side can be too long. -/
theorem pow_three_mul_le :
    side ^ (3 * sides.length) ≤ bound ^ (4 * sides.length - 1) := by
  obtain ⟨shortest, hmem, _⟩ := h.side_eq
  have hsides : 0 < sides.length := List.length_pos_of_mem hmem
  have hexponent : 4 * sides.length - 1 = sides.length * 3 + (sides.length - 1) := by omega
  rcases Nat.lt_or_ge bound side with hlonger | hshorter
  · calc
      side ^ (3 * sides.length) = (side ^ sides.length) ^ 3 := by
        rw [Nat.mul_comm, Nat.pow_mul]
      _ ≤ (bound ^ sides.length * factor ^ (sides.length - 1)) ^ 3 :=
        Nat.pow_le_pow_left (h.pow_le hlength hpos hbound hprod) 3
      _ = bound ^ (sides.length * 3) * (factor ^ 3) ^ (sides.length - 1) := by
        rw [Nat.mul_pow, ← Nat.pow_mul, Nat.pow_right_comm]
      _ ≤ bound ^ (sides.length * 3) * bound ^ (sides.length - 1) :=
        Nat.mul_le_mul_left _
          (Nat.pow_le_pow_left (h.cube_le hlength hpos hbound hprod hlonger) _)
      _ = bound ^ (4 * sides.length - 1) := by rw [hexponent, Nat.pow_add]
  · obtain ⟨other, hother⟩ : ∃ other, other ∈ others :=
      List.exists_mem_of_length_pos (hlength ▸ hsides)
    have hone : 1 ≤ bound := Nat.le_trans (hpos other hother) (hbound other hother)
    exact Nat.le_trans (Nat.pow_le_pow_left hshorter _) (Nat.pow_le_pow_right hone (by omega))

/-- All sides are powers of the same prime, and the next power would be too much. -/
theorem le_of_isPrimePow (hpower : IsPrimePow count) (hmem : bound ∈ others) : side ≤ bound := by
  obtain ⟨p, exponent, hp, _, hcount⟩ := (isPrimePow_nat_iff count).1 hpower
  have hfactor : factor = p := by
    have hdvd : factor ∣ p ^ exponent :=
      hcount ▸ Nat.dvd_trans (Nat.dvd_mul_left factor sides.prod) h.rest
    exact (Nat.prime_dvd_prime_iff_eq h.prime hp).1 (h.prime.dvd_of_dvd_pow hdvd)
  obtain ⟨x, _, hx⟩ := (Nat.dvd_prime_pow hp).1 (hcount ▸ h.side_dvd)
  obtain ⟨y, _, hy⟩ := (Nat.dvd_prime_pow hp).1 (hcount ▸ hprod ▸ List.dvd_prod hmem)
  obtain ⟨shortest, hshortest, _⟩ := h.side_eq
  have hsides : 0 < sides.length := List.length_pos_of_mem hshortest
  have hpow := h.pow_le hlength hpos hbound hprod
  rw [hfactor, hx, hy, ← Nat.pow_mul, ← Nat.pow_mul, ← Nat.pow_add,
    Nat.pow_le_pow_iff_right hp.one_lt] at hpow
  have hle : x ≤ y := by
    apply Nat.le_of_not_lt
    intro hlt
    have hmul : (y + 1) * sides.length ≤ x * sides.length := Nat.mul_le_mul_right _ hlt
    rw [Nat.succ_mul] at hmul
    omega
  rw [hx, hy]
  exact Nat.pow_le_pow_right hp.pos hle

end Others

end Closing

end Closing

end Sides

section Results

variable {count dimensions : Nat}

/-- No other sides of the same product have a longest one below that of the balanced sides,
unless this is longer than the cube of its least prime factor; and whatever they are, its
excess over theirs is bounded. -/
theorem longest_nearly_least {factors : List Nat} (hcount : 1 ≤ count)
    (hword : count < Word.count) (hfactors : primeFactors count = .ok factors)
    (hdimensions : 1 ≤ dimensions) (hroom : Memory.admits (Word.bytes dimensions) = true) :
    ∃ sides longest, balancedSides count dimensions = .ok sides ∧ sides.max? = some longest ∧
      ∀ (others : List Nat) (greatest : Nat), others.length = dimensions →
        (∀ other ∈ others, 0 < other) → others.prod = count → others.max? = some greatest →
        (longest ≤ longest.minFac ^ 3 ∨ IsPrimePow count → longest ≤ greatest) ∧
        longest ^ (3 * dimensions) ≤ greatest ^ (4 * dimensions - 1) := by
  have hlength : (Sides.shape count dimensions).length = dimensions :=
    (Sides.balances_shape hcount hdimensions).length_eq
  obtain ⟨side, hside⟩ : ∃ side, side ∈ Sides.shape count dimensions :=
    List.exists_mem_of_length_pos (by omega)
  obtain ⟨longest, hlongest⟩ := Option.isSome_iff_exists.1 (List.isSome_max?_of_mem hside)
  refine ⟨Sides.shape count dimensions, longest, balancedSides_eq_ok hdimensions hword
    (not_overlarge_of_primeFactors hword hfactors) hroom, hlongest, ?_⟩
  intro others greatest hothers hpos hprod hgreatest
  obtain ⟨hmem, hbound⟩ := List.max?_eq_some_iff.1 hgreatest
  rcases eq_or_ne longest 1 with hone | hne
  · have hle : 1 ≤ greatest := hpos greatest hmem
    rw [hone, Nat.one_pow]
    exact ⟨fun _ => hle, Nat.one_le_pow _ _ hle⟩
  · obtain ⟨factor, sides, hsides, hclosing⟩ := Sides.exists_closing (Nat.ne_of_gt hcount)
      hdimensions (List.max?_eq_some_iff.1 hlongest).1 hne
    have hsame : others.length = sides.length := hothers.trans hsides.symm
    rw [hclosing.minFac_eq]
    refine ⟨fun h => ?_, ?_⟩
    · rcases h with hcube | hpower
      · exact hclosing.le_of_le_cube hsame hpos hbound hprod hcube
      · exact hclosing.le_of_isPrimePow hsame hpos hbound hprod hpower hmem
    · rw [← hsides]
      exact hclosing.pow_three_mul_le hsame hpos hbound hprod

/-- No three sides of 200 blocks are all shorter than eight. -/
theorem longest_least_of_twoHundred : primeFactors 200 = .ok [2, 2, 2, 5, 5] ∧
    balancedSides 200 3 = .ok [8, 5, 5] ∧
    ∀ (others : List Nat) (greatest : Nat), others.length = 3 →
      (∀ other ∈ others, 0 < other) → others.prod = 200 → others.max? = some greatest →
      8 ≤ greatest := by
  have hroom : Memory.admits (Word.bytes 3) = true := by decide
  obtain ⟨sides, longest, hsides, hlongest, hleast⟩ :=
    longest_nearly_least (by decide) (by decide) primeFactors_twoHundred (by decide) hroom
  cases hsides.symm.trans balancedSides_twoHundred
  have heq : longest = 8 := (Option.some_inj.1 hlongest).symm
  have hminFac : Nat.minFac 8 = 2 := by norm_num
  have hcube : 8 ≤ Nat.minFac 8 ^ 3 := by
    rw [hminFac]
    decide
  rw [heq] at hleast
  refine ⟨primeFactors_twoHundred, balancedSides_twoHundred, ?_⟩
  intro others greatest hlength hpos hprod hgreatest
  exact (hleast others greatest hlength hpos hprod hgreatest).1 (.inl hcube)

/-- Of 72 blocks the sides are twelve and six, where nine and eight would do. -/
theorem not_longest_least_of_seventyTwo : primeFactors 72 = .ok [2, 2, 2, 3, 3] ∧
    balancedSides 72 2 = .ok [12, 6] ∧ [9, 8].length = 2 ∧ [9, 8].prod = 72 ∧
    [9, 8].max? = some 9 ∧ 9 < 12 := by
  have hover : ¬ Factors.Overlarge 72 := Factors.not_overlarge_of_lt (by decide)
  have hfactors : Nat.primeFactorsList 72 = [2, 2, 2, 3, 3] := by simp
  have hshape : Sides.shape 72 2 = [12, 6] := by
    apply Sides.shape_eq (by decide)
    rw [hfactors]
    decide
  refine ⟨?_, ?_, rfl, rfl, rfl, by decide⟩
  · rw [primeFactors_eq_ok (by decide) hover, hfactors]
  · rw [balancedSides_eq_ok (by decide) (by decide) hover (by decide), hshape]

end Results

end RankExchange
