import RankExchange.Proofs.BalancedSides

/-!
# Equal sides

The prime factors of a power come in runs as long as its exponent.  With a side for each
factor of a run, the run lengthens one side after the other, and at its end all sides are
equal again.  So the sides of a power are its root.
-/

namespace RankExchange

namespace Sides

section Run

variable {dimensions done left shortest factor : Nat} {factors : List Nat}

/-- In the midst of a run the first side that has not had the factor is the next. -/
theorem grown_midst (hshortest : 0 < shortest) (hfactor : 1 < factor) :
    grown (List.replicate done (shortest * factor) ++ List.replicate (left + 1) shortest) factor =
      List.replicate (done + 1) (shortest * factor) ++ List.replicate left shortest := by
  have hlonger : shortest < shortest * factor := (Nat.lt_mul_iff_one_lt_right hshortest).2 hfactor
  have hmin : (List.replicate done (shortest * factor) ++
      List.replicate (left + 1) shortest).min? = some shortest := by
    rw [List.min?_eq_some_iff]
    refine ⟨List.mem_append_right _ List.mem_cons_self, fun side hside => ?_⟩
    rcases List.mem_append.1 hside with hdone | hleft
    · rw [List.eq_of_mem_replicate hdone]
      exact Nat.le_of_lt hlonger
    · exact Nat.le_of_eq (List.eq_of_mem_replicate hleft).symm
  -- The first shortest side is the one right behind those that have had the factor.
  have hnot : shortest ∉ List.replicate done (shortest * factor) :=
    fun hmem => Nat.ne_of_lt hlonger (List.eq_of_mem_replicate hmem)
  unfold grown
  rw [hmin]
  change List.replace _ shortest (shortest * factor) = _
  rw [List.replace_append_right hnot, List.replicate_succ, List.replace_cons_self,
    List.replicate_succ', List.append_assoc, List.singleton_append]

theorem foldl_grown_midst (hshortest : 0 < shortest) (hfactor : 1 < factor) :
    (List.replicate left factor).foldl grown
        (List.replicate done (shortest * factor) ++ List.replicate left shortest) =
      List.replicate (done + left) (shortest * factor) := by
  induction left generalizing done with
  | zero => rw [List.replicate_zero, List.replicate_zero, List.append_nil]; rfl
  | succ left ih =>
      rw [List.replicate_succ (a := factor), List.foldl_cons, grown_midst hshortest hfactor, ih,
        Nat.add_right_comm, Nat.add_assoc]

theorem foldl_grown_run (hshortest : 0 < shortest) (hfactor : 1 < factor) :
    (List.replicate dimensions factor).foldl grown (List.replicate dimensions shortest) =
      List.replicate dimensions (shortest * factor) := by
  have hrun : (List.replicate dimensions factor).foldl grown
      (List.replicate 0 (shortest * factor) ++ List.replicate dimensions shortest) =
      List.replicate (0 + dimensions) (shortest * factor) := foldl_grown_midst hshortest hfactor
  rw [List.replicate_zero, List.nil_append, Nat.zero_add] at hrun
  exact hrun

/-- Between two runs all sides are equal. -/
theorem foldl_grown_runs (hshortest : 0 < shortest) (hfactors : ∀ factor ∈ factors, 1 < factor) :
    (factors.flatMap (List.replicate dimensions)).foldl grown
        (List.replicate dimensions shortest) =
      List.replicate dimensions (shortest * factors.prod) := by
  induction factors generalizing shortest with
  | nil => rw [List.flatMap_nil, List.foldl_nil, List.prod_nil, Nat.mul_one]
  | cons factor factors ih =>
      have hfactor : 1 < factor := hfactors factor List.mem_cons_self
      have hlonger : 0 < shortest * factor := Nat.mul_pos hshortest (Nat.lt_of_succ_lt hfactor)
      rw [List.flatMap_cons, List.foldl_append, foldl_grown_run hshortest hfactor,
        ih hlonger (fun other hother => hfactors other (List.mem_cons_of_mem factor hother)),
        List.prod_cons, Nat.mul_assoc]

end Run

section Power

variable {root dimensions : Nat}

theorem prod_flatMap_replicate (exponent : Nat) (factors : List Nat) :
    (factors.flatMap (List.replicate exponent)).prod = factors.prod ^ exponent := by
  induction factors with
  | nil => rw [List.flatMap_nil, List.prod_nil, Nat.one_pow]
  | cons factor factors ih =>
      rw [List.flatMap_cons, List.prod_append, List.prod_replicate, ih, List.prod_cons,
        Nat.mul_pow]

/-- The prime factors of a power are those of its root, each of them in a run. -/
theorem primeFactorsList_pow (hroot : root ≠ 0) (exponent : Nat) :
    (root ^ exponent).primeFactorsList =
      root.primeFactorsList.flatMap (List.replicate exponent) := by
  have hprime : ∀ p ∈ root.primeFactorsList.flatMap (List.replicate exponent), p.Prime := by
    intro p hp
    obtain ⟨factor, hfactor, hmem⟩ := List.mem_flatMap.1 hp
    rw [List.eq_of_mem_replicate hmem]
    exact Nat.prime_of_mem_primeFactorsList hfactor
  have hprod : (root.primeFactorsList.flatMap (List.replicate exponent)).prod =
      root ^ exponent := by
    rw [prod_flatMap_replicate, Nat.prod_primeFactorsList hroot]
  -- Runs of ascending factors ascend, so no other order has to be looked at.
  have hsorted : (root.primeFactorsList.flatMap (List.replicate exponent)).Pairwise
      (· ≤ ·) := by
    rw [List.pairwise_flatMap]
    refine ⟨fun factor _ => List.pairwise_replicate_of_refl, ?_⟩
    refine (Nat.primeFactorsList_sorted root).pairwise.imp fun {p q} hle x hx y hy => ?_
    rw [List.eq_of_mem_replicate hx, List.eq_of_mem_replicate hy]
    exact hle
  exact ((Nat.primeFactorsList_unique hprod hprime).eq_of_pairwise
    (fun _ _ _ _ hle hge => Nat.le_antisymm hle hge) hsorted
    (Nat.primeFactorsList_sorted _).pairwise).symm

theorem shape_pow (hroot : root ≠ 0) :
    shape (root ^ dimensions) dimensions = List.replicate dimensions root := by
  have hruns : (root ^ dimensions).primeFactorsList.reverse =
      root.primeFactorsList.reverse.flatMap (List.replicate dimensions) := by
    rw [primeFactorsList_pow hroot, List.reverse_flatMap]
    congr 1
    funext factor
    exact List.reverse_replicate
  have hfactors : ∀ factor ∈ root.primeFactorsList.reverse, 1 < factor := fun factor hfactor =>
    (Nat.prime_of_mem_primeFactorsList (List.mem_reverse.1 hfactor)).one_lt
  apply shape_eq List.pairwise_replicate_of_refl
  rw [hruns, foldl_grown_runs Nat.one_pos hfactors, List.prod_reverse,
    Nat.prod_primeFactorsList hroot, Nat.one_mul]

/-- Only a list of ones can be too long for the memory: any other power soon is no word. -/
theorem admits_of_pow_lt (hroot : 2 ≤ root) (hword : root ^ dimensions < Word.count) :
    Memory.admits (Word.bytes dimensions) = true := by
  have hpow : 2 ^ dimensions < 2 ^ 64 :=
    Nat.lt_of_le_of_lt (Nat.pow_le_pow_left hroot dimensions) hword
  have hlt : dimensions < 64 := (Nat.pow_lt_pow_iff_right (by decide)).1 hpow
  rw [Memory.admits_iff]
  unfold Word.bytes Memory.longest
  omega

end Power

end Sides

section Results

variable {root dimensions : Nat} {factors : List Nat}

/-- The sides of a power, in as many dimensions as its exponent, are all equal to its root. -/
theorem balancedSides_pow (hroot : 1 ≤ root) (hdimensions : 1 ≤ dimensions)
    (hword : root ^ dimensions < Word.count)
    (hfactors : primeFactors (root ^ dimensions) = .ok factors)
    (hroom : root = 1 → Memory.admits (Word.bytes dimensions) = true) :
    balancedSides (root ^ dimensions) dimensions = .ok (List.replicate dimensions root) := by
  have hadmits : Memory.admits (Word.bytes dimensions) = true := by
    rcases Nat.eq_or_lt_of_le hroot with hone | htwo
    · exact hroom hone.symm
    · exact Sides.admits_of_pow_lt htwo hword
  rw [balancedSides_eq_ok hdimensions hword (not_overlarge_of_primeFactors hword hfactors) hadmits,
    Sides.shape_pow (Nat.ne_of_gt hroot)]

/-- The fifth power of twelve, in whose root two comes twice. -/
theorem balancedSides_pow_of_twelve :
    primeFactors (12 ^ 5) = .ok [2, 2, 2, 2, 2, 2, 2, 2, 2, 2, 3, 3, 3, 3, 3] ∧
      balancedSides (12 ^ 5) 5 = .ok [12, 12, 12, 12, 12] := by
  have hword : 12 ^ 5 < Word.count := by decide
  have hfactors : primeFactors (12 ^ 5) = .ok [2, 2, 2, 2, 2, 2, 2, 2, 2, 2, 3, 3, 3, 3, 3] := by
    have hroot : Nat.primeFactorsList 12 = [2, 2, 3] := by simp
    rw [primeFactors_eq_ok hword (Factors.not_overlarge_of_lt (by decide)),
      Sides.primeFactorsList_pow (by decide), hroot]
    rfl
  exact ⟨hfactors, balancedSides_pow (by decide) (by decide) hword hfactors (by decide)⟩

/-- One is a power with every exponent, and from 2 ^ 60 on there is no room for as many
sides. -/
theorem noRoom_of_longPower : 1 ^ 0x1000000000000000 < Word.count ∧
    primeFactors (1 ^ 0x1000000000000000) = .ok [] ∧
    balancedSides (1 ^ 0x1000000000000000) 0x1000000000000000 = .error .noRoom := by
  rw [Nat.one_pow]
  have hover : ¬ Factors.Overlarge 1 := Factors.not_overlarge_of_lt (by decide)
  refine ⟨by decide, ?_, balancedSides_of_not_admits (by decide)⟩
  rw [primeFactors_eq_ok (by decide) hover, Nat.primeFactorsList_one]

end Results

end RankExchange
