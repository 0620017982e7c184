import Mathlib.NumberTheory.LucasPrimality
import Mathlib.Tactic.NormNum.Prime
import Mathlib.Tactic.ReduceModChar
import RankExchange.Proofs.BalancedSides

/-!
# Primes that are too large

Two billion divisors are tried on a prime next to the end of the words, and the square of
the last one is no word.  These primes are the only words that trial division breaks off
for, and so the only numbers of blocks that have no sides although there is room for them.
-/

namespace RankExchange

namespace Factors

/-- A prime between the greatest square and the end of the words. -/
def largePrime : Nat := 0xffffffff00000001

/-- The powers of seven run through all remainders but zero. -/
theorem prime_largePrime : largePrime.Prime := by
  have hprime : ∀ factor ∈ List.replicate 32 2 ++ [3, 5, 17, 257, 65537], factor.Prime := by
    simp only [List.mem_append, List.mem_replicate]
    norm_num
  change Nat.Prime 18446744069414584321
  apply lucas_primality 18446744069414584321 7
  · norm_num
    reduce_mod_char
  · intro q hq hdvd
    have hprod : 18446744069414584321 - 1 =
        (List.replicate 32 2 ++ [3, 5, 17, 257, 65537]).prod := by decide
    rw [hprod] at hdvd
    have hmem : q ∈ List.replicate 32 2 ++ [3, 5, 17, 257, 65537] :=
      mem_list_primes_of_dvd_prod hq.prime (fun factor hfactor => (hprime factor hfactor).prime)
        hdvd
    simp only [List.mem_append, List.mem_replicate, List.mem_cons, List.not_mem_nil,
      or_false] at hmem
    rcases hmem with ⟨_, rfl⟩ | rfl | rfl | rfl | rfl | rfl
    all_goals
      norm_num
      reduce_mod_char
      decide

theorem overlarge_largePrime : Overlarge largePrime :=
  ⟨prime_largePrime, by decide⟩

end Factors

/-- Trial division breaks off for the large primes alone, on the square of a divisor and on
no sum.  For these no lattice is found, and for all other words one is found unless there is
no room for its sides. -/
theorem fails_iff_overlarge {count : Nat} (hcount : count < Word.count) :
    (∀ result, Factors.Trial.Ends ⟨2, count, []⟩ result ↔ result = Factors.descending count) ∧
      (∀ fault, primeFactors count = .error fault ↔
        fault = .productOverflow ∧ count.Prime ∧ Factors.greatestSquare ≤ count) ∧
      ∀ dimensions periodic fault,
        (balancedSides count dimensions = .error fault ↔
          if Memory.admits (Word.bytes dimensions) then
            fault = .productOverflow ∧ 0 < dimensions ∧ count.Prime ∧
              Factors.greatestSquare ≤ count
          else fault = .noRoom) ∧
        (Lattice.balanced count dimensions periodic = .error fault ↔
          balancedSides count dimensions = .error fault) :=
  ⟨fun _ => Factors.Trial.ends_iff hcount, fun _ => primeFactors_eq_error_iff hcount,
    fun _ _ _ => ⟨balancedSides_eq_error_iff hcount, balanced_eq_error_iff⟩⟩

/-- The greatest word has small factors only. -/
theorem fails_iff_of_greatestWord : 0xffffffffffffffff < Word.count ∧
    ∀ fault, primeFactors 0xffffffffffffffff ≠ .error fault ∧
      Lattice.balanced 0xffffffffffffffff 3 true ≠ .error fault := by
  have hlt : 0xffffffffffffffff < Word.count := by decide
  obtain ⟨_, hfactors, hsides⟩ := fails_iff_overlarge hlt
  have hcomposite : ¬ Nat.Prime 0xffffffffffffffff := by norm_num
  refine ⟨hlt, fun fault => ⟨fun herror => ?_, fun herror => ?_⟩⟩
  · exact hcomposite ((hfactors fault).1 herror).2.1
  · have hbalanced := (hsides 3 true fault).1.1 ((hsides 3 true fault).2.1 herror)
    rw [if_pos (by decide)] at hbalanced
    exact hcomposite hbalanced.2.2.1

/-- Two to the 64th less two to the 32nd plus one is a prime that nothing is wrong with, and
yet neither it nor a lattice of that size is taken apart. -/
theorem fails_of_largePrime :
    Factors.largePrime < Word.count ∧ Factors.largePrime.Prime ∧
      primeFactors Factors.largePrime = .error .productOverflow ∧
      balancedSides Factors.largePrime 2 = .error .productOverflow ∧
      Lattice.balanced Factors.largePrime 2 true = .error .productOverflow := by
  have hlt : Factors.largePrime < Word.count := by decide
  have hfactors : primeFactors Factors.largePrime = .error .productOverflow :=
    (primeFactors_eq_error_iff hlt).2 ⟨rfl, Factors.overlarge_largePrime⟩
  have hsides : balancedSides Factors.largePrime 2 = .error .productOverflow := by
    rw [balancedSides_eq_error_iff hlt, if_pos (by decide)]
    exact ⟨rfl, by decide, Factors.overlarge_largePrime⟩
  exact ⟨hlt, Factors.prime_largePrime, hfactors, hsides, balanced_eq_error_iff.2 hsides⟩

end RankExchange
