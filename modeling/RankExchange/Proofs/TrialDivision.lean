import Mathlib.Data.Nat.Factors
import RankExchange.Lattice.Factors

/-!
# Trial division

What is left of a number has no prime factor below the divisor that is tried next.  So
each divisor that divides it is its least prime factor, and what is left in the end is
one or a prime.  The divisors pass the greatest one whose square is a word only if
nothing has been divided out before: the trial breaks off for the primes from that
square on, and for no other word.
-/

namespace RankExchange

namespace Factors

def greatestSquare : Nat := 0xffffffff * 0xffffffff

/-- A prime that is not below the square of any divisor whose square is a word. -/
def Overlarge (n : Nat) : Prop :=
  n.Prime ∧ greatestSquare ≤ n

instance (n : Nat) : Decidable (Overlarge n) :=
  inferInstanceAs (Decidable (_ ∧ _))

theorem not_overlarge_of_lt {n : Nat} (h : n < greatestSquare) : ¬ Overlarge n :=
  fun hover => Nat.not_lt_of_le hover.2 h

/-- What a trial comes to when `n` is left and some factors have been found. -/
def outcome (n : Nat) (found : List Nat) : Except ArithmeticFault (List Nat) :=
  if Overlarge n then .error .productOverflow else .ok (n.primeFactorsList.reverse ++ found)

/-- The divisor `p` is the next one to be tried, and `n` is left. -/
structure Trying (p n : Nat) : Prop where
  two_le : 2 ≤ p
  parity : p = 2 ∨ p % 2 = 1
  least : ∀ q, q.Prime → q ∣ n → p ≤ q
  word : n < Word.count
  square : p < UInt32.size ∨ (p = UInt32.size + 1 ∧ greatestSquare ≤ n)

theorem trying_two {n : Nat} (hn : n < Word.count) : Trying 2 n where
  two_le := Nat.le_refl 2
  parity := .inl rfl
  least := fun _ hq _ => hq.two_le
  word := hn
  square := .inl (by decide)

namespace Trying

variable {p n : Nat} (h : Trying p n) {found : List Nat}

include h

theorem one_lt (hsquare : p * p ≤ n) : 1 < n := by
  have hmul : 2 * 2 ≤ p * p := Nat.mul_le_mul h.two_le h.two_le
  omega

theorem lt_size (hsquare : p * p ≤ n) : p < UInt32.size :=
  mul_self_lt_count.1 (Nat.lt_of_le_of_lt hsquare h.word)

theorem le_minFac (hone : 1 < n) : p ≤ n.minFac :=
  h.least _ (Nat.minFac_prime (Nat.ne_of_gt hone)) (Nat.minFac_dvd n)

/-- The least factor is tried first, so whatever divides is the least prime factor. -/
theorem minFac_eq (hone : 1 < n) (hdvd : p ∣ n) : n.minFac = p :=
  Nat.le_antisymm (Nat.minFac_le_of_dvd h.two_le hdvd) (h.le_minFac hone)

theorem prime_of_lt (hone : 1 < n) (hlt : n < p * p) : n.Prime := by
  apply Classical.byContradiction
  intro hprime
  have hsquare : n.minFac ^ 2 ≤ n := Nat.minFac_sq_le_self (by omega) hprime
  have hmul : p * p ≤ n.minFac ^ 2 := by
    rw [Nat.pow_two]
    exact Nat.mul_le_mul (h.le_minFac hone) (h.le_minFac hone)
  omega

theorem primeFactorsList_eq (hone : 1 < n) (hdvd : p ∣ n) :
    n.primeFactorsList = p :: (n / p).primeFactorsList := by
  obtain ⟨k, rfl⟩ : ∃ k, n = k + 2 := ⟨n - 2, by omega⟩
  rw [Nat.primeFactorsList_add_two, h.minFac_eq hone hdvd]

/-- The last divisor whose square is a word has a factor of its own, three. -/
theorem lt_of_dvd (hsize : p < UInt32.size) (hdvd : p ∣ n) : p < 0xffffffff := by
  apply Nat.lt_of_le_of_ne (Nat.le_of_lt_succ hsize)
  intro hlast
  have hthree : 3 ∣ n := Nat.dvd_trans (by rw [hlast]; decide) hdvd
  have hle : p ≤ 3 := h.least 3 Nat.prime_three hthree
  omega

theorem not_overlarge (hone : 1 < n) (hsize : p < UInt32.size) (hdvd : p ∣ n) :
    ¬ Overlarge n := by
  intro hover
  have hp : p ≠ 1 := Nat.ne_of_gt h.two_le
  have heq : p = n := ((Nat.dvd_prime hover.1).1 hdvd).resolve_left hp
  have hlarge : 0xffffffff * 0xffffffff ≤ n := hover.2
  simp only [UInt32.size] at hsize
  omega

theorem not_overlarge_div : ¬ Overlarge (n / p) := by
  intro hover
  have hhalf : n / p ≤ n / 2 := Nat.div_le_div_left h.two_le (by decide)
  have hlarge : 0xffffffff * 0xffffffff ≤ n / p := hover.2
  have hword : n < 0x10000000000000000 := h.word
  omega

theorem outcome_div (hone : 1 < n) (hsize : p < UInt32.size) (hdvd : p ∣ n) :
    outcome (n / p) (p :: found) = outcome n found := by
  unfold outcome
  rw [if_neg h.not_overlarge_div, if_neg (h.not_overlarge hone hsize hdvd),
    h.primeFactorsList_eq hone hdvd, List.reverse_cons, List.append_assoc]
  rfl

theorem div (hsize : p < UInt32.size) (hdvd : p ∣ n) : Trying p (n / p) where
  two_le := h.two_le
  parity := h.parity
  least := fun q hq hqn => h.least q hq (Nat.dvd_trans hqn (Nat.div_dvd_of_dvd hdvd))
  word := Nat.lt_of_le_of_lt (Nat.div_le_self n p) h.word
  square := .inl hsize

/-- An even number above two is never left out: two has been divided out before. -/
theorem next (hdvd : ¬ p ∣ n)
    (hsquare : p < 0xffffffff ∨ p = 0xffffffff ∧ greatestSquare ≤ n) :
    Trying (nextDivisor p) n where
  two_le := Nat.le_trans h.two_le (Nat.le_of_lt (lt_nextDivisor p))
  parity := by
    have hparity := h.parity
    unfold nextDivisor
    split <;> omega
  least := fun q hq hqn => by
    have hle : p ≤ q := h.least q hq hqn
    have hne : q ≠ p := fun heq => hdvd (heq ▸ hqn)
    have hparity := h.parity
    have htwo := h.two_le
    unfold nextDivisor
    cases hq.eq_two_or_odd <;> split <;> omega
  word := h.word
  square := by
    have hparity := h.parity
    unfold nextDivisor UInt32.size
    split <;> omega

theorem next_of_le (hdvd : ¬ p ∣ n) (hsquare : p * p ≤ n) : Trying (nextDivisor p) n := by
  apply h.next hdvd
  rcases Nat.lt_or_eq_of_le (Nat.le_of_lt_succ (h.lt_size hsquare)) with hlt | hlast
  · exact .inl hlt
  · rw [hlast] at hsquare
    exact .inr ⟨hlast, hsquare⟩

theorem outcome_of_lt (hword : p * p < Word.count) (hlt : n < p * p) :
    outcome n found = .ok (if 1 < n then n :: found else found) := by
  have hsize : p < UInt32.size := mul_self_lt_count.1 hword
  have hle : p * p ≤ greatestSquare :=
    Nat.mul_le_mul (Nat.le_of_lt_succ hsize) (Nat.le_of_lt_succ hsize)
  have hover : ¬ Overlarge n := not_overlarge_of_lt (Nat.lt_of_lt_of_le hlt hle)
  unfold outcome
  rw [if_neg hover]
  split
  · next hone => rw [Nat.primeFactorsList_prime (h.prime_of_lt hone hlt)]; rfl
  · next hone =>
      have hnil : n.primeFactorsList = [] := (Nat.primeFactorsList_eq_nil n).2 (by omega)
      rw [hnil]
      rfl

/-- The square of a divisor leaves the word only on a large prime. -/
theorem outcome_of_count_le (hword : ¬ p * p < Word.count) :
    outcome n found = .error .productOverflow := by
  have hsize : ¬ p < UInt32.size := fun hlt => hword (mul_self_lt_count.2 hlt)
  have hlast := h.square.resolve_left hsize
  have hone : 1 < n := Nat.lt_of_lt_of_le (by decide) hlast.2
  have hlt : n < p * p := Nat.lt_of_lt_of_le h.word (Nat.le_of_not_lt hword)
  exact if_pos ⟨h.prime_of_lt hone hlt, hlast.2⟩

end Trying

theorem divideOut_eq_outcome (p n : Nat) (found : List Nat) (hp : 2 ≤ p) (h : Trying p n) :
    divideOut p n found hp = outcome n found := by
  -- One case for each way in which a divisor can turn out.
  induction p, n, found, hp using divideOut.induct with
  | case1 p n found hp hword hsquare hmod ih =>
      have hdvd : p ∣ n := Nat.dvd_of_mod_eq_zero hmod
      have hsize : p < UInt32.size := h.lt_size hsquare
      rw [divideOut.eq_def, if_pos hword, dif_pos hsquare, if_pos hmod, ih (h.div hsize hdvd),
        h.outcome_div (h.one_lt hsquare) hsize hdvd]
  | case2 p n found hp hword hsquare hmod ih =>
      have hdvd : ¬ p ∣ n := fun hdvd => hmod (Nat.mod_eq_zero_of_dvd hdvd)
      rw [divideOut.eq_def, if_pos hword, dif_pos hsquare, if_neg hmod,
        ih (h.next_of_le hdvd hsquare)]
  | case3 p n found hp hword hsquare =>
      rw [divideOut.eq_def, if_pos hword, dif_neg hsquare,
        h.outcome_of_lt hword (Nat.lt_of_not_le hsquare)]
  | case4 p n found hp hword =>
      rw [divideOut.eq_def, if_neg hword, h.outcome_of_count_le hword]

theorem descending_eq_outcome {n : Nat} (hn : n < Word.count) :
    descending n = outcome n [] := by
  rw [descending_eq, divideOut_eq_outcome 2 n [] (Nat.le_refl 2) (trying_two hn)]

theorem descending_eq_ok {n : Nat} (hn : n < Word.count) (hover : ¬ Overlarge n) :
    descending n = .ok n.primeFactorsList.reverse := by
  rw [descending_eq_outcome hn, outcome, if_neg hover, List.append_nil]

theorem descending_eq_error_iff {n : Nat} {fault : ArithmeticFault} (hn : n < Word.count) :
    descending n = .error fault ↔ fault = .productOverflow ∧ Overlarge n := by
  rw [descending_eq_outcome hn, outcome]
  split
  · next hover => simp [hover, eq_comm]
  · next hover => simp [hover]

/-- Divides by the same divisor for as long as it divides.  What is divided is positive and
the divisor more than one, so this ends. -/
def strip (p n : Nat) (found : List Nat) : Nat × List Nat :=
  if _hstrip : 2 ≤ p ∧ 0 < n ∧ n % p = 0 then strip p (n / p) (p :: found) else (n, found)
termination_by n
decreasing_by exact Nat.div_lt_self _hstrip.2.1 _hstrip.1

theorem strip_of_not_dvd {p n : Nat} {found : List Nat} (hdvd : ¬ p ∣ n) :
    strip p n found = (n, found) := by
  have hmod : ¬ n % p = 0 := fun hmod => hdvd (Nat.dvd_of_mod_eq_zero hmod)
  rw [strip, dif_neg (fun hstrip => hmod hstrip.2.2)]

theorem Trying.stripped {p n : Nat} (h : Trying p n) (hpos : 0 < n) (hsize : p < UInt32.size)
    (found : List Nat) :
    Trying p (strip p n found).1 ∧ ¬ p ∣ (strip p n found).1 ∧ (strip p n found).1 ≤ n ∧
      outcome (strip p n found).1 (strip p n found).2 = outcome n found := by
  induction n, found using strip.induct p with
  | case1 n found hstrip ih =>
      have hdvd : p ∣ n := Nat.dvd_of_mod_eq_zero hstrip.2.2
      have hle : p ≤ n := Nat.le_of_dvd hpos hdvd
      have hone : 1 < n := Nat.lt_of_lt_of_le h.two_le hle
      obtain ⟨htrying, hstop, hrest, houtcome⟩ :=
        ih (h.div hsize hdvd) (Nat.div_pos hle (by omega))
      rw [strip, dif_pos hstrip]
      refine ⟨htrying, hstop, Nat.le_trans hrest (Nat.div_le_self n p), ?_⟩
      rw [houtcome, h.outcome_div hone hsize hdvd]
  | case2 n found hstrip =>
      have hmod : ¬ n % p = 0 := fun hmod => hstrip ⟨h.two_le, hpos, hmod⟩
      rw [strip, dif_neg hstrip]
      exact ⟨h, fun hdvd => hmod (Nat.mod_eq_zero_of_dvd hdvd), Nat.le_refl n, rfl⟩

/-- A trial between two divisors: the next divisor, what is left, and the factors found so
far, the last one first. -/
structure Trial where
  divisor : Nat
  rest : Nat
  found : List Nat

namespace Trial

/-- One divisor from beginning to end, with each product and each sum a word.  There is
no next trial once the square of the divisor exceeds what is left. -/
def turn (trial : Trial) : Except ArithmeticFault (Option Trial) := do
  let square ← Word.mul trial.divisor trial.divisor
  if square ≤ trial.rest then
    let stripped := strip trial.divisor trial.rest trial.found
    let divisor ← Word.add trial.divisor (if trial.divisor = 2 then 1 else 2)
    return some ⟨divisor, stripped.1, stripped.2⟩
  else return none

def factors (trial : Trial) : List Nat :=
  if 1 < trial.rest then trial.rest :: trial.found else trial.found

/-- Turn after turn, what a trial comes to. -/
inductive Ends : Trial → Except ArithmeticFault (List Nat) → Prop
  | breaks {trial : Trial} {fault : ArithmeticFault} (h : trial.turn = .error fault) :
      Ends trial (.error fault)
  | stops {trial : Trial} (h : trial.turn = .ok none) : Ends trial (.ok trial.factors)
  | goes {trial next : Trial} {result : Except ArithmeticFault (List Nat)}
      (h : trial.turn = .ok (some next)) (hnext : Ends next result) : Ends trial result

section Turn

variable {p n : Nat} {found : List Nat}

theorem turn_of_count_le (hword : ¬ p * p < Word.count) :
    turn ⟨p, n, found⟩ = .error .productOverflow := by
  unfold turn Word.mul
  rw [if_neg hword]
  rfl

theorem turn_of_lt (hword : p * p < Word.count) (hlt : n < p * p) :
    turn ⟨p, n, found⟩ = .ok none := by
  unfold turn
  rw [Word.mul_eq_ok hword]
  exact if_neg (Nat.not_le_of_lt hlt)

/-- No divisor that is tried leads out of the words. -/
theorem turn_of_le (hsize : p < UInt32.size) (hle : p * p ≤ n) :
    turn ⟨p, n, found⟩ =
      .ok (some ⟨nextDivisor p, (strip p n found).1, (strip p n found).2⟩) := by
  have hnext : p + (if p = 2 then 1 else 2) = nextDivisor p := by
    unfold nextDivisor
    split <;> omega
  have hroom : p + (if p = 2 then 1 else 2) < Word.count := by
    simp only [UInt32.size, Word.count, UInt64.size] at hsize ⊢
    split <;> omega
  unfold turn
  rw [Word.mul_eq_ok (mul_self_lt_count.2 hsize)]
  change (if p * p ≤ n then _ else _) = _
  rw [if_pos hle, Word.add_eq_ok hroom, hnext]
  rfl

end Turn

theorem ends_outcome {p n : Nat} (h : Trying p n) (found : List Nat) :
    Ends ⟨p, n, found⟩ (outcome n found) := by
  -- The divisor grows and what is left does not.
  induction hgap : n + 1 - p using Nat.strong_induction_on generalizing p n found with
  | _ gap ih =>
    by_cases hword : p * p < Word.count
    · have hsize : p < UInt32.size := mul_self_lt_count.1 hword
      rcases Nat.lt_or_ge n (p * p) with hlt | hle
      · rw [h.outcome_of_lt hword hlt]
        exact .stops (turn_of_lt hword hlt)
      · have hpos : 0 < n := Nat.lt_trans Nat.one_pos (h.one_lt hle)
        obtain ⟨htrying, hstop, hrest, houtcome⟩ := h.stripped hpos hsize found
        have hp : p ≤ n := Nat.le_trans (Nat.le_mul_self p) hle
        have hgrow : p < nextDivisor p := lt_nextDivisor p
        have hnext : Trying (nextDivisor p) (strip p n found).1 := by
          by_cases hdvd : p ∣ n
          · exact htrying.next hstop (.inl (h.lt_of_dvd hsize hdvd))
          · rw [strip_of_not_dvd hdvd]
            exact h.next_of_le hdvd hle
        rw [← houtcome]
        exact .goes (turn_of_le hsize hle) (ih _ (by omega) hnext _ rfl)
    · rw [h.outcome_of_count_le hword]
      exact .breaks (turn_of_count_le hword)

theorem Ends.unique {trial : Trial} {result result' : Except ArithmeticFault (List Nat)}
    (h : Ends trial result) (h' : Ends trial result') : result = result' := by
  induction h with
  | breaks hturn =>
      cases h' with
      | breaks hturn' => cases hturn.symm.trans hturn'; rfl
      | stops hturn' => cases hturn.symm.trans hturn'
      | goes hturn' _ => cases hturn.symm.trans hturn'
  | stops hturn =>
      cases h' with
      | breaks hturn' => cases hturn.symm.trans hturn'
      | stops _ => rfl
      | goes hturn' _ => cases hturn.symm.trans hturn'
  | goes hturn _ ih =>
      cases h' with
      | breaks hturn' => cases hturn.symm.trans hturn'
      | stops hturn' => cases hturn.symm.trans hturn'
      | goes hturn' hnext => cases hturn.symm.trans hturn'; exact ih hnext

/-- The loops end, and what they come to is what dividing out comes to. -/
theorem ends_iff {n : Nat} (hn : n < Word.count) {result : Except ArithmeticFault (List Nat)} :
    Ends ⟨2, n, []⟩ result ↔ result = descending n := by
  have hends : Ends ⟨2, n, []⟩ (descending n) := by
    rw [descending_eq_outcome hn]
    exact ends_outcome (trying_two hn) []
  constructor
  · intro h
    exact h.unique hends
  · intro heq
    rw [heq]
    exact hends

end Trial

end Factors

section Factorization

variable {n : Nat}

theorem primeFactors_eq_ok (hn : n < Word.count) (hover : ¬ Factors.Overlarge n) :
    primeFactors n = .ok n.primeFactorsList := by
  unfold primeFactors
  rw [Factors.descending_eq_ok hn hover]
  exact congrArg Except.ok (List.reverse_reverse _)

theorem primeFactors_eq_error_iff {fault : ArithmeticFault} (hn : n < Word.count) :
    primeFactors n = .error fault ↔ fault = .productOverflow ∧ Factors.Overlarge n := by
  rw [← Factors.descending_eq_error_iff hn]
  unfold primeFactors
  cases Factors.descending n with
  | error fault' => exact Iff.rfl
  | ok factors => simp

/-- Below the greatest square that is a word, every number is taken apart into its prime
factors, in ascending order. -/
theorem primeFactors_exact (hpos : 1 ≤ n) (hn : n < Factors.greatestSquare) :
    ∃ factors, primeFactors n = .ok factors ∧
      Factors.Trial.Ends ⟨2, n, []⟩ (.ok factors.reverse) ∧
      factors.Pairwise (· ≤ ·) ∧ (∀ p ∈ factors, p.Prime) ∧ factors.prod = n ∧
      (factors = [] ↔ n = 1) ∧
      ∀ other : List Nat, (∀ p ∈ other, p.Prime) → other.prod = n →
        other.Perm factors ∧ (other.Pairwise (· ≤ ·) → other = factors) := by
  have hne : n ≠ 0 := Nat.ne_of_gt hpos
  have hword : n < Word.count := Nat.lt_trans hn (by decide)
  have hover : ¬ Factors.Overlarge n := Factors.not_overlarge_of_lt hn
  have hsorted : n.primeFactorsList.Pairwise (· ≤ ·) :=
    (Nat.primeFactorsList_sorted n).pairwise
  refine ⟨n.primeFactorsList, primeFactors_eq_ok hword hover, ?_, hsorted,
    fun p hp => Nat.prime_of_mem_primeFactorsList hp, Nat.prod_primeFactorsList hne, ?_, ?_⟩
  · rw [Factors.Trial.ends_iff hword, Factors.descending_eq_ok hword hover]
  · rw [Nat.primeFactorsList_eq_nil]
    omega
  · intro other hprime hprod
    have hperm : other.Perm n.primeFactorsList := Nat.primeFactorsList_unique hprod hprime
    refine ⟨hperm, fun hother => ?_⟩
    exact hperm.eq_of_pairwise (fun _ _ _ _ hle hge => Nat.le_antisymm hle hge) hother hsorted

/-- The greatest number below that square. -/
theorem primeFactors_exact_of_pred : 1 ≤ 18446744065119617024 ∧
    18446744065119617024 < Factors.greatestSquare ∧
    ∃ factors, primeFactors 18446744065119617024 = .ok factors ∧
      (∀ p ∈ factors, p.Prime) ∧ factors.prod = 18446744065119617024 := by
  have hlt : 18446744065119617024 < Factors.greatestSquare := by decide
  obtain ⟨factors, hfactors, _, _, hprime, hprod, _⟩ := primeFactors_exact (by decide) hlt
  exact ⟨by decide, hlt, factors, hfactors, hprime, hprod⟩

end Factorization

end RankExchange
