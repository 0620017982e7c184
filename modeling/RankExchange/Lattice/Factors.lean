import RankExchange.Lattice.Word

/-!
# Prime factors

Trial division by 2, 3 and the odd numbers after it.  The square of the next
divisor is a checked word, so a number with no small factor can fail.  The
division is stated on numbers and carried out on words, which is the same.
-/

namespace RankExchange

namespace Factors

def nextDivisor (p : Nat) : Nat :=
  if p = 2 then 3 else p + 2

theorem lt_nextDivisor (p : Nat) : p < nextDivisor p := by
  unfold nextDivisor
  split <;> omega

/-- Divides `n` by `p` and the divisors after it, largest factor first, on top
of those already `found`. -/
def divideOut (p n : Nat) (found : List Nat) (hp : 2 ≤ p) :
    Except ArithmeticFault (List Nat) :=
  if p * p < Word.count then
    if _hsquare : p * p ≤ n then
      if n % p = 0 then divideOut p (n / p) (p :: found) hp
      else divideOut (nextDivisor p) n found (Nat.le_trans hp (Nat.le_of_lt (lt_nextDivisor p)))
    else .ok (if 1 < n then n :: found else found)
  else .error .productOverflow
termination_by (n, n - p)
decreasing_by
  · have hpos : 0 < n := Nat.lt_of_lt_of_le (Nat.mul_pos (by omega) (by omega)) _hsquare
    exact .left _ _ (Nat.div_lt_self hpos (by omega))
  · have hdouble : p * 2 ≤ p * p := Nat.mul_le_mul_left p hp
    have hnext := lt_nextDivisor p
    exact .right _ (by omega)

theorem mul_self_lt_count {p : Nat} : p * p < Word.count ↔ p < UInt32.size := by
  constructor
  · intro h
    refine Nat.lt_of_not_le fun hle => ?_
    have := Nat.mul_le_mul hle hle
    simp only [Word.count, UInt64.size, UInt32.size] at h this
    omega
  · intro h
    have hle : p ≤ UInt32.size - 1 := by omega
    have := Nat.mul_le_mul hle hle
    simp only [Word.count, UInt64.size, UInt32.size] at this ⊢
    omega

def nextWord (p : UInt64) : UInt64 :=
  if p = 2 then 3 else p + 2

theorem toNat_nextWord {p : UInt64} (h : p.toNat < UInt32.size) :
    (nextWord p).toNat = nextDivisor p.toNat := by
  by_cases htwo : p = 2
  · subst htwo
    rfl
  · have hne : p.toNat ≠ 2 := fun heq => htwo (UInt64.toNat_inj.1 heq)
    simp only [UInt32.size] at h
    simp only [nextWord, nextDivisor, htwo, hne, if_false, UInt64.toNat_add]
    change (p.toNat + 2) % 2 ^ 64 = p.toNat + 2
    omega

theorem toNat_mul_self {p : UInt64} (h : p.toNat < UInt32.size) :
    (p * p).toNat = p.toNat * p.toNat := by
  have := mul_self_lt_count.2 h
  rw [UInt64.toNat_mul]
  exact Nat.mod_eq_of_lt this

def divideOutWord (p n : UInt64) (found : List Nat) (hp : 2 ≤ p.toNat) :
    Except ArithmeticFault (List Nat) :=
  if hword : p < 0x100000000 then
    have hsize : p.toNat < UInt32.size := UInt64.lt_iff_toNat_lt.1 hword
    if hsquare : p * p ≤ n then
      if n % p = 0 then divideOutWord p (n / p) (p.toNat :: found) hp
      else
        divideOutWord (nextWord p) n found (by
          rw [toNat_nextWord hsize]
          exact Nat.le_trans hp (Nat.le_of_lt (lt_nextDivisor _)))
    else .ok (if 1 < n then n.toNat :: found else found)
  else .error .productOverflow
termination_by (n.toNat, n.toNat - p.toNat)
decreasing_by
  · rw [UInt64.le_iff_toNat_le, toNat_mul_self hsize] at hsquare
    have hpos : 0 < n.toNat :=
      Nat.lt_of_lt_of_le (Nat.mul_pos (by omega) (by omega)) hsquare
    rw [UInt64.toNat_div]
    exact .left _ _ (Nat.div_lt_self hpos (by omega))
  · rw [UInt64.le_iff_toNat_le, toNat_mul_self hsize] at hsquare
    have hdouble : p.toNat * 2 ≤ p.toNat * p.toNat := Nat.mul_le_mul_left _ hp
    have hnext := lt_nextDivisor p.toNat
    rw [toNat_nextWord hsize]
    exact .right _ (by omega)

theorem divideOutWord_eq (p n : UInt64) (found : List Nat) (hp : 2 ≤ p.toNat) :
    divideOutWord p n found hp = divideOut p.toNat n.toNat found hp := by
  fun_induction divideOutWord p n found hp with
  | case1 p n found hp hword hsize hsquare hmod ih =>
      rw [ih, divideOut.eq_def p.toNat n.toNat]
      rw [UInt64.le_iff_toNat_le, toNat_mul_self hsize] at hsquare
      have hzero : n.toNat % p.toNat = 0 := by
        rw [← UInt64.toNat_mod, hmod]
        rfl
      simp [mul_self_lt_count.2 hsize, hsquare, hzero]
  | case2 p n found hp hword hsize hsquare hmod ih =>
      rw [ih, divideOut.eq_def p.toNat n.toNat]
      rw [UInt64.le_iff_toNat_le, toNat_mul_self hsize] at hsquare
      have hzero : n.toNat % p.toNat ≠ 0 := by
        rw [← UInt64.toNat_mod]
        exact fun h => hmod (UInt64.toNat_inj.1 h)
      simp [mul_self_lt_count.2 hsize, hsquare, hzero, toNat_nextWord hsize]
  | case3 p n found hp hword hsize hsquare =>
      rw [divideOut.eq_def]
      rw [UInt64.le_iff_toNat_le, toNat_mul_self hsize] at hsquare
      simp [mul_self_lt_count.2 hsize, hsquare, UInt64.lt_iff_toNat_lt]
  | case4 p n found hp hword =>
      rw [divideOut.eq_def]
      have hsize : ¬ p.toNat * p.toNat < Word.count := by
        rw [mul_self_lt_count]
        exact fun h => hword (UInt64.lt_iff_toNat_lt.2 h)
      simp [hsize]

def descending (n : Nat) : Except ArithmeticFault (List Nat) :=
  if n < Word.count then divideOutWord 2 (.ofNat n) [] (Nat.le_refl 2)
  else divideOut 2 n [] (Nat.le_refl 2)

theorem descending_eq (n : Nat) : descending n = divideOut 2 n [] (Nat.le_refl 2) := by
  unfold descending
  split
  · next h =>
      rw [divideOutWord_eq]
      congr 1
      exact UInt64.toNat_ofNat_of_lt h
  · rfl

end Factors

/-- The prime factors of `n` in ascending order, each as often as it divides. -/
def primeFactors (n : Nat) : Except ArithmeticFault (List Nat) :=
  List.reverse <$> Factors.descending n

end RankExchange
