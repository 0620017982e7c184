import RankExchange.Basic

/-!
# Numbers in bytes

A number in a fixed count of bytes, the least or the greatest first, and 64-bit
words in eight bytes, the least first.
-/

namespace RankExchange

def littleEndian : (count number : Nat) → Bytes
  | 0, _ => []
  | count + 1, number => .ofNat number :: littleEndian count (number / 256)

def ofLittleEndian (data : Bytes) : Nat :=
  data.foldr (fun byte high => byte.toNat + 256 * high) 0

def bigEndian (count number : Nat) : Bytes :=
  (littleEndian count number).reverse

def ofBigEndian (data : Bytes) : Nat :=
  data.foldl (fun high byte => 256 * high + byte.toNat) 0

def wordBytes (word : UInt64) : Bytes :=
  littleEndian 8 word.toNat

def ofWordBytes (data : Bytes) : UInt64 :=
  .ofNat (ofLittleEndian data)

/-- The words of a list of bytes, eight at a time; an incomplete word at the
end is left out. -/
def words (data : Bytes) : List UInt64 :=
  match data with
  | a :: b :: c :: d :: e :: f :: g :: h :: rest =>
      ofWordBytes [a, b, c, d, e, f, g, h] :: words rest
  | _ => []

@[simp] theorem littleEndian_length (count number : Nat) :
    (littleEndian count number).length = count := by
  induction count generalizing number with
  | zero => rfl
  | succ count ih => simp [littleEndian, ih]

@[simp] theorem bigEndian_length (count number : Nat) :
    (bigEndian count number).length = count := by
  simp [bigEndian]

@[simp] theorem wordBytes_length (word : UInt64) : (wordBytes word).length = 8 :=
  littleEndian_length 8 _

theorem ofLittleEndian_littleEndian {count number : Nat} (h : number < Nat.pow 256 count) :
    ofLittleEndian (littleEndian count number) = number := by
  induction count generalizing number with
  | zero => exact (Nat.lt_one_iff.1 h).symm
  | succ count ih =>
      have hhigh : number / 256 < Nat.pow 256 count :=
        Nat.div_lt_of_lt_mul (Nat.mul_comm _ _ ▸ h)
      change (UInt8.ofNat number).toNat + 256 * ofLittleEndian (littleEndian count (number / 256)) =
        number
      rw [ih hhigh]
      exact Nat.mod_add_div number 256

@[simp] theorem ofWordBytes_wordBytes (word : UInt64) : ofWordBytes (wordBytes word) = word := by
  rw [ofWordBytes, wordBytes, ofLittleEndian_littleEndian word.toNat_lt]
  exact UInt64.ofNat_toNat

theorem words_wordBytes_append (word : UInt64) (rest : Bytes) :
    words (wordBytes word ++ rest) = word :: words rest := by
  change ofWordBytes (wordBytes word) :: words rest = word :: words rest
  rw [ofWordBytes_wordBytes]

theorem ofBigEndian_reverse (data : Bytes) : ofBigEndian data.reverse = ofLittleEndian data := by
  simp only [ofBigEndian, ofLittleEndian, List.foldl_reverse, Nat.add_comm]

end RankExchange
