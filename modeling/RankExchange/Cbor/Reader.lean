import RankExchange.Numeral

/-!
# Readers

A reader takes a value off the front of some bytes and leaves the rest, or
fails.  Loops whose every turn takes at least one byte are bounded by the
number of bytes there are.
-/

namespace RankExchange.Cbor

abbrev Reader := StateT Bytes Option

namespace Reader

variable {α σ : Type}

def byte : Reader UInt8
  | [] => none
  | first :: rest => some (first, rest)

def bytes : Nat → Reader Bytes
  | 0 => return []
  | count + 1 => do
      let first ← byte
      let rest ← bytes count
      return first :: rest

def bigEndian (count : Nat) : Reader Nat :=
  ofBigEndian <$> bytes count

def times (item : Reader α) : Nat → Reader (List α)
  | 0 => return []
  | count + 1 => do
      let first ← item
      let rest ← times item count
      return first :: rest

def turns (turn : σ → Reader (σ ⊕ α)) : Bytes → σ → Reader α
  | [], _ => failure
  | _ :: left, state => do
      match ← turn state with
      | .inl state => turns turn left state
      | .inr value => return value

/-- Takes turns, each of which takes a byte, until one ends with a value. -/
def iterate (turn : σ → Reader (σ ⊕ α)) (start : σ) : Reader α :=
  fun data => turns turn data start data

/-- Reads a value off the front of the data; what is behind it is ignored. -/
def value? (reader : Reader α) (data : Bytes) : Option α :=
  Prod.fst <$> reader data

theorem bytes_append (front rest : Bytes) :
    bytes front.length (front ++ rest) = some (front, rest) := by
  induction front with
  | nil => rfl
  | cons first front ih =>
      change ((bytes front.length >>= fun rest => pure (first :: rest) : Reader Bytes)
        (front ++ rest)) = _
      change (bytes front.length (front ++ rest)).bind _ = _
      rw [ih]
      rfl

end Reader

end RankExchange.Cbor
