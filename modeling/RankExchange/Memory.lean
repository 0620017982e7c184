/-!
# Memory

How long one piece of memory can be.  Nobody makes a buffer or a table that
would be longer; who asks for one breaks down.
-/

namespace RankExchange

namespace Memory

/-- The number of bytes in the longest piece: the greatest signed word. -/
def longest : Nat := 0x7fffffffffffffff

def admits (bytes : Nat) : Bool :=
  bytes ≤ longest

def refusal : String := "capacity overflow"

theorem admits_iff {bytes : Nat} : admits bytes = true ↔ bytes ≤ longest := by
  simp [admits]

end Memory

end RankExchange
