import RankExchange.Basic

/-!
# Tag spaces

A tag space is the half-open range of tags that an application has agreed to
use.  Recurring rounds cycle through a space, and a space is split into equal
consecutive parts, one for each kind of exchange.
-/

namespace RankExchange

structure TagSpace where
  lower : Tag
  upper : Tag
  deriving DecidableEq, Repr

namespace TagSpace

/-- The tags that every message layer has to support. -/
def standard : TagSpace := ⟨0, 32768⟩

def contains (space : TagSpace) (tag : Tag) : Bool :=
  decide (space.lower ≤ tag) && decide (tag < space.upper)

def size (space : TagSpace) : Nat :=
  space.upper.toNat - space.lower.toNat

def isEmpty (space : TagSpace) : Bool :=
  space.size = 0

/-- The tag of a round of a recurring exchange. -/
def roundTag (space : TagSpace) (round : Nat) : Tag :=
  .ofNat (space.lower.toNat + round % max space.size 1)

def part (space : TagSpace) (width index : Nat) : TagSpace where
  lower := .ofNat (space.lower.toNat + index * width)
  upper := .ofNat (space.lower.toNat + index * width + width)

/-- The parts of a space that is cut into `count` equal ones.  Tags left over
at the top belong to no part, and the parts are counted in 32 bits. -/
def split (space : TagSpace) (count : Nat) : List TagSpace :=
  if count = 0 then []
  else (List.range (count % UInt32.size)).map (space.part (space.size / count))

def render (space : TagSpace) : String :=
  s!"{space.lower.toNat}..{space.upper.toNat}"

theorem contains_iff {space : TagSpace} {tag : Tag} :
    space.contains tag = true ↔
      space.lower.toNat ≤ tag.toNat ∧ tag.toNat < space.upper.toNat := by
  simp [contains, UInt32.le_iff_toNat_le, UInt32.lt_iff_toNat_lt]

theorem split_length {space : TagSpace} {count : Nat} (hcount : count < UInt32.size) :
    (space.split count).length = count := by
  unfold split
  split
  · next h => simp [h]
  · rw [List.length_map, List.length_range, Nat.mod_eq_of_lt hcount]

end TagSpace

end RankExchange
