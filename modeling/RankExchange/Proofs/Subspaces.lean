import RankExchange.TagSpace

/-!
# The parts of a tag space

A space that is split has its parts one after the other, without overflow, so no tag is
in two of them.
-/

namespace RankExchange

namespace TagSpace

variable {space part other : TagSpace} {count index : Nat} {tag : Tag}

/-- What the parts up to one take up is within the space. -/
theorem mul_width_le (hindex : index < count) :
    index * (space.size / count) + space.size / count ≤ space.size := by
  have hnext : (index + 1) * (space.size / count) ≤ count * (space.size / count) :=
    Nat.mul_le_mul_right _ hindex
  have hcount : count * (space.size / count) ≤ space.size := Nat.mul_div_le _ _
  rw [Nat.succ_mul] at hnext
  exact Nat.le_trans hnext hcount

theorem lower_add_size_lt (space : TagSpace) : space.lower.toNat + space.size < UInt32.size := by
  have hlower := space.lower.toNat_lt_size
  have hupper := space.upper.toNat_lt_size
  unfold size
  omega

section Part

variable (hindex : index < count)

include hindex

theorem toNat_lower_part : (space.part (space.size / count) index).lower.toNat =
    space.lower.toNat + index * (space.size / count) := by
  have hbound := lower_add_size_lt space
  have hwithin : index * (space.size / count) + space.size / count ≤ space.size :=
    mul_width_le hindex
  rw [part, UInt32.toNat_ofNat_of_lt']
  generalize space.size / count = width at hwithin
  omega

theorem toNat_upper_part : (space.part (space.size / count) index).upper.toNat =
    space.lower.toNat + index * (space.size / count) + space.size / count := by
  have hbound := lower_add_size_lt space
  have hwithin : index * (space.size / count) + space.size / count ≤ space.size :=
    mul_width_le hindex
  rw [part, UInt32.toNat_ofNat_of_lt']
  generalize space.size / count = width at hwithin
  omega

theorem contains_part_iff : (space.part (space.size / count) index).contains tag = true ↔
    space.lower.toNat + index * (space.size / count) ≤ tag.toNat ∧
      tag.toNat < space.lower.toNat + index * (space.size / count) + space.size / count := by
  rw [contains_iff, toNat_lower_part hindex, toNat_upper_part hindex]

end Part

theorem upper_le_lower_of_lt {later : Nat} (hlt : index < later) (hlater : later < count) :
    (space.part (space.size / count) index).upper.toNat ≤
      (space.part (space.size / count) later).lower.toNat := by
  have hbefore : index * (space.size / count) + space.size / count ≤
      later * (space.size / count) := by
    rw [← Nat.succ_mul]
    exact Nat.mul_le_mul_right _ hlt
  rw [toNat_upper_part (Nat.lt_trans hlt hlater), toNat_lower_part hlater, Nat.add_assoc]
  exact Nat.add_le_add_left hbefore _

theorem not_contains_of_lt {later : Nat} (hlt : index < later) (hlater : later < count)
    (htag : (space.part (space.size / count) index).contains tag = true) :
    ¬ (space.part (space.size / count) later).contains tag = true := by
  intro htag'
  have hupper := (contains_iff.1 htag).2
  have hlower := (contains_iff.1 htag').1
  exact Nat.not_lt_of_le (Nat.le_trans (upper_le_lower_of_lt hlt hlater) hlower) hupper

theorem exists_index_of_mem_split (h : part ∈ space.split count) :
    ∃ index, index < count ∧ part = space.part (space.size / count) index := by
  unfold split at h
  split at h
  · cases h
  · obtain ⟨index, hindex, rfl⟩ := List.mem_map.1 h
    exact ⟨index, Nat.lt_of_lt_of_le (List.mem_range.1 hindex) (Nat.mod_le _ _), rfl⟩

theorem eq_of_contains (hpart : part ∈ space.split count) (hother : other ∈ space.split count)
    (htag : part.contains tag = true) (htag' : other.contains tag = true) : part = other := by
  obtain ⟨index, hindex, rfl⟩ := exists_index_of_mem_split hpart
  obtain ⟨index', hindex', rfl⟩ := exists_index_of_mem_split hother
  rcases Nat.lt_trichotomy index index' with hlt | rfl | hlt
  · exact absurd htag' (not_contains_of_lt hlt hindex' htag)
  · rfl
  · exact absurd htag (not_contains_of_lt hlt hindex htag')

end TagSpace

end RankExchange
