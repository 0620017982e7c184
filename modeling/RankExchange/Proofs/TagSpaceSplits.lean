import Mathlib.Data.List.Basic
import RankExchange.Lattice.Word
import RankExchange.Proofs.RecurringRounds
import RankExchange.Proofs.Subspaces

/-!
# Carving a tag space up

The tags of a space, in ascending order, are those of its parts one after the other and
fewer than there are parts at the top.  On the way to a part no product and no sum leaves
the tags.  As no tag is in two parts, rounds that cycle through different parts never meet.
-/

namespace RankExchange

namespace TagSpace

section Tags

variable {space : TagSpace} {count index : Nat} {tag : Tag}

def tags (space : TagSpace) : List Tag :=
  (List.range' space.lower.toNat space.size).map .ofNat

theorem mem_tags : tag ∈ space.tags ↔ space.contains tag = true := by
  have hbound := lower_add_size_lt space
  rw [tags, List.mem_map, contains_iff]
  constructor
  · rintro ⟨number, hnumber, rfl⟩
    rw [List.mem_range'_1] at hnumber
    rw [UInt32.toNat_ofNat_of_lt' (Nat.lt_trans hnumber.2 hbound)]
    unfold size at hnumber
    omega
  · rintro ⟨hlower, hupper⟩
    refine ⟨tag.toNat, ?_, UInt32.ofNat_toNat⟩
    rw [List.mem_range'_1]
    unfold size
    omega

theorem pairwise_tags (space : TagSpace) : space.tags.Pairwise (· < ·) := by
  have hbound := lower_add_size_lt space
  rw [tags, List.pairwise_map]
  refine (List.pairwise_lt_range' 1).imp_of_mem fun {number later} hnumber hlater hlt => ?_
  rw [List.mem_range'_1] at hnumber hlater
  rw [UInt32.lt_iff_toNat_lt, UInt32.toNat_ofNat_of_lt' (Nat.lt_trans hnumber.2 hbound),
    UInt32.toNat_ofNat_of_lt' (Nat.lt_trans hlater.2 hbound)]
  exact hlt

theorem size_eq_sub (space : TagSpace) : space.size = space.upper.toNat - space.lower.toNat :=
  rfl

/-- No tag is listed twice, so what is not in the front of the list is in the back. -/
theorem mem_rest {front rest : List Tag} (h : space.tags = front ++ rest) :
    tag ∈ rest ↔ space.contains tag = true ∧ tag ∉ front := by
  have hnodup : (front ++ rest).Nodup := by
    rw [← h]
    exact (pairwise_tags space).imp fun {tag later} hlt => UInt32.ne_of_lt hlt
  have hfront : tag ∈ front → tag ∉ rest :=
    fun hmem hmem' => (List.nodup_append.1 hnodup).2.2 tag hmem tag hmem' rfl
  rw [← mem_tags, h, List.mem_append]
  constructor
  · intro hmem
    exact ⟨.inr hmem, fun hmem' => hfront hmem' hmem⟩
  · rintro ⟨hmem, hnot⟩
    exact hmem.resolve_left hnot

theorem size_part (hindex : index < count) :
    (space.part (space.size / count) index).size = space.size / count := by
  rw [size_eq_sub, toNat_upper_part hindex, toNat_lower_part hindex, Nat.add_sub_cancel_left]

theorem tags_part (hindex : index < count) : (space.part (space.size / count) index).tags =
    (List.range' (space.lower.toNat + index * (space.size / count)) (space.size / count)).map
      .ofNat := by
  rw [tags, toNat_lower_part hindex, size_part hindex]

/-- Numbers in pieces of the same length, one piece after the other. -/
theorem flatMap_range' (start width count : Nat) :
    (List.range count).flatMap (fun index => List.range' (start + index * width) width) =
      List.range' start (count * width) := by
  induction count with
  | zero => rw [List.range_zero, List.flatMap_nil, Nat.zero_mul]; rfl
  | succ count ih =>
      rw [List.range_succ, List.flatMap_append, List.flatMap_singleton, ih,
        List.range'_append_1, Nat.succ_mul]

theorem within_part (hindex : index < count) :
    Within (space.part (space.size / count) index) space := by
  intro tag htag
  have hbound : index * (space.size / count) + space.size / count ≤ space.size :=
    mul_width_le hindex
  rw [contains_part_iff hindex] at htag
  rw [contains_iff]
  generalize space.size / count = width at hbound htag
  unfold size at hbound
  omega

end Tags

section Checked

/-- A product of tags that has to be a tag. -/
def product (a b : Tag) : Except ArithmeticFault Tag :=
  if a.toNat * b.toNat < UInt32.size then .ok (a * b) else .error .productOverflow

def sum (a b : Tag) : Except ArithmeticFault Tag :=
  if a.toNat + b.toNat < UInt32.size then .ok (a + b) else .error .sumOverflow

/-- A part of a space, with each product and each sum a tag. -/
def checkedPart (space : TagSpace) (width index : Tag) : Except ArithmeticFault TagSpace := do
  let offset ← product index width
  let lower ← sum space.lower offset
  let upper ← sum lower width
  return ⟨lower, upper⟩

/-- The parts of a space, with each product and each sum a tag. -/
def checkedSplit (space : TagSpace) (count : Nat) : Except ArithmeticFault (List TagSpace) :=
  (List.range count).mapM fun index =>
    space.checkedPart (.ofNat (space.size / count)) (.ofNat index)

def checkedRoundTag (space : TagSpace) (round : Nat) : Except ArithmeticFault Tag :=
  sum space.lower (.ofNat (round % max space.size 1))

variable {space : TagSpace} {count index : Nat}

theorem product_ofNat {a b : Nat} (ha : a < UInt32.size) (hb : b < UInt32.size)
    (hproduct : a * b < UInt32.size) : product (.ofNat a) (.ofNat b) = .ok (.ofNat (a * b)) := by
  unfold product
  rw [UInt32.toNat_ofNat_of_lt' ha, UInt32.toNat_ofNat_of_lt' hb, if_pos hproduct,
    UInt32.ofNat_mul]

theorem sum_ofNat {a : Tag} {b : Nat} (hb : b < UInt32.size)
    (hsum : a.toNat + b < UInt32.size) : sum a (.ofNat b) = .ok (.ofNat (a.toNat + b)) := by
  unfold sum
  rw [UInt32.toNat_ofNat_of_lt' hb, if_pos hsum, UInt32.ofNat_add, UInt32.ofNat_toNat]

theorem checkedPart_eq (hindex : index < count) (hcount : count < UInt32.size) :
    space.checkedPart (.ofNat (space.size / count)) (.ofNat index) =
      .ok (space.part (space.size / count) index) := by
  have hbound := lower_add_size_lt space
  have hwithin : index * (space.size / count) + space.size / count ≤ space.size :=
    mul_width_le hindex
  unfold checkedPart part
  -- That the parts end within the space is all that the sums need of their width.
  generalize space.size / count = width at hwithin
  have hlower : (UInt32.ofNat (space.lower.toNat + index * width)).toNat =
      space.lower.toNat + index * width := UInt32.toNat_ofNat_of_lt' (by omega)
  have hupper := sum_ofNat (a := .ofNat (space.lower.toNat + index * width)) (b := width)
    (by omega) (by omega)
  rw [hlower] at hupper
  rw [product_ofNat (Nat.lt_trans hindex hcount) (by omega) (by omega)]
  change (sum space.lower (.ofNat (index * width)) >>= _) = _
  rw [sum_ofNat (by omega) (by omega)]
  change (sum (.ofNat (space.lower.toNat + index * width)) (.ofNat width) >>= _) = _
  rw [hupper]
  rfl

theorem mapM_eq_ok {α β ε : Type} {f : α → Except ε β} {g : α → β} {list : List α}
    (h : ∀ a ∈ list, f a = .ok (g a)) : list.mapM f = .ok (list.map g) := by
  induction list with
  | nil => rfl
  | cons a list ih =>
      rw [List.mapM_cons, h a List.mem_cons_self,
        ih (fun other hother => h other (List.mem_cons_of_mem a hother))]
      rfl

theorem split_eq (hpos : 1 ≤ count) (hcount : count < UInt32.size) :
    space.split count = (List.range count).map (space.part (space.size / count)) := by
  unfold split
  rw [if_neg (Nat.ne_of_gt hpos), Nat.mod_eq_of_lt hcount]

theorem checkedSplit_eq (hpos : 1 ≤ count) (hcount : count < UInt32.size) :
    space.checkedSplit count = .ok (space.split count) := by
  rw [split_eq hpos hcount]
  exact mapM_eq_ok fun index hindex => checkedPart_eq (List.mem_range.1 hindex) hcount

theorem checkedRoundTag_eq (h : 0 < space.size) (round : Nat) :
    space.checkedRoundTag round = .ok (space.roundTag round) := by
  have hbound := lower_add_size_lt space
  have hmod : round % space.size < space.size := Nat.mod_lt round h
  unfold checkedRoundTag roundTag
  rw [Nat.max_eq_left h]
  exact sum_ofNat (by omega) (by omega)

end Checked

structure Carves (space : TagSpace) (count : Nat) (parts : List TagSpace) : Prop where
  length_eq : parts.length = count
  size_eq : ∀ part ∈ parts, part.size = space.size / count
  lower_eq : ∀ (index : Nat) (part : TagSpace), parts[index]? = some part →
    part.lower.toNat = space.lower.toNat + index * (space.size / count)
  upper_eq : ∀ part ∈ parts, part.upper.toNat = part.lower.toNat + space.size / count
  within : ∀ part ∈ parts, Within part space
  disjoint : parts.Pairwise fun part other =>
    ∀ tag, ¬ (part.contains tag = true ∧ other.contains tag = true)
  /-- Few tags are in no part, all of them at the top. -/
  covers : ∃ rest, space.tags = parts.flatMap tags ++ rest ∧ rest.length < count ∧
    ∀ tag, tag ∈ rest ↔ space.contains tag = true ∧ ∀ part ∈ parts, ¬ part.contains tag = true

structure KeepsApart (space : TagSpace) (parts : List TagSpace) : Prop where
  checked : ∀ part ∈ parts, ∀ round, part.checkedRoundTag round = .ok (part.roundTag round)
  within : ∀ part ∈ parts, ∀ round, part.contains (part.roundTag round) = true ∧
    space.contains (part.roundTag round) = true
  apart : parts.Pairwise fun part other =>
    ∀ round round', part.roundTag round ≠ other.roundTag round'

section Split

variable {space : TagSpace} {count : Nat} (hpos : 1 ≤ count) (hcount : count < UInt32.size)

include hpos hcount

theorem tags_split : space.tags = (space.split count).flatMap tags ++
    (List.range' (space.lower.toNat + count * (space.size / count)) (space.size % count)).map
      .ofNat := by
  have hparts : (space.split count).flatMap tags =
      (List.range' space.lower.toNat (count * (space.size / count))).map .ofNat := by
    rw [split_eq hpos hcount, List.flatMap_map, ← flatMap_range', List.map_flatMap]
    exact List.flatMap_congr fun index hindex => tags_part (List.mem_range.1 hindex)
  rw [hparts, ← List.map_append, List.range'_append_1, Nat.div_add_mod, tags]

theorem carves_split : Carves space count (space.split count) where
  length_eq := split_length hcount
  size_eq := fun part hpart => by
    obtain ⟨index, hindex, rfl⟩ := exists_index_of_mem_split hpart
    exact size_part hindex
  lower_eq := fun index part hpart => by
    rw [split_eq hpos hcount, List.getElem?_map, Option.map_eq_some_iff] at hpart
    obtain ⟨index', hindex, rfl⟩ := hpart
    obtain ⟨hlt, heq⟩ := List.getElem?_eq_some_iff.1 hindex
    rw [List.getElem_range] at heq
    rw [List.length_range] at hlt
    rw [← heq]
    exact toNat_lower_part hlt
  upper_eq := fun part hpart => by
    obtain ⟨index, hindex, rfl⟩ := exists_index_of_mem_split hpart
    rw [toNat_upper_part hindex, toNat_lower_part hindex]
  within := fun part hpart => by
    obtain ⟨index, hindex, rfl⟩ := exists_index_of_mem_split hpart
    exact within_part hindex
  disjoint := by
    rw [split_eq hpos hcount, List.pairwise_map]
    refine List.pairwise_lt_range.imp_of_mem fun {index later} _ hlater hlt tag htag => ?_
    exact not_contains_of_lt hlt (List.mem_range.1 hlater) htag.1 htag.2
  covers := by
    refine ⟨_, tags_split hpos hcount, ?_, fun tag => ?_⟩
    · rw [List.length_map, List.length_range']
      exact Nat.mod_lt _ hpos
    · rw [mem_rest (tags_split hpos hcount), List.mem_flatMap]
      simp only [not_exists, not_and, mem_tags]

/-- Parts that are not empty hold the tags of their rounds, and share none. -/
theorem keepsApart_split (hsize : count ≤ space.size) : KeepsApart space (space.split count) := by
  have hcarves : Carves space count (space.split count) := carves_split hpos hcount
  have hpart : ∀ part ∈ space.split count, 0 < part.size := fun part hpart => by
    rw [hcarves.size_eq part hpart]
    exact Nat.div_pos hsize hpos
  refine ⟨fun part hmem round => checkedRoundTag_eq (hpart part hmem) round, ?_, ?_⟩
  · intro part hmem round
    have htag : part.contains (part.roundTag round) = true :=
      contains_roundTag (hpart part hmem) round
    exact ⟨htag, hcarves.within part hmem _ htag⟩
  · refine hcarves.disjoint.imp_of_mem fun {part other} hmem hother hdisjoint round round' heq => ?_
    have htag : part.contains (part.roundTag round) = true :=
      contains_roundTag (hpart part hmem) round
    have htag' : other.contains (other.roundTag round') = true :=
      contains_roundTag (hpart other hother) round'
    exact hdisjoint _ ⟨htag, heq ▸ htag'⟩

/-- A space is carved up without overflow into parts of the same size, and rounds on parts
that are not empty keep apart. -/
theorem split_exact :
    space.checkedSplit count = .ok (space.split count) ∧
      Carves space count (space.split count) ∧
      (count ≤ space.size → KeepsApart space (space.split count)) :=
  ⟨checkedSplit_eq hpos hcount, carves_split hpos hcount, keepsApart_split hpos hcount⟩

end Split

/-- The last ten tags in three parts: the last tag of all is the one left over. -/
theorem split_exact_of_topmost :
    (⟨4294967285, 4294967295⟩ : TagSpace).split 3 =
        [⟨4294967285, 4294967288⟩, ⟨4294967288, 4294967291⟩, ⟨4294967291, 4294967294⟩] ∧
      (⟨4294967285, 4294967295⟩ : TagSpace).checkedSplit 3 =
        .ok ((⟨4294967285, 4294967295⟩ : TagSpace).split 3) ∧
      Carves ⟨4294967285, 4294967295⟩ 3 ((⟨4294967285, 4294967295⟩ : TagSpace).split 3) ∧
      KeepsApart ⟨4294967285, 4294967295⟩ ((⟨4294967285, 4294967295⟩ : TagSpace).split 3) := by
  obtain ⟨hchecked, hcarves, hapart⟩ :=
    @split_exact ⟨4294967285, 4294967295⟩ 3 (by decide) (by decide)
  exact ⟨by decide, hchecked, hcarves, hapart (by decide)⟩

end TagSpace

end RankExchange
