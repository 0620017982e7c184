import RankExchange.Diffusion.Ring
import RankExchange.Proofs.BalancedSides
import RankExchange.Proofs.Shifts

/-!
# Neighbours on a ring

A balanced lattice of one dimension is a ring of all ranks.  As long as their
number is a positive signed word, no step of its arithmetic fails, and every rank
finds the one before it and the one after it.
-/

namespace RankExchange

namespace Sides

/-- The one side there is takes all factors, and no signed word is a large prime. -/
theorem balance_one {n : Nat} (hpos : 0 < n) (hn : n ≤ Word.half) : balance n 1 = .ok [n] := by
  have hcount : n < Word.count := Nat.lt_of_le_of_lt hn (by decide)
  have hover : ¬ Factors.Overlarge n :=
    Factors.not_overlarge_of_lt (Nat.lt_of_le_of_lt hn (by decide))
  have hbalances : Balances n 1 (shape n 1) := balances_shape hpos (Nat.le_refl 1)
  obtain ⟨side, hside⟩ := List.length_eq_one_iff.1 hbalances.length_eq
  have hprod : side = n := by
    have hprod := hbalances.prod_eq
    rw [hside, List.prod_singleton] at hprod
    exact hprod
  rw [balance_eq_ok Nat.one_pos hcount hover, hside, hprod]

end Sides

namespace Lattice

def ring (size : Nat) : Lattice := ⟨[size], true⟩

variable {rank size moved : Nat} {displacement : Int}

theorem balanced_one (hpos : 0 < size) (hsize : size ≤ Word.half) :
    balanced size 1 true = .ok (ring size) := by
  have hroom : Memory.admits (Word.bytes 1) = true := rfl
  unfold balanced
  rw [balancedSides_of_admits hroom, Sides.balance_one hpos hsize]
  rfl

theorem proper_ring (hpos : 0 < size) (hsize : size < Word.count) : (ring size).Proper where
  positive := fun side hside => by
    rw [List.mem_singleton.1 hside]
    exact hpos
  fits := by
    rw [ring, List.prod_singleton]
    exact hsize

/-- The one coordinate is the rank itself. -/
theorem getElem?_cell_ring (hrank : rank < size) :
    (cell (ring size).sides rank)[0]? = some rank := by
  simp [ring, cell, Nat.mod_eq_of_lt hrank]

theorem withDigit_ring : (ring size).withDigit rank 0 moved = moved := by
  simp [withDigit, ring, cell, index]

section Ring

variable (hrank : rank < size) (hsize : size < Word.count)

include hrank hsize

theorem shift_ring (hdisplace : displace true size rank displacement = .ok (some moved))
    (hmoved : moved < size) : (ring size).shift rank 0 displacement = .ok (some moved) := by
  have hproper : (ring size).Proper := proper_ring (Nat.zero_lt_of_lt hrank) hsize
  have hfound : ∀ moved', some moved = some moved' → moved' < size := by
    intro moved' heq
    cases heq
    exact hmoved
  rw [hproper.shift_of_displace rfl (getElem?_cell_ring hrank) hdisplace hfound,
    Option.map_some, withDigit_ring]

theorem shift_ring_error {fault : ArithmeticFault}
    (hdisplace : displace true size rank displacement = .error fault) :
    (ring size).shift rank 0 displacement = .error fault :=
  (proper_ring (Nat.zero_lt_of_lt hrank) hsize).shift_of_displace_error rfl
    (getElem?_cell_ring hrank) hdisplace

end Ring

end Lattice

namespace Ring

/-- The ranks before and after a rank on the ring. -/
def before (size rank : Nat) : Nat := (rank + size - 1) % size
def after (size rank : Nat) : Nat := (rank + 1) % size

def peers (size rank : Nat) : RankSet :=
  (RankSet.empty.insert (before size rank)).insert (after size rank)

variable {rank size : Nat}

theorem mem_peers_iff {other : Nat} :
    other ∈ peers size rank ↔ other = before size rank ∨ other = after size rank := by
  unfold peers
  rw [RankSet.mem_insert, RankSet.mem_insert]
  simp [or_comm]

theorem shift_before (hrank : rank < size) (hsize : size < Word.half) :
    (Lattice.ring size).shift rank 0 (-1) = .ok (some (before size rank)) := by
  have hhalf : Word.half < Word.count := by decide
  have hlt : before size rank < size := Nat.mod_lt _ (by omega)
  have htarget : ((rank : Int) + -1) % size = (before size rank : Nat) := by
    have hcast : ((rank + size - 1 : Nat) : Int) = (rank : Int) + -1 + size := by omega
    rw [before, Int.natCast_emod, hcast, Int.add_emod_right]
  have hdisplace : Lattice.displace true size rank (-1) =
      .ok (Lattice.land true size (rank + -1)) :=
    Lattice.displace_of_isSigned hrank hsize (Word.isSigned_pred (by omega))
  rw [Lattice.land_true, htarget, Int.toNat_natCast] at hdisplace
  exact Lattice.shift_ring hrank (by omega) hdisplace hlt

theorem shift_after (hrank : rank < size) (hsize : size < Word.half) :
    (Lattice.ring size).shift rank 0 1 = .ok (some (after size rank)) := by
  have hhalf : Word.half < Word.count := by decide
  have hlt : after size rank < size := Nat.mod_lt _ (by omega)
  have htarget : ((rank : Int) + 1) % size = (after size rank : Nat) := by
    rw [after, Int.natCast_emod]
    rfl
  have hdisplace : Lattice.displace true size rank 1 = .ok (Lattice.land true size (rank + 1)) :=
    Lattice.displace_of_isSigned hrank hsize (Word.isSigned_succ (by omega))
  rw [Lattice.land_true, htarget, Int.toNat_natCast] at hdisplace
  exact Lattice.shift_ring hrank (by omega) hdisplace hlt

theorem ring_neighbors (hrank : rank < size) (hsize : size < Word.half) :
    (Lattice.ring size).neighbors rank = .ok (peers size rank) := by
  unfold Lattice.neighbors
  change (List.foldlM _ RankSet.empty [0]) = _
  rw [List.foldlM_cons, shift_before hrank hsize, shift_after hrank hsize]
  rfl

theorem neighbors_eq (hrank : rank < size) (hsize : size < Word.half) :
    neighbors rank size = .ok ⟨before size rank, after size rank, peers size rank⟩ := by
  unfold neighbors
  rw [Lattice.balanced_one (by omega) (Nat.le_of_lt hsize)]
  change ((Lattice.ring size).shift rank 0 (-1)).bind _ = _
  rw [shift_before hrank hsize]
  change ((Lattice.ring size).shift rank 0 1).bind _ = _
  rw [shift_after hrank hsize]
  change ((Lattice.ring size).neighbors rank).bind _ = _
  rw [ring_neighbors hrank hsize]
  rfl

theorem neighbors_error {left : Option Nat} {fault : ArithmeticFault} (hpos : 0 < size)
    (hsize : size ≤ Word.half) (hleft : (Lattice.ring size).shift rank 0 (-1) = .ok left)
    (hright : (Lattice.ring size).shift rank 0 1 = .error fault) :
    neighbors rank size = .error fault := by
  unfold neighbors
  rw [Lattice.balanced_one hpos hsize]
  change ((Lattice.ring size).shift rank 0 (-1)).bind _ = _
  rw [hleft]
  change ((Lattice.ring size).shift rank 0 1).bind _ = _
  rw [hright]
  rfl

/-- With more ranks than the signed words count, the last one has no successor. -/
theorem neighbors_last : neighbors (Word.half - 1) Word.half = .error .sumOverflow := by
  have hlt : Word.half - 1 < Word.half := by decide
  have hbefore : Lattice.displace true Word.half (Word.half - 1) (-1) =
      .ok (some (Word.half - 2)) := by decide
  have hafter : Lattice.displace true Word.half (Word.half - 1) 1 = .error .sumOverflow := by
    decide
  exact neighbors_error (by decide) (Nat.le_refl _)
    (Lattice.shift_ring hlt (by decide) hbefore (by decide))
    (Lattice.shift_ring_error hlt (by decide) hafter)

theorem mem_peers_of_mem {other : Nat} (hrank : rank < size) (h : other ∈ peers size rank) :
    other < size ∧ rank ∈ peers size other := by
  have hpos : 0 < size := by omega
  have hwrap : ∀ number, number < size → (number + size) % size = number := by
    intro number hnumber
    rw [Nat.add_mod_right, Nat.mod_eq_of_lt hnumber]
  rcases mem_peers_iff.1 h with rfl | rfl
  · refine ⟨Nat.mod_lt _ hpos, mem_peers_iff.2 (.inr ?_)⟩
    have hsum : rank + size - 1 + 1 = rank + size := by omega
    rw [after, before, Nat.mod_add_mod, hsum, hwrap rank hrank]
  · refine ⟨Nat.mod_lt _ hpos, mem_peers_iff.2 (.inl ?_)⟩
    have hsum : (rank + 1) % size + size - 1 = (rank + 1) % size + (size - 1) := by omega
    have hback : rank + 1 + (size - 1) = rank + size := by omega
    rw [before, after, hsum, Nat.mod_add_mod, hback, hwrap rank hrank]

end Ring

end RankExchange
