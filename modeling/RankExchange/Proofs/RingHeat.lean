import RankExchange.Proofs.RingNeighbors

/-!
# The heat of a whole ring

Where the heat of a ring is after some steps does not depend on how the ring is
cut.  Every strip holds its part of the ring, and the edges of its neighbours are
the cells that it needs for one more step.
-/

namespace RankExchange

namespace Ring

/-- The cell at a place of a ring, counted from 1 and round it any number of
times, after some steps. -/
def wave (arith : Arithmetic) (length : Nat) : (steps place : Nat) → Cell
  | 0, place => arith.bell ((place + length - 1) % length + 1) length
  | steps + 1, place =>
      arith.relax (wave arith length steps (place + length - 1)) (wave arith length steps place)
        (wave arith length steps (place + 1))

def row (arith : Arithmetic) (length steps start width : Nat) : List Cell :=
  (List.range' (start + 1) width).map (wave arith length steps)

/-- The strip of a rank after some steps; its guards are a step behind. -/
def stripAt (arith : Arithmetic) (ranks width rank : Nat) : (steps : Nat) → Strip
  | 0 => {
      left := arith.bell (rank * width) (ranks * width)
      cells := row arith (ranks * width) 0 (rank * width) width
      right := arith.bell (rank * width + (width + 1)) (ranks * width) }
  | steps + 1 => {
      left := wave arith (ranks * width) steps (rank * width)
      cells := row arith (ranks * width) (steps + 1) (rank * width) width
      right := wave arith (ranks * width) steps (rank * width + width + 1) }

variable {arith : Arithmetic} {length ranks width rank steps place : Nat}

theorem wave_add_length (h : 0 < length) (steps : Nat) :
    ∀ place, wave arith length steps (place + length) = wave arith length steps place := by
  induction steps with
  | zero =>
      intro place
      have hplace : place + length + length - 1 = place + length - 1 + length := by omega
      unfold wave
      rw [hplace, Nat.add_mod_right]
  | succ steps ih =>
      intro place
      have hbefore : place + length + length - 1 = place + length - 1 + length := by omega
      have hafter : place + length + 1 = place + 1 + length := by omega
      unfold wave
      rw [hbefore, hafter, ih, ih, ih]

theorem wave_succ (h : 0 < length) (steps place : Nat) :
    wave arith length (steps + 1) (place + 1) =
      arith.relax (wave arith length steps place) (wave arith length steps (place + 1))
        (wave arith length steps (place + 1 + 1)) := by
  have hbefore : place + 1 + length - 1 = place + length := by omega
  rw [wave, hbefore, wave_add_length h]

theorem wave_zero (h : place < length) :
    wave arith length 0 (place + 1) = arith.bell (place + 1) length := by
  have hplace : place + 1 + length - 1 = place + length := by omega
  rw [wave, hplace, Nat.add_mod_right, Nat.mod_eq_of_lt h]

/-- Between the right guards a row is a row again one step later. -/
theorem spread_row (h : 0 < length) (steps : Nat) : ∀ width start,
    Strip.spread arith (wave arith length steps start) (row arith length steps start width)
      (wave arith length steps (start + width + 1)) =
      row arith length (steps + 1) start width := by
  intro width
  induction width with
  | zero => exact fun _ => rfl
  | succ width ih =>
      intro start
      have hrow : ∀ steps, row arith length steps start (width + 1) =
          wave arith length steps (start + 1) :: row arith length steps (start + 1) width := by
        intro steps
        rw [row, List.range'_succ]
        rfl
      have hnext : (row arith length steps (start + 1) width).headD
          (wave arith length steps (start + (width + 1) + 1)) =
            wave arith length steps (start + 1 + 1) := by
        cases width with
        | zero => rfl
        | succ width =>
            rw [row, List.range'_succ]
            rfl
      have hend : start + (width + 1) + 1 = start + 1 + width + 1 := by omega
      rw [hrow, hrow, Strip.spread, hnext, wave_succ h, hend, ih (start + 1)]

@[simp] theorem cells_stripAt (arith : Arithmetic) (ranks width rank steps : Nat) :
    (stripAt arith ranks width rank steps).cells =
      row arith (ranks * width) steps (rank * width) width := by
  cases steps <;> rfl

theorem first_stripAt (hwidth : 0 < width) :
    (stripAt arith ranks width rank steps).first =
      wave arith (ranks * width) steps (rank * width + 1) := by
  obtain ⟨last, rfl⟩ := Nat.exists_eq_succ_of_ne_zero (Nat.ne_of_gt hwidth)
  rw [Strip.first, cells_stripAt, row, List.range'_succ]
  rfl

theorem last_stripAt (hwidth : 0 < width) :
    (stripAt arith ranks width rank steps).last =
      wave arith (ranks * width) steps (rank * width + width) := by
  obtain ⟨last, rfl⟩ := Nat.exists_eq_succ_of_ne_zero (Nat.ne_of_gt hwidth)
  have hplace : rank * (last + 1) + 1 + last = rank * (last + 1) + (last + 1) := by omega
  rw [Strip.last, cells_stripAt, row, List.range'_1_concat, List.map_append, List.map_singleton,
    hplace]
  simp

theorem words_edges (strip : Strip) : words strip.edges = [strip.first, strip.last] := by
  have hlast : words (wordBytes strip.last) = [strip.last] := by
    have happend := words_wordBytes_append strip.last []
    rw [List.append_nil] at happend
    rw [happend]
    rfl
  rw [Strip.edges, words_wordBytes_append, hlast]

/-- The last cell of the rank before is the cell before the first. -/
theorem wave_before (hrank : rank < ranks) (hwidth : 0 < width) (steps : Nat) :
    wave arith (ranks * width) steps (before ranks rank * width + width) =
      wave arith (ranks * width) steps (rank * width) := by
  have hlength : 0 < ranks * width := Nat.mul_pos (by omega) hwidth
  cases rank with
  | zero =>
      have hbefore : before ranks 0 = ranks - 1 := by
        rw [before, Nat.zero_add, Nat.mod_eq_of_lt (by omega)]
      have hplace : (ranks - 1) * width + width = 0 * width + ranks * width := by
        rw [← Nat.succ_mul, Nat.zero_mul, Nat.zero_add, Nat.succ_eq_add_one,
          Nat.sub_add_cancel hrank]
      rw [hbefore, hplace, wave_add_length hlength]
  | succ rank =>
      have hsum : rank + 1 + ranks - 1 = rank + ranks := by omega
      have hbefore : before ranks (rank + 1) = rank := by
        rw [before, hsum, Nat.add_mod_right, Nat.mod_eq_of_lt (by omega)]
      rw [hbefore, Nat.succ_mul]

theorem wave_after (hrank : rank < ranks) (hwidth : 0 < width) (steps : Nat) :
    wave arith (ranks * width) steps (after ranks rank * width + 1) =
      wave arith (ranks * width) steps (rank * width + width + 1) := by
  have hlength : 0 < ranks * width := Nat.mul_pos (by omega) hwidth
  by_cases hlast : rank + 1 = ranks
  · have hafter : after ranks rank = 0 := by
      rw [after, hlast, Nat.mod_self]
    have hplace : rank * width + width + 1 = 0 * width + 1 + ranks * width := by
      rw [← Nat.succ_mul, ← hlast, Nat.zero_mul, Nat.zero_add, Nat.add_comm]
    rw [hafter, hplace, wave_add_length hlength]
  · have hafter : after ranks rank = rank + 1 := Nat.mod_eq_of_lt (by omega)
    rw [hafter, Nat.succ_mul]

theorem step_stripAt (arith : Arithmetic) (hrank : rank < ranks) (hwidth : 0 < width)
    (steps : Nat) :
    ((stripAt arith ranks width rank steps).guarded?
        (stripAt arith ranks width (before ranks rank) steps).edges
        (stripAt arith ranks width (after ranks rank) steps).edges).map (Strip.step arith) =
      some (stripAt arith ranks width rank (steps + 1)) := by
  have hlength : 0 < ranks * width := Nat.mul_pos (by omega) hwidth
  have hguarded : (stripAt arith ranks width rank steps).guarded?
      (stripAt arith ranks width (before ranks rank) steps).edges
      (stripAt arith ranks width (after ranks rank) steps).edges = some {
        left := wave arith (ranks * width) steps (rank * width)
        cells := row arith (ranks * width) steps (rank * width) width
        right := wave arith (ranks * width) steps (rank * width + width + 1) } := by
    have hleft : (stripAt arith ranks width (before ranks rank) steps).last =
        wave arith (ranks * width) steps (rank * width) := by
      rw [last_stripAt hwidth, wave_before hrank hwidth]
    have hright : (stripAt arith ranks width (after ranks rank) steps).first =
        wave arith (ranks * width) steps (rank * width + width + 1) := by
      rw [first_stripAt hwidth, wave_after hrank hwidth]
    rw [Strip.guarded?, words_edges, words_edges, hleft, hright, cells_stripAt]
    rfl
  rw [hguarded, Option.map_some, Strip.step, spread_row hlength]
  rfl

theorem initial_eq (hrank : rank < ranks)
    (hroom : Memory.admits (Word.bytes (ranks * width + 2)) = true) :
    Strip.initial arith rank ranks width = .ok (stripAt arith ranks width rank 0) := by
  have hbytes : 8 * (ranks * width + 2) ≤ 0x7fffffffffffffff := Memory.admits_iff.1 hroom
  have hcount : Word.count = 18446744073709551616 := rfl
  have hone : width ≤ ranks * width := Nat.le_mul_of_pos_left _ (by omega)
  have hstart : rank * width + width ≤ ranks * width := by
    rw [← Nat.succ_mul]
    exact Nat.mul_le_mul_right _ hrank
  have hplaces : Word.add width 2 = .ok (width + 2) := Word.add_eq_ok (by omega)
  have hadmits : Memory.admits (Word.bytes (width + 2)) = true := by
    rw [Memory.admits_iff]
    change 8 * (width + 2) ≤ 0x7fffffffffffffff
    omega
  have hfirst : Word.mul rank width = .ok (rank * width) := Word.mul_eq_ok (by omega)
  have hlength : Word.mul ranks width = .ok (ranks * width) := Word.mul_eq_ok (by omega)
  have hlast : Word.add (rank * width) (width + 1) = .ok (rank * width + (width + 1)) :=
    Word.add_eq_ok (by omega)
  have hcells : (List.range width).map
      (fun i => arith.bell (rank * width + (i + 1)) (ranks * width)) =
      row arith (ranks * width) 0 (rank * width) width := by
    rw [row, List.range'_eq_map_range, List.map_map]
    apply List.map_congr_left
    intro i hi
    have hplace : rank * width + i < ranks * width := by
      have := List.mem_range.1 hi
      omega
    have hsucc : rank * width + 1 + i = rank * width + i + 1 := by omega
    rw [Function.comp_apply, hsucc, wave_zero hplace]
    rfl
  unfold Strip.initial
  simp only [hplaces, hadmits, hfirst, hlength, hlast, hcells, bind, Except.bind, if_true, pure,
    Except.pure]
  rfl

theorem initial_of_noRoom (hcount : width + 2 < Word.count)
    (hroom : Memory.admits (Word.bytes (width + 2)) = false) :
    Strip.initial arith rank ranks width = .error .noRoom := by
  unfold Strip.initial
  simp only [Word.add_eq_ok hcount, hroom, bind, Except.bind, Bool.false_eq_true, if_false]

theorem flatMap_row (arith : Arithmetic) (length steps width : Nat) : ∀ ranks,
    (List.range ranks).flatMap (fun rank => row arith length steps (rank * width) width) =
      row arith length steps 0 (ranks * width) := by
  intro ranks
  induction ranks with
  | zero =>
      rw [Nat.zero_mul]
      rfl
  | succ ranks ih =>
      have hplace : ranks * width + 1 = 0 + 1 + 1 * (ranks * width) := by omega
      rw [List.range_succ, List.flatMap_append, ih, Nat.succ_mul]
      unfold row
      rw [← List.range'_append, List.map_append, ← hplace]
      simp

end Ring

end RankExchange
