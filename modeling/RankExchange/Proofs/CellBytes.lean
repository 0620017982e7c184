import RankExchange.Diffusion.Strip

/-!
# Cells in bytes

A cell takes eight bytes, the least first, and whatever eight bytes there are, they are
those of one cell.  Bytes are read eight at a time for as long as there are eight, so a
payload is as many cells as there are eights in it, and what is left over at its end is not
looked at.  The coder of one number accepts a payload that is one cell in this sense: besides
its own eight bytes also up to seven more behind them.
-/

namespace RankExchange

section Words

variable {data : Bytes}

theorem littleEndian_ofLittleEndian (data : Bytes) :
    littleEndian data.length (ofLittleEndian data) = data := by
  induction data with
  | nil => rfl
  | cons byte data ih =>
      have hbyte : byte.toNat < 256 := byte.toNat_lt
      have hnumber : ofLittleEndian (byte :: data) = byte.toNat + 256 * ofLittleEndian data := rfl
      have hlow : UInt8.ofNat (byte.toNat + 256 * ofLittleEndian data) = byte := by
        apply UInt8.toNat_inj.1
        rw [UInt8.toNat_ofNat']
        omega
      have hhigh : (byte.toNat + 256 * ofLittleEndian data) / 256 = ofLittleEndian data := by
        omega
      rw [hnumber, List.length_cons, littleEndian, hlow, hhigh, ih]

theorem ofLittleEndian_lt (data : Bytes) : ofLittleEndian data < Nat.pow 256 data.length := by
  induction data with
  | nil => exact Nat.one_pos
  | cons byte data ih =>
      have hbyte : byte.toNat < 256 := byte.toNat_lt
      have hnumber : ofLittleEndian (byte :: data) = byte.toNat + 256 * ofLittleEndian data := rfl
      have hpow : Nat.pow 256 (data.length + 1) = Nat.pow 256 data.length * 256 := rfl
      rw [hnumber, List.length_cons, hpow]
      omega

theorem wordBytes_ofWordBytes (h : data.length = 8) : wordBytes (ofWordBytes data) = data := by
  have hlt : ofLittleEndian data < UInt64.size := by
    have hpow := ofLittleEndian_lt data
    rw [h] at hpow
    exact hpow
  rw [wordBytes, ofWordBytes, UInt64.toNat_ofNat_of_lt' hlt, ← h]
  exact littleEndian_ofLittleEndian data

theorem words_of_length_lt (h : data.length < 8) : words data = [] := by
  unfold words
  split
  · simp only [List.length_cons] at h
    omega
  · rfl

theorem words_eq_cons (h : 8 ≤ data.length) :
    words data = ofWordBytes (data.take 8) :: words (data.drop 8) := by
  have hfirst : (data.take 8).length = 8 := List.length_take_of_le h
  have hwords := words_wordBytes_append (ofWordBytes (data.take 8)) (data.drop 8)
  rw [wordBytes_ofWordBytes hfirst, List.take_append_drop] at hwords
  exact hwords

theorem length_words (data : Bytes) : (words data).length = data.length / 8 := by
  induction hlength : data.length using Nat.strongRecOn generalizing data with
  | _ length ih =>
    rcases Nat.lt_or_ge data.length 8 with hshort | hlong
    · rw [words_of_length_lt hshort, List.length_nil]
      omega
    · have hdrop : (data.drop 8).length = data.length - 8 := List.length_drop
      rw [words_eq_cons hlong, List.length_cons, ih _ (by omega) _ hdrop]
      omega

end Words

namespace Cell

variable {data : Bytes} {cell : Cell}

theorem words_bytes (cells : List Cell) : words (bytes cells) = cells := by
  induction cells with
  | nil => rfl
  | cons cell cells ih =>
      rw [bytes, List.flatMap_cons, words_wordBytes_append]
      exact congrArg (cell :: ·) ih

theorem length_bytes (cells : List Cell) : (bytes cells).length = 8 * cells.length := by
  induction cells with
  | nil => rfl
  | cons cell cells ih =>
      rw [bytes, List.flatMap_cons, List.length_append, wordBytes_length, List.length_cons,
        Nat.mul_succ, Nat.add_comm]
      exact congrArg (· + 8) ih

theorem encode_eq_bytes (cell : Cell) : coder.encode cell = .ok (bytes [cell]) := by
  rw [bytes, List.flatMap_cons, List.flatMap_nil, List.append_nil]
  rfl

theorem edges_eq_bytes (strip : Strip) : strip.edges = bytes [strip.first, strip.last] := by
  rw [bytes, List.flatMap_cons, List.flatMap_cons, List.flatMap_nil, List.append_nil]
  rfl

theorem decode_of_words (h : words data = [cell]) : coder.decode data = .ok cell := by
  simp only [coder, h]

theorem decode_of_length_words (h : (words data).length ≠ 1) :
    coder.decode data = .error (.codec (.notEightBytes data.length)) := by
  simp only [coder]
  split
  · next hwords =>
      rw [hwords] at h
      exact absurd rfl h
  · rfl

/-- Of eight to fifteen bytes the first eight are the number. -/
theorem decode_eq_ok (hlong : 8 ≤ data.length) (hshort : data.length < 16) :
    coder.decode data = .ok (ofWordBytes (data.take 8)) := by
  have hrest : (data.drop 8).length < 8 := by
    rw [List.length_drop]
    omega
  apply decode_of_words
  rw [words_eq_cons hlong, words_of_length_lt hrest]

theorem decode_eq_error (h : ¬ (8 ≤ data.length ∧ data.length < 16)) :
    coder.decode data = .error (.codec (.notEightBytes data.length)) := by
  apply decode_of_length_words
  rw [length_words]
  omega

theorem length_of_decode (h : coder.decode data = .ok cell) :
    8 ≤ data.length ∧ data.length < 16 := by
  apply Classical.byContradiction
  intro hlength
  rw [decode_eq_error hlength] at h
  cases h

theorem encode_take (hlong : 8 ≤ data.length) :
    coder.encode (ofWordBytes (data.take 8)) = .ok (data.take 8) :=
  congrArg Except.ok (wordBytes_ofWordBytes (List.length_take_of_le hlong))

theorem exists_decode_of_eight (height : data.length = 8) :
    ∃ cell, coder.decode data = .ok cell ∧ coder.encode cell = .ok data := by
  have hlong : 8 ≤ data.length := Nat.le_of_eq height.symm
  have hwhole : data.take 8 = data := List.take_of_length_le (Nat.le_of_eq height)
  refine ⟨ofWordBytes (data.take 8), decode_eq_ok hlong (by omega), ?_⟩
  rw [encode_take hlong, hwhole]

/-- Which payloads the coder of one number accepts and what it says of the others; eight bytes
come back bit for bit, and so do lists of cells. -/
theorem coder_exact (data : Bytes) :
    ((∃ cell, coder.decode data = .ok cell) ↔ 8 ≤ data.length ∧ data.length < 16) ∧
      (∀ cell, coder.decode data = .ok cell → coder.encode cell = .ok (data.take 8)) ∧
      (data.length = 8 → ∃ cell, coder.decode data = .ok cell ∧ coder.encode cell = .ok data) ∧
      (data.length < 8 ∨ 16 ≤ data.length →
        coder.decode data = .error (.codec (.notEightBytes data.length)) ∧
        (Fault.codec (.notEightBytes data.length)).message =
          s!"codec error: expected 8 bytes, got {data.length}") ∧
      (∀ cell, coder.encode cell = .ok (bytes [cell])) ∧
      (∀ strip : Strip, strip.edges = bytes [strip.first, strip.last]) ∧
      ∀ cells, words (bytes cells) = cells ∧ (bytes cells).length = 8 * cells.length := by
  refine ⟨⟨?_, ?_⟩, ?_, exists_decode_of_eight, ?_, encode_eq_bytes, edges_eq_bytes, ?_⟩
  · rintro ⟨cell, hcell⟩
    exact length_of_decode hcell
  · rintro ⟨hlong, hshort⟩
    exact ⟨_, decode_eq_ok hlong hshort⟩
  · intro cell hcell
    obtain ⟨hlong, hshort⟩ := length_of_decode hcell
    rw [decode_eq_ok hlong hshort] at hcell
    cases hcell
    exact encode_take hlong
  · intro hlength
    exact ⟨decode_eq_error (by omega), rfl⟩
  · intro cells
    exact ⟨words_bytes cells, length_bytes cells⟩

/-- The bits of a number that is none, which arithmetic would not keep. -/
theorem coder_exact_of_signalling : [1, 0, 0, 0, 0, 0, 0xf0, 0x7f].length = 8 ∧
    ∃ cell, coder.decode [1, 0, 0, 0, 0, 0, 0xf0, 0x7f] = .ok cell ∧
      coder.encode cell = .ok [1, 0, 0, 0, 0, 0, 0xf0, 0x7f] :=
  ⟨rfl, (coder_exact [1, 0, 0, 0, 0, 0, 0xf0, 0x7f]).2.2.1 rfl⟩

/-- A ninth byte is accepted and lost. -/
theorem decode_of_nine : [0, 0, 0, 0, 0, 0, 0xf0, 0x3f, 1].length = 9 ∧
    coder.decode [0, 0, 0, 0, 0, 0, 0xf0, 0x3f, 1] = .ok 0x3ff0000000000000 ∧
    coder.encode 0x3ff0000000000000 = .ok [0, 0, 0, 0, 0, 0, 0xf0, 0x3f] := by
  refine ⟨rfl, ?_, rfl⟩
  rw [decode_eq_ok (by decide) (by decide)]
  rfl

end Cell

end RankExchange
