import RankExchange.Proofs.Payloads

/-!
# Truncated payloads

A reader that has taken a value off some bytes takes the same value off more bytes,
and leaves the others behind.  So what has been cut off a payload is missed: read from
the part, the value would be the one of the whole, with something left.
-/

namespace RankExchange.Cbor

namespace Reader

variable {α β σ : Type}

/-- What comes behind the bytes that a reader has seen changes nothing about them. -/
def Extends (reader : Reader α) : Prop :=
  ∀ data value rest more, reader data = some (value, rest) →
    reader (data ++ more) = some (value, rest ++ more)

theorem extends_pure (value : α) : Extends (pure value : Reader α) := by
  intro data result rest more h
  cases h
  rfl

theorem extends_failure : Extends (failure : Reader α) := by
  intro data value rest more h
  cases h

theorem extends_lift (answer : Option α) : Extends (StateT.lift answer : Reader α) := by
  cases answer with
  | none => exact extends_failure
  | some value => exact extends_pure value

theorem extends_byte : Extends byte := by
  intro data value rest more h
  cases data with
  | nil => cases h
  | cons first data =>
      cases h
      rfl

namespace Extends

variable {reader : Reader α} {next : α → Reader β}

theorem bind (h : Extends reader) (hnext : ∀ value, Extends (next value)) :
    Extends (reader >>= next) := by
  intro data value rest more hread
  rw [bind_apply] at hread ⊢
  obtain ⟨⟨first, middle⟩, hfirst, hrest⟩ := Option.bind_eq_some_iff.1 hread
  rw [h _ _ _ more hfirst]
  exact hnext first _ _ _ more hrest

theorem map (h : Extends reader) (f : α → β) : Extends (f <$> reader) :=
  h.bind (fun value => extends_pure (f value))

theorem ite {p : Prop} [Decidable p] {other : Reader α} (h : Extends reader)
    (hother : Extends other) : Extends (if p then reader else other) := by
  split
  · exact h
  · exact hother

theorem times (h : Extends reader) (count : Nat) : Extends (reader.times count) := by
  induction count with
  | zero => exact extends_pure []
  | succ count ih => exact h.bind (fun _ => ih.bind (fun _ => extends_pure _))

/-- A loop has more turns when there are more bytes, and needs none of them. -/
theorem turns {turn : σ → Reader (σ ⊕ α)} (h : ∀ state, Extends (turn state)) (fuel : Bytes)
    (state : σ) (data : Bytes) (value : α) (rest more : Bytes)
    (hread : Reader.turns turn fuel state data = some (value, rest)) :
    Reader.turns turn (fuel ++ more) state (data ++ more) = some (value, rest ++ more) := by
  induction fuel generalizing state data with
  | nil => cases hread
  | cons first fuel ih =>
      unfold Reader.turns at hread
      rw [List.cons_append]
      unfold Reader.turns
      rw [bind_apply] at hread ⊢
      obtain ⟨⟨outcome, middle⟩, hturn, hrest⟩ := Option.bind_eq_some_iff.1 hread
      rw [h state _ _ _ more hturn]
      cases outcome with
      | inl state => exact ih state middle hrest
      | inr value => exact extends_pure value _ _ _ more hrest

theorem iterate {turn : σ → Reader (σ ⊕ α)} (h : ∀ state, Extends (turn state)) (start : σ) :
    Extends (Reader.iterate turn start) :=
  fun data value rest more hread => turns h data start data value rest more hread

end Extends

theorem extends_bytes (count : Nat) : Extends (bytes count) := by
  induction count with
  | zero => exact extends_pure []
  | succ count ih => exact extends_byte.bind (fun _ => ih.bind (fun _ => extends_pure _))

theorem extends_bigEndian (count : Nat) : Extends (bigEndian count) :=
  (extends_bytes count).map ofBigEndian

end Reader

open Reader

namespace Head

theorem extends_readNumber (minor : Nat) : Extends (readNumber minor) :=
  .ite (extends_pure _) (.ite ((extends_bigEndian 1).map _) (.ite ((extends_bigEndian 2).map _)
    (.ite ((extends_bigEndian 4).map _) (.ite ((extends_bigEndian 8).map _)
      (.ite (extends_pure _) extends_failure)))))

theorem extends_readSpecial (minor : Nat) : Extends (readSpecial minor) :=
  .ite (extends_pure _) (.ite ((extends_bigEndian 1).map _) (.ite ((extends_bigEndian 2).map _)
    (.ite ((extends_bigEndian 4).map _) (.ite ((extends_bigEndian 8).map _)
      (.ite (extends_pure _) extends_failure)))))

theorem extends_read : Extends read :=
  extends_byte.bind (fun _ => .ite (extends_readSpecial _)
    ((extends_readNumber _).bind (fun _ => extends_lift _)))

end Head

section Items

variable {α : Type}

theorem extends_untagged : Extends untagged := by
  refine .iterate (fun _ => Head.extends_read.bind (fun head => ?_)) ()
  cases head <;> exact extends_pure _

theorem extends_segments (kind : StringKind) (length : Option Nat) :
    Extends (segments kind length) := by
  cases length with
  | some length => exact (extends_bytes length).bind (fun _ => extends_pure _)
  | none =>
      refine .iterate (fun state => Head.extends_read.bind (fun head => ?_)) _
      split
      · exact (extends_bytes _).bind (fun _ => extends_pure _)
      · exact extends_pure _
      · exact .ite extends_failure (.ite (extends_pure _) (extends_pure _))

theorem extends_textBody (length : Option Nat) : Extends (textBody length) :=
  (extends_segments .text length).bind
    (fun _ => (extends_lift _).bind (fun _ => extends_pure _))

theorem extends_text : Extends Cbor.text := by
  refine extends_untagged.bind (fun head => ?_)
  cases head with
  | text length => exact extends_textBody length
  | _ => exact extends_failure

theorem extends_bignum : Extends bignum := by
  refine Head.extends_read.bind (fun head => ?_)
  cases head with
  | bytes length =>
      exact (extends_segments .bytes length).bind
        (fun _ => .ite extends_failure (extends_pure _))
  | _ => exact extends_failure

theorem extends_integer : Extends integer := by
  refine Extends.bind (.iterate (fun _ => Head.extends_read.bind (fun head => ?_)) ())
    (fun head => ?_)
  · cases head with
    | tag number => exact .ite (extends_pure _) (extends_pure _)
    | _ => exact extends_pure _
  · cases head with
    | positive value => exact extends_pure _
    | negative value => exact extends_pure _
    | tag number =>
        exact extends_bignum.bind (fun _ => .ite (extends_pure _) (extends_pure _))
    | _ => exact extends_failure

theorem extends_natBelow (bound : Nat) : Extends (natBelow bound) :=
  extends_integer.bind (fun _ => .ite (extends_pure _) extends_failure)

theorem extends_items {item : Reader α} (h : Extends item) (count : Option Nat) :
    Extends (items item count) := by
  cases count with
  | some count => exact h.times count
  | none =>
      refine .iterate (fun found data outcome rest more hread => ?_) []
      cases hhead : Head.read data with
      | none =>
          simp only [hhead] at hread
          cases hread
      | some taken =>
          obtain ⟨head, behind⟩ := taken
          have hmore := Head.extends_read _ _ _ more hhead
          have hnext := h.map (fun next => (Sum.inl (next :: found) : List α ⊕ List α))
          cases head with
          | stop =>
              simp only [hhead, hmore] at hread ⊢
              cases hread
              rfl
          | _ =>
              simp only [hhead, hmore] at hread ⊢
              exact hnext _ _ _ more hread

theorem extends_sequence {item : Reader α} (h : Extends item) (ofByte : UInt8 → Option α) :
    Extends (sequence item ofByte) := by
  refine extends_untagged.bind (fun head => ?_)
  cases head with
  | array count => exact extends_items h count
  | bytes length =>
      exact (extends_segments .bytes length).bind (fun _ => extends_lift _)
  | _ => exact extends_failure

/-- A reader that fails where there is no whole head. -/
def Heeds (reader : Reader α) : Prop :=
  ∀ data, Head.read data = none → reader data = none

theorem heeds_bind_read (next : Head → Reader α) : Heeds (Head.read >>= next) := by
  intro data h
  rw [bind_apply, h]
  rfl

theorem extends_skipTagged {inner : Reader Unit} (h : Extends inner) (hheeds : Heeds inner)
    (number : Nat) : Extends (skipTagged number inner) := by
  intro data value rest more hread
  unfold skipTagged at hread ⊢
  cases hhead : Head.read data with
  | none =>
      simp only [hhead, hheeds data hhead] at hread
      cases hread
  | some taken =>
      obtain ⟨head, behind⟩ := taken
      have hmore := Head.extends_read _ _ _ more hhead
      cases head with
      | bytes length =>
          cases length with
          | none =>
              simp only [hhead, hmore] at hread ⊢
              exact h _ _ _ more hread
          | some length =>
              simp only [hhead, hmore] at hread ⊢
              split at hread
              · next hnumber =>
                  rw [if_pos hnumber]
                  exact ((extends_bigEndian length).bind
                    (fun _ => .ite extends_failure (extends_pure ()))) _ _ _ more hread
              · next hitem =>
                  rw [if_neg hitem]
                  exact h _ _ _ more hread
      | _ =>
          simp only [hhead, hmore] at hread ⊢
          exact h _ _ _ more hread

theorem extends_skipWith {inner : Option (Reader Unit)}
    (h : ∀ reader ∈ inner, Extends reader ∧ Heeds reader) : Extends (skipWith inner) := by
  refine Head.extends_read.bind (fun head => ?_)
  have hinner : Extends (inner.getD failure) ∧ Heeds (inner.getD failure) := by
    cases inner with
    | none => exact ⟨extends_failure, fun _ _ => rfl⟩
    | some reader => exact h reader rfl
  cases head with
  | positive value => exact extends_pure ()
  | negative value => exact extends_pure ()
  | float bits => exact extends_pure ()
  | bytes length => exact (extends_segments .bytes length).map _
  | text length => exact (extends_textBody length).map _
  | array count =>
      cases inner with
      | none => exact extends_failure
      | some reader => exact (extends_items (h reader rfl).1 count).map _
  | map count =>
      cases inner with
      | none => exact extends_failure
      | some reader =>
          have hreader := (h reader rfl).1
          exact (extends_items (hreader.bind (fun _ => hreader)) count).map _
  | tag number => exact extends_skipTagged hinner.1 hinner.2 number
  | simple number => exact .ite (extends_pure ()) extends_failure
  | stop => exact extends_failure

theorem extends_skip (levels : Nat) : Extends (skip levels) := by
  induction levels with
  | zero => exact extends_skipWith (by simp)
  | succ levels ih =>
      refine extends_skipWith ?_
      rintro reader ⟨⟩
      refine ⟨ih, ?_⟩
      cases levels <;> exact heeds_bind_read _

end Items

namespace EnvelopeField

theorem extends_name : Extends name := by
  refine extends_untagged.bind (fun head => ?_)
  cases head with
  | text length =>
      cases length with
      | none => exact extends_failure
      | some length =>
          exact .ite ((extends_bytes length).bind
            (fun _ => .ite (extends_pure _) extends_failure)) extends_failure
  | bytes length =>
      cases length with
      | none => exact extends_failure
      | some length => exact .ite (extends_bytes length) extends_failure
  | _ => exact extends_failure

theorem extends_payload : Extends payloadFormat.read :=
  extends_sequence ((extends_natBelow _).map _) _

theorem extends_read : Extends read :=
  extends_name.bind (fun _ => .ite ((extends_natBelow _).map _)
    (.ite (((extends_natBelow _).map _).map _) (.ite (extends_payload.map _)
      ((extends_skip _).bind (fun _ => extends_pure _)))))

end EnvelopeField

namespace Format

variable {α β : Type}

theorem extends_int64 : Extends int64.read :=
  extends_integer.bind (fun _ => .ite (extends_pure _) extends_failure)

theorem extends_bool : Extends bool.read := by
  refine extends_untagged.bind (fun head => ?_)
  split
  · exact extends_pure _
  · exact extends_pure _
  · exact extends_failure

theorem extends_double : Extends double.read := by
  refine extends_untagged.bind (fun head => ?_)
  split
  · exact extends_pure _
  · exact extends_failure

theorem extends_optional {format : Format α} (h : Extends format.read) :
    Extends (optional format).read := by
  intro data value rest more hread
  simp only [optional] at hread ⊢
  cases hhead : Head.read data with
  | none =>
      rw [hhead] at hread
      cases hread
  | some taken =>
      obtain ⟨head, behind⟩ := taken
      rw [hhead] at hread
      rw [Head.extends_read _ _ _ more hhead]
      simp only at hread ⊢
      split at hread
      · next hnothing =>
          cases hread
          rw [if_pos hnothing]
      · next hvalue =>
          rw [if_neg hvalue]
          exact h.map some _ _ _ more hread

theorem extends_present : Extends present := by
  intro data value rest more hread
  unfold present at hread ⊢
  cases hhead : Head.read data with
  | none =>
      rw [hhead] at hread
      cases hread
  | some taken =>
      obtain ⟨head, behind⟩ := taken
      rw [hhead] at hread
      rw [Head.extends_read _ _ _ more hhead]
      cases head <;> cases hread <;> rfl

theorem extends_firstTwo {first : Reader α} {second : Reader β} (h : Extends first)
    (h' : Extends second) (count : Option Nat) : Extends (firstTwo first second count) := by
  cases count with
  | some count => exact .ite extends_failure (h.bind (fun _ => h'.bind (fun _ => extends_pure _)))
  | none =>
      exact extends_present.bind (fun _ => h.bind (fun _ => extends_present.bind
        (fun _ => h'.bind (fun _ => extends_pure _))))

theorem extends_pair {left : Format α} {right : Format β} (h : Extends left.read)
    (h' : Extends right.read) : Extends (pair left right).read := by
  refine extends_untagged.bind (fun head => ?_)
  cases head with
  | array count => exact extends_firstTwo h h' count
  | _ => exact extends_failure

theorem extends_textMap {format : Format α} (h : Extends format.read) :
    Extends (textMap format).read := by
  refine extends_untagged.bind (fun head => ?_)
  cases head with
  | map count =>
      exact (extends_items (extends_text.bind (fun _ => h.bind (fun _ => extends_pure _)))
        count).map _
  | _ => exact extends_failure

theorem extends_envelope : Extends envelope.read := by
  refine extends_untagged.bind (fun head => ?_)
  cases head with
  | map count =>
      exact (extends_items EnvelopeField.extends_read count).bind (fun _ => extends_lift _)
  | _ => exact extends_failure

end Format

namespace Kind

theorem extends_read (kind : Kind) : Extends kind.format.read := by
  cases kind with
  | nat64 => exact (extends_natBelow _).map _
  | int64 => exact Format.extends_int64
  | bool => exact Format.extends_bool
  | double => exact Format.extends_double
  | text => exact extends_text
  | optional => exact Format.extends_optional ((extends_natBelow _).map _)
  | nat32s => exact extends_sequence ((extends_natBelow _).map _) _
  | pair =>
      exact Format.extends_pair ((extends_natBelow _).map _)
        (extends_sequence Format.extends_double _)
  | textMap => exact Format.extends_textMap ((extends_natBelow _).map _)
  | envelope => exact Format.extends_envelope

/-- No part of an encoding that lacks its end is decoded, to whatever value. -/
theorem decode_of_truncated (kind : Kind) (value : kind.Value) (h : kind.Fits value)
    {data front : Bytes} (hdata : kind.format.coder.encode value = .ok data)
    (hfront : front <+: data) (hne : front ≠ data) :
    kind.format.coder.decode front = .error (.codec .malformedItem) := by
  obtain ⟨back, rfl⟩ := hfront
  have hwrite : kind.format.write value = front ++ back := Except.ok.inj hdata
  simp only [Format.coder, Reader.value?]
  cases hread : kind.format.read front with
  | none => rfl
  | some taken =>
      obtain ⟨other, rest⟩ := taken
      -- With the part that was cut off, the reader would leave that part behind.
      have hpart := kind.extends_read _ _ _ back hread
      have hwhole := h.restores []
      rw [hwrite, List.append_nil, hpart] at hwhole
      have hback : back = [] :=
        (List.append_eq_nil_iff.1 (congrArg Prod.snd (Option.some.inj hwhole))).2
      rw [hback, List.append_nil] at hne
      exact absurd rfl hne

/-- The number 0.5, which has two bytes for its bits, without the last one. -/
theorem decode_of_truncated_half :
    Kind.Fits .pair (7, [0x3fe0000000000000]) ∧
    (Kind.format .pair).coder.encode (7, [0x3fe0000000000000]) =
      .ok [0x82, 0x07, 0x81, 0xf9, 0x38, 0x00] ∧
    (Kind.format .pair).coder.decode [0x82, 0x07, 0x81, 0xf9, 0x38] =
      .error (.codec .malformedItem) := by
  have hfits : Kind.Fits .pair (7, [0x3fe0000000000000]) := (by decide : 1 < UInt64.size)
  have hencode : (Kind.format .pair).coder.encode (7, [0x3fe0000000000000]) =
      .ok [0x82, 0x07, 0x81, 0xf9, 0x38, 0x00] := by rfl
  have hfront : ([0x82, 0x07, 0x81, 0xf9, 0x38] : Bytes) <+:
      [0x82, 0x07, 0x81, 0xf9, 0x38, 0x00] := ⟨[0x00], rfl⟩
  exact ⟨hfits, hencode, decode_of_truncated .pair _ hfits hencode hfront (by decide)⟩

end Kind

end RankExchange.Cbor
