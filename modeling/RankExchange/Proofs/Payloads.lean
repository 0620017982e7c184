import RankExchange.Proofs.ReadingBack

/-!
# Payloads that are read back

Each type of values that travels in CBOR has a format, and a value whose lengths are
numbers of 64 bits is read back from what it is written as, whatever comes behind.
The formats are put together from one another, and so are the proofs.
-/

namespace RankExchange

namespace SortedMap

variable {κ α : Type} [LT κ] [DecidableLT κ] [DecidableEq κ] [KeyOrder κ]

omit [KeyOrder κ] in
theorem insertEntry_of_above {key : κ} {value : α} {entries : List (κ × α)}
    (hirrefl : ∀ key : κ, ¬ key < key) (hasymm : ∀ a b : κ, a < b → ¬ b < a)
    (h : ∀ entry ∈ entries, entry.1 < key) :
    insertEntry key value entries = entries ++ [(key, value)] := by
  induction entries with
  | nil => rfl
  | cons first rest ih =>
      have hfirst : first.1 < key := h first List.mem_cons_self
      have hne : key ≠ first.1 := by
        intro heq
        rw [heq] at hfirst
        exact hirrefl _ hfirst
      have hrest := ih (fun entry hentry => h entry (List.mem_cons_of_mem _ hentry))
      simp only [insertEntry, if_neg (hasymm _ _ hfirst), if_neg hne, hrest, List.cons_append]

theorem ofList_entries (hirrefl : ∀ key : κ, ¬ key < key) (map : SortedMap κ α) :
    ofList map.entries = map := by
  have hasymm : ∀ a b : κ, a < b → ¬ b < a :=
    fun a b hab hba => hirrefl a (KeyOrder.lt_trans hab hba)
  -- The pairs before are in the map already, and each that follows has a greater key.
  have hfold : ∀ (rest front : List (κ × α)) (map : SortedMap κ α), map.entries = front →
      (front ++ rest).Pairwise (fun a b => a.1 < b.1) →
      (rest.foldl (fun map pair => map.insert pair.1 pair.2) map).entries = front ++ rest := by
    intro rest
    induction rest with
    | nil =>
        intro front map hmap _
        rw [List.foldl_nil, hmap, List.append_nil]
    | cons pair rest ih =>
        intro front map hmap hascending
        have habove : ∀ entry ∈ front, entry.1 < pair.1 := fun entry hentry =>
          (List.pairwise_append.1 hascending).2.2 entry hentry pair List.mem_cons_self
        have hinsert : (map.insert pair.1 pair.2).entries = front ++ [pair] := by
          simp only [insert, hmap]
          exact insertEntry_of_above hirrefl hasymm habove
        rw [List.append_cons] at hascending ⊢
        exact ih _ _ hinsert hascending
  refine ext (hfold map.entries [] empty rfl ?_)
  rw [List.nil_append]
  exact map.ascending

end SortedMap

namespace Cbor

open Reader

theorem utf8?_toUTF8 (text : String) : utf8? text.toUTF8.data.toList = some text := by
  unfold utf8? String.fromUTF8?
  exact dif_pos text.isValidUTF8

section Items

variable {α : Type} {head : Head}

theorem Head.Fits.write_ne_nil (h : head.Fits) : head.write ≠ [] := by
  intro hnil
  have hread := h.reads []
  rw [hnil] at hread
  cases hread

theorem Head.Fits.untagged (h : head.Fits) (htag : ∀ number, head ≠ .tag number) :
    Reads untagged head head.write := by
  refine Reads.iterate (h.reads.bind_nil ?_) h.write_ne_nil
  cases head with
  | tag number => exact absurd rfl (htag number)
  | _ => exact .pure _

theorem reads_integer_positive {number : Nat} (h : number < UInt64.size) :
    Reads integer number (Head.positive number).write := by
  have hfits : (Head.positive number).Fits := h
  have hhead : Reads (Pure.pure (Sum.inr (Head.positive number)) : Reader (Unit ⊕ Head))
      (.inr (.positive number)) [] := .pure _
  exact (Reads.iterate (hfits.reads.bind_nil hhead) hfits.write_ne_nil).bind_nil (.pure _)

theorem reads_integer_negative {number : Nat} (h : number < UInt64.size) :
    Reads integer (-1 - number) (Head.negative number).write := by
  have hfits : (Head.negative number).Fits := h
  have hhead : Reads (Pure.pure (Sum.inr (Head.negative number)) : Reader (Unit ⊕ Head))
      (.inr (.negative number)) [] := .pure _
  exact (Reads.iterate (hfits.reads.bind_nil hhead) hfits.write_ne_nil).bind_nil (.pure _)

theorem reads_natBelow {number bound : Nat} (hbound : bound ≤ UInt64.size) (h : number < bound) :
    Reads (natBelow bound) number (Head.positive number).write := by
  refine (reads_integer_positive (Nat.lt_of_lt_of_le h hbound)).bind_nil ?_
  have hinside : 0 ≤ (number : Int) ∧ (number : Int) < bound := by omega
  simp only [hinside, and_self, if_true]
  exact .pure number

theorem reads_text {text : String} (h : text.utf8ByteSize < UInt64.size) :
    Reads Cbor.text text (Format.text.write text) := by
  have hfits : (Head.text (some text.toUTF8.data.toList.length)).Fits := by
    rintro length ⟨⟩
    exact h
  have hsegments : Reads (segments .text (some text.toUTF8.data.toList.length))
      [text.toUTF8.data.toList] text.toUTF8.data.toList :=
    (reads_bytes _).bind_nil (.pure _)
  have htexts : [text.toUTF8.data.toList].mapM utf8? = some [text] := by
    rw [List.mapM_cons, utf8?_toUTF8]
    rfl
  have hbody : Reads (textBody (some text.toUTF8.data.toList.length)) (String.join [text])
      text.toUTF8.data.toList := hsegments.bind_nil ((Reads.lift htexts).bind_nil (.pure _))
  rw [String.join_cons, String.join_nil, String.append_empty] at hbody
  exact (hfits.untagged (by simp)).bind hbody

theorem reads_sequence {item : Reader α} {ofByte : UInt8 → Option α} {write : α → Bytes}
    {values : List α} (hlength : values.length < UInt64.size)
    (h : ∀ value ∈ values, Reads item value (write value)) :
    Reads (sequence item ofByte) values
      ((Head.array (some values.length)).write ++ values.flatMap write) := by
  have hfits : (Head.array (some values.length)).Fits := by
    rintro length ⟨⟩
    exact hlength
  exact (hfits.untagged (by simp)).bind (reads_times h)

end Items

namespace Format

variable {α β : Type}

/-- The format reads a value back from what it has been written as. -/
def Restores (format : Format α) (value : α) : Prop :=
  Reads format.read value (format.write value)

theorem restores_nat64 (value : UInt64) : nat64.Restores value := by
  have hread := (reads_natBelow (Nat.le_refl _) value.toNat_lt).map UInt64.ofNat
  rwa [UInt64.ofNat_toNat] at hread

theorem restores_nat32 (value : UInt32) : nat32.Restores value := by
  have hfits : value.toNat < UInt32.size := value.toNat_lt
  have hread := (reads_natBelow (by decide) hfits).map UInt32.ofNat
  rwa [UInt32.ofNat_toNat] at hread

theorem restores_int64 (value : Int64) : int64.Restores value := by
  have hrange : Int64.minValue.toInt ≤ value.toInt ∧ value.toInt ≤ Int64.maxValue.toInt :=
    ⟨value.minValue_le_toInt, value.toInt_le⟩
  have hlow : -9223372036854775808 ≤ value.toInt := value.le_toInt
  have hhigh : value.toInt < 9223372036854775808 := value.toInt_lt
  have hread : Reads integer value.toInt (int64.write value) := by
    simp only [int64]
    split
    · next hpos =>
        have hfits : value.toInt.toNat < UInt64.size := by
          unfold UInt64.size
          omega
        have hread := reads_integer_positive hfits
        rwa [Int.toNat_of_nonneg hpos] at hread
    · next hneg =>
        have hfits : (-1 - value.toInt).toNat < UInt64.size := by
          unfold UInt64.size
          omega
        have hread := reads_integer_negative hfits
        rw [Int.toNat_of_nonneg (by omega)] at hread
        rwa [show -1 - (-1 - value.toInt) = value.toInt by omega] at hread
  refine hread.bind_nil ?_
  rw [if_pos hrange, Int64.ofInt_toInt]
  exact .pure value

theorem restores_bool (value : Bool) : bool.Restores value := by
  cases value with
  | false =>
      have hfits : Head.falseValue.Fits := (by decide : 20 < UInt8.size)
      exact (hfits.untagged (by simp [Head.falseValue])).bind_nil (.pure false)
  | true =>
      have hfits : Head.trueValue.Fits := (by decide : 21 < UInt8.size)
      exact (hfits.untagged (by simp [Head.trueValue])).bind_nil (.pure true)

theorem restores_double (bits : UInt64) : double.Restores bits := by
  have hfits : (Head.float bits).Fits := trivial
  exact (hfits.untagged (by simp)).bind_nil (.pure bits)

theorem restores_text {value : String} (h : value.utf8ByteSize < UInt64.size) :
    text.Restores value :=
  reads_text h

theorem restores_none (format : Format α) : (optional format).Restores none := by
  intro rest
  have hfits : Head.null.Fits := (by decide : 22 < UInt8.size)
  simp only [optional, hfits.reads rest, true_or, if_true]

/-- A value is there if its head is neither of those that stand for nothing. -/
theorem restores_some {format : Format α} {value : α} {head : Head} {back : Bytes}
    (h : format.Restores value) (hfits : head.Fits)
    (hwrite : format.write value = head.write ++ back) (hnull : head ≠ .null)
    (hundefined : head ≠ .undefined) : (optional format).Restores (some value) := by
  intro rest
  have hhead := hfits.reads (back ++ rest)
  rw [← List.append_assoc, ← hwrite] at hhead
  simp only [optional, hhead, hnull, hundefined, or_self, if_false]
  exact h.map some rest

theorem restores_optional (value : Option UInt32) : (optional nat32).Restores value := by
  cases value with
  | none => exact restores_none nat32
  | some value =>
      have hfits : (Head.positive value.toNat).Fits := value.toUInt64.toNat_lt
      refine restores_some (restores_nat32 value) hfits (List.append_nil _).symm ?_ ?_
      · simp [Head.null]
      · simp [Head.undefined]

theorem restores_list {format : Format α} {ofByte : UInt8 → Option α} {values : List α}
    (hlength : values.length < UInt64.size) (h : ∀ value ∈ values, format.Restores value) :
    (list format ofByte).Restores values :=
  reads_sequence hlength h

theorem restores_pair {left : Format α} {right : Format β} {value : α × β}
    (hleft : left.Restores value.1) (hright : right.Restores value.2) :
    (pair left right).Restores value := by
  have hfits : (Head.array (some 2)).Fits := by
    rintro length ⟨⟩
    decide
  have hboth : Reads (firstTwo left.read right.read (some 2)) value
      (left.write value.1 ++ right.write value.2) :=
    hleft.bind (hright.bind_nil (.pure value))
  have hread : Reads (pair left right).read value
      ((Head.array (some 2)).write ++ (left.write value.1 ++ right.write value.2)) :=
    (hfits.untagged (by simp)).bind hboth
  rwa [← List.append_assoc] at hread

theorem restores_textMap {format : Format α} {map : SortedMap String α}
    (hsize : map.size < UInt64.size)
    (hkeys : ∀ entry ∈ map.entries, entry.1.utf8ByteSize < UInt64.size)
    (hvalues : ∀ entry ∈ map.entries, format.Restores entry.2) :
    (textMap format).Restores map := by
  have hfits : (Head.map (some map.size)).Fits := by
    rintro length ⟨⟩
    exact hsize
  have hentry : ∀ entry ∈ map.entries,
      Reads (do return (← text.read, ← format.read)) entry
        (text.write entry.1 ++ format.write entry.2) :=
    fun entry hmem => Reads.bind (restores_text (hkeys entry hmem))
      (Reads.bind_nil (hvalues entry hmem) (.pure entry))
  have hentries := (reads_times hentry).map SortedMap.ofList
  rw [SortedMap.ofList_entries String.lt_irrefl] at hentries
  exact (hfits.untagged (by simp)).bind hentries

end Format

namespace EnvelopeField

theorem reads_name {name : String} (h : name.utf8ByteSize ≤ longestName) :
    Reads EnvelopeField.name name.toUTF8.data.toList (Format.text.write name) := by
  have hfits : (Head.text (some name.toUTF8.data.toList.length)).Fits := by
    rintro length ⟨⟩
    exact Nat.lt_of_le_of_lt h (by decide)
  have hshort : name.toUTF8.data.toList.length ≤ longestName := h
  refine (hfits.untagged (by simp)).bind ?_
  simp only [if_pos hshort]
  refine (reads_bytes name.toUTF8.data.toList).bind_nil ?_
  rw [utf8?_toUTF8]
  exact .pure _

theorem restores_payload {payload : Bytes} (h : payload.length < UInt64.size) :
    payloadFormat.Restores payload := by
  refine reads_sequence h (fun byte _ => ?_)
  have hbyte : byte.toNat < UInt8.size := byte.toNat_lt
  have hread := (reads_natBelow (by decide) hbyte).map UInt8.ofNat
  rwa [UInt8.ofNat_toNat] at hread

variable {value : Envelope}

theorem reads_peer (h : value.peer < UInt64.size) :
    Reads read (.peer value.peer)
      (Format.text.write "peer" ++ (Head.positive value.peer).write) :=
  (reads_name (by decide)).bind ((reads_natBelow (Nat.le_refl _) h).map EnvelopeField.peer)

theorem reads_tag : Reads read (.tag value.tag)
    (Format.text.write "tag" ++ Format.nat32.write value.tag) :=
  (reads_name (by decide)).bind ((Format.restores_nat32 value.tag).map EnvelopeField.tag)

theorem reads_payload (h : value.payload.length < UInt64.size) :
    Reads read (.payload value.payload)
      (Format.text.write "payload" ++ payloadFormat.write value.payload) :=
  (reads_name (by decide)).bind ((restores_payload h).map EnvelopeField.payload)

end EnvelopeField

namespace Format

theorem restores_envelope {value : Envelope} (hpeer : value.peer < UInt64.size)
    (hpayload : value.payload.length < UInt64.size) : envelope.Restores value := by
  have hfits : (Head.map (some 3)).Fits := by
    rintro length ⟨⟩
    decide
  have hfields : Reads (items EnvelopeField.read (some 3))
      [.peer value.peer, .tag value.tag, .payload value.payload] _ :=
    (EnvelopeField.reads_peer hpeer).times_succ (EnvelopeField.reads_tag.times_succ
      ((EnvelopeField.reads_payload hpayload).times_succ (.pure [])))
  have hread : Reads envelope.read value _ :=
    (hfits.untagged (by simp)).bind (hfields.bind_nil (.lift rfl))
  simp only [List.append_nil, ← List.append_assoc] at hread
  simp only [Restores, envelope, ← List.append_assoc]
  exact hread

end Format

/-- The types of the values that travel in CBOR. -/
inductive Kind
  | nat64
  | int64
  | bool
  | double
  | text
  | optional
  | nat32s
  | pair
  | textMap
  | envelope

namespace Kind

abbrev Value : Kind → Type
  | .nat64 => UInt64
  | .int64 => Int64
  | .bool => Bool
  | .double => UInt64
  | .text => String
  | .optional => Option UInt32
  | .nat32s => List UInt32
  | .pair => UInt32 × List UInt64
  | .textMap => SortedMap String UInt64
  | .envelope => Envelope

def format : (kind : Kind) → Format kind.Value
  | .nat64 => .nat64
  | .int64 => .int64
  | .bool => .bool
  | .double => .double
  | .text => .text
  | .optional => .optional .nat32
  | .nat32s => .nat32s
  | .pair => .pair .nat32 .doubles
  | .textMap => .textMap .nat64
  | .envelope => .envelope

/-- All ranks and lengths in a value are numbers of 64 bits. -/
def Fits : (kind : Kind) → kind.Value → Prop
  | .text, value => value.utf8ByteSize < UInt64.size
  | .nat32s, value => value.length < UInt64.size
  | .pair, value => value.2.length < UInt64.size
  | .textMap, value => value.size < UInt64.size ∧
      ∀ entry ∈ value.entries, entry.1.utf8ByteSize < UInt64.size
  | .envelope, value => value.peer < UInt64.size ∧ value.payload.length < UInt64.size
  | _, _ => True

theorem Fits.restores {kind : Kind} {value : kind.Value} (h : kind.Fits value) :
    kind.format.Restores value := by
  cases kind with
  | nat64 => exact Format.restores_nat64 value
  | int64 => exact Format.restores_int64 value
  | bool => exact Format.restores_bool value
  | double => exact Format.restores_double value
  | text => exact Format.restores_text h
  | optional => exact Format.restores_optional value
  | nat32s => exact Format.restores_list h (fun value _ => Format.restores_nat32 value)
  | pair =>
      exact Format.restores_pair (Format.restores_nat32 value.1)
        (Format.restores_list h (fun bits _ => Format.restores_double bits))
  | textMap =>
      exact Format.restores_textMap h.1 h.2 (fun entry _ => Format.restores_nat64 entry.2)
  | envelope => exact Format.restores_envelope h.1 h.2

/-- Every value is encoded, and is decoded again from any data that begins with its
encoding. -/
theorem decode_encode_append (kind : Kind) (value : kind.Value) (h : kind.Fits value)
    (rest : Bytes) : ∃ data, kind.format.coder.encode value = .ok data ∧
      kind.format.coder.decode (data ++ rest) = .ok value := by
  refine ⟨kind.format.write value, rfl, ?_⟩
  simp only [Format.coder]
  rw [h.restores.value? rest]

theorem decode_encode_append_of_farthestRank :
    Kind.Fits .envelope ⟨18446744073709551615, 32767, [23, 24, 255]⟩ ∧
    ∃ data, (Kind.format .envelope).coder.encode
        ⟨18446744073709551615, 32767, [23, 24, 255]⟩ = .ok data ∧
      (Kind.format .envelope).coder.decode (data ++ [0xff]) =
        .ok ⟨18446744073709551615, 32767, [23, 24, 255]⟩ := by
  have hfits : Kind.Fits .envelope ⟨18446744073709551615, 32767, [23, 24, 255]⟩ :=
    ⟨by decide, by decide⟩
  exact ⟨hfits, decode_encode_append .envelope _ hfits [0xff]⟩

end Kind

end Cbor

end RankExchange
