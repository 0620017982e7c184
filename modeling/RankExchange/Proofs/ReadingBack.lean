import RankExchange.Cbor.Envelope

/-!
# Reading back what has been written

A reader reads a value back from some bytes if it takes just these bytes off the
front of any data that begins with them.  What is put together from such readers
reads back what is put together from such bytes.  Every head that fits its number
into eight bytes is read back, and with the heads the items that have them.
-/

namespace RankExchange.Cbor

namespace Reader

variable {α β σ : Type}

/-- The reader takes the bytes for the value, whatever comes behind them. -/
def Reads (reader : Reader α) (value : α) (data : Bytes) : Prop :=
  ∀ rest, reader (data ++ rest) = some (value, rest)

theorem bind_apply (reader : Reader α) (next : α → Reader β) (data : Bytes) :
    (reader >>= next) data = (reader data).bind (fun taken => next taken.1 taken.2) := rfl

theorem map_apply (f : α → β) (reader : Reader α) (data : Bytes) :
    (f <$> reader) data = (reader data).map (fun taken => (f taken.1, taken.2)) := by
  change (reader data).bind _ = _
  cases reader data <;> rfl

namespace Reads

variable {reader : Reader α} {next : α → Reader β} {value : α} {result : β}
  {front back data : Bytes}

theorem pure (value : α) : Reads (Pure.pure value : Reader α) value [] :=
  fun _ => rfl

theorem lift {answer : Option α} (h : answer = some value) :
    Reads (StateT.lift answer : Reader α) value [] := by
  subst h
  exact fun _ => rfl

theorem bind (h : Reads reader value front) (hnext : Reads (next value) result back) :
    Reads (reader >>= next) result (front ++ back) := by
  intro rest
  rw [bind_apply, List.append_assoc, h]
  exact hnext rest

theorem bind_nil (h : Reads reader value data) (hnext : Reads (next value) result []) :
    Reads (reader >>= next) result data := by
  have hbind := h.bind hnext
  rwa [List.append_nil] at hbind

theorem map (h : Reads reader value data) (f : α → β) : Reads (f <$> reader) (f value) data := by
  intro rest
  rw [map_apply, h]
  rfl

theorem value? (h : Reads reader value data) (rest : Bytes) :
    reader.value? (data ++ rest) = some value := by
  unfold Reader.value?
  rw [h]
  rfl

end Reads

theorem reads_byte (first : UInt8) : Reads byte first [first] :=
  fun _ => rfl

theorem reads_bytes (data : Bytes) : Reads (bytes data.length) data data :=
  bytes_append data

theorem reads_bigEndian {count number : Nat} (h : number < Nat.pow 256 count) :
    Reads (bigEndian count) number (RankExchange.bigEndian count number) := by
  have hbytes := (reads_bytes (RankExchange.bigEndian count number)).map ofBigEndian
  rw [bigEndian_length] at hbytes
  rw [RankExchange.bigEndian, ofBigEndian_reverse, ofLittleEndian_littleEndian h] at hbytes
  exact hbytes

theorem Reads.times_succ {item : Reader α} {first : α} {values : List α} {count : Nat}
    {front back : Bytes} (h : Reads item first front)
    (hrest : Reads (item.times count) values back) :
    Reads (item.times (count + 1)) (first :: values) (front ++ back) :=
  h.bind (hrest.bind_nil (.pure (first :: values)))

theorem reads_times {item : Reader α} {write : α → Bytes} {values : List α}
    (h : ∀ value ∈ values, Reads item value (write value)) :
    Reads (item.times values.length) values (values.flatMap write) := by
  induction values with
  | nil => exact .pure []
  | cons first values ih =>
      have hrest := ih (fun value hvalue => h value (List.mem_cons_of_mem _ hvalue))
      exact (h first List.mem_cons_self).times_succ hrest

/-- A loop that ends in its first turn. -/
theorem Reads.iterate {turn : σ → Reader (σ ⊕ α)} {start : σ} {value : α} {data : Bytes}
    (h : Reads (turn start) (.inr value) data) (hdata : data ≠ []) :
    Reads (iterate turn start) value data := by
  intro rest
  obtain ⟨first, tail, rfl⟩ := List.exists_cons_of_ne_nil hdata
  have hfirst := h rest
  rw [List.cons_append] at hfirst ⊢
  unfold Reader.iterate turns
  rw [bind_apply, hfirst]
  rfl

end Reader

namespace Head

open Reader

def Fits : Head → Prop
  | .positive number => number < UInt64.size
  | .negative number => number < UInt64.size
  | .bytes length => ∀ number ∈ length, number < UInt64.size
  | .text length => ∀ number ∈ length, number < UInt64.size
  | .array length => ∀ number ∈ length, number < UInt64.size
  | .map length => ∀ number ∈ length, number < UInt64.size
  | .tag number => number < UInt64.size
  | .simple number => number < UInt8.size
  | .float _ => True
  | .stop => True

theorem toNat_first {major minor : Nat} (hmajor : major < 8) (hminor : minor < 32) :
    (UInt8.ofNat (32 * major + minor)).toNat = 32 * major + minor := by
  rw [UInt8.toNat_ofNat']
  omega

/-- What a head is read as depends on the three and the five bits of its first byte. -/
theorem reads_read {major : Nat} (minor : Nat) {data : Bytes} {number : Option Nat} {head : Head}
    (hmajor : major < 7) (hminor : minor < 32) (hnumber : Reads (readNumber minor) number data)
    (hhead : ofNumber? major number = some head) :
    Reads read head (.ofNat (32 * major + minor) :: data) := by
  have hfirst := toNat_first (Nat.lt_succ_of_lt hmajor) hminor
  have hdiv : (32 * major + minor) / 32 = major := by omega
  have hmod : (32 * major + minor) % 32 = minor := by omega
  refine (reads_byte (.ofNat (32 * major + minor))).bind ?_
  simp only [hfirst, hdiv, hmod, if_neg (Nat.ne_of_lt hmajor)]
  exact hnumber.bind_nil (.lift hhead)

theorem reads_read_special (minor : Nat) {data : Bytes} {head : Head} (hminor : minor < 32)
    (hhead : Reads (readSpecial minor) head data) :
    Reads read head (.ofNat (32 * 7 + minor) :: data) := by
  have hfirst := toNat_first (Nat.lt_succ_self 7) hminor
  have hdiv : (32 * 7 + minor) / 32 = 7 := by omega
  have hmod : (32 * 7 + minor) % 32 = minor := by omega
  refine (reads_byte (.ofNat (32 * 7 + minor))).bind ?_
  simp only [hfirst, hdiv, hmod, if_true]
  exact hhead

theorem reads_writeNumber {major number : Nat} {head : Head} (hmajor : major < 7)
    (hnumber : number < UInt64.size) (hhead : ofNumber? major (some number) = some head) :
    Reads read head (writeNumber major number) := by
  unfold writeNumber
  split
  · next hsmall =>
      refine reads_read number hmajor (by omega) ?_ hhead
      unfold readNumber
      rw [if_pos hsmall]
      exact .pure _
  · split
    · next hbyte => exact reads_read 24 hmajor (by omega) ((reads_bigEndian hbyte).map some) hhead
    · split
      · next hbyte => exact reads_read 25 hmajor (by omega) ((reads_bigEndian hbyte).map some) hhead
      · split
        · next hbyte =>
            exact reads_read 26 hmajor (by omega) ((reads_bigEndian hbyte).map some) hhead
        · exact reads_read 27 hmajor (by omega) ((reads_bigEndian hnumber).map some) hhead

theorem reads_writeLength {major : Nat} {length : Option Nat} {head : Head} (hmajor : major < 7)
    (hlength : ∀ number ∈ length, number < UInt64.size)
    (hhead : ofNumber? major length = some head) :
    Reads read head (writeLength major length) := by
  cases length with
  | none => exact reads_read 31 hmajor (by omega) (.pure none) hhead
  | some number => exact reads_writeNumber hmajor (hlength number rfl) hhead

theorem narrow?_lt {width : Width} {bits narrowed : Nat} (h : width.narrow? bits = some narrowed) :
    narrowed < 1 <<< (width.exponentBits + width.mantissaBits + 1) := by
  simp only [Width.narrow?] at h
  split at h
  · next hfits =>
      cases h
      exact hfits.1
  · cases h

/-- A float that has been narrowed is widened to what it was. -/
theorem ofWidth_of_narrow? {width : Width} {bits : UInt64} {narrowed : Nat}
    (h : width.narrow? bits.toNat = some narrowed) : ofWidth width narrowed = .float bits := by
  unfold ofWidth
  rw [Width.widen_of_narrow? h, UInt64.ofNat_toNat]

theorem reads_writeFloat (bits : UInt64) : Reads read (.float bits) (writeFloat bits) := by
  unfold writeFloat
  split
  · next narrowed hhalf =>
      rw [← ofWidth_of_narrow? hhalf]
      exact reads_read_special 25 (by omega) ((reads_bigEndian (narrow?_lt hhalf)).map _)
  · next narrowed _ hsingle =>
      rw [← ofWidth_of_narrow? hsingle]
      exact reads_read_special 26 (by omega) ((reads_bigEndian (narrow?_lt hsingle)).map _)
  · have hfits : bits.toNat < Nat.pow 256 8 := bits.toNat_lt
    have hwhole := (reads_bigEndian hfits).map (fun bits => Head.float (.ofNat bits))
    rw [UInt64.ofNat_toNat] at hwhole
    exact reads_read_special 27 (by omega) hwhole

/-- Every head that fits is read back. -/
theorem Fits.reads {head : Head} (h : head.Fits) : Reads read head head.write := by
  cases head with
  | positive number => exact reads_writeNumber (by omega) h rfl
  | negative number => exact reads_writeNumber (by omega) h rfl
  | bytes length => exact reads_writeLength (by omega) h rfl
  | text length => exact reads_writeLength (by omega) h rfl
  | array length => exact reads_writeLength (by omega) h rfl
  | map length => exact reads_writeLength (by omega) h rfl
  | tag number => exact reads_writeNumber (by omega) h rfl
  | simple number =>
      unfold write
      simp only
      split
      · next hsmall =>
          refine reads_read_special number (by omega) ?_
          unfold readSpecial
          rw [if_pos hsmall]
          exact .pure _
      · have hnumber : number < Nat.pow 256 1 := h
        exact reads_read_special 24 (by omega) ((reads_bigEndian hnumber).map Head.simple)
  | float bits => exact reads_writeFloat bits
  | stop => exact reads_read_special 31 (by omega) (.pure Head.stop)

end Head

end RankExchange.Cbor
