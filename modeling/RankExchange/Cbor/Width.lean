/-!
# Float widths

Binary floating-point numbers of 16 and 32 bits, and their exact counterparts
of 64 bits.  A number is narrowed by cutting off bits, and only if widening
gives all of them back.
-/

namespace RankExchange.Cbor

/-- The widths of the fields of a float below its sign. -/
structure Width where
  exponentBits : Nat
  mantissaBits : Nat

namespace Width

def half : Width := ⟨5, 10⟩

def single : Width := ⟨8, 23⟩

def bias (width : Width) : Nat :=
  1 <<< (width.exponentBits - 1) - 1

/-- The 64-bit magnitude of a finite number `significand * 2 ^ (exponent - 1075)`
with a significand below `2 ^ 53`. -/
def scale (significand exponent : Nat) : Nat :=
  if significand = 0 then 0
  else
    let top := significand.log2
    (exponent + top - 52) <<< 52 + (significand - 1 <<< top) <<< (52 - top)

/-- The magnitude of a float of this width in 64 bits.  A NaN becomes quiet and
keeps the rest of its payload. -/
def widenMagnitude (width : Width) (exponent mantissa : Nat) : Nat :=
  let spare := 52 - width.mantissaBits
  if exponent = 1 <<< width.exponentBits - 1 then
    if mantissa = 0 then 2047 <<< 52
    else 2047 <<< 52 + 1 <<< 51 + (mantissa % 1 <<< (width.mantissaBits - 1)) <<< spare
  else if exponent = 0 then
    scale mantissa (1024 - width.bias + spare)
  else
    (exponent + 1023 - width.bias) <<< 52 + mantissa <<< spare

def widen (width : Width) (bits : Nat) : Nat :=
  let magnitudeBits := width.exponentBits + width.mantissaBits
  (bits >>> magnitudeBits % 2) <<< 63 +
    width.widenMagnitude (bits >>> width.mantissaBits % 1 <<< width.exponentBits)
      (bits % 1 <<< width.mantissaBits)

/-- What is left of a 64-bit magnitude in this width. -/
def narrowMagnitude (width : Width) (exponent mantissa : Nat) : Nat :=
  let spare := 52 - width.mantissaBits
  if exponent = 2047 then
    (1 <<< width.exponentBits - 1) <<< width.mantissaBits + mantissa >>> spare
  else if 1024 ≤ exponent + width.bias then
    (exponent + width.bias - 1023) <<< width.mantissaBits + mantissa >>> spare
  else
    (1 <<< 52 + mantissa) >>> (spare + (1024 - (exponent + width.bias)))

/-- The bits of a 64-bit float in this width, if it is one of this width. -/
def narrow? (width : Width) (bits : Nat) : Option Nat :=
  let magnitudeBits := width.exponentBits + width.mantissaBits
  let narrowed := (bits >>> 63) <<< magnitudeBits +
    width.narrowMagnitude (bits >>> 52 % 2048) (bits % 1 <<< 52)
  if narrowed < 1 <<< (magnitudeBits + 1) ∧ width.widen narrowed = bits then some narrowed
  else none

theorem widen_of_narrow? {width : Width} {bits narrowed : Nat}
    (h : width.narrow? bits = some narrowed) : width.widen narrowed = bits := by
  simp only [narrow?] at h
  split at h
  · next hfits =>
      cases h
      exact hfits.2
  · cases h

end Width

/-- The 64 bits of a natural number below `2 ^ 53`. -/
def doubleOfNat (n : Nat) : UInt64 :=
  .ofNat (Width.scale n 1075)

end RankExchange.Cbor
