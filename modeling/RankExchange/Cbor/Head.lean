import RankExchange.Cbor.Reader
import RankExchange.Cbor.Width

/-!
# Heads of data items

Every CBOR item starts with a head: its kind and one number, which is a value
or a length.  Heads are written in the fewest bytes and read in any number of
bytes; a length may be left open until a stop.
-/

namespace RankExchange.Cbor

inductive Head
  | positive (value : Nat)
  /-- The number `-1 - value`. -/
  | negative (value : Nat)
  | bytes (length : Option Nat)
  | text (length : Option Nat)
  | array (length : Option Nat)
  | map (length : Option Nat)
  | tag (number : Nat)
  | simple (number : Nat)
  | float (bits : UInt64)
  | stop
  deriving DecidableEq, Repr

namespace Head

def falseValue : Head := .simple 20
def trueValue : Head := .simple 21
def null : Head := .simple 22
def undefined : Head := .simple 23

/-- A kind and its number in the fewest bytes. -/
def writeNumber (major number : Nat) : Bytes :=
  if number < 24 then [.ofNat (32 * major + number)]
  else if number < UInt8.size then .ofNat (32 * major + 24) :: bigEndian 1 number
  else if number < UInt16.size then .ofNat (32 * major + 25) :: bigEndian 2 number
  else if number < UInt32.size then .ofNat (32 * major + 26) :: bigEndian 4 number
  else .ofNat (32 * major + 27) :: bigEndian 8 number

def writeLength (major : Nat) : Option Nat → Bytes
  | some length => writeNumber major length
  | none => [.ofNat (32 * major + 31)]

/-- A float in the narrowest width that gives its bits back. -/
def writeFloat (bits : UInt64) : Bytes :=
  match Width.half.narrow? bits.toNat, Width.single.narrow? bits.toNat with
  | some narrowed, _ => 0xf9 :: bigEndian 2 narrowed
  | none, some narrowed => 0xfa :: bigEndian 4 narrowed
  | none, none => 0xfb :: bigEndian 8 bits.toNat

def write : Head → Bytes
  | .positive value => writeNumber 0 value
  | .negative value => writeNumber 1 value
  | .bytes length => writeLength 2 length
  | .text length => writeLength 3 length
  | .array length => writeLength 4 length
  | .map length => writeLength 5 length
  | .tag number => writeNumber 6 number
  | .simple number =>
      if number < 24 then [.ofNat (0xe0 + number)] else [0xf8, .ofNat number]
  | .float bits => writeFloat bits
  | .stop => [0xff]

/-- The number that the low five bits of a first byte stand for; none if the
length is left open. -/
def readNumber (minor : Nat) : Reader (Option Nat) :=
  if minor < 24 then return some minor
  else if minor = 24 then some <$> Reader.bigEndian 1
  else if minor = 25 then some <$> Reader.bigEndian 2
  else if minor = 26 then some <$> Reader.bigEndian 4
  else if minor = 27 then some <$> Reader.bigEndian 8
  else if minor = 31 then return none
  else failure

/-- The float of a width that has the given bits. -/
def ofWidth (width : Width) (bits : Nat) : Head :=
  .float (.ofNat (width.widen bits))

def readSpecial (minor : Nat) : Reader Head :=
  if minor < 24 then return .simple minor
  else if minor = 24 then .simple <$> Reader.bigEndian 1
  else if minor = 25 then ofWidth .half <$> Reader.bigEndian 2
  else if minor = 26 then ofWidth .single <$> Reader.bigEndian 4
  else if minor = 27 then (fun bits => .float (.ofNat bits)) <$> Reader.bigEndian 8
  else if minor = 31 then return .stop
  else failure

/-- The head of a kind with a number; only strings, arrays and maps may leave
it open. -/
def ofNumber? : Nat → Option Nat → Option Head
  | 0, some value => some (.positive value)
  | 1, some value => some (.negative value)
  | 2, length => some (.bytes length)
  | 3, length => some (.text length)
  | 4, length => some (.array length)
  | 5, length => some (.map length)
  | 6, some number => some (.tag number)
  | _, _ => none

def read : Reader Head := do
  let first ← Reader.byte
  let major := first.toNat / 32
  let minor := first.toNat % 32
  if major = 7 then readSpecial minor
  else
    let number ← readNumber minor
    StateT.lift (ofNumber? major number)

end Head

end RankExchange.Cbor
