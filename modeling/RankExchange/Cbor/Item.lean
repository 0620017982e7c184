import RankExchange.Cbor.Head

/-!
# Reading data items

Readers for the kinds of items that payloads are made of.  Tags in front of an
item are passed over, strings may come in segments, and the length of arrays
and maps may be left open.
-/

namespace RankExchange.Cbor

variable {α : Type}

def untagged : Reader Head :=
  Reader.iterate (σ := Unit)
    (fun _ => do
      match ← Head.read with
      | .tag _ => return .inl ()
      | head => return .inr head) ()

inductive StringKind
  | bytes
  | text
  deriving DecidableEq

def StringKind.length? : StringKind → Head → Option (Option Nat)
  | .bytes, .bytes length => some length
  | .text, .text length => some length
  | _, _ => none

/-- The segments of a string whose head has been read.  A string of open length
holds segments of its own kind up to a stop, and some of these may be open
again. -/
def segments (kind : StringKind) : Option Nat → Reader (List Bytes)
  | some length => do return [← Reader.bytes length]
  | none =>
      Reader.iterate
        (fun (depth, found) => do
          let head ← Head.read
          match kind.length? head with
          | some (some length) => return .inl (depth, (← Reader.bytes length) :: found)
          | some none => return .inl (depth + 1, found)
          | none =>
              if head ≠ .stop then failure
              else if depth = 0 then return .inr found.reverse
              else return .inl (depth - 1, found))
        ((0, []) : Nat × List Bytes)

def utf8? (data : Bytes) : Option String :=
  String.fromUTF8? ⟨data.toArray⟩

/-- The contents of a text string; each segment is text of its own. -/
def textBody (length : Option Nat) : Reader String := do
  let parts ← segments .text length
  let texts ← StateT.lift (parts.mapM utf8?)
  return String.join texts

def text : Reader String := do
  match ← untagged with
  | .text length => textBody length
  | _ => failure

/-- The number in a byte string: at most sixteen bytes count, highest first,
after the zeros in front. -/
def bignum : Reader Nat := do
  match ← Head.read with
  | .bytes length => do
      let parts ← segments .bytes length
      let digits := parts.flatten.dropWhile (· = 0)
      if 16 < digits.length then failure
      else return ofBigEndian digits
  | _ => failure

/-- An integer, behind tags or as a tagged byte string. -/
def integer : Reader Int := do
  let head ← Reader.iterate (σ := Unit)
    (fun _ => do
      match ← Head.read with
      | .tag number => if number = 2 ∨ number = 3 then return .inr (.tag number) else return .inl ()
      | head => return .inr head) ()
  match head with
  | .positive value => return value
  | .negative value => return -1 - value
  | .tag number => do
      let value ← bignum
      if number = 2 then return value else return -1 - value
  | _ => failure

def natBelow (bound : Nat) : Reader Nat := do
  let value ← integer
  if 0 ≤ value ∧ value < bound then return value.toNat else failure

def items (item : Reader α) : Option Nat → Reader (List α)
  | some count => item.times count
  | none =>
      Reader.iterate
        (fun found data =>
          match Head.read data with
          | some (.stop, rest) => some (.inr found.reverse, rest)
          | some _ => ((fun next => .inl (next :: found)) <$> item) data
          | none => none)
        ([] : List α)

/-- A list of items: an array, or a byte string with one item per byte. -/
def sequence (item : Reader α) (ofByte : UInt8 → Option α) : Reader (List α) := do
  match ← untagged with
  | .array count => items item count
  | .bytes length => do
      let parts ← segments .bytes length
      StateT.lift (parts.flatten.mapM ofByte)
  | _ => failure

/-- Passes over what is behind a tag.  A byte string of at most sixteen bytes in
one piece is the number that tag 2 or 3 announces, and with tag 3 it has to be
below 2^127; anything else is an item like those that `inner` passes over. -/
def skipTagged (number : Nat) (inner : Reader Unit) : Reader Unit := fun data =>
  match Head.read data with
  | some (.bytes (some length), rest) =>
      if (number = 2 ∨ number = 3) ∧ length ≤ 16 then
        (do
          let value ← Reader.bigEndian length
          if number = 3 ∧ 1 <<< 127 ≤ value then failure else return ()) rest
      else inner data
  | _ => inner data

/-- Passes over one item of any kind.  The items inside it, if there may be
any, are passed over by `inner`. -/
def skipWith (inner : Option (Reader Unit)) : Reader Unit := do
  match ← Head.read, inner with
  | .positive _, _ | .negative _, _ | .float _, _ => return ()
  | .bytes length, _ => discard (segments .bytes length)
  | .text length, _ => discard (textBody length)
  | .array count, some inner => discard (items inner count)
  | .map count, some inner => discard (items (do inner; inner) count)
  | .tag number, inner => skipTagged number (inner.getD failure)
  | .simple number, _ => if 20 ≤ number ∧ number ≤ 23 then return () else failure
  | _, _ => failure

/-- Passes over one item in which at most `levels` arrays, maps and tags are
around each other. -/
def skip : Nat → Reader Unit
  | 0 => skipWith none
  | levels + 1 => skipWith (some (skip levels))

end RankExchange.Cbor
