import RankExchange.Cbor.Item
import RankExchange.Coder.Basic
import RankExchange.SortedMap

/-!
# Payloads in CBOR

How values of the payload types are written as CBOR items and read back.  All
lengths are written, and every head is as short as it can be.
-/

namespace RankExchange.Cbor

structure Format (α : Type) where
  write : α → Bytes
  read : Reader α

/-- The coder of a format; bytes behind the item are ignored. -/
def Format.coder {α : Type} (format : Format α) : Coder α where
  encode value := .ok (format.write value)
  decode data :=
    match format.read.value? data with
    | some value => .ok value
    | none => .error (.codec .malformedItem)

namespace Format

def nat64 : Format UInt64 where
  write value := (Head.positive value.toNat).write
  read := UInt64.ofNat <$> natBelow UInt64.size

def nat32 : Format UInt32 where
  write value := (Head.positive value.toNat).write
  read := UInt32.ofNat <$> natBelow UInt32.size

def int64 : Format Int64 where
  write value :=
    if 0 ≤ value.toInt then (Head.positive value.toInt.toNat).write
    else (Head.negative (-1 - value.toInt).toNat).write
  read := do
    let value ← integer
    if Int64.minValue.toInt ≤ value ∧ value ≤ Int64.maxValue.toInt then return .ofInt value
    else failure

def bool : Format Bool where
  write value := (if value then Head.trueValue else Head.falseValue).write
  read := do
    match ← untagged with
    | .simple 20 => return false
    | .simple 21 => return true
    | _ => failure

def double : Format UInt64 where
  write bits := (Head.float bits).write
  read := do
    match ← untagged with
    | .float bits => return bits
    | _ => failure

def text : Format String where
  write value :=
    let data := value.toUTF8.data.toList
    (Head.text (some data.length)).write ++ data
  read := Cbor.text

/-- A value or nothing.  An item behind a tag is always a value. -/
def optional {α : Type} (format : Format α) : Format (Option α) where
  write
    | some value => format.write value
    | none => Head.null.write
  read data :=
    match Head.read data with
    | some (head, rest) =>
        if head = .null ∨ head = .undefined then some (none, rest)
        else (some <$> format.read) data
    | none => none

def list {α : Type} (format : Format α) (ofByte : UInt8 → Option α) : Format (List α) where
  write values :=
    (Head.array (some values.length)).write ++ values.flatMap format.write
  read := sequence format.read ofByte

def nat32s : Format (List UInt32) :=
  list nat32 (fun byte => some (.ofNat byte.toNat))

def doubles : Format (List UInt64) :=
  list double (fun byte => some (doubleOfNat byte.toNat))

/-- Takes nothing, but fails where there is no other item. -/
def present : Reader Unit := fun data =>
  match Head.read data with
  | some (.stop, _) => none
  | some _ => some ((), data)
  | none => none

/-- Reads the items at the front of an array, of which there have to be two;
those behind them are left unread. -/
def firstTwo {α β : Type} (first : Reader α) (second : Reader β) : Option Nat → Reader (α × β)
  | some count => if count < 2 then failure else do return (← first, ← second)
  | none => do
      present
      let left ← first
      present
      let right ← second
      return (left, right)

def pair {α β : Type} (left : Format α) (right : Format β) : Format (α × β) where
  write value := (Head.array (some 2)).write ++ left.write value.1 ++ right.write value.2
  read := do
    match ← untagged with
    | .array count => firstTwo left.read right.read count
    | _ => failure

def textMap {α : Type} (format : Format α) : Format (SortedMap String α) where
  write map :=
    (Head.map (some map.size)).write ++
      map.entries.flatMap (fun entry => text.write entry.1 ++ format.write entry.2)
  read := do
    match ← untagged with
    | .map count =>
        SortedMap.ofList <$> items (do return (← text.read, ← format.read)) count
    | _ => failure

end Format

end RankExchange.Cbor
