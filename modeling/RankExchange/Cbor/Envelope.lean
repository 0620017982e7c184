import RankExchange.Cbor.Format

/-!
# Envelopes in CBOR

An envelope is a map of its three fields under their names.  Other fields may
be there and are passed over; each of the three has to be there once.
-/

namespace RankExchange.Cbor

namespace EnvelopeField

def longestName : Nat := 4096

/-- The number of arrays, maps and tags that may be around each other, the
envelope's own map among them. -/
def levels : Nat := 256

end EnvelopeField

inductive EnvelopeField
  | peer (rank : Nat)
  | tag (label : Tag)
  | payload (data : Bytes)
  | other
  deriving DecidableEq

namespace EnvelopeField

def peer? : EnvelopeField → Option Nat
  | .peer rank => some rank
  | _ => none

def tag? : EnvelopeField → Option Tag
  | .tag label => some label
  | _ => none

def payload? : EnvelopeField → Option Bytes
  | .payload data => some data
  | _ => none

def name : Reader Bytes := do
  match ← untagged with
  | .text (some length) =>
      if length ≤ longestName then
        let data ← Reader.bytes length
        if (utf8? data).isSome then return data else failure
      else failure
  | .bytes (some length) => if length ≤ longestName then Reader.bytes length else failure
  | _ => failure

def payloadFormat : Format Bytes where
  write payload :=
    (Head.array (some payload.length)).write ++
      payload.flatMap (fun byte => (Head.positive byte.toNat).write)
  read := sequence (UInt8.ofNat <$> natBelow UInt8.size) some

def peerName : Bytes := "peer".toUTF8.data.toList
def tagName : Bytes := "tag".toUTF8.data.toList
def payloadName : Bytes := "payload".toUTF8.data.toList

def read : Reader EnvelopeField := do
  let name ← name
  if name = peerName then EnvelopeField.peer <$> natBelow UInt64.size
  else if name = tagName then EnvelopeField.tag <$> Format.nat32.read
  else if name = payloadName then EnvelopeField.payload <$> payloadFormat.read
  else do
    skip (levels - 1)
    return .other

/-- The envelope of some fields, if each of its own is there exactly once. -/
def envelope? (fields : List EnvelopeField) : Option Envelope :=
  match fields.filterMap peer?, fields.filterMap tag?, fields.filterMap payload? with
  | [rank], [label], [data] => some ⟨rank, label, data⟩
  | _, _, _ => none

end EnvelopeField

def Format.envelope : Format Envelope where
  write value :=
    (Head.map (some 3)).write ++
      (Format.text.write "peer" ++ (Head.positive value.peer).write) ++
      (Format.text.write "tag" ++ Format.nat32.write value.tag) ++
      (Format.text.write "payload" ++ EnvelopeField.payloadFormat.write value.payload)
  read := do
    match ← untagged with
    | .map count => do
        let fields ← items EnvelopeField.read count
        StateT.lift (EnvelopeField.envelope? fields)
    | _ => failure

end RankExchange.Cbor
