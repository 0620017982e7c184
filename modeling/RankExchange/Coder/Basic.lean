import RankExchange.Fault

/-!
# Coders

A coder turns values of one type into message payloads and back.  The plain
ones are here: bytes as they are, and text of seven-bit characters.
-/

namespace RankExchange

structure Coder (α : Type) where
  encode : α → Except Fault Bytes
  decode : Bytes → Except Fault α

def Envelope.decode {α : Type} (envelope : Envelope) (coder : Coder α) : Except Fault α :=
  coder.decode envelope.payload

namespace Coder

def bytes : Coder Bytes where
  encode := .ok
  decode := .ok

def ascii : Coder String where
  encode text :=
    if text.toList.all (fun c => c.toNat < 128) then
      .ok (text.toList.map (fun c => .ofNat c.toNat))
    else .error (.codec .textNotAscii)
  decode data :=
    if data.all (fun byte => byte < 128) then
      .ok (String.ofList (data.map (fun byte => .ofNat byte.toNat)))
    else .error (.codec (.bytesNotAscii data.length))

end Coder

end RankExchange
