/-!
# Ranks, tags and messages

The vocabulary of every other module.  A rank is the number of a member in its
group, a natural number counted from zero; a tag keeps the messages of
different purposes apart; an envelope is one message with the rank at its
other end.
-/

namespace RankExchange

/-- The label that separates the messages of one purpose from all others. -/
abbrev Tag := UInt32

abbrev Bytes := List UInt8

/-- What a transport promises about calls from several threads. -/
inductive Threading
  | single
  | funneled
  | serialized
  | multiple
  deriving DecidableEq, Repr

namespace Threading

def strength : Threading → Nat
  | .single => 0
  | .funneled => 1
  | .serialized => 2
  | .multiple => 3

instance : LT Threading := ⟨fun a b => a.strength < b.strength⟩

instance (a b : Threading) : Decidable (a < b) :=
  inferInstanceAs (Decidable (a.strength < b.strength))

def name : Threading → String
  | .single => "Single"
  | .funneled => "Funneled"
  | .serialized => "Serialized"
  | .multiple => "Multiple"

end Threading

structure Arrival where
  source : Nat
  tag : Tag
  length : Nat
  deriving DecidableEq, Repr

/-- One message: on the way out `peer` is its destination, on the way in the
rank it came from. -/
structure Envelope where
  peer : Nat
  tag : Tag
  payload : Bytes
  deriving DecidableEq, Repr

def Envelope.length (envelope : Envelope) : Nat :=
  envelope.payload.length

def Envelope.isEmpty (envelope : Envelope) : Bool :=
  envelope.payload.isEmpty

end RankExchange
