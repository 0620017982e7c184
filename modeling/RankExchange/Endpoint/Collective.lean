import RankExchange.Endpoint.Exchange

/-!
# Collectives

Broadcast, gather, reduce and all-reduce.  All are linear: the root talks to
every other rank directly, by the same rounds and receives as anyone else.
-/

namespace RankExchange

namespace Endpoint

def others (endpoint : Endpoint) (rank : Nat) : Except Fault RankSet := do
  let standing ← endpoint.standing
  return RankSet.others standing.size rank

/-- Sends a payload from the root to all; the payload of the others is not
looked at. -/
def broadcast (endpoint : Endpoint) (root : Nat) (tag : Tag) (payload : Bytes) :
    Program Bytes := do
  endpoint.requireRank root
  let standing ← endpoint.standing
  if standing.rank = root then
    let others ← endpoint.others root
    let _ ← endpoint.exchange .empty tag (.const others payload)
    return payload
  else
    let envelope ← endpoint.receive root tag
    return envelope.payload

/-- Collects the payload of every rank on the root; the others get nothing. -/
def gather (endpoint : Endpoint) (root : Nat) (tag : Tag) (payload : Bytes) :
    Program (RankMap Bytes) := do
  endpoint.requireRank root
  let standing ← endpoint.standing
  if standing.rank = root then
    let others ← endpoint.others root
    let received ← endpoint.exchange others tag .empty
    return (received.map Envelope.payload).insert root payload
  else
    let _ ← endpoint.exchange .empty tag (SortedMap.empty.insert root payload)
    return .empty

def foldDecoded {α : Type} (coder : Coder α) (fold : α → α → α) :
    List Bytes → Except Fault (Option α)
  | [] => .ok none
  | first :: rest => do
      let start ← coder.decode first
      let total ← rest.foldlM (fun total payload => fold total <$> coder.decode payload) start
      return some total

/-- Folds the values of all ranks in rank order on the root. -/
def reduce {α : Type} (endpoint : Endpoint) (root : Nat) (tag : Tag) (coder : Coder α)
    (value : α) (fold : α → α → α) : Program (Option α) := do
  let payload ← coder.encode value
  let gathered ← endpoint.gather root tag payload
  foldDecoded coder fold gathered.values

/-- What a rank passes to the broadcast of a total: only the root has one. -/
def encodeTotal {α : Type} (coder : Coder α) : Option α → Except Fault Bytes
  | some total => coder.encode total
  | none => .ok []

/-- Reduces on rank 0 and sends the result to all. -/
def allReduce {α : Type} (endpoint : Endpoint) (tag : Tag) (coder : Coder α) (value : α)
    (fold : α → α → α) : Program α := do
  let reduced ← endpoint.reduce 0 tag coder value fold
  let payload ← encodeTotal coder reduced
  let shared ← endpoint.broadcast 0 tag payload
  coder.decode shared

end Endpoint

end RankExchange
