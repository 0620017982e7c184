import RankExchange.Endpoint.Basic
import RankExchange.RankMap
import RankExchange.Round

/-!
# Exchange rounds

In a round a rank sends each of some ranks one payload and receives exactly one
message from each of its peers.  Where the transport allows calls from several
threads, a helper thread sends while the rank itself receives, so two ranks
that exchange with each other finish even if a send waits for its receiver.
-/

namespace RankExchange

namespace Endpoint

/-- Receives `count` messages, each of which settles a debt of the round. -/
def receiveOwed (endpoint : Endpoint) :
    Nat → Round → RankMap Envelope → Program (RankMap Envelope)
  | 0, _, received => return received
  | count + 1, round, received => do
      let arrival ← endpoint.probe round.tag
      let round ← round.settle arrival.source
      let envelope ← accept arrival
      endpoint.receiveOwed count round (received.insert envelope.peer envelope)

def receiveAll (endpoint : Endpoint) (round : Round) : Program (RankMap Envelope) :=
  endpoint.receiveOwed round.outstanding round .empty

/-- The outcome of a round whose helper thread has ended: a failed send counts
before a failed receive, but a thread without room for a message has broken
down, whatever its helper did. -/
def settled {α : Type} (sent : Except Fault Unit) : Except Fault α → Except Fault α
  | .error .noRoom => .error .noRoom
  | received => do
      sent
      received

/-- Sends from a helper thread while this one receives. -/
def exchangeBeside (endpoint : Endpoint) (round : Round) (posts : List Envelope) :
    Program (RankMap Envelope) := do
  Program.spawn posts
  let received ← (endpoint.receiveAll round).attempt
  let sent ← Program.join.attempt
  settled sent received

/-- Sends everything before the first receive. -/
def exchangeInTurn (endpoint : Endpoint) (round : Round) (posts : List Envelope) :
    Program (RankMap Envelope) := do
  posts.forM dispatch
  endpoint.receiveAll round

/-- Sends each outgoing payload to its rank and receives one message on the tag
from every peer.  The round fails as a whole. -/
def exchange (endpoint : Endpoint) (peers : RankSet) (tag : Tag) (outgoing : RankMap Bytes) :
    Program (RankMap Envelope) := do
  endpoint.requireTag tag
  endpoint.requireRanks (peers.ranks ++ outgoing.keys.ranks)
  let standing ← endpoint.standing
  let round : Round := ⟨tag, peers⟩
  let posts := outgoing.entries.map (fun (peer, payload) => Envelope.mk peer tag payload)
  let received ←
    if standing.granted = .multiple then endpoint.exchangeBeside round posts
    else endpoint.exchangeInTurn round posts
  Program.log (.roundComplete tag received.size)
  return received

end Endpoint

end RankExchange
