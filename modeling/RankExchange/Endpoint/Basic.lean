import RankExchange.Session
import RankExchange.Coder.Basic

/-!
# Endpoints: single messages

An endpoint is a session together with the tags its application may use.  A
receive always probes first, so its buffer has the length of the message it
takes.  Everything is checked before the transport hears of it.
-/

namespace RankExchange

structure Endpoint where
  session : Session := {}
  tags : TagSpace := .standard

namespace Endpoint

def standing (endpoint : Endpoint) : Except Fault Standing :=
  endpoint.session.standing

def requireTag (endpoint : Endpoint) (tag : Tag) : Except Fault Unit := do
  let _ ← endpoint.standing
  if endpoint.tags.contains tag then .ok ()
  else .error (.outsideTagSpace tag endpoint.tags)

def requireRank (endpoint : Endpoint) (rank : Nat) : Except Fault Unit := do
  let standing ← endpoint.standing
  if rank < standing.size then .ok () else .error (.outsideGroup rank standing.size)

def requireRanks (endpoint : Endpoint) (ranks : List Nat) : Except Fault Unit :=
  ranks.forM endpoint.requireRank

def dispatch (envelope : Envelope) : Program Unit := do
  Program.log (.sending envelope.peer envelope.tag envelope.length)
  Program.send envelope.peer envelope.tag envelope.payload

/-- Waits for the next message on a tag and checks that the transport kept to
the tag. -/
def probe (endpoint : Endpoint) (tag : Tag) : Program Arrival := do
  let arrival ← Program.probe tag
  Program.log (.probed tag arrival.source arrival.length)
  if arrival.tag = tag ∧ endpoint.tags.contains arrival.tag then return arrival
  else Program.raise (.outsideTagSpace arrival.tag endpoint.tags)

def accept (arrival : Arrival) : Program Envelope := do
  Program.reserve arrival.length
  let buffer ← Program.receive arrival.source arrival.tag arrival.length
  Program.log (.received arrival.source arrival.tag arrival.length)
  return ⟨arrival.source, arrival.tag, buffer.1⟩

def send (endpoint : Endpoint) (peer : Nat) (tag : Tag) (payload : Bytes) :
    Program Unit := do
  endpoint.requireTag tag
  endpoint.requireRank peer
  dispatch ⟨peer, tag, payload⟩

def sendValue {α : Type} (endpoint : Endpoint) (peer : Nat) (tag : Tag) (coder : Coder α)
    (value : α) : Program Unit := do
  endpoint.requireTag tag
  let payload ← coder.encode value
  endpoint.send peer tag payload

/-- Receives the next message on a tag, which has to come from `peer`; one of
another rank stays where it is. -/
def receive (endpoint : Endpoint) (peer : Nat) (tag : Tag) : Program Envelope := do
  endpoint.requireTag tag
  endpoint.requireRank peer
  let arrival ← endpoint.probe tag
  if arrival.source = peer then accept arrival
  else Program.raise (.unexpectedPeer (some peer) arrival.source tag)

def receiveNext (endpoint : Endpoint) (tag : Tag) : Program Envelope := do
  endpoint.requireTag tag
  let arrival ← endpoint.probe tag
  accept arrival

def establish (endpoint : Endpoint) : Program (Except Fault Identity × Endpoint) := do
  let (outcome, session) ← endpoint.session.establish
  return (outcome, { endpoint with session })

def close (endpoint : Endpoint) : Program (Except Fault Unit × Endpoint) := do
  let (outcome, session) ← endpoint.session.close
  return (outcome, { endpoint with session })

theorem requireTag_of_standing {endpoint : Endpoint} {standing : Standing}
    (hopen : endpoint.standing = .ok standing) (tag : Tag) :
    endpoint.requireTag tag =
      if endpoint.tags.contains tag then .ok ()
      else .error (.outsideTagSpace tag endpoint.tags) := by
  simp [requireTag, hopen, bind, Except.bind]

theorem requireRank_of_standing {endpoint : Endpoint} {standing : Standing}
    (hopen : endpoint.standing = .ok standing) (rank : Nat) :
    endpoint.requireRank rank =
      if rank < standing.size then .ok () else .error (.outsideGroup rank standing.size) := by
  simp [requireRank, hopen, bind, Except.bind]

end Endpoint

end RankExchange
