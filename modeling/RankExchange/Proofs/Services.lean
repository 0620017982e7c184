import RankExchange.Endpoint.Collective

/-!
# Services

All that an endpoint does under a tag, as data: the services, and the commands
that a rank gives to its session, of which they are one kind.  A rank that works
through a list of commands keeps what each has come to, a fault like any other
outcome.
-/

namespace RankExchange

/-- What an endpoint can be asked to do under a tag.  Values are of several kinds, and
the type of a value depends on its kind. -/
inductive Service {Kind : Type} (Value : Kind → Type)
  | send (peer : Nat) (tag : Tag) (payload : Bytes)
  | sendValue (kind : Kind) (peer : Nat) (tag : Tag) (coder : Coder (Value kind))
      (value : Value kind)
  | receive (peer : Nat) (tag : Tag)
  | receiveNext (tag : Tag)
  | exchange (peers : RankSet) (tag : Tag) (outgoing : RankMap Bytes)
  | broadcast (root : Nat) (tag : Tag) (payload : Bytes)
  | gather (root : Nat) (tag : Tag) (payload : Bytes)
  | reduce (kind : Kind) (root : Nat) (tag : Tag) (coder : Coder (Value kind))
      (value : Value kind) (fold : Value kind → Value kind → Value kind)
  | allReduce (kind : Kind) (tag : Tag) (coder : Coder (Value kind)) (value : Value kind)
      (fold : Value kind → Value kind → Value kind)

namespace Service

variable {Kind : Type} {Value : Kind → Type}

abbrev Reply : Service Value → Type
  | .send _ _ _ => Unit
  | .sendValue _ _ _ _ _ => Unit
  | .receive _ _ => Envelope
  | .receiveNext _ => Envelope
  | .exchange _ _ _ => RankMap Envelope
  | .broadcast _ _ _ => Bytes
  | .gather _ _ _ => RankMap Bytes
  | .reduce kind _ _ _ _ _ => Option (Value kind)
  | .allReduce kind _ _ _ _ => Value kind

def tag : Service Value → Tag
  | .send _ tag _ => tag
  | .sendValue _ _ tag _ _ => tag
  | .receive _ tag => tag
  | .receiveNext tag => tag
  | .exchange _ tag _ => tag
  | .broadcast _ tag _ => tag
  | .gather _ tag _ => tag
  | .reduce _ _ tag _ _ _ => tag
  | .allReduce _ tag _ _ _ => tag

/-- The ranks that a service names as a peer, as its peers or as its root. -/
def peers : Service Value → RankSet
  | .send peer _ _ => RankSet.empty.insert peer
  | .sendValue _ peer _ _ _ => RankSet.empty.insert peer
  | .receive peer _ => RankSet.empty.insert peer
  | .receiveNext _ => .empty
  | .exchange peers _ _ => peers
  | .broadcast root _ _ => RankSet.empty.insert root
  | .gather root _ _ => RankSet.empty.insert root
  | .reduce _ root _ _ _ _ => RankSet.empty.insert root
  | .allReduce _ _ _ _ _ => .empty

/-- The ranks to which a service has a payload of their own. -/
def recipients : Service Value → RankSet
  | .exchange _ _ outgoing => outgoing.keys
  | _ => .empty

end Service

namespace Endpoint

variable {Kind : Type} {Value : Kind → Type}

def provide (endpoint : Endpoint) : (service : Service Value) → Program service.Reply
  | .send peer tag payload => endpoint.send peer tag payload
  | .sendValue _ peer tag coder value => endpoint.sendValue peer tag coder value
  | .receive peer tag => endpoint.receive peer tag
  | .receiveNext tag => endpoint.receiveNext tag
  | .exchange peers tag outgoing => endpoint.exchange peers tag outgoing
  | .broadcast root tag payload => endpoint.broadcast root tag payload
  | .gather root tag payload => endpoint.gather root tag payload
  | .reduce _ root tag coder value fold => endpoint.reduce root tag coder value fold
  | .allReduce _ tag coder value fold => endpoint.allReduce tag coder value fold

end Endpoint

/-- What a rank can do with its session. -/
inductive Command {Kind : Type} (Value : Kind → Type)
  | establish
  | close
  | synchronize
  | inspect
  /-- Asks an endpoint of the session, with the given tags, for a service. -/
  | serve (tags : TagSpace) (service : Service Value)

namespace Command

variable {Kind : Type} {Value : Kind → Type}

abbrev Reply : Command Value → Type
  | .establish => Identity
  | .close => Unit
  | .synchronize => Unit
  | .inspect => Standing
  | .serve _ service => service.Reply

/-- What a command comes to, and the session after it. -/
def run (session : Session) : (command : Command Value) →
    Program (Except Fault command.Reply × Session)
  | .establish => session.establish
  | .close => session.close
  | .synchronize => do
      let outcome ← session.synchronize.attempt
      return (outcome, session)
  | .inspect => return (session.standing, session)
  | .serve tags service => do
      let outcome ← (Endpoint.provide ⟨session, tags⟩ service).attempt
      return (outcome, session)

end Command

structure Record {Kind : Type} (Value : Kind → Type) where
  command : Command Value
  outcome : Except Fault command.Reply

/-- Works through a list of commands, whatever each of them comes to. -/
def Session.perform {Kind : Type} {Value : Kind → Type} (session : Session) :
    List (Command Value) → Program (List (Record Value))
  | [] => return []
  | command :: rest => do
      let (outcome, session) ← command.run session
      let records ← session.perform rest
      return ⟨command, outcome⟩ :: records

end RankExchange
