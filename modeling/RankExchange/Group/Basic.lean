import RankExchange.Group.Inbox
import RankExchange.Group.Receipts
import RankExchange.Program

/-!
# Groups

The members of a group and what they have sent each other.  With buffered
delivery a send is done when its message is queued; with rendezvous delivery
the sender gets a ticket, and is done when its receipt says what became of the
message.
-/

namespace RankExchange

inductive Delivery
  | buffered
  | rendezvous
  deriving DecidableEq, Repr

structure Member where
  inbox : Inbox := {}
  grant : Threading := .multiple
  stopped : Bool := false
  present : Bool := true
  deriving DecidableEq, Repr

structure Group where
  delivery : Delivery
  members : List Member
  receipts : Receipts := {}
  /-- The number of ranks that wait at the barrier, and how often it has
  opened. -/
  arrived : Nat := 0
  epoch : Nat := 0

namespace Group

/-- A group with one member for each threading level that is granted. -/
def ofGrants (delivery : Delivery) (grants : List Threading) : Group :=
  { delivery, members := grants.map (fun grant => { grant }) }

def size (group : Group) : Nat :=
  group.members.length

def isStopped (group : Group) (rank : Nat) : Bool :=
  group.members[rank]?.any Member.stopped

def modify (group : Group) (rank : Nat) (f : Member → Member) : Group :=
  match group.members[rank]? with
  | none => group
  | some member => { group with members := group.members.set rank (f member) }

def isAlone (group : Group) (rank : Nat) : Bool :=
  group.members.zipIdx.all (fun (member, other) => other = rank || !member.present)

/-- Records what has become of the message of a ticket. -/
def settle (group : Group) (ticket : Option Nat) (receipt : Receipt) : Group :=
  match ticket with
  | none => group
  | some ticket => { group with receipts := group.receipts.put ticket receipt }

/-- Queues a message; the sender gets a ticket if it has to wait. -/
def enqueue (group : Group) (source dest : Nat) (tag : Tag) (payload : Bytes) :
    Except Fault (Group × Option Nat) :=
  if group.isStopped source then .error (.transport .send .stopped)
  else
    match group.members[dest]? with
    | none => .error (.transport .send (.noSuchRank dest))
    | some member =>
        if member.present then
          let ticket := match group.delivery with
            | .buffered => none
            | .rendezvous => some group.receipts.issued
          let message : Message := { source, tag, payload, ticket }
          let inbox :=
            if dest = source then
              { member.inbox with loopback := member.inbox.loopback ++ [message] }
            else { member.inbox with remote := member.inbox.remote ++ [message] }
          let receipts := match group.delivery with
            | .buffered => group.receipts
            | .rendezvous => group.receipts.issue
          .ok ({ group with
            members := group.members.set dest { member with inbox }, receipts }, ticket)
        else .error (.transport .send (.departed dest))

def confirmation (group : Group) (dest ticket : Nat) : Option (Except Fault Unit) :=
  match group.receipts.get? ticket with
  | some .taken => some (.ok ())
  | some .discarded => some (.error (.transport .send (.discarded dest)))
  | _ => none

/-- One step of a member that looks for a message. -/
def search (group : Group) (rank : Nat) (wanted : Wanted) (own : Bool) (channel : Channel) :
    Search :=
  match group.members[rank]? with
  | none => .blocked
  | some member => member.inbox.search wanted (group.isAlone rank) own channel

def putInbox (group : Group) (rank : Nat) (inbox : Inbox) : Group :=
  group.modify rank (fun member => { member with inbox })

/-- Receives a message that has been found.  It is taken out of the inbox even
if the buffer has another length. -/
def receive (group : Group) (rank : Nat) (wanted : Wanted) (message : Message) (length : Nat) :
    Except Fault (Buffer length) × Group :=
  let rest := group.modify rank (fun member =>
    { member with inbox := member.inbox.take wanted })
  if h : message.payload.length = length then
    (.ok ⟨message.payload, h⟩, rest.settle message.ticket .taken)
  else
    (.error (.transport .receive (.misfit message.payload.length length)),
      rest.settle message.ticket .discarded)

def finalize (group : Group) (rank : Nat) : Group :=
  group.modify rank (fun member => { member with stopped := true })

/-- Lets a member go; what it has not received is discarded. -/
def leave (group : Group) (rank : Nat) : Group :=
  match group.members[rank]? with
  | none => group
  | some member =>
      let gone := { group with
        members := group.members.set rank { member with inbox := {}, present := false } }
      member.inbox.waiting.foldl (fun group message => group.settle message.ticket .discarded)
        gone

theorem modify_of_getElem? {group : Group} {rank : Nat} {member : Member}
    (h : group.members[rank]? = some member) (f : Member → Member) :
    group.modify rank f = { group with members := group.members.set rank (f member) } := by
  simp [modify, h]

@[simp] theorem settle_none (group : Group) (receipt : Receipt) :
    group.settle none receipt = group := rfl

@[simp] theorem members_settle (group : Group) (ticket : Option Nat) (receipt : Receipt) :
    (group.settle ticket receipt).members = group.members := by
  cases ticket <;> rfl

end Group

end RankExchange
