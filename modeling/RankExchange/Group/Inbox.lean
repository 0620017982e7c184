import RankExchange.Basic

/-!
# Inboxes

A member has one channel for messages of the other ranks and one for messages
to itself.  While it looks for a certain message, it takes others off the
channels and parks them until somebody asks for them, so messages of one source
and tag stay in order.
-/

namespace RankExchange

structure Message where
  source : Nat
  tag : Tag
  payload : Bytes
  ticket : Option Nat := none
  deriving DecidableEq, Repr

def Message.arrival (message : Message) : Arrival :=
  ⟨message.source, message.tag, message.payload.length⟩

structure Wanted where
  tag : Tag
  source : Option Nat := none
  deriving DecidableEq, Repr

def Wanted.accepts (wanted : Wanted) (message : Message) : Bool :=
  message.tag = wanted.tag && (wanted.source = none || wanted.source = some message.source)

inductive Channel
  | remote
  | loopback
  deriving DecidableEq, Repr

structure Inbox where
  remote : List Message := []
  loopback : List Message := []
  parked : List Message := []
  /-- Cleared once it has been seen that no other rank can send any more. -/
  expectsRemote : Bool := true
  deriving DecidableEq, Repr

inductive Search
  | found (message : Message)
  | moved (inbox : Inbox)
  | deserted
  | blocked

namespace Inbox

def waiting (inbox : Inbox) : List Message :=
  inbox.parked ++ inbox.remote ++ inbox.loopback

/-- Parks the oldest message of a channel. -/
def pull? (inbox : Inbox) : Channel → Option Inbox
  | .remote =>
      match inbox.remote with
      | [] => none
      | message :: remote =>
          some { inbox with remote, parked := inbox.parked ++ [message] }
  | .loopback =>
      match inbox.loopback with
      | [] => none
      | message :: loopback =>
          some { inbox with loopback, parked := inbox.parked ++ [message] }

/-- Looks for a message among the parked ones, and else parks one more from the
given channel.  When all others have left (`alone`) and their messages are used
up, only the loopback remains; a message that can come from elsewhere is then
given up, but one that the member sends to itself (`own`) is still awaited. -/
@[inline] def search (inbox : Inbox) (wanted : Wanted) (alone own : Bool) (channel : Channel) :
    Search :=
  match inbox.parked.find? wanted.accepts with
  | some message => .found message
  | none =>
      if inbox.expectsRemote then
        match inbox.pull? channel with
        | some inbox => .moved inbox
        | none =>
            if channel = .remote ∧ alone then .moved { inbox with expectsRemote := false }
            else .blocked
      else
        match inbox.pull? .loopback with
        | some inbox => .moved inbox
        | none => if own then .blocked else .deserted

/-- Takes the oldest parked message of those wanted. -/
def take (inbox : Inbox) (wanted : Wanted) : Inbox :=
  { inbox with parked := inbox.parked.eraseP wanted.accepts }

/-- Looking at the messages of the others changes nothing about what waits. -/
theorem waiting_pull? {inbox moved : Inbox} (h : inbox.pull? .remote = some moved) :
    moved.waiting = inbox.waiting := by
  obtain ⟨remote, loopback, parked, expectsRemote⟩ := inbox
  cases remote with
  | nil => cases h
  | cons message remote =>
      cases h
      simp [waiting]

/-- The steps that looking for a message can still take. -/
def backlog (inbox : Inbox) : Nat :=
  inbox.remote.length + inbox.loopback.length + if inbox.expectsRemote then 1 else 0

theorem backlog_pull? {inbox moved : Inbox} {channel : Channel}
    (h : inbox.pull? channel = some moved) : moved.backlog < inbox.backlog := by
  cases inbox with
  | mk remote loopback parked expectsRemote =>
      cases channel with
      | remote =>
          cases remote with
          | nil => cases h
          | cons message remote =>
              cases h
              simp only [backlog, List.length_cons]
              omega
      | loopback =>
          cases loopback with
          | nil => cases h
          | cons message loopback =>
              cases h
              simp only [backlog, List.length_cons]
              omega

theorem backlog_search {inbox moved : Inbox} {wanted : Wanted} {alone own : Bool}
    {channel : Channel} (h : inbox.search wanted alone own channel = .moved moved) :
    moved.backlog < inbox.backlog := by
  unfold search at h
  split at h
  · cases h
  · split at h
    · next hopen =>
        split at h
        · next hpull =>
            cases h
            exact backlog_pull? hpull
        · split at h
          · cases h
            simp [backlog, hopen]
          · cases h
    · split at h
      · next hpull =>
          cases h
          exact backlog_pull? hpull
      · split at h <;> cases h

theorem found_of_search {inbox : Inbox} {wanted : Wanted} {alone own : Bool}
    {channel : Channel} {message : Message}
    (h : inbox.search wanted alone own channel = .found message) :
    inbox.parked.find? wanted.accepts = some message := by
  unfold search at h
  split at h
  · cases h
    assumption
  · split at h <;> split at h <;> try split at h
    all_goals cases h

end Inbox

end RankExchange
