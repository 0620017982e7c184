import RankExchange.Transport.Basic

/-!
# Rehearsals

A transport that answers from a script, so that a rank can be run alone: its
inbox is given, any of its calls can be made to fail, and what a probe reports
may differ from the message that is there.
-/

namespace RankExchange

/-- A message of the script, and what a probe claims about it. -/
structure Letter where
  source : Nat
  tag : Tag
  payload : Bytes
  claimedSource : Option Nat := none
  claimedTag : Option Tag := none
  claimedLength : Option Nat := none

def Letter.arrival (letter : Letter) : Arrival where
  source := letter.claimedSource.getD letter.source
  tag := letter.claimedTag.getD letter.tag
  length := letter.claimedLength.getD letter.payload.length

structure Rehearsal where
  identity : Identity
  /-- What is granted, if not just what is required. -/
  granted : Option Threading := none
  inbox : List Letter := []
  loopback : Bool := false
  failures : List (Operation × String) := []
  sendsBeforeFailure : Nat := 0

namespace Rehearsal

def failure (stage : Rehearsal) (operation : Operation) : Option Fault :=
  (stage.failures.find? (fun failure => failure.1 = operation)).map
    (fun failure => .transport operation (.other failure.2))

/-- Answers an operation that the script does not let fail. -/
def guarded {α : Type} (stage : Rehearsal) (operation : Operation)
    (answer : Except Fault α × Rehearsal) : Except Fault α × Rehearsal :=
  match stage.failure operation with
  | some fault => (.error fault, stage)
  | none => answer

def deliver (stage : Rehearsal) (dest : Nat) (tag : Tag) (payload : Bytes) : Rehearsal :=
  if stage.loopback ∧ dest = stage.identity.rank then
    { stage with inbox := stage.inbox ++ [{ source := dest, tag, payload }] }
  else stage

def send (stage : Rehearsal) (dest : Nat) (tag : Tag) (payload : Bytes) :
    Except Fault Unit × Rehearsal :=
  match stage.failure .send, stage.sendsBeforeFailure with
  | some fault, 0 => (.error fault, stage)
  | some _, left + 1 =>
      (.ok (), { stage with sendsBeforeFailure := left }.deliver dest tag payload)
  | none, _ => (.ok (), stage.deliver dest tag payload)

def probe (stage : Rehearsal) (tag : Tag) : Except Fault Arrival :=
  match stage.inbox.find? (fun letter => letter.tag = tag) with
  | some letter => .ok letter.arrival
  | none => .error (.transport .probe (.other "nothing to receive"))

/-- Takes the first letter of a source and tag, which has to have the length of
the buffer. -/
def receive (stage : Rehearsal) (source : Nat) (tag : Tag) (length : Nat) :
    Except Fault (Buffer length) × Rehearsal :=
  let wanted (letter : Letter) : Bool := letter.source = source ∧ letter.tag = tag
  match stage.inbox.find? wanted with
  | none => (.error (.transport .receive (.other "no such message")), stage)
  | some letter =>
      if h : letter.payload.length = length then
        (.ok ⟨letter.payload, h⟩, { stage with inbox := stage.inbox.eraseP wanted })
      else (.error (.transport .receive (.other "size mismatch")), stage)

end Rehearsal

def Transport.rehearsal : Transport Rehearsal where
  answer
    | .identify, stage => (stage.identity, stage)
    | .init required, stage =>
        stage.guarded .init (.ok (stage.granted.getD required), stage)
    | .finalize, stage => stage.guarded .finalize (.ok (), stage)
    | .barrier, stage => stage.guarded .barrier (.ok (), stage)
    | .send dest tag payload, stage => stage.send dest tag payload
    | .probe tag, stage => stage.guarded .probe (stage.probe tag, stage)
    | .receive source tag length, stage =>
        stage.guarded .receive (stage.receive source tag length)
    | .leave, stage => ((), stage)

end RankExchange
