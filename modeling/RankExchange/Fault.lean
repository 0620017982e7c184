import RankExchange.Memory
import RankExchange.TagSpace

/-!
# Faults

Every way in which a session, a transport or an exchange can fail, kept as
causes; `Fault.message` is the only place that words them.
-/

namespace RankExchange

inductive Operation
  | init
  | finalize
  | barrier
  | send
  | receive
  | probe
  deriving DecidableEq, Repr

def Operation.name : Operation → String
  | .init => "init"
  | .finalize => "finalize"
  | .barrier => "barrier"
  | .send => "send"
  | .receive => "recv"
  | .probe => "probe"

/-- Why a transport refuses a call. -/
inductive Refusal
  | stopped
  | noSuchRank (rank : Nat)
  | departed (rank : Nat)
  | discarded (rank : Nat)
  | deserted (rank : Nat)
  | misfit (message buffer : Nat)
  | unsupported (operation : Operation)
  | status (code : Int)
  | other (reason : String)
  deriving DecidableEq, Repr

def Refusal.reason : Refusal → String
  | .stopped => "transport is finalized"
  | .noSuchRank rank => s!"no rank {rank} in the group"
  | .departed rank => s!"rank {rank} has left the group"
  | .discarded rank => s!"rank {rank} discarded the message"
  | .deserted rank => s!"every rank but {rank} has left the group"
  | .misfit message buffer =>
      s!"message of {message} bytes does not fit a buffer of {buffer} bytes"
  | .unsupported operation => s!"cannot {operation.name} on a null transport"
  | .status code => s!"MPI error code {code}"
  | .other reason => reason

/-- Why a value has no encoding, or bytes no value. -/
inductive Miscoding
  | notEightBytes (length : Nat)
  | textNotAscii
  | bytesNotAscii (length : Nat)
  | malformedItem
  | other (text : String)
  deriving DecidableEq, Repr

def Miscoding.text : Miscoding → String
  | .notEightBytes length => s!"expected 8 bytes, got {length}"
  | .textNotAscii => "text is not ascii"
  | .bytesNotAscii length => s!"{length} bytes are not ascii"
  | .malformedItem => "malformed data item"
  | .other text => text

inductive Fault
  | downgraded (required granted : Threading)
  | alreadyOpen
  | notOpen
  | transport (operation : Operation) (refusal : Refusal)
  /-- A message of a rank that it was not the turn of; with no expected rank,
  of one that owes nothing to the round. -/
  | unexpectedPeer (expected : Option Nat) (actual : Nat) (tag : Tag)
  | outsideTagSpace (tag : Tag) (space : TagSpace)
  | outsideGroup (rank size : Nat)
  | workerStopped
  | codec (cause : Miscoding)
  | noRoom
  deriving DecidableEq, Repr

namespace Fault

def message : Fault → String
  | .downgraded required granted =>
      s!"transport granted {granted.name} threading, {required.name} is required"
  | .alreadyOpen => "session is already open"
  | .notOpen => "session is not open"
  | .transport operation refusal => s!"transport {operation.name} failed: {refusal.reason}"
  | .unexpectedPeer (some rank) actual tag =>
      s!"unexpected message from rank {actual} on tag {tag.toNat} (expected rank {rank})"
  | .unexpectedPeer none actual tag =>
      s!"unexpected message from rank {actual} on tag {tag.toNat} " ++
        "(expected one of the pending peers)"
  | .outsideTagSpace tag space => s!"tag {tag.toNat} is outside the tag space {space.render}"
  | .outsideGroup rank size => s!"rank {rank} is outside the group of size {size}"
  | .workerStopped => "worker thread stopped before running the job"
  | .codec cause => s!"codec error: {cause.text}"
  | .noRoom => Memory.refusal

def isTransport : Fault → Bool
  | .transport _ _ => true
  | _ => false

/-- Reads the status code that a message layer returns from an operation. -/
def ofStatus (operation : Operation) (code : Int) : Except Fault Unit :=
  if code = 0 then .ok () else .error (.transport operation (.status code))

end Fault

end RankExchange
