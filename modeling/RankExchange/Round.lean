import RankExchange.Fault
import RankExchange.RankSet

/-!
# Outstanding rounds

A round on a tag is owed one message by each of a set of peers.  A message
settles the debt of its source; a second one, or one of a stranger, means that
the ranks disagree about the round.
-/

namespace RankExchange

structure Round where
  tag : Tag
  awaited : RankSet
  deriving DecidableEq

namespace Round

def ofPeers (tag : Tag) (peers : List Nat) : Round :=
  ⟨tag, RankSet.ofList peers⟩

def awaits (round : Round) (source : Nat) : Bool :=
  decide (source ∈ round.awaited)

def outstanding (round : Round) : Nat :=
  round.awaited.size

def isSettled (round : Round) : Bool :=
  round.awaited.ranks.isEmpty

def settle (round : Round) (source : Nat) : Except Fault Round :=
  if source ∈ round.awaited then
    .ok { round with awaited := round.awaited.erase source }
  else .error (.unexpectedPeer none source round.tag)

theorem settle_of_mem {round : Round} {source : Nat} (h : source ∈ round.awaited) :
    round.settle source = .ok { round with awaited := round.awaited.erase source } := by
  simp [settle, h]

theorem settle_of_not_mem {round : Round} {source : Nat} (h : ¬ source ∈ round.awaited) :
    round.settle source = .error (.unexpectedPeer none source round.tag) := by
  simp [settle, h]

theorem isSettled_iff {round : Round} :
    round.isSettled = true ↔ ∀ rank, ¬ rank ∈ round.awaited := by
  simp [isSettled, RankSet.mem_def, List.eq_nil_iff_forall_not_mem]

end Round

end RankExchange
