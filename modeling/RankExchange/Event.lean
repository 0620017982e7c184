import RankExchange.Fault

/-!
# Events

What a session and its exchanges report while they run, one line each.
-/

namespace RankExchange

inductive Event
  | opened (rank size : Nat) (granted : Threading)
  | closed (rank : Nat)
  | downgraded (required granted : Threading)
  | finalizeFailed (fault : Fault)
  | abandoned
  | enteringBarrier
  | sending (peer : Nat) (tag : Tag) (length : Nat)
  | probed (tag : Tag) (source length : Nat)
  | received (peer : Nat) (tag : Tag) (length : Nat)
  | roundComplete (tag : Tag) (peers : Nat)
  deriving DecidableEq, Repr

def Event.render : Event → String
  | .opened rank size granted =>
      s!"INFO session opened rank={rank} size={size} granted={granted.name}"
  | .closed rank => s!"INFO session closed rank={rank}"
  | .downgraded required granted =>
      s!"ERROR transport downgraded threading level required={required.name} " ++
        s!"granted={granted.name}"
  | .finalizeFailed fault => s!"ERROR failed to finalize the transport error={fault.message}"
  | .abandoned => "WARN session dropped while open, finalizing the transport"
  | .enteringBarrier => "DEBUG entering barrier"
  | .sending peer tag length => s!"DEBUG send peer={peer} tag={tag.toNat} len={length}"
  | .probed tag source length => s!"TRACE probed tag={tag.toNat} source={source} count={length}"
  | .received peer tag length => s!"DEBUG receive peer={peer} tag={tag.toNat} len={length}"
  | .roundComplete tag peers => s!"DEBUG exchange round complete tag={tag.toNat} peers={peers}"

end RankExchange
