import RankExchange.Transport.Basic

/-!
# The group of one

A transport for a rank without company.  It grants everything and carries no
messages.
-/

namespace RankExchange

namespace Transport

def solo : Transport Unit where
  answer
    | .identify, _ => (⟨0, 1⟩, ())
    | .init _, _ => (.ok .multiple, ())
    | .finalize, _ => (.ok (), ())
    | .barrier, _ => (.ok (), ())
    | .send _ _ _, _ => (.error (.transport .send (.unsupported .send)), ())
    | .probe _, _ => (.error (.transport .probe (.unsupported .probe)), ())
    | .receive _ _ _, _ => (.error (.transport .receive (.unsupported .receive)), ())
    | .leave, _ => ((), ())

end Transport

end RankExchange
