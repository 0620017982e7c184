import RankExchange.Program

/-!
# Transports that answer at once

A transport that never makes its caller wait is a state with an answer to every
request.  A program run on it ends with an outcome, the transport's last state
and a record of all it did, the helper thread's requests kept apart.
-/

namespace RankExchange

structure Transport (σ : Type) where
  answer : (request : Request) → σ → request.Answer × σ

structure Transcript (σ : Type) where
  state : σ
  posted : Except Fault Unit := .ok ()
  events : List Event := []
  calls : List Request := []
  helperCalls : List Request := []

namespace Transport

variable {σ α : Type}

/-- Sends envelopes in turn until one fails; returns the requests made. -/
def postAll (transport : Transport σ) :
    List Envelope → σ → Except Fault Unit × List Request × σ
  | [], state => (.ok (), [], state)
  | envelope :: rest, state =>
      let request := Request.send envelope.peer envelope.tag envelope.payload
      match transport.answer request state with
      | (.error fault, state) => (.error fault, [request], state)
      | (.ok _, state) =>
          let (outcome, requests, state) := transport.postAll rest state
          (outcome, request :: requests, state)

/-- Runs a program to its end; a helper thread is done by the time it has been
started. -/
def run (transport : Transport σ) :
    Program α → Transcript σ → Except Fault α × Transcript σ
  | .done result, transcript => (result, transcript)
  | .act (.call request) next, transcript =>
      let (answer, state) := transport.answer request transcript.state
      transport.run (next answer)
        { transcript with state, calls := transcript.calls ++ [request] }
  | .act (.log event) next, transcript =>
      transport.run (next ()) { transcript with events := transcript.events ++ [event] }
  | .act (.reserve length) next, transcript =>
      transport.run (next (if Memory.admits length then .ok () else .error .noRoom)) transcript
  | .act (.spawn posts) next, transcript =>
      let (posted, requests, state) := transport.postAll posts transcript.state
      transport.run (next ())
        { transcript with
          state, posted, helperCalls := transcript.helperCalls ++ requests }
  | .act .join next, transcript =>
      transport.run (next transcript.posted) { transcript with posted := .ok () }

@[simp] theorem run_done (transport : Transport σ) (result : Except Fault α)
    (transcript : Transcript σ) :
    transport.run (.done result) transcript = (result, transcript) := rfl

end Transport

end RankExchange
