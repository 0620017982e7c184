import RankExchange.Endpoint.Collective

/-!
# Prudent programs

A program is prudent if it receives nothing but the message that it has just
found, in a buffer of the length that it has been told.  Whatever is done with
an endpoint is prudent, whether it succeeds or fails.
-/

namespace RankExchange

/-- The message that a program has found and not yet asked for. -/
def Action.held : (action : Action) → action.Answer → Option Arrival → Option Arrival
  | .call (.probe _), .ok arrival, _ => some arrival
  | .call (.probe _), .error _, _ => none
  | .call (.receive _ _ _), _, _ => none
  | _, _, held => held

def Action.Prudent (held : Option Arrival) : Action → Prop
  | .call (.receive source tag length) => held = some ⟨source, tag, length⟩
  | .call .leave => False
  | _ => True

namespace Program

variable {α β : Type}

def Prudent (held : Option Arrival) : Program α → Prop
  | .done _ => True
  | .act action next =>
      action.Prudent held ∧ ∀ answer, (next answer).Prudent (action.held answer held)

theorem Prudent.bind {program : Program α} {f : α → Program β} {held : Option Arrival}
    (h : program.Prudent held) (hnext : ∀ value held, (f value).Prudent held) :
    (program.bind f).Prudent held := by
  induction program generalizing held with
  | done result =>
      cases result with
      | ok value => exact hnext value held
      | error fault => trivial
  | act action next ih => exact ⟨h.1, fun answer => ih answer (h.2 answer)⟩

theorem Prudent.attempt {program : Program α} {held : Option Arrival}
    (h : program.Prudent held) : program.attempt.Prudent held := by
  induction program generalizing held with
  | done result => trivial
  | act action next ih => exact ⟨h.1, fun answer => ih answer (h.2 answer)⟩

theorem prudent_lift (outcome : Except Fault α) (held : Option Arrival) :
    Prudent held (liftM outcome : Program α) := trivial

theorem prudent_done (result : Except Fault α) (held : Option Arrival) :
    Prudent held (.done result) := trivial

theorem prudent_act {action : Action} {next : action.Answer → Program α}
    {held : Option Arrival} (haction : action.Prudent held)
    (hnext : ∀ answer, ∃ result, next answer = .done result) :
    Prudent held (.act action next) := by
  refine ⟨haction, fun answer => ?_⟩
  obtain ⟨result, hresult⟩ := hnext answer
  rw [hresult]
  trivial

theorem prudent_log (event : Event) (held : Option Arrival) : (log event).Prudent held :=
  prudent_act trivial (fun _ => ⟨_, rfl⟩)

theorem prudent_forM {γ : Type} {f : γ → Program Unit}
    (h : ∀ item held, (f item).Prudent held) (items : List γ) (held : Option Arrival) :
    Prudent held (items.forM f) := by
  induction items generalizing held with
  | nil => trivial
  | cons item items ih => exact (h item held).bind (fun _ => ih)

end Program

namespace Endpoint

open Program

variable {α : Type} {held : Option Arrival}

theorem prudent_dispatch (envelope : Envelope) (held : Option Arrival) :
    (dispatch envelope).Prudent held :=
  (prudent_log _ held).bind (fun _ _ => prudent_act trivial (fun _ => ⟨_, rfl⟩))

/-- What is done after a probe may count on the message that it has found. -/
theorem prudent_probe (endpoint : Endpoint) (tag : Tag) {f : Arrival → Program α}
    (h : ∀ arrival, (f arrival).Prudent (some arrival)) (held : Option Arrival) :
    ((endpoint.probe tag).bind f).Prudent held := by
  refine ⟨trivial, fun answer => ?_⟩
  cases answer with
  | error fault => trivial
  | ok arrival =>
      refine ⟨trivial, fun _ => ?_⟩
      change Program.Prudent (some arrival) (Program.bind (if _ then _ else _) f)
      split
      · exact h arrival
      · trivial

theorem prudent_accept (arrival : Arrival) : (accept arrival).Prudent (some arrival) := by
  refine ⟨trivial, fun answer => ?_⟩
  cases answer with
  | error fault => trivial
  | ok _ =>
      refine ⟨rfl, fun answer => ?_⟩
      cases answer with
      | error fault => trivial
      | ok buffer => exact ⟨trivial, fun _ => trivial⟩

theorem prudent_send (endpoint : Endpoint) (peer : Nat) (tag : Tag) (payload : Bytes)
    (held : Option Arrival) : (endpoint.send peer tag payload).Prudent held := by
  refine (prudent_lift _ held).bind (fun _ held => ?_)
  refine (prudent_lift _ held).bind (fun _ held => ?_)
  exact prudent_dispatch _ held

theorem prudent_receive (endpoint : Endpoint) (peer : Nat) (tag : Tag)
    (held : Option Arrival) : (endpoint.receive peer tag).Prudent held := by
  refine (prudent_lift _ held).bind (fun _ held => ?_)
  refine (prudent_lift _ held).bind (fun _ held => ?_)
  refine prudent_probe endpoint tag (fun arrival => ?_) held
  split
  · exact prudent_accept arrival
  · trivial

theorem prudent_receiveNext (endpoint : Endpoint) (tag : Tag) (held : Option Arrival) :
    (endpoint.receiveNext tag).Prudent held := by
  refine (prudent_lift _ held).bind (fun _ held => ?_)
  exact prudent_probe endpoint tag prudent_accept held

theorem prudent_receiveOwed (endpoint : Endpoint) (count : Nat) :
    ∀ round received held, (endpoint.receiveOwed count round received).Prudent held := by
  induction count with
  | zero => exact fun _ _ _ => trivial
  | succ count ih =>
      intro round received held
      refine prudent_probe endpoint round.tag (fun arrival => ?_) held
      cases hsettle : round.settle arrival.source with
      | error fault => trivial
      | ok round =>
          exact (prudent_accept arrival).bind (fun envelope held => ih round _ held)

theorem prudent_exchangeBeside (endpoint : Endpoint) (round : Round) (posts : List Envelope)
    (held : Option Arrival) : (endpoint.exchangeBeside round posts).Prudent held := by
  refine Prudent.bind (prudent_act (by trivial) (fun _ => ⟨_, rfl⟩)) (fun _ held => ?_)
  refine (prudent_receiveOwed endpoint _ _ _ held).attempt.bind (fun received held => ?_)
  refine Prudent.bind ?_ (fun sent held => prudent_lift _ held)
  exact (prudent_act (by trivial) (fun _ => ⟨_, rfl⟩)).attempt

theorem prudent_exchangeInTurn (endpoint : Endpoint) (round : Round) (posts : List Envelope)
    (held : Option Arrival) : (endpoint.exchangeInTurn round posts).Prudent held :=
  (prudent_forM prudent_dispatch posts held).bind
    (fun _ held => prudent_receiveOwed endpoint _ _ _ held)

theorem prudent_exchange (endpoint : Endpoint) (peers : RankSet) (tag : Tag)
    (outgoing : RankMap Bytes) (held : Option Arrival) :
    (endpoint.exchange peers tag outgoing).Prudent held := by
  refine (prudent_lift _ held).bind (fun _ held => ?_)
  refine (prudent_lift _ held).bind (fun _ held => ?_)
  refine (prudent_lift _ held).bind (fun standing held => ?_)
  have hlog : ∀ received : RankMap Envelope, ∀ held, Prudent held (do
      log (.roundComplete tag received.size)
      pure received) :=
    fun received held => (prudent_log _ held).bind (fun _ _ => prudent_done _ _)
  dsimp only
  split
  · exact (prudent_exchangeBeside _ _ _ held).bind hlog
  · exact (prudent_exchangeInTurn _ _ _ held).bind hlog

theorem prudent_broadcast (endpoint : Endpoint) (root : Nat) (tag : Tag) (payload : Bytes)
    (held : Option Arrival) : (endpoint.broadcast root tag payload).Prudent held := by
  refine (prudent_lift _ held).bind (fun _ held => ?_)
  refine (prudent_lift _ held).bind (fun standing held => ?_)
  split
  · refine (prudent_lift _ held).bind (fun others held => ?_)
    exact (prudent_exchange _ _ _ _ held).bind (fun _ _ => trivial)
  · exact (prudent_receive _ _ _ held).bind (fun _ _ => trivial)

theorem prudent_gather (endpoint : Endpoint) (root : Nat) (tag : Tag) (payload : Bytes)
    (held : Option Arrival) : (endpoint.gather root tag payload).Prudent held := by
  refine (prudent_lift _ held).bind (fun _ held => ?_)
  refine (prudent_lift _ held).bind (fun standing held => ?_)
  split
  · refine (prudent_lift _ held).bind (fun others held => ?_)
    exact (prudent_exchange _ _ _ _ held).bind (fun _ _ => trivial)
  · exact (prudent_exchange _ _ _ _ held).bind (fun _ _ => trivial)

theorem prudent_reduce (endpoint : Endpoint) (root : Nat) (tag : Tag) (coder : Coder α)
    (value : α) (fold : α → α → α) (held : Option Arrival) :
    (endpoint.reduce root tag coder value fold).Prudent held := by
  refine (prudent_lift _ held).bind (fun payload held => ?_)
  exact (prudent_gather _ _ _ _ held).bind (fun gathered held => prudent_lift _ held)

theorem prudent_allReduce (endpoint : Endpoint) (tag : Tag) (coder : Coder α) (value : α)
    (fold : α → α → α) (held : Option Arrival) :
    (endpoint.allReduce tag coder value fold).Prudent held := by
  refine (prudent_reduce _ _ _ _ _ _ held).bind (fun reduced held => ?_)
  refine (prudent_lift _ held).bind (fun payload held => ?_)
  exact (prudent_broadcast _ _ _ _ held).bind (fun shared held => prudent_lift _ held)

theorem prudent_establish (endpoint : Endpoint) (held : Option Arrival) :
    endpoint.establish.Prudent held := by
  refine Prudent.bind ?_ (fun _ _ => trivial)
  unfold Session.establish
  split
  · trivial
  · trivial
  · refine Prudent.bind (prudent_act (by trivial) (fun _ => ⟨_, rfl⟩)).attempt
      (fun answer held => ?_)
    split
    · trivial
    · split
      · refine Prudent.bind ?_ (fun _ _ => trivial)
        refine (prudent_log _ held).bind (fun _ held => ?_)
        refine Prudent.bind (prudent_act (by trivial) (fun _ => ⟨_, rfl⟩)).attempt
          (fun answer held => ?_)
        split
        · trivial
        · exact prudent_log _ held
      · refine Prudent.bind (prudent_act (by trivial) (fun _ => ⟨_, rfl⟩)) (fun identity held => ?_)
        exact (prudent_log _ held).bind (fun _ _ => trivial)

theorem prudent_close (endpoint : Endpoint) (held : Option Arrival) :
    endpoint.close.Prudent held := by
  refine Prudent.bind ?_ (fun _ _ => trivial)
  unfold Session.close
  split
  · refine Prudent.bind (prudent_act (by trivial) (fun _ => ⟨_, rfl⟩)).attempt
      (fun answer held => ?_)
    split
    · trivial
    · exact (prudent_log _ held).bind (fun _ _ => trivial)
  · trivial

theorem prudent_synchronize (endpoint : Endpoint) (held : Option Arrival) :
    endpoint.session.synchronize.Prudent held := by
  refine (prudent_lift _ held).bind (fun _ held => ?_)
  refine (prudent_log _ held).bind (fun _ held => ?_)
  exact prudent_act trivial (fun _ => ⟨_, rfl⟩)

/-- Everything that can be asked of an endpoint, short of giving its member up. -/
inductive Offers (endpoint : Endpoint) : {β : Type} → Program β → Prop
  | establish : Offers endpoint endpoint.establish
  | close : Offers endpoint endpoint.close
  | synchronize : Offers endpoint endpoint.session.synchronize
  | send (peer : Nat) (tag : Tag) (payload : Bytes) :
      Offers endpoint (endpoint.send peer tag payload)
  | sendValue {γ : Type} (peer : Nat) (tag : Tag) (coder : Coder γ) (value : γ) :
      Offers endpoint (endpoint.sendValue peer tag coder value)
  | receive (peer : Nat) (tag : Tag) : Offers endpoint (endpoint.receive peer tag)
  | receiveNext (tag : Tag) : Offers endpoint (endpoint.receiveNext tag)
  | exchange (peers : RankSet) (tag : Tag) (outgoing : RankMap Bytes) :
      Offers endpoint (endpoint.exchange peers tag outgoing)
  | broadcast (root : Nat) (tag : Tag) (payload : Bytes) :
      Offers endpoint (endpoint.broadcast root tag payload)
  | gather (root : Nat) (tag : Tag) (payload : Bytes) :
      Offers endpoint (endpoint.gather root tag payload)
  | reduce {γ : Type} (root : Nat) (tag : Tag) (coder : Coder γ) (value : γ)
      (fold : γ → γ → γ) : Offers endpoint (endpoint.reduce root tag coder value fold)
  | allReduce {γ : Type} (tag : Tag) (coder : Coder γ) (value : γ) (fold : γ → γ → γ) :
      Offers endpoint (endpoint.allReduce tag coder value fold)

theorem Offers.prudent {endpoint : Endpoint} {β : Type} {program : Program β}
    (h : endpoint.Offers program) (held : Option Arrival) : program.Prudent held := by
  cases h with
  | establish => exact prudent_establish endpoint held
  | close => exact prudent_close endpoint held
  | synchronize => exact prudent_synchronize endpoint held
  | send => exact prudent_send endpoint _ _ _ held
  | sendValue =>
      refine (prudent_lift _ held).bind (fun _ held => ?_)
      refine (prudent_lift _ held).bind (fun _ held => ?_)
      exact prudent_send endpoint _ _ _ held
  | receive => exact prudent_receive endpoint _ _ held
  | receiveNext => exact prudent_receiveNext endpoint _ held
  | exchange => exact prudent_exchange endpoint _ _ _ held
  | broadcast => exact prudent_broadcast endpoint _ _ _ held
  | gather => exact prudent_gather endpoint _ _ _ held
  | reduce => exact prudent_reduce endpoint _ _ _ _ _ held
  | allReduce => exact prudent_allReduce endpoint _ _ _ _ held

end Endpoint

namespace Program

variable {α : Type}

/-- Any sequence of operations of endpoints, each chosen by what the ones before
have come to, be it a fault. -/
inductive Serves : Program α → Prop
  | done (result : Except Fault α) : Serves (.done result)
  | operation {endpoint : Endpoint} {β : Type} {program : Program β}
      {next : Except Fault β → Program α} (h : endpoint.Offers program)
      (hnext : ∀ outcome, Serves (next outcome)) : Serves (program.attempt.bind next)

theorem Serves.prudent {program : Program α} (h : program.Serves) (held : Option Arrival) :
    program.Prudent held := by
  induction h generalizing held with
  | done result => trivial
  | operation h _ ih => exact (h.prudent held).attempt.bind (fun outcome held => ih outcome held)

end Program

end RankExchange
