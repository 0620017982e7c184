import RankExchange.Event

/-!
# Programs of a rank

What a rank does is a tree: at each node it asks its transport for something,
reports an event, makes room for a buffer, or starts or awaits a helper thread,
and the answer chooses the branch.  A leaf is the result.  Who answers, and in which order the ranks
of a group take their turns, is left open, so one program runs alone, against a
script, or in a group under any schedule.
-/

namespace RankExchange

/-- The bytes of a receive buffer, which has its length before the message. -/
abbrev Buffer (length : Nat) := { bytes : Bytes // bytes.length = length }

structure Identity where
  rank : Nat
  size : Nat
  deriving DecidableEq, Repr

inductive Request
  | identify
  | init (required : Threading)
  | finalize
  | barrier
  | send (dest : Nat) (tag : Tag) (payload : Bytes)
  | probe (tag : Tag)
  | receive (source : Nat) (tag : Tag) (length : Nat)
  | leave
  deriving DecidableEq, Repr

abbrev Request.Answer : Request → Type
  | .identify => Identity
  | .init _ => Except Fault Threading
  | .finalize => Except Fault Unit
  | .barrier => Except Fault Unit
  | .send _ _ _ => Except Fault Unit
  | .probe _ => Except Fault Arrival
  | .receive _ _ length => Except Fault (Buffer length)
  | .leave => Unit

inductive Action
  | call (request : Request)
  | log (event : Event)
  | reserve (length : Nat)
  /-- Starts the helper thread, which sends the envelopes one after the other
  and stops at the first that fails. -/
  | spawn (posts : List Envelope)
  | join

abbrev Action.Answer : Action → Type
  | .call request => request.Answer
  | .log _ => Unit
  | .reserve _ => Except Fault Unit
  | .spawn _ => Unit
  | .join => Except Fault Unit

inductive Program (α : Type)
  | done (result : Except Fault α)
  | act (action : Action) (next : action.Answer → Program α)

namespace Program

variable {α β γ : Type}

protected def bind : Program α → (α → Program β) → Program β
  | .done (.ok value), f => f value
  | .done (.error fault), _ => .done (.error fault)
  | .act action next, f => .act action (fun answer => (next answer).bind f)

instance : Monad Program where
  pure value := .done (.ok value)
  bind := Program.bind

instance : MonadLift (Except Fault) Program := ⟨.done⟩

def raise (fault : Fault) : Program α :=
  .done (.error fault)

/-- Runs a program to its end and hands its outcome on, a fault included. -/
def attempt : Program α → Program (Except Fault α)
  | .done result => .done (.ok result)
  | .act action next => .act action (fun answer => (next answer).attempt)

def identify : Program Identity :=
  .act (.call .identify) pure

def init (required : Threading) : Program Threading :=
  .act (.call (.init required)) .done

def finalize : Program Unit :=
  .act (.call .finalize) .done

def barrier : Program Unit :=
  .act (.call .barrier) .done

def send (dest : Nat) (tag : Tag) (payload : Bytes) : Program Unit :=
  .act (.call (.send dest tag payload)) .done

def probe (tag : Tag) : Program Arrival :=
  .act (.call (.probe tag)) .done

def receive (source : Nat) (tag : Tag) (length : Nat) : Program (Buffer length) :=
  .act (.call (.receive source tag length)) .done

def leave : Program Unit :=
  .act (.call .leave) pure

def log (event : Event) : Program Unit :=
  .act (.log event) pure

def reserve (length : Nat) : Program Unit :=
  .act (.reserve length) .done

def spawn (posts : List Envelope) : Program Unit :=
  .act (.spawn posts) pure

def join : Program Unit :=
  .act .join .done

@[simp] theorem pure_eq (value : α) : (pure value : Program α) = .done (.ok value) := rfl

@[simp] theorem bind_eq (program : Program α) (f : α → Program β) :
    program >>= f = program.bind f := rfl

@[simp] theorem bind_done_ok (value : α) (f : α → Program β) :
    (Program.done (.ok value)).bind f = f value := rfl

@[simp] theorem bind_done_error (fault : Fault) (f : α → Program β) :
    (Program.done (.error fault)).bind f = .done (.error fault) := rfl

@[simp] theorem bind_act (action : Action) (next : action.Answer → Program α)
    (f : α → Program β) :
    (Program.act action next).bind f = .act action (fun answer => (next answer).bind f) := rfl

theorem bind_pure (program : Program α) : program.bind pure = program := by
  induction program with
  | done result => cases result <;> rfl
  | act action next ih => simp only [bind_act, ih]

theorem bind_assoc (program : Program α) (f : α → Program β) (g : β → Program γ) :
    (program.bind f).bind g = program.bind (fun value => (f value).bind g) := by
  induction program with
  | done result => cases result <;> rfl
  | act action next ih => simp only [bind_act, ih]

@[simp] theorem attempt_done (result : Except Fault α) :
    (Program.done result).attempt = .done (.ok result) := rfl

@[simp] theorem attempt_act (action : Action) (next : action.Answer → Program α) :
    (Program.act action next).attempt = .act action (fun answer => (next answer).attempt) := rfl

instance : LawfulMonad Program :=
  LawfulMonad.mk' Program bind_pure (fun _ _ => rfl) bind_assoc

end Program

end RankExchange
