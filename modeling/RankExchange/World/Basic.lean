import RankExchange.Group.Basic

/-!
# Ranks at work

A world is a group in which every rank runs a program.  A rank has a main
thread and, during an exchange, a helper thread that sends.  `World.step` is
one step of one thread; a schedule is any sequence of such steps.
-/

namespace RankExchange

/-- What the current call of a main thread waits for. -/
inductive Pause
  | none
  | sending (ticket : Nat)
  | gathered (epoch : Nat)
  deriving DecidableEq, Repr

structure Actor (α : Type) where
  program : Program α
  pause : Pause := .none
  posts : List Envelope := []
  ticket : Option Nat := none
  failure : Option Fault := none
  /-- What the main thread has reported, the latest first. -/
  trail : List Event := []

structure World (α : Type) where
  group : Group
  actors : List (Actor α)

inductive Thread
  | main (channel : Channel)
  | helper
  deriving DecidableEq, Repr

structure Move where
  rank : Nat
  thread : Thread
  deriving DecidableEq, Repr

namespace Actor

variable {α : Type}

def idle : Actor α :=
  { program := .done (.error .notOpen) }

def result? (actor : Actor α) : Option (Except Fault α) :=
  match actor.program with
  | .done result => some result
  | .act _ _ => none

def resume (actor : Actor α) (program : Program α) : Actor α :=
  { actor with program, pause := .none }

def events (actor : Actor α) : List Event :=
  actor.trail.reverse

def outcome (actor : Actor α) : Except Fault Unit :=
  match actor.failure with
  | none => .ok ()
  | some fault => .error fault

/-- The call of a main thread: the group and the rank after one step of it. -/
def call (actor : Actor α) (group : Group) (rank : Nat) (channel : Channel) :
    (request : Request) → (request.Answer → Program α) → Option (Group × Actor α)
  | .identify, next => some (group, actor.resume (next ⟨rank, group.size⟩))
  | .init _, next =>
      match group.members[rank]? with
      | none => none
      | some member =>
          if member.stopped then
            some (group, actor.resume (next (.error (.transport .init .stopped))))
          else some (group, actor.resume (next (.ok member.grant)))
  | .finalize, next => some (group.finalize rank, actor.resume (next (.ok ())))
  | .barrier, next =>
      match actor.pause with
      | .sending _ => none
      | .gathered epoch =>
          if group.epoch = epoch then none else some (group, actor.resume (next (.ok ())))
      | .none =>
          if group.isStopped rank then
            some (group, actor.resume (next (.error (.transport .barrier .stopped))))
          else if group.arrived + 1 < group.size then
            some ({ group with arrived := group.arrived + 1 },
              { actor with pause := .gathered group.epoch })
          else
            some ({ group with arrived := 0, epoch := group.epoch + 1 },
              actor.resume (next (.ok ())))
  | .send dest tag payload, next =>
      match actor.pause with
      | .gathered _ => none
      | .sending ticket =>
          (group.confirmation dest ticket).map (fun answer => (group, actor.resume (next answer)))
      | .none =>
          match group.enqueue rank dest tag payload with
          | .error fault => some (group, actor.resume (next (.error fault)))
          | .ok (group, none) => some (group, actor.resume (next (.ok ())))
          | .ok (group, some ticket) => some (group, { actor with pause := .sending ticket })
  | .probe tag, next =>
      if group.isStopped rank then
        some (group, actor.resume (next (.error (.transport .probe .stopped))))
      else
        match group.search rank { tag } (group.size = 1) channel with
        | .found message => some (group, actor.resume (next (.ok message.arrival)))
        | .moved inbox => some (group.putInbox rank inbox, actor)
        | .deserted =>
            some (group, actor.resume (next (.error (.transport .probe (.deserted rank)))))
        | .blocked => none
  | .receive source tag length, next =>
      if group.isStopped rank then
        some (group, actor.resume (next (.error (.transport .receive .stopped))))
      else
        match group.search rank { tag, source } (source = rank) channel with
        | .found message =>
            let (answer, group) := group.receive rank { tag, source } message length
            some (group, actor.resume (next answer))
        | .moved inbox => some (group.putInbox rank inbox, actor)
        | .deserted =>
            some (group, actor.resume (next (.error (.transport .receive (.deserted rank)))))
        | .blocked => none
  | .leave, next => some (group.leave rank, actor.resume (next ()))

/-- One step of a main thread.  There is always room for a message of the group,
which has been in memory before. -/
def advance (actor : Actor α) (group : Group) (rank : Nat) (channel : Channel) :
    Option (Group × Actor α) :=
  match actor.program with
  | .done _ => none
  | .act (.call request) next => actor.call group rank channel request next
  | .act (.log event) next =>
      some (group, { actor.resume (next ()) with trail := event :: actor.trail })
  | .act (.reserve _) next => some (group, actor.resume (next (.ok ())))
  | .act (.spawn posts) next =>
      if actor.posts.isEmpty then
        some (group, { actor.resume (next ()) with posts, ticket := none, failure := none })
      else none
  | .act .join next =>
      if actor.posts.isEmpty then
        some (group, { actor.resume (next actor.outcome) with failure := none })
      else none

def help (actor : Actor α) (group : Group) (rank : Nat) : Option (Group × Actor α) :=
  match actor.posts with
  | [] => none
  | post :: posts =>
      match actor.ticket with
      | none =>
          match group.enqueue rank post.peer post.tag post.payload with
          | .error fault => some (group, { actor with posts := [], failure := some fault })
          | .ok (group, none) => some (group, { actor with posts })
          | .ok (group, some ticket) => some (group, { actor with ticket := some ticket })
      | some ticket =>
          match group.confirmation post.peer ticket with
          | none => none
          | some (.ok _) => some (group, { actor with posts, ticket := none })
          | some (.error fault) =>
              some (group, { actor with posts := [], ticket := none, failure := some fault })

end Actor

namespace World

variable {α : Type}

/-- A group in which some ranks have a program and the others are idle. -/
def assign (group : Group) (programs : List (Nat × Program α)) : World α where
  group := group
  actors := (List.range group.size).map (fun rank =>
    match programs.lookup rank with
    | some program => { program }
    | none => .idle)

def result? (world : World α) (rank : Nat) : Option (Except Fault α) :=
  world.actors[rank]?.bind Actor.result?

/-- One step of one thread, if it can take one. -/
def step (world : World α) (move : Move) : Option (World α) :=
  match world.actors[move.rank]? with
  | none => none
  | some actor =>
      let next := match move.thread with
        | .main channel => actor.advance world.group move.rank channel
        | .helper => actor.help world.group move.rank
      next.map (fun (group, actor) => { group, actors := world.actors.set move.rank actor })

/-- Some sequence of steps leads from one world to another. -/
inductive Reaches : World α → World α → Prop
  | refl (world : World α) : Reaches world world
  | step {first second last : World α} (move : Move) (h : first.step move = some second)
      (rest : Reaches second last) : Reaches first last

/-- Takes the steps of a schedule, if each can be taken in its turn. -/
def follow (world : World α) : List Move → Option (World α)
  | [] => some world
  | move :: rest => (world.step move).bind (fun next => next.follow rest)

def isDone (world : World α) : Bool :=
  world.actors.all (fun actor => actor.result?.isSome)

theorem Reaches.trans {first second last : World α} (h : Reaches first second)
    (h' : Reaches second last) : Reaches first last := by
  induction h with
  | refl => exact h'
  | step move hstep _ ih => exact .step move hstep (ih h')

theorem reaches_iff_follow {first last : World α} :
    Reaches first last ↔ ∃ moves, first.follow moves = some last := by
  constructor
  · intro h
    induction h with
    | refl => exact ⟨[], rfl⟩
    | step move hstep _ ih =>
        obtain ⟨moves, h⟩ := ih
        exact ⟨move :: moves, by simp [follow, hstep, h]⟩
  · rintro ⟨moves, h⟩
    induction moves generalizing first with
    | nil =>
        cases h
        exact .refl _
    | cons move moves ih =>
        obtain ⟨next, hstep, hrest⟩ := Option.bind_eq_some_iff.1 h
        exact .step move hstep (ih hrest)

end World

end RankExchange
