import Mathlib.Control.Monad.Basic
import RankExchange.Proofs.ScriptSteps

/-!
# Ledgers

A ledger says what the steps of a run have done with messages, in order: which
were queued and where, what the probes and receives were answered, which sends
that waited have returned, and what was lost when a member left.  `StepEffect` lists
all that one step of one thread can do, whatever program its rank runs.
-/

namespace RankExchange

inductive Deed
  | queued (dest : Nat) (message : Message)
  | returned (source ticket : Nat) (answer : Except Fault Unit)
  | probed (rank : Nat) (tag : Tag) (answer : Except Fault Arrival)
  /-- A receive has been answered, with the bytes of its buffer; `taken` is what it
  took out of the inbox. -/
  | received (rank source : Nat) (tag : Tag) (length : Nat) (taken : Option Message)
      (answer : Except Fault Bytes)
  | dropped (rank : Nat) (message : Message)
  deriving DecidableEq, Repr

namespace Group

def waitingAt (group : Group) (rank : Nat) : List Message :=
  match group.members[rank]? with
  | none => []
  | some member => member.inbox.waiting

theorem waitingAt_of_getElem? {group : Group} {rank : Nat} {member : Member}
    (h : group.members[rank]? = some member) : group.waitingAt rank = member.inbox.waiting := by
  unfold waitingAt
  rw [h]

theorem waitingAt_of_none {group : Group} {rank : Nat} (h : group.members[rank]? = none) :
    group.waitingAt rank = [] := by
  unfold waitingAt
  rw [h]

/-- What a send does next: it queues its message, or returns with its receipt. -/
def postingDeeds (group : Group) (rank : Nat) : Envelope × Option Nat → List Deed
  | (post, none) =>
      match group.enqueue rank post.peer post.tag post.payload with
      | .error _ => []
      | .ok (_, ticket) => [.queued post.peer ⟨rank, post.tag, post.payload, ticket⟩]
  | (post, some ticket) =>
      match group.confirmation post.peer ticket with
      | none => []
      | some answer => [.returned rank ticket answer]

def probeDeeds (group : Group) (rank : Nat) (tag : Tag) (channel : Channel) : List Deed :=
  if group.isStopped rank then [.probed rank tag (.error (.transport .probe .stopped))]
  else
    match group.search rank { tag } (group.size = 1) channel with
    | .found message => [.probed rank tag (.ok message.arrival)]
    | .deserted => [.probed rank tag (.error (.transport .probe (.deserted rank)))]
    | .moved _ => []
    | .blocked => []

def receiveDeeds (group : Group) (rank source : Nat) (tag : Tag) (length : Nat)
    (channel : Channel) : List Deed :=
  if group.isStopped rank then
    [.received rank source tag length none (.error (.transport .receive .stopped))]
  else
    match group.search rank { tag, source } (source = rank) channel with
    | .found message =>
        [.received rank source tag length (some message)
          ((group.receive rank { tag, source } message length).1.map Subtype.val)]
    | .deserted =>
        [.received rank source tag length none (.error (.transport .receive (.deserted rank)))]
    | .moved _ => []
    | .blocked => []

end Group

namespace Actor

variable {α : Type}

/-- What the next step of a thread does with messages. -/
def deeds (actor : Actor α) (group : Group) (rank : Nat) (thread : Thread) : List Deed :=
  match actor.posting? thread with
  | some posting => group.postingDeeds rank posting
  | none =>
      match thread, actor.program with
      | .main channel, .act (.call (.probe tag)) _ => group.probeDeeds rank tag channel
      | .main channel, .act (.call (.receive source tag length)) _ =>
          group.receiveDeeds rank source tag length channel
      | .main _, .act (.call .leave) _ => (group.waitingAt rank).map (.dropped rank)
      | _, _ => []

/-- The send that waits for its receipt on the main thread or on the helper thread. -/
def awaiting (actor : Actor α) (helping : Bool) : Option (Envelope × Nat) :=
  match actor.posting? (bif helping then .helper else .main .remote) with
  | some (post, some ticket) => some (post, ticket)
  | _ => none

end Actor

namespace World

variable {α : Type}

def deeds (world : World α) (move : Move) : List Deed :=
  match world.actors[move.rank]? with
  | none => []
  | some actor => actor.deeds world.group move.rank move.thread

/-- A run and what has been done in it. -/
inductive Records (first : World α) : List Deed → World α → Prop
  | start : Records first [] first
  | step {ledger : List Deed} {world next : World α} (move : Move)
      (h : Records first ledger world) (hstep : world.step move = some next) :
      Records first (ledger ++ world.deeds move) next

/-- Takes the steps of a schedule and keeps the ledger. -/
def recorded (world : World α) (ledger : List Deed) : List Move → Option (List Deed × World α)
  | [] => some (ledger, world)
  | move :: rest =>
      (world.step move).bind (fun next => next.recorded (ledger ++ world.deeds move) rest)

theorem Records.recorded {first world last : World α} {ledger ledger' : List Deed}
    {moves : List Move} (h : first.Records ledger world)
    (hmoves : world.recorded ledger moves = some (ledger', last)) :
    first.Records ledger' last := by
  induction moves generalizing world ledger with
  | nil =>
      cases hmoves
      exact h
  | cons move moves ih =>
      obtain ⟨next, hstep, hrest⟩ := Option.bind_eq_some_iff.1 hmoves
      exact ih (.step move h hstep) hrest

theorem reaches_iff_records {first last : World α} :
    first.Reaches last ↔ ∃ ledger, first.Records ledger last := by
  constructor
  · intro h
    have hgoesOn : ∀ {world : World α}, world.Reaches last → ∀ ledger,
        first.Records ledger world → ∃ ledger, first.Records ledger last := by
      intro world hreaches
      induction hreaches with
      | refl => exact fun ledger hrecords => ⟨ledger, hrecords⟩
      | step move hstep _ ih => exact fun ledger hrecords => ih h _ (hrecords.step move hstep)
    exact hgoesOn h [] .start
  · rintro ⟨ledger, h⟩
    induction h with
    | start => exact .refl _
    | step move _ hstep ih => exact ih.trans (.step move hstep (.refl _))

end World

def Thread.isHelper : Thread → Bool
  | .main _ => false
  | .helper => true

/-- Whether an action looks for no message and gives nothing up. -/
def Action.isPlain : Action → Bool
  | .call (.probe _) => false
  | .call (.receive _ _ _) => false
  | .call .finalize => false
  | .call .leave => false
  | _ => true

/-- A program has stayed where it was, or has gone on after a plain action. -/
inductive Program.Continues {α : Type} (program : Program α) : Program α → Prop
  | same : Continues program program
  | next {action : Action} {next : action.Answer → Program α}
      (hprogram : program = .act action next) (hplain : action.isPlain = true)
      (answer : action.Answer) : Continues program (next answer)

/-- What one step of a thread can do, and the deeds it leaves in the ledger. -/
inductive StepEffect {α : Type} (group : Group) (rank : Nat) (actor : Actor α) (thread : Thread) :
    List Deed → Group → Actor α → Prop
  | rests {group' : Group} {actor' : Actor α} (hmembers : group'.members = group.members)
      (hreceipts : group'.receipts = group.receipts)
      (hdelivery : group'.delivery = group.delivery)
      (hprogram : actor.program.Continues actor'.program)
      (hawaiting : actor'.awaiting = actor.awaiting) :
      StepEffect group rank actor thread [] group' actor'
  | stops {next : Except Fault Unit → Program α} {actor' : Actor α}
      (hprogram : actor.program = .act (.call .finalize) next)
      (hprogram' : actor'.program = next (.ok ()))
      (hawaiting : actor'.awaiting = actor.awaiting) :
      StepEffect group rank actor thread [] (group.finalize rank) actor'
  | parks {wanted : Wanted} {own : Bool} {channel : Channel} {inbox : Inbox}
      (hsearch : group.search rank wanted own channel = .moved inbox) :
      StepEffect group rank actor thread [] (group.putInbox rank inbox) actor
  | queues {post : Envelope} {ticket : Option Nat} {group' : Group} {actor' : Actor α}
      (henqueue : group.enqueue rank post.peer post.tag post.payload = .ok (group', ticket))
      (hprogram : actor.program.Continues actor'.program)
      (hbefore : actor.awaiting thread.isHelper = none)
      (hafter : actor'.awaiting thread.isHelper = ticket.map (fun ticket => (post, ticket)))
      (hother : actor'.awaiting (!thread.isHelper) = actor.awaiting (!thread.isHelper)) :
      StepEffect group rank actor thread [.queued post.peer ⟨rank, post.tag, post.payload, ticket⟩]
        group' actor'
  | returns {post : Envelope} {ticket : Nat} {answer : Except Fault Unit} {actor' : Actor α}
      (hconfirmation : group.confirmation post.peer ticket = some answer)
      (hprogram : actor.program.Continues actor'.program)
      (hbefore : actor.awaiting thread.isHelper = some (post, ticket))
      (hafter : actor'.awaiting thread.isHelper = none)
      (hother : actor'.awaiting (!thread.isHelper) = actor.awaiting (!thread.isHelper)) :
      StepEffect group rank actor thread [.returned rank ticket answer] group actor'
  | finds {tag : Tag} {message : Message} {member : Member}
      {next : Except Fault Arrival → Program α} {actor' : Actor α}
      (hprogram : actor.program = .act (.call (.probe tag)) next)
      (hmember : group.members[rank]? = some member)
      (hfound : member.inbox.parked.find? (Wanted.accepts { tag }) = some message)
      (hprogram' : actor'.program = next (.ok message.arrival))
      (hawaiting : actor'.awaiting = actor.awaiting) :
      StepEffect group rank actor thread [.probed rank tag (.ok message.arrival)] group actor'
  | misses {tag : Tag} {fault : Fault} {next : Except Fault Arrival → Program α}
      {actor' : Actor α} (hprogram : actor.program = .act (.call (.probe tag)) next)
      (hfault : (group.isStopped rank = true ∧ fault = .transport .probe .stopped) ∨
        ∃ channel, group.search rank { tag } (group.size = 1) channel = .deserted ∧
          fault = .transport .probe (.deserted rank))
      (hprogram' : actor'.program = next (.error fault))
      (hawaiting : actor'.awaiting = actor.awaiting) :
      StepEffect group rank actor thread [.probed rank tag (.error fault)] group actor'
  | takes {source : Nat} {tag : Tag} {length : Nat} {message : Message} {member : Member}
      {next : Except Fault (Buffer length) → Program α} {actor' : Actor α}
      (hprogram : actor.program = .act (.call (.receive source tag length)) next)
      (hmember : group.members[rank]? = some member)
      (hfound : member.inbox.parked.find? (Wanted.accepts ⟨tag, some source⟩) = some message)
      (hprogram' : actor'.program =
        next (group.receive rank ⟨tag, some source⟩ message length).1)
      (hawaiting : actor'.awaiting = actor.awaiting) :
      StepEffect group rank actor thread
        [.received rank source tag length (some message)
          ((group.receive rank ⟨tag, some source⟩ message length).1.map Subtype.val)]
        (group.receive rank ⟨tag, some source⟩ message length).2 actor'
  | fails {source : Nat} {tag : Tag} {length : Nat} {fault : Fault}
      {next : Except Fault (Buffer length) → Program α} {actor' : Actor α}
      (hprogram : actor.program = .act (.call (.receive source tag length)) next)
      (hfault : (group.isStopped rank = true ∧ fault = .transport .receive .stopped) ∨
        ∃ channel, group.search rank ⟨tag, some source⟩ (source = rank) channel = .deserted ∧
          fault = .transport .receive (.deserted rank))
      (hprogram' : actor'.program = next (.error fault))
      (hawaiting : actor'.awaiting = actor.awaiting) :
      StepEffect group rank actor thread [.received rank source tag length none (.error fault)]
        group actor'
  | leaves {next : Unit → Program α} {actor' : Actor α}
      (hprogram : actor.program = .act (.call .leave) next)
      (hprogram' : actor'.program = next ())
      (hawaiting : actor'.awaiting = actor.awaiting) :
      StepEffect group rank actor thread ((group.waitingAt rank).map (.dropped rank))
        (group.leave rank) actor'

namespace Actor

variable {α : Type} {actor actor' : Actor α} {group group' : Group} {rank : Nat}
  {channel : Channel}

theorem posting?_main_of_not_send {action : Action} {next : action.Answer → Program α}
    (hprogram : actor.program = .act action next)
    (hsend : ∀ dest tag payload, action ≠ .call (.send dest tag payload)) (channel : Channel) :
    actor.posting? (.main channel) = none := by
  unfold posting?
  rw [hprogram]
  cases action with
  | call request =>
      cases request with
      | send dest tag payload => exact absurd rfl (hsend dest tag payload)
      | _ => rfl
  | _ => rfl

theorem deeds_of_plain {action : Action} {next : action.Answer → Program α}
    (hprogram : actor.program = .act action next)
    (hsend : ∀ dest tag payload, action ≠ .call (.send dest tag payload))
    (hplain : action.isPlain = true) : actor.deeds group rank (.main channel) = [] := by
  simp only [deeds, posting?_main_of_not_send hprogram hsend, hprogram]
  cases action with
  | call request => cases request <;> first | rfl | cases hplain
  | _ => rfl

variable {thread : Thread} {post : Envelope}

theorem deeds_of_refused {fault : Fault} (hposting : actor.posting? thread = some (post, none))
    (henqueue : group.enqueue rank post.peer post.tag post.payload = .error fault) :
    actor.deeds group rank thread = [] := by
  simp only [deeds, hposting, Group.postingDeeds, henqueue]

theorem deeds_of_begins {ticket : Option Nat}
    (hposting : actor.posting? thread = some (post, none))
    (henqueue : group.enqueue rank post.peer post.tag post.payload = .ok (group', ticket)) :
    actor.deeds group rank thread =
      [.queued post.peer ⟨rank, post.tag, post.payload, ticket⟩] := by
  simp only [deeds, hposting, Group.postingDeeds, henqueue]

theorem deeds_of_ends {ticket : Nat} {answer : Except Fault Unit}
    (hposting : actor.posting? thread = some (post, some ticket))
    (hconfirmation : group.confirmation post.peer ticket = some answer) :
    actor.deeds group rank thread = [.returned rank ticket answer] := by
  simp only [deeds, hposting, Group.postingDeeds, hconfirmation]

theorem awaiting_main_of_ready (h : actor.pause.isSending = false) :
    actor.awaiting false = none := by
  unfold awaiting
  split
  · next post ticket hposting =>
      simp only [cond_false, posting?] at hposting
      split at hposting
      · cases hposting
      · next hpause =>
          rw [hpause] at h
          cases h
      · cases hposting
  · rfl

/-- A main thread that is not sending leaves the sends of its rank as they are. -/
theorem awaiting_eq {action : Action} {next : action.Answer → Program α}
    (hprogram : actor.program = .act action next)
    (hsend : ∀ dest tag payload, action ≠ .call (.send dest tag payload))
    (hready : actor'.pause.isSending = false)
    (hhelper : actor'.awaiting true = actor.awaiting true) :
    actor'.awaiting = actor.awaiting := by
  funext helping
  cases helping with
  | true => exact hhelper
  | false =>
      rw [awaiting_main_of_ready hready]
      simp [awaiting, posting?_main_of_not_send hprogram hsend]

theorem stepEffect_of_send (post : Envelope)
    {next : (Action.call (.send post.peer post.tag post.payload)).Answer → Program α}
    (hprogram : actor.program = .act (.call (.send post.peer post.tag post.payload)) next)
    (h : actor.call group rank channel (.send post.peer post.tag post.payload) next =
      some (group', actor')) :
    StepEffect group rank actor (.main channel) (actor.deeds group rank (.main channel)) group'
      actor' := by
  have hcontinues : ∀ answer, actor.program.Continues (next answer) :=
    fun answer => .next hprogram rfl answer
  simp only [call] at h
  split at h
  · cases h
  · next ticket hpause =>
      obtain ⟨answer, hconfirmation, heq⟩ := Option.map_eq_some_iff.1 h
      cases heq
      have hposting : ∀ channel, actor.posting? (.main channel) = some (post, some ticket) := by
        intro channel
        simp only [posting?, hprogram, hpause]
      have hbefore : actor.awaiting false = some (post, ticket) := by
        simp [awaiting, hposting]
      rw [deeds_of_ends (hposting channel) hconfirmation]
      exact .returns hconfirmation (hcontinues answer) hbefore (awaiting_main_of_ready rfl) rfl
  · next hpause =>
      have hposting : ∀ channel, actor.posting? (.main channel) = some (post, none) := by
        intro channel
        simp only [posting?, hprogram, hpause]
      have hbefore : actor.awaiting false = none := by
        simp [awaiting, hposting]
      split at h
      · next fault henqueue =>
          cases h
          rw [deeds_of_refused (hposting channel) henqueue]
          refine .rests rfl rfl rfl (hcontinues _) (funext fun helping => ?_)
          cases helping with
          | true => rfl
          | false => rw [awaiting_main_of_ready rfl, hbefore]
      · next henqueue =>
          cases h
          rw [deeds_of_begins (hposting channel) henqueue]
          exact .queues henqueue (hcontinues _) hbefore (awaiting_main_of_ready rfl) rfl
      · next ticket henqueue =>
          cases h
          rw [deeds_of_begins (hposting channel) henqueue]
          refine .queues henqueue .same hbefore ?_ rfl
          simp [awaiting, posting?, hprogram, Thread.isHelper]

theorem stepEffect_of_probe {tag : Tag} {next : Except Fault Arrival → Program α}
    (hprogram : actor.program = .act (.call (.probe tag)) next)
    (h : actor.call group rank channel (.probe tag) next = some (group', actor')) :
    StepEffect group rank actor (.main channel) (actor.deeds group rank (.main channel)) group'
      actor' := by
  have hdeeds : actor.deeds group rank (.main channel) = group.probeDeeds rank tag channel := by
    simp only [deeds, posting?_main_of_not_send hprogram (by simp), hprogram]
  have hawaiting : ∀ program, (actor.resume program).awaiting = actor.awaiting :=
    fun program => awaiting_eq hprogram (by simp) rfl rfl
  rw [hdeeds]
  unfold Group.probeDeeds
  simp only [call] at h
  split at h
  · next hstopped =>
      cases h
      rw [if_pos hstopped]
      exact .misses hprogram (.inl ⟨hstopped, rfl⟩) rfl (hawaiting _)
  · next hstopped =>
      rw [if_neg hstopped]
      split at h
      · next message hsearch =>
          cases h
          obtain ⟨member, hmember, hfound⟩ := Group.search_eq_found hsearch
          rw [hsearch]
          exact .finds hprogram hmember hfound rfl (hawaiting _)
      · next hsearch =>
          cases h
          rw [hsearch]
          exact .parks hsearch
      · next hsearch =>
          cases h
          rw [hsearch]
          exact .misses hprogram (.inr ⟨channel, hsearch, rfl⟩) rfl (hawaiting _)
      · cases h

theorem stepEffect_of_receive {source length : Nat} {tag : Tag}
    {next : Except Fault (Buffer length) → Program α}
    (hprogram : actor.program = .act (.call (.receive source tag length)) next)
    (h : actor.call group rank channel (.receive source tag length) next =
      some (group', actor')) :
    StepEffect group rank actor (.main channel) (actor.deeds group rank (.main channel)) group'
      actor' := by
  have hdeeds : actor.deeds group rank (.main channel) =
      group.receiveDeeds rank source tag length channel := by
    simp only [deeds, posting?_main_of_not_send hprogram (by simp), hprogram]
  have hawaiting : ∀ program, (actor.resume program).awaiting = actor.awaiting :=
    fun program => awaiting_eq hprogram (by simp) rfl rfl
  rw [hdeeds]
  unfold Group.receiveDeeds
  simp only [call] at h
  split at h
  · next hstopped =>
      cases h
      rw [if_pos hstopped]
      exact .fails hprogram (.inl ⟨hstopped, rfl⟩) rfl (hawaiting _)
  · next hstopped =>
      rw [if_neg hstopped]
      split at h
      · next message hsearch =>
          cases h
          obtain ⟨member, hmember, hfound⟩ := Group.search_eq_found hsearch
          rw [hsearch]
          exact .takes hprogram hmember hfound rfl (hawaiting _)
      · next hsearch =>
          cases h
          rw [hsearch]
          exact .parks hsearch
      · next hsearch =>
          cases h
          rw [hsearch]
          exact .fails hprogram (.inr ⟨channel, hsearch, rfl⟩) rfl (hawaiting _)
      · cases h

theorem stepEffect_of_call_rests {request : Request} {next : request.Answer → Program α}
    (hprogram : actor.program = .act (.call request) next)
    (hquiet : (Action.call request).isQuiet = true)
    (hplain : (Action.call request).isPlain = true)
    (h : actor.call group rank channel request next = some (group', actor')) :
    StepEffect group rank actor (.main channel) [] group' actor' := by
  have hawaiting : ∀ program, (actor.resume program).awaiting = actor.awaiting := by
    intro program
    refine awaiting_eq hprogram ?_ rfl rfl
    rintro dest tag payload heq
    rw [heq] at hquiet
    cases hquiet
  have hcontinues : ∀ answer : request.Answer, actor.program.Continues (next answer) :=
    fun answer => .next hprogram hplain answer
  cases request with
  | identify =>
      cases h
      exact .rests rfl rfl rfl (hcontinues _) (hawaiting _)
  | init required =>
      simp only [call] at h
      split at h
      · cases h
      · split at h <;> cases h <;> exact .rests rfl rfl rfl (hcontinues _) (hawaiting _)
  | barrier =>
      simp only [call] at h
      split at h
      · cases h
      · split at h <;> cases h
        exact .rests rfl rfl rfl (hcontinues _) (hawaiting _)
      · split at h
        · cases h
          exact .rests rfl rfl rfl (hcontinues _) (hawaiting _)
        · split at h
          · cases h
            exact .rests rfl rfl rfl .same (awaiting_eq hprogram (by simp) rfl rfl)
          · cases h
            exact .rests rfl rfl rfl (hcontinues _) (hawaiting _)
  | send => cases hquiet
  | finalize => cases hplain
  | probe => cases hplain
  | receive => cases hplain
  | leave => cases hplain

theorem stepEffect_of_call {request : Request} {next : request.Answer → Program α}
    (hprogram : actor.program = .act (.call request) next)
    (h : actor.call group rank channel request next = some (group', actor')) :
    StepEffect group rank actor (.main channel) (actor.deeds group rank (.main channel)) group'
      actor' := by
  cases request with
  | send dest tag payload => exact stepEffect_of_send ⟨dest, tag, payload⟩ hprogram h
  | probe tag => exact stepEffect_of_probe hprogram h
  | receive source tag length => exact stepEffect_of_receive hprogram h
  | finalize =>
      cases h
      have hdeeds : actor.deeds group rank (.main channel) = [] := by
        simp only [deeds, posting?_main_of_not_send hprogram (by simp), hprogram]
      rw [hdeeds]
      exact .stops hprogram rfl (awaiting_eq hprogram (by simp) rfl rfl)
  | leave =>
      cases h
      have hdeeds : actor.deeds group rank (.main channel) =
          (group.waitingAt rank).map (.dropped rank) := by
        simp only [deeds, posting?_main_of_not_send hprogram (by simp), hprogram]
      rw [hdeeds]
      exact .leaves hprogram rfl (awaiting_eq hprogram (by simp) rfl rfl)
  | identify =>
      rw [deeds_of_plain hprogram (by simp) rfl]
      exact stepEffect_of_call_rests hprogram rfl rfl h
  | init required =>
      rw [deeds_of_plain hprogram (by simp) rfl]
      exact stepEffect_of_call_rests hprogram rfl rfl h
  | barrier =>
      rw [deeds_of_plain hprogram (by simp) rfl]
      exact stepEffect_of_call_rests hprogram rfl rfl h

theorem stepEffect_of_advance (h : actor.advance group rank channel = some (group', actor')) :
    StepEffect group rank actor (.main channel) (actor.deeds group rank (.main channel)) group'
      actor' := by
  cases hprogram : actor.program with
  | done result =>
      unfold advance at h
      rw [hprogram] at h
      cases h
  | act action next =>
      have hcontinues : action.isPlain = true → ∀ answer, actor.program.Continues (next answer) :=
        fun hplain answer => .next hprogram hplain answer
      unfold advance at h
      rw [hprogram] at h
      cases action with
      | call request => exact stepEffect_of_call hprogram h
      | log event =>
          cases h
          rw [deeds_of_plain hprogram (by simp) rfl]
          exact .rests rfl rfl rfl (hcontinues rfl ()) (awaiting_eq hprogram (by simp) rfl rfl)
      | reserve length =>
          cases h
          rw [deeds_of_plain hprogram (by simp) rfl]
          exact .rests rfl rfl rfl (hcontinues rfl _) (awaiting_eq hprogram (by simp) rfl rfl)
      | spawn posts =>
          simp only at h
          split at h
          · next hempty =>
              cases h
              rw [deeds_of_plain hprogram (by simp) rfl]
              refine .rests rfl rfl rfl (hcontinues rfl ()) (awaiting_eq hprogram (by simp) rfl ?_)
              -- The helper that has ended waits for nothing, and the new one has not begun.
              have hposts : actor.posts = [] := List.isEmpty_iff.1 hempty
              cases posts <;> simp [awaiting, posting?, hposts]
          · cases h
      | join =>
          simp only at h
          split at h
          · cases h
            rw [deeds_of_plain hprogram (by simp) rfl]
            exact .rests rfl rfl rfl (hcontinues rfl _) (awaiting_eq hprogram (by simp) rfl rfl)
          · cases h

theorem stepEffect_of_help (h : actor.help group rank = some (group', actor')) :
    StepEffect group rank actor .helper (actor.deeds group rank .helper) group' actor' := by
  unfold help at h
  split at h
  · cases h
  · next post posts hposts =>
      split at h
      · next hticket =>
          have hposting : actor.posting? .helper = some (post, none) := by
            simp only [posting?, hposts, hticket, List.head?_cons, Option.map_some]
          have hbefore : actor.awaiting true = none := by
            simp [awaiting, hposting]
          split at h
          · next henqueue =>
              cases h
              rw [deeds_of_refused hposting henqueue]
              refine .rests rfl rfl rfl .same (funext fun helping => ?_)
              cases helping with
              | false => rfl
              | true => simp [awaiting, posting?, hposts, hticket]
          · next henqueue =>
              cases h
              rw [deeds_of_begins hposting henqueue]
              refine .queues henqueue .same hbefore ?_ rfl
              cases posts <;> simp [awaiting, posting?, hticket, Thread.isHelper]
          · next ticket henqueue =>
              cases h
              rw [deeds_of_begins hposting henqueue]
              refine .queues henqueue .same hbefore ?_ rfl
              simp [awaiting, posting?, hposts, Thread.isHelper]
      · next ticket hticket =>
          have hposting : actor.posting? .helper = some (post, some ticket) := by
            simp only [posting?, hposts, hticket, List.head?_cons, Option.map_some]
          have hbefore : actor.awaiting true = some (post, ticket) := by
            simp [awaiting, hposting]
          split at h
          · cases h
          · next answer hconfirmation =>
              cases h
              rw [deeds_of_ends hposting hconfirmation]
              refine .returns hconfirmation .same hbefore ?_ rfl
              cases posts <;> simp [awaiting, posting?, Thread.isHelper]
          · next fault hconfirmation =>
              cases h
              rw [deeds_of_ends hposting hconfirmation]
              refine .returns hconfirmation .same hbefore ?_ rfl
              simp [awaiting, posting?, Thread.isHelper]

end Actor

namespace World

variable {α : Type}

theorem exists_stepEffect_of_step {world next : World α} {move : Move}
    (h : world.step move = some next) :
    ∃ actor group' actor', world.actors[move.rank]? = some actor ∧
      next = ⟨group', world.actors.set move.rank actor'⟩ ∧
      StepEffect world.group move.rank actor move.thread (world.deeds move) group' actor' := by
  obtain ⟨actor, group', actor', hactor, hnext, hthread⟩ := step_eq_some h
  refine ⟨actor, group', actor', hactor, hnext, ?_⟩
  have hdeeds : world.deeds move = actor.deeds world.group move.rank move.thread := by
    simp only [deeds, hactor]
  rw [hdeeds]
  rcases hthread with ⟨channel, hthread, hadvance⟩ | ⟨hthread, hhelp⟩
  · rw [hthread]
    exact Actor.stepEffect_of_advance hadvance
  · rw [hthread]
    exact Actor.stepEffect_of_help hhelp

end World

end RankExchange
