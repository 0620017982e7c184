import RankExchange.Proofs.Arrivals
import RankExchange.Proofs.UnseenChanges
import RankExchange.Proofs.LastMember

/-!
# What a queue serves to a program

A rank that only looks for messages and takes them is served by the messages that wait for
it, in the order in which they arrive.  Which order that is depends on how it happens to
look at its channels, but each order is possible, and whatever the rank comes to is what
one of them serves; if all orders bring it to an end, it does come to one.
-/

namespace RankExchange

def Message.fill (message : Message) (length : Nat) : Except Fault (Buffer length) :=
  if h : message.payload.length = length then .ok ⟨message.payload, h⟩
  else .error (.transport .receive (.misfit message.payload.length length))

theorem Group.receive_fill (group : Group) {rank length : Nat} {wanted : Wanted}
    {message : Message} :
    (group.receive rank wanted message length).1 = message.fill length := by
  unfold receive Message.fill
  split <;> rfl

/-- An action of a rank that sends nothing and keeps its member. -/
def Action.Hears : Action → Prop
  | .call (.probe _) => True
  | .call (.receive _ _ _) => True
  | .call _ => False
  | .spawn posts => posts = []
  | _ => True

def Program.Hears {α : Type} : Program α → Prop
  | .done _ => True
  | .act action next => action.Hears ∧ ∀ answer, (next answer).Hears

/-- What a search in a queue leads to: with a message, or without one if nobody is left who
could send it. -/
def Wanted.serve {γ : Type} (wanted : Wanted) (alone own : Bool) (queue : List Message)
    (found : Message → Option γ) (deserted : Option γ) : Option γ :=
  match queue.find? wanted.accepts with
  | some message => found message
  | none => if alone && !own then deserted else none

namespace Program

variable {α β : Type}

/-- What a program comes to over a queue, and what it leaves of it; nothing if it waits for
a message that is not there. -/
def serve (rank size : Nat) (alone : Bool) :
    Program α → List Message → Option (Except Fault α × List Message)
  | .done result, queue => some (result, queue)
  | .act (.log _) next, queue => (next ()).serve rank size alone queue
  | .act (.reserve _) next, queue => (next (.ok ())).serve rank size alone queue
  | .act (.spawn _) next, queue => (next ()).serve rank size alone queue
  | .act .join next, queue => (next (.ok ())).serve rank size alone queue
  | .act (.call (.probe tag)) next, queue =>
      Wanted.serve { tag } alone (decide (size = 1)) queue
        (fun message => (next (.ok message.arrival)).serve rank size alone queue)
        ((next (.error (.transport .probe (.deserted rank)))).serve rank size alone queue)
  | .act (.call (.receive source tag length)) next, queue =>
      Wanted.serve ⟨tag, some source⟩ alone (decide (source = rank)) queue
        (fun message => (next (message.fill length)).serve rank size alone
          (queue.eraseP (Wanted.accepts ⟨tag, some source⟩)))
        ((next (.error (.transport .receive (.deserted rank)))).serve rank size alone queue)
  | .act (.call _) _, _ => none

def proceed (rank size : Nat) (alone : Bool) (f : α → Program β)
    (served : Except Fault α × List Message) : Option (Except Fault β × List Message) :=
  match served.1 with
  | .ok value => (f value).serve rank size alone served.2
  | .error fault => some (.error fault, served.2)

end Program

theorem Wanted.bind_serve {γ δ : Type} (wanted : Wanted) (alone own : Bool)
    (queue : List Message) (found : Message → Option γ) (deserted : Option γ)
    (f : γ → Option δ) :
    (wanted.serve alone own queue found deserted).bind f =
      wanted.serve alone own queue (fun message => (found message).bind f) (deserted.bind f) := by
  unfold serve
  split
  · rfl
  · split <;> rfl

namespace Program

variable {α β : Type} {rank size : Nat} {alone : Bool}

theorem serve_bind (program : Program α) (f : α → Program β) (queue : List Message) :
    (program.bind f).serve rank size alone queue =
      (program.serve rank size alone queue).bind (proceed rank size alone f) := by
  induction program generalizing queue with
  | done result =>
      cases result <;> rfl
  | act action next ih =>
      rw [bind_act]
      cases action with
      | log => exact ih _ _
      | reserve => exact ih _ _
      | spawn => exact ih _ _
      | join => exact ih _ _
      | call request =>
          cases request with
          | probe tag =>
              simp only [serve, ih, Wanted.bind_serve]
          | receive source tag length =>
              simp only [serve, ih, Wanted.bind_serve]
          | _ => rfl

theorem serve_attempt (program : Program α) (queue : List Message) :
    program.attempt.serve rank size alone queue =
      (program.serve rank size alone queue).map (Prod.map Except.ok id) := by
  induction program generalizing queue with
  | done => rfl
  | act action next ih =>
      rw [attempt_act]
      cases action with
      | log => exact ih _ _
      | reserve => exact ih _ _
      | spawn => exact ih _ _
      | join => exact ih _ _
      | call request =>
          cases request with
          | probe tag =>
              simp only [serve, ih, Option.map_eq_bind, Wanted.bind_serve]
          | receive source tag length =>
              simp only [serve, ih, Option.map_eq_bind, Wanted.bind_serve]
          | _ => rfl

theorem Hears.bind {program : Program α} {f : α → Program β} (h : program.Hears)
    (hnext : ∀ value, (f value).Hears) : (program.bind f).Hears := by
  induction program with
  | done result =>
      cases result with
      | ok value => exact hnext value
      | error => trivial
  | act action next ih => exact ⟨h.1, fun answer => ih answer (h.2 answer)⟩

theorem Hears.attempt {program : Program α} (h : program.Hears) : program.attempt.Hears := by
  induction program with
  | done => trivial
  | act action next ih => exact ⟨h.1, fun answer => ih answer (h.2 answer)⟩

end Program

/-- A group with a running member at a rank, whose inbox is this one. -/
structure Group.Seats (group : Group) (rank size : Nat) (alone : Bool) (inbox : Inbox) :
    Prop where
  size : group.size = size
  others : group.isAlone rank = alone
  running : group.isStopped rank = false
  member : ∃ member, group.members[rank]? = some member ∧ member.inbox = inbox
  spent : inbox.Spent alone

/-- A rank that only takes what comes to it, without a helper thread. -/
structure Actor.Attentive {α : Type} (actor : Actor α) : Prop where
  hears : actor.program.Hears
  idle : actor.posts = []
  faultless : actor.failure = none

namespace Group.Seats

variable {group group' : Group} {rank size : Nat} {alone : Bool} {inbox inbox' : Inbox}

theorem lt_size (h : group.Seats rank size alone inbox) : rank < size := by
  obtain ⟨member, hmember, -⟩ := h.member
  exact h.size ▸ (List.getElem?_eq_some_iff.1 hmember).1

theorem inbox_eq (h : group.Seats rank size alone inbox) :
    group.members[rank]?.map Member.inbox = some inbox := by
  obtain ⟨member, hmember, rfl⟩ := h.member
  rw [hmember, Option.map_some]

theorem search (h : group.Seats rank size alone inbox) (wanted : Wanted) (own : Bool)
    (channel : Channel) :
    group.search rank wanted own channel = inbox.search wanted alone own channel := by
  obtain ⟨member, hmember, rfl⟩ := h.member
  unfold Group.search
  rw [hmember, h.others]

theorem of_alike (h : group.Seats rank size alone inbox) (halike : group.Alike group')
    (hinbox : ∃ member, group'.members[rank]? = some member ∧ member.inbox = inbox')
    (hspent : inbox'.Spent alone) : group'.Seats rank size alone inbox' :=
  ⟨halike.size.trans h.size, (halike.isAlone rank).trans h.others,
    (halike.isStopped rank).trans h.running, hinbox, hspent⟩

theorem putInbox (h : group.Seats rank size alone inbox) (hspent : inbox'.Spent alone) :
    (group.putInbox rank inbox').Seats rank size alone inbox' := by
  obtain ⟨member, hmember, -⟩ := h.member
  exact h.of_alike (.modify (fun _ => rfl))
    ⟨_, getElem?_members_putInbox hmember inbox', rfl⟩ hspent

theorem receive (h : group.Seats rank size alone inbox) (wanted : Wanted) (message : Message)
    (length : Nat) :
    (group.receive rank wanted message length).2.Seats rank size alone (inbox.take wanted) := by
  obtain ⟨member, hmember, rfl⟩ := h.member
  exact h.of_alike (.receive wanted message length)
    ⟨_, getElem?_taker hmember wanted message length, rfl⟩ h.spent

end Group.Seats

namespace Actor

variable {α : Type} {actor actor' : Actor α} {group group' : Group} {rank size : Nat}
  {alone own : Bool} {inbox : Inbox} {thread : Thread} {channel : Channel} {wanted : Wanted}
  {queue : List Message} {found : Group → Message → Group × Actor α} {deserted : Program α}

/-- A rank that has come so far, and whatever it is served from now on, `program` is served
in some order from the start. -/
def Heard (rank size : Nat) (alone : Bool) (inbox : Inbox) (program : Program α) (group : Group)
    (actor : Actor α) : Prop :=
  actor.Attentive ∧ ∃ later, group.Seats rank size alone later ∧
    ∀ rest, later.Arrives rest → ∃ queue, inbox.Arrives queue ∧
      program.serve rank size alone queue = actor.program.serve rank size alone rest

theorem Heard.trans {program : Program α} {later : Inbox}
    (h : ∀ rest, later.Arrives rest → ∃ queue, inbox.Arrives queue ∧
      program.serve rank size alone queue = actor.program.serve rank size alone rest)
    (h' : Heard rank size alone later actor.program group' actor') :
    Heard rank size alone inbox program group' actor' := by
  obtain ⟨hattentive, last, hseats, hserved⟩ := h'
  refine ⟨hattentive, last, hseats, fun rest hrest => ?_⟩
  obtain ⟨middle, hmiddle, heq⟩ := hserved rest hrest
  obtain ⟨queue, hqueue, heq'⟩ := h middle hmiddle
  exact ⟨queue, hqueue, heq'.trans heq⟩

/-- The rank goes on without a look at its inbox. -/
theorem heard_of_silent (hseats : group.Seats rank size alone inbox)
    (hhears : actor'.program.Hears) (hidle : actor'.posts = [])
    (hfaultless : actor'.failure = none) {program : Program α}
    (hserve : ∀ queue, program.serve rank size alone queue =
      actor'.program.serve rank size alone queue) :
    Heard rank size alone inbox program group actor' :=
  ⟨⟨hhears, hidle, hfaultless⟩, inbox, hseats, fun queue hqueue => ⟨queue, hqueue, hserve queue⟩⟩

theorem Seeks.cases (hseeks : actor.Seeks rank size wanted own found deserted)
    (hseats : group.Seats rank size alone inbox)
    (h : actor.advance group rank channel = some (group', actor')) :
    (∃ moved, inbox.search wanted alone own channel = .moved moved ∧
        group' = group.putInbox rank moved ∧ actor' = actor) ∨
      (∃ message, inbox.parked.find? wanted.accepts = some message ∧
        (group', actor') = found group message) ∨
      inbox.search wanted alone own channel = .deserted ∧ group' = group ∧
        actor' = actor.resume deserted := by
  rw [hseeks group channel hseats.size hseats.running, hseats.search] at h
  cases hsearch : inbox.search wanted alone own channel with
  | found message =>
      rw [hsearch] at h
      exact .inr (.inl ⟨message, Inbox.found_of_search hsearch, (Option.some.inj h).symm⟩)
  | moved moved =>
      rw [hsearch] at h
      cases h
      exact .inl ⟨moved, rfl, rfl, rfl⟩
  | deserted =>
      rw [hsearch] at h
      cases h
      exact .inr (.inr ⟨rfl, rfl, rfl⟩)
  | blocked =>
      rw [hsearch] at h
      cases h

theorem Seeks.heard (hseeks : actor.Seeks rank size wanted own found deserted)
    (hseats : group.Seats rank size alone inbox) (hattentive : actor.Attentive)
    (served : List Message → Message → Option (Except Fault α × List Message))
    (hserve : ∀ queue, actor.program.serve rank size alone queue =
      wanted.serve alone own queue (served queue) (deserted.serve rank size alone queue))
    (hfound : ∀ message, inbox.parked.find? wanted.accepts = some message →
      (found group message).2.Attentive ∧
        ∃ later, (found group message).1.Seats rank size alone later ∧
          ∀ rest, later.Arrives rest → ∃ queue, inbox.Arrives queue ∧ served queue message =
            (found group message).2.program.serve rank size alone rest)
    (hdeserted : deserted.Hears)
    (h : actor.advance group rank channel = some (group', actor')) :
    Heard rank size alone inbox actor.program group' actor' := by
  rcases hseeks.cases hseats h with ⟨moved, hsearch, rfl, rfl⟩ | ⟨message, hparked, heq⟩ |
    ⟨hsearch, rfl, rfl⟩
  · have hspent := Inbox.spent_search hseats.spent hsearch
    exact ⟨hattentive, moved, hseats.putInbox hspent,
      fun queue hqueue => ⟨queue, hqueue.of_search hsearch, rfl⟩⟩
  · obtain ⟨hattentive', later, hseats', hserved⟩ := hfound message hparked
    rw [← heq] at hattentive' hseats' hserved
    refine ⟨hattentive', later, hseats', fun rest hrest => ?_⟩
    obtain ⟨queue, hqueue, hserved⟩ := hserved rest hrest
    refine ⟨queue, hqueue, ?_⟩
    rw [hserve, ← hserved]
    unfold Wanted.serve
    rw [hqueue.find?_of_parked hparked]
  · obtain ⟨rfl, rfl, hnone⟩ := Inbox.of_search_deserted hseats.spent hsearch
    refine ⟨⟨hdeserted, hattentive.idle, hattentive.faultless⟩, inbox, hseats,
      fun queue hqueue => ⟨queue, hqueue, ?_⟩⟩
    rw [hserve]
    unfold Wanted.serve
    rw [hnone queue hqueue]
    rfl

theorem Attentive.resume (h : actor.Attentive) {program : Program α} (hhears : program.Hears) :
    (actor.resume program).Attentive :=
  ⟨hhears, h.idle, h.faultless⟩

theorem Attentive.heard (hattentive : actor.Attentive)
    (hseats : group.Seats rank size alone inbox)
    (hturn : actor.turn group rank thread = some (group', actor')) :
    Heard rank size alone inbox actor.program group' actor' := by
  cases thread with
  | helper =>
      rw [turn_helper hattentive.idle] at hturn
      cases hturn
  | main channel =>
      change actor.advance group rank channel = _ at hturn
      have hadvance := hturn
      have hhears := hattentive.hears
      unfold advance at hturn
      cases hprogram : actor.program with
      | done result =>
          rw [hprogram] at hturn
          cases hturn
      | act action next =>
          rw [hprogram] at hturn hhears
          obtain ⟨haction, hnext⟩ := hhears
          cases action with
          | log event =>
              cases hturn
              refine heard_of_silent hseats ?_ ?_ ?_ (fun _ => rfl)
              exacts [hnext _, hattentive.idle, hattentive.faultless]
          | reserve length =>
              cases hturn
              refine heard_of_silent hseats ?_ ?_ ?_ (fun _ => rfl)
              exacts [hnext _, hattentive.idle, hattentive.faultless]
          | spawn posts =>
              simp only [hattentive.idle, List.isEmpty_nil, if_true] at hturn
              cases hturn
              refine heard_of_silent hseats ?_ ?_ ?_ (fun _ => rfl)
              exacts [hnext _, haction, rfl]
          | join =>
              simp only [hattentive.idle, List.isEmpty_nil, if_true, outcome,
                hattentive.faultless] at hturn
              cases hturn
              refine heard_of_silent hseats ?_ ?_ ?_ (fun _ => rfl)
              exacts [hnext _, hattentive.idle, rfl]
          | call request =>
              rw [← hprogram]
              cases request with
              | probe tag =>
                  refine (seeks_probe hprogram).heard hseats hattentive
                    (fun queue message => (next (.ok message.arrival)).serve rank size alone queue)
                    (fun queue => ?_) (fun message _ => ?_) (hnext _) hadvance
                  · rw [hprogram]
                    exact rfl
                  · exact ⟨hattentive.resume (hnext _), inbox, hseats,
                      fun queue hqueue => ⟨queue, hqueue, rfl⟩⟩
              | receive source tag length =>
                  refine (seeks_receive hprogram).heard hseats hattentive
                    (fun queue message => (next (message.fill length)).serve rank size alone
                      (queue.eraseP (Wanted.accepts ⟨tag, some source⟩)))
                    (fun queue => ?_) (fun message hparked => ?_) (hnext _) hadvance
                  · rw [hprogram]
                    exact rfl
                  · refine ⟨hattentive.resume (hnext _), _, hseats.receive _ message length,
                      fun rest hrest => ?_⟩
                    obtain ⟨queue, hqueue, rfl⟩ := hrest.of_take hparked
                    refine ⟨queue, hqueue, ?_⟩
                    rw [← Group.receive_fill group]
                    exact rfl
              | _ => exact haction.elim

/-- The next step of a rank in a search that has an end in some order of arrival. -/
theorem Seeks.exists_turn (hseeks : actor.Seeks rank size wanted own found deserted)
    (hseats : group.Seats rank size alone inbox) (hqueue : inbox.Arrives queue)
    (served : Message → Option (Except Fault α × List Message))
    {ending : Except Fault α × List Message}
    (hserve : actor.program.serve rank size alone queue = some ending)
    (heq : actor.program.serve rank size alone queue =
      wanted.serve alone own queue served (deserted.serve rank size alone queue))
    (hfound : ∀ message, inbox.parked.find? wanted.accepts = some message →
      ∃ later rest, (found group message).1.Seats rank size alone later ∧ later.Arrives rest ∧
        served message = (found group message).2.program.serve rank size alone rest) :
    ∃ channel group' actor' later rest, actor.advance group rank channel = some (group', actor') ∧
      group'.Seats rank size alone later ∧ later.Arrives rest ∧
      actor'.program.serve rank size alone rest = some ending := by
  have hends : (queue.find? wanted.accepts).isSome = true ∨ alone = true ∧ own = false := by
    rw [heq] at hserve
    unfold Wanted.serve at hserve
    cases hfind : queue.find? wanted.accepts with
    | some message => exact .inl rfl
    | none =>
        rw [hfind] at hserve
        cases alone <;> cases own <;> simp_all
  have hadvance : ∀ channel, actor.advance group rank channel =
      (inbox.search wanted alone own channel).turn group rank actor (found group) deserted := by
    intro channel
    rw [hseeks group channel hseats.size hseats.running, hseats.search]
  rcases hqueue.exists_search hseats.spent hends with ⟨message, hparked⟩ |
    ⟨channel, moved, hsearch, hmoved⟩ | hsearch
  · obtain ⟨later, rest, hseats', hrest, hsame⟩ := hfound message hparked
    refine ⟨.remote, _, (found group message).2, later, rest, ?_, hseats', hrest, ?_⟩
    · rw [hadvance, Inbox.search_found_of_parked alone own .remote hparked]
      rfl
    · rw [← hsame, ← hserve, heq]
      unfold Wanted.serve
      rw [hqueue.find?_of_parked hparked]
  · refine ⟨channel, _, _, moved, queue, ?_, hseats.putInbox ?_, hmoved, hserve⟩
    · rw [hadvance, hsearch]
      rfl
    · exact Inbox.spent_search hseats.spent hsearch
  · obtain ⟨rfl, rfl, hnone⟩ := Inbox.of_search_deserted hseats.spent hsearch
    refine ⟨.remote, group, actor.resume deserted, inbox, queue, ?_, hseats, hqueue, ?_⟩
    · rw [hadvance, hsearch]
      rfl
    · rw [← hserve, heq]
      unfold Wanted.serve
      rw [hnone queue hqueue]
      rfl

/-- A rank that is served to its end in some order of arrival can take a step towards it. -/
theorem Attentive.exists_turn (hattentive : actor.Attentive)
    (hseats : group.Seats rank size alone inbox) (hqueue : inbox.Arrives queue)
    {ending : Except Fault α × List Message}
    (hserve : actor.program.serve rank size alone queue = some ending)
    (hresult : actor.result? = none) :
    ∃ channel group' actor' later rest, actor.advance group rank channel = some (group', actor') ∧
      group'.Seats rank size alone later ∧ later.Arrives rest ∧
      actor'.program.serve rank size alone rest = some ending := by
  have hhears := hattentive.hears
  have hsilent : ∀ actor' : Actor α,
      actor.advance group rank .remote = some (group, actor') →
      actor'.program.serve rank size alone queue = actor.program.serve rank size alone queue →
      ∃ channel group' actor' later rest,
        actor.advance group rank channel = some (group', actor') ∧
        group'.Seats rank size alone later ∧ later.Arrives rest ∧
        actor'.program.serve rank size alone rest = some ending :=
    fun actor' hadvance hsame =>
      ⟨.remote, group, actor', inbox, queue, hadvance, hseats, hqueue, hsame.trans hserve⟩
  cases hprogram : actor.program with
  | done result =>
      unfold result? at hresult
      rw [hprogram] at hresult
      cases hresult
  | act action next =>
      rw [hprogram] at hhears
      obtain ⟨haction, hnext⟩ := hhears
      cases action with
      | log event =>
          refine hsilent { actor.resume (next ()) with trail := event :: actor.trail } ?_ ?_
          · unfold advance
            rw [hprogram]
          · rw [hprogram]
            rfl
      | reserve length =>
          refine hsilent (actor.resume (next (.ok ()))) ?_ ?_
          · unfold advance
            rw [hprogram]
          · rw [hprogram]
            rfl
      | spawn posts =>
          refine hsilent
            { actor.resume (next ()) with posts, ticket := none, failure := none } ?_ ?_
          · unfold advance
            rw [hprogram]
            simp only [hattentive.idle, List.isEmpty_nil, if_true]
          · rw [hprogram]
            rfl
      | join =>
          refine hsilent { actor.resume (next (.ok ())) with failure := none } ?_ ?_
          · unfold advance
            rw [hprogram]
            simp only [hattentive.idle, List.isEmpty_nil, if_true, outcome,
              hattentive.faultless]
          · rw [hprogram]
            rfl
      | call request =>
          cases request with
          | probe tag =>
              refine (seeks_probe hprogram).exists_turn hseats hqueue
                (fun message => (next (.ok message.arrival)).serve rank size alone queue)
                (hprogram ▸ hserve) ?_ (fun message _ => ⟨inbox, queue, hseats, hqueue, rfl⟩)
              rw [hprogram]
              exact rfl
          | receive source tag length =>
              refine (seeks_receive hprogram).exists_turn hseats hqueue
                (fun message => (next (message.fill length)).serve rank size alone
                  (queue.eraseP (Wanted.accepts ⟨tag, some source⟩)))
                (hprogram ▸ hserve) ?_ (fun message hparked => ?_)
              · rw [hprogram]
                exact rfl
              · refine ⟨_, _, hseats.receive _ message length, hqueue.take hparked, ?_⟩
                rw [← Group.receive_fill group]
                exact rfl
          | _ => exact haction.elim

end Actor

namespace World

variable {α : Type} {group after : Group} {rank size : Nat} {alone : Bool} {inbox : Inbox}
  {program : Program α} {queue : List Message} {result : Except Fault α} {last : World α}

theorem attentive_of_hears (hhears : program.Hears) : Actor.Attentive { program } :=
  ⟨hhears, rfl, rfl⟩

/-- Wherever a rank has come to that only takes what comes to it, it has been served in
some order of arrival. -/
theorem heard_of_reaches (hseats : group.Seats rank size alone inbox) (hhears : program.Hears)
    (h : (assign group [(rank, program)]).Reaches last) :
    ∃ group' actor', last = solo size group' rank actor' ∧
      Actor.Heard rank size alone inbox program group' actor' := by
  rw [assign_singleton, hseats.size] at h
  refine exists_solo_of_reaches hseats.lt_size ?_ ?_ h
  · rintro group actor thread group' actor' ⟨hattentive, later, hseats', hserved⟩ hturn
    exact (hattentive.heard hseats' hturn).trans hserved
  · exact ⟨attentive_of_hears hhears, inbox, hseats, fun queue hqueue => ⟨queue, hqueue, rfl⟩⟩

/-- What a rank comes to is what it is served in some order of arrival, and every order that
is still open then goes on from one that was open before. -/
theorem served_of_concludes (hseats : group.Seats rank size alone inbox)
    (hhears : program.Hears) (h : (assign group [(rank, program)]).Concludes rank result after) :
    ∃ later, after.Seats rank size alone later ∧ ∀ rest, later.Arrives rest →
      ∃ queue, inbox.Arrives queue ∧
        program.serve rank size alone queue = some (result, rest) := by
  obtain ⟨last, hreaches, hresult, rfl⟩ := h
  obtain ⟨group', actor', rfl, -, later, hseats', hserved⟩ :=
    heard_of_reaches hseats hhears hreaches
  rw [result?_solo hseats.lt_size] at hresult
  refine ⟨later, hseats', fun rest hrest => ?_⟩
  obtain ⟨queue, hqueue, hserve⟩ := hserved rest hrest
  refine ⟨queue, hqueue, ?_⟩
  rw [hserve, Actor.program_of_result hresult]
  rfl

/-- In every order of arrival that serves a program to its end, it may come to that end. -/
theorem concludes_of_served (hseats : group.Seats rank size alone inbox)
    (hhears : program.Hears) (hqueue : inbox.Arrives queue) {rest : List Message}
    (h : program.serve rank size alone queue = some (result, rest)) :
    ∃ after later, (assign group [(rank, program)]).Concludes rank result after ∧
      after.Seats rank size alone later ∧ later.Arrives rest := by
  have hwf : WellFounded (fun after before : World α => WellFoundedRelation.rel after before) :=
    WellFoundedRelation.wf
  have hgoes : ∀ (world : World α) group actor inbox queue, world = solo size group rank actor →
      actor.Attentive → group.Seats rank size alone inbox → inbox.Arrives queue →
      actor.program.serve rank size alone queue = some (result, rest) →
      ∃ after later, world.Concludes rank result after ∧ after.Seats rank size alone later ∧
        later.Arrives rest := by
    intro world
    -- Every step towards the end leaves a world that is nearer to it.
    induction world using hwf.induction with
    | _ world ih =>
      rintro group actor inbox queue rfl hattentive hseats hqueue hserve
      cases hresult : actor.result? with
      | some ending =>
          rw [Actor.program_of_result hresult] at hserve
          cases hserve
          refine ⟨group, inbox, ⟨_, .refl _, ?_, rfl⟩, hseats, hqueue⟩
          rw [result?_solo hseats.lt_size, hresult]
      | none =>
          obtain ⟨channel, group', actor', later, queue', hadvance, hseats', hqueue', hserve'⟩ :=
            hattentive.exists_turn hseats hqueue hserve hresult
          have hturn : actor.turn group rank (.main channel) = some (group', actor') := hadvance
          have hstep := step_solo hseats.lt_size hturn
          obtain ⟨after, last, ⟨world, hreaches, hending, hafter⟩, hlast⟩ :=
            ih _ (rel_of_reaches hstep (.refl _)) group' actor' later queue' rfl
              (hattentive.heard hseats hturn).1 hseats' hqueue' hserve'
          exact ⟨after, last, ⟨world, .step _ hstep hreaches, hending, hafter⟩, hlast⟩
  rw [assign_singleton, hseats.size]
  exact hgoes _ group _ inbox queue rfl (attentive_of_hears hhears) hseats hqueue h

/-- A program that is served to its end in every order of arrival comes to one. -/
theorem finishes_of_served (hseats : group.Seats rank size alone inbox)
    (hhears : program.Hears)
    (h : ∀ queue, inbox.Arrives queue → (program.serve rank size alone queue).isSome = true) :
    (assign group [(rank, program)]).Finishes := by
  refine finishes_of_reaches (fun last hreaches => ?_)
  obtain ⟨group', actor', rfl, hattentive, later, hseats', hserved⟩ :=
    heard_of_reaches hseats hhears hreaches
  rw [isDone_solo hseats.lt_size]
  cases hresult : actor'.result? with
  | some result => exact .inl rfl
  | none =>
      right
      obtain ⟨queue, hqueue, hsame⟩ := hserved _ later.arrives_waiting
      have hserve := h queue hqueue
      rw [hsame] at hserve
      obtain ⟨ending, hserve⟩ := Option.isSome_iff_exists.1 hserve
      obtain ⟨channel, group'', actor'', -, -, hadvance, -⟩ :=
        hattentive.exists_turn hseats' later.arrives_waiting hserve hresult
      have hturn : actor'.turn group' rank (.main channel) = some (group'', actor'') := hadvance
      exact ⟨_, _, step_solo hseats.lt_size hturn⟩

end World

end RankExchange
