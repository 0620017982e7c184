import RankExchange.Proofs.LaneBalance
import RankExchange.Proofs.Confinement
import RankExchange.Proofs.SingleRankRuns

/-!
# Turns

What a rank does in one turn, with the deeds that it leaves in the ledger: one lemma
for each outcome of a call that sends or looks for messages.  Several turns of one rank
are a stretch of work, and a run may go on with one.
-/

namespace RankExchange

def Deed.tag? : Deed → Option Tag
  | .queued _ message => some message.tag
  | .returned _ _ _ => none
  | .probed _ tag _ => some tag
  | .received _ _ tag _ _ _ => some tag
  | .dropped _ message => some message.tag

theorem Group.receive_fst (group group' : Group) {rank length : Nat} {wanted : Wanted}
    {message : Message} : (group.receive rank wanted message length).1 =
      (group'.receive rank wanted message length).1 := by
  unfold receive
  split <;> rfl

namespace Actor

variable {α : Type} {rank : Nat} {group after last : Group} {actor later final : Actor α}
  {thread : Thread} {channel : Channel} {deeds rest : List Deed}

/-- A rank takes a step with one of its threads, and these are its deeds. -/
def Does (actor : Actor α) (group : Group) (rank : Nat) (thread : Thread) (deeds : List Deed)
    (after : Group) (later : Actor α) : Prop :=
  actor.turn group rank thread = some (after, later) ∧ actor.deeds group rank thread = deeds

theorem Does.unique {deeds' : List Deed} {after' : Group} {later' : Actor α}
    (h : actor.Does group rank thread deeds after later)
    (h' : actor.Does group rank thread deeds' after' later') :
    deeds' = deeds ∧ after' = after ∧ later' = later := by
  have hboth := Option.some.inj (h.1.symm.trans h'.1)
  exact ⟨h'.2.symm.trans h.2, (congrArg Prod.fst hboth).symm, (congrArg Prod.snd hboth).symm⟩

theorem turn_of_call {request : Request} {next : request.Answer → Program α}
    (hprogram : actor.program = .act (.call request) next) :
    actor.turn group rank (.main channel) = actor.call group rank channel request next := by
  unfold turn advance
  rw [hprogram]

theorem deeds_of_untagged {request : Request} {next : request.Answer → Program α}
    (hprogram : actor.program = .act (.call request) next) (hleave : request ≠ .leave)
    (htag : request.tag? = none) : actor.deeds group rank (.main channel) = [] := by
  cases request with
  | leave => exact absurd rfl hleave
  | send => cases htag
  | probe => cases htag
  | receive => cases htag
  | _ => simp only [Actor.deeds, posting?, hprogram]

theorem does_of_untagged (channel : Channel) {request : Request}
    {next : request.Answer → Program α} (hprogram : actor.program = .act (.call request) next)
    (hleave : request ≠ .leave) (htag : request.tag? = none)
    (h : actor.call group rank channel request next = some (after, later)) :
    actor.Does group rank (.main channel) [] after later :=
  ⟨(turn_of_call hprogram).trans h, deeds_of_untagged hprogram hleave htag⟩

section Alone

variable {event : Event} {length : Nat} {posts : List Envelope}

theorem does_log {next : Unit → Program α} (channel : Channel)
    (hprogram : actor.program = .act (.log event) next) :
    actor.Does group rank (.main channel) [] group
      { actor.resume (next ()) with trail := event :: actor.trail } := by
  refine ⟨?_, deeds_of_plain hprogram (by simp) rfl⟩
  simp only [turn, advance, hprogram]

theorem does_reserve {next : Except Fault Unit → Program α} (channel : Channel)
    (hprogram : actor.program = .act (.reserve length) next) :
    actor.Does group rank (.main channel) [] group (actor.resume (next (.ok ()))) := by
  refine ⟨?_, deeds_of_plain hprogram (by simp) rfl⟩
  simp only [turn, advance, hprogram]

theorem does_spawn {next : Unit → Program α} (channel : Channel)
    (hprogram : actor.program = .act (.spawn posts) next) (hidle : actor.posts = []) :
    actor.Does group rank (.main channel) [] group
      { actor.resume (next ()) with posts, ticket := none, failure := none } := by
  refine ⟨?_, deeds_of_plain hprogram (by simp) rfl⟩
  simp only [turn, advance, hprogram, hidle, List.isEmpty_nil, if_true]

theorem does_join {next : Except Fault Unit → Program α} (channel : Channel)
    (hprogram : actor.program = .act .join next) (hidle : actor.posts = []) :
    actor.Does group rank (.main channel) [] group
      { actor.resume (next actor.outcome) with failure := none } := by
  refine ⟨?_, deeds_of_plain hprogram (by simp) rfl⟩
  simp only [turn, advance, hprogram, hidle, List.isEmpty_nil, if_true]

/-- Who awaits a helper thread goes on only when it has done its work. -/
theorem posts_of_join {next : Except Fault Unit → Program α}
    (hprogram : actor.program = .act .join next)
    (h : actor.Does group rank (.main channel) deeds after later) : actor.posts = [] := by
  have hturn := h.1
  unfold turn advance at hturn
  rw [hprogram] at hturn
  simp only at hturn
  split at hturn
  · next hempty => exact List.isEmpty_iff.1 hempty
  · cases hturn

end Alone

section Help

variable {post : Envelope} {posts : List Envelope} (hposts : actor.posts = post :: posts)
  (hticket : actor.ticket = none)

include hposts hticket

theorem does_help_of_refused {fault : Fault}
    (h : group.enqueue rank post.peer post.tag post.payload = .error fault) :
    actor.Does group rank .helper [] group
      { actor with posts := [], ticket := none, failure := some fault } := by
  constructor
  · simp only [turn, help, hposts, hticket, h]
  · refine deeds_of_refused ?_ h
    simp only [posting?, hposts, hticket, List.head?_cons, Option.map_some]

theorem does_help_of_queued
    (h : group.enqueue rank post.peer post.tag post.payload = .ok (after, none)) :
    actor.Does group rank .helper [.queued post.peer ⟨rank, post.tag, post.payload, none⟩] after
      { actor with posts, ticket := none } := by
  constructor
  · simp only [turn, help, hposts, hticket, h]
  · refine deeds_of_begins ?_ h
    simp only [posting?, hposts, hticket, List.head?_cons, Option.map_some]

end Help

section Send

variable {dest : Nat} {tag : Tag} {payload : Bytes} {next : Except Fault Unit → Program α}
  (hprogram : actor.program = .act (.call (.send dest tag payload)) next)
  (hpause : actor.pause = .none)

include hprogram hpause

theorem does_send_of_refused (channel : Channel) {fault : Fault}
    (h : group.enqueue rank dest tag payload = .error fault) :
    actor.Does group rank (.main channel) [] group (actor.resume (next (.error fault))) := by
  constructor
  · simp only [turn_of_call hprogram, call, hpause, h]
  · simp only [Actor.deeds, posting?, hprogram, hpause, Group.postingDeeds, h]

theorem does_send_of_queued (channel : Channel)
    (h : group.enqueue rank dest tag payload = .ok (after, none)) :
    actor.Does group rank (.main channel) [.queued dest ⟨rank, tag, payload, none⟩] after
      (actor.resume (next (.ok ()))) := by
  constructor
  · simp only [turn_of_call hprogram, call, hpause, h]
  · simp only [Actor.deeds, posting?, hprogram, hpause, Group.postingDeeds, h]

end Send

section Probe

variable {tag : Tag} {next : Except Fault Arrival → Program α}
  (hprogram : actor.program = .act (.call (.probe tag)) next)

include hprogram

theorem does_probe_of_stopped (channel : Channel) (h : group.isStopped rank = true) :
    actor.Does group rank (.main channel) [.probed rank tag (.error (.transport .probe .stopped))]
      group (actor.resume (next (.error (.transport .probe .stopped)))) := by
  constructor
  · simp only [turn_of_call hprogram, call, h, if_true]
  · simp only [Actor.deeds, posting?, hprogram, Group.probeDeeds, h, if_true]

variable (hrunning : group.isStopped rank = false)

include hrunning

theorem does_probe_of_found {message : Message}
    (h : group.search rank { tag } (group.size = 1) channel = .found message) :
    actor.Does group rank (.main channel) [.probed rank tag (.ok message.arrival)] group
      (actor.resume (next (.ok message.arrival))) := by
  constructor
  · simp only [turn_of_call hprogram, call, hrunning, h, Bool.false_eq_true, if_false]
  · simp only [Actor.deeds, posting?, hprogram, Group.probeDeeds, hrunning, h,
      Bool.false_eq_true, if_false]

theorem does_probe_of_moved {inbox : Inbox}
    (h : group.search rank { tag } (group.size = 1) channel = .moved inbox) :
    actor.Does group rank (.main channel) [] (group.putInbox rank inbox) actor := by
  constructor
  · simp only [turn_of_call hprogram, call, hrunning, h, Bool.false_eq_true, if_false]
  · simp only [Actor.deeds, posting?, hprogram, Group.probeDeeds, hrunning, h,
      Bool.false_eq_true, if_false]

theorem does_probe_of_deserted
    (h : group.search rank { tag } (group.size = 1) channel = .deserted) :
    actor.Does group rank (.main channel)
      [.probed rank tag (.error (.transport .probe (.deserted rank)))] group
      (actor.resume (next (.error (.transport .probe (.deserted rank))))) := by
  constructor
  · simp only [turn_of_call hprogram, call, hrunning, h, Bool.false_eq_true, if_false]
  · simp only [Actor.deeds, posting?, hprogram, Group.probeDeeds, hrunning, h,
      Bool.false_eq_true, if_false]

theorem not_does_probe_of_blocked
    (h : group.search rank { tag } (group.size = 1) channel = .blocked) :
    ¬ actor.Does group rank (.main channel) deeds after later := by
  rintro ⟨hturn, _⟩
  simp only [turn_of_call hprogram, call, hrunning, h, Bool.false_eq_true, if_false] at hturn
  cases hturn

end Probe

section Receive

variable {source length : Nat} {tag : Tag} {next : Except Fault (Buffer length) → Program α}
  (hprogram : actor.program = .act (.call (.receive source tag length)) next)

include hprogram

theorem does_receive_of_stopped (channel : Channel) (h : group.isStopped rank = true) :
    actor.Does group rank (.main channel)
      [.received rank source tag length none (.error (.transport .receive .stopped))]
      group (actor.resume (next (.error (.transport .receive .stopped)))) := by
  constructor
  · simp only [turn_of_call hprogram, call, h, if_true]
  · simp only [Actor.deeds, posting?, hprogram, Group.receiveDeeds, h, if_true]

variable (hrunning : group.isStopped rank = false)

include hrunning

theorem does_receive_of_found {message : Message}
    (h : group.search rank ⟨tag, some source⟩ (source = rank) channel = .found message) :
    actor.Does group rank (.main channel)
      [.received rank source tag length (some message) (message.given length)]
      (group.receive rank ⟨tag, some source⟩ message length).2
      (actor.resume (next (group.receive rank ⟨tag, some source⟩ message length).1)) := by
  constructor
  · simp only [turn_of_call hprogram, call, hrunning, h, Bool.false_eq_true, if_false]
  · simp only [Actor.deeds, posting?, hprogram, Group.receiveDeeds, hrunning, h,
      Bool.false_eq_true, if_false, Group.receive_given]

theorem does_receive_of_moved {inbox : Inbox}
    (h : group.search rank ⟨tag, some source⟩ (source = rank) channel = .moved inbox) :
    actor.Does group rank (.main channel) [] (group.putInbox rank inbox) actor := by
  constructor
  · simp only [turn_of_call hprogram, call, hrunning, h, Bool.false_eq_true, if_false]
  · simp only [Actor.deeds, posting?, hprogram, Group.receiveDeeds, hrunning, h,
      Bool.false_eq_true, if_false]

theorem does_receive_of_deserted
    (h : group.search rank ⟨tag, some source⟩ (source = rank) channel = .deserted) :
    actor.Does group rank (.main channel)
      [.received rank source tag length none (.error (.transport .receive (.deserted rank)))]
      group (actor.resume (next (.error (.transport .receive (.deserted rank))))) := by
  constructor
  · simp only [turn_of_call hprogram, call, hrunning, h, Bool.false_eq_true, if_false]
  · simp only [Actor.deeds, posting?, hprogram, Group.receiveDeeds, hrunning, h,
      Bool.false_eq_true, if_false]

theorem not_does_receive_of_blocked
    (h : group.search rank ⟨tag, some source⟩ (source = rank) channel = .blocked) :
    ¬ actor.Does group rank (.main channel) deeds after later := by
  rintro ⟨hturn, _⟩
  simp only [turn_of_call hprogram, call, hrunning, h, Bool.false_eq_true, if_false] at hturn
  cases hturn

end Receive

/-- Some turns of one rank, one after the other. -/
inductive Works (rank : Nat) : Group → Actor α → List Deed → Group → Actor α → Prop
  | rest (group : Group) (actor : Actor α) : Works rank group actor [] group actor
  | turn {group next last : Group} {actor later final : Actor α} {thread : Thread}
      {deeds rest : List Deed} (h : actor.Does group rank thread deeds next later)
      (hrest : Works rank next later rest last final) :
      Works rank group actor (deeds ++ rest) last final

end Actor

namespace World

variable {α : Type} {first next : World α} {ledger deeds : List Deed} {group last : Group}
  {actors : List (Actor α)} {actor final : Actor α} {rank : Nat}

theorem exists_does_of_step {world : World α} {move : Move}
    (h : world.step move = some next) :
    ∃ actor group' actor', world.actors[move.rank]? = some actor ∧
      next = ⟨group', world.actors.set move.rank actor'⟩ ∧
      actor.Does world.group move.rank move.thread (world.deeds move) group' actor' := by
  obtain ⟨actor, group', actor', hactor, hnext, hthread⟩ := step_eq_some h
  refine ⟨actor, group', actor', hactor, hnext, ?_, ?_⟩
  · rcases hthread with ⟨channel, hthread, hadvance⟩ | ⟨hthread, hhelp⟩
    · rw [hthread]
      exact hadvance
    · rw [hthread]
      exact hhelp
  · simp only [deeds, hactor]

theorem Records.works (h : first.Records ledger ⟨group, actors⟩)
    (hactor : actors[rank]? = some actor) (hworks : actor.Works rank group deeds last final) :
    first.Records (ledger ++ deeds) ⟨last, actors.set rank final⟩ := by
  induction hworks generalizing ledger actors with
  | rest group actor =>
      rw [set_eq_self hactor, List.append_nil]
      exact h
  | @turn group next last actor later final thread deeds rest hdoes _ ih =>
      have hrank : rank < actors.length := (List.getElem?_eq_some_iff.1 hactor).1
      have hstep := h.step ⟨rank, thread⟩ (step_of_turn _ ⟨rank, thread⟩ hactor hdoes.1)
      have hdeeds : World.deeds ⟨group, actors⟩ ⟨rank, thread⟩ = deeds := by
        simp only [World.deeds, hactor, hdoes.2]
      rw [hdeeds] at hstep
      have hrest := ih hstep (by simp [hrank])
      rw [List.set_set, List.append_assoc] at hrest
      exact hrest

end World

end RankExchange
