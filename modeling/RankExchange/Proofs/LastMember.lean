import RankExchange.Proofs.Departure

/-!
# The last one of a group

When all others have left, the one that stays is never held up by them.  A message that
is still there is found and received, and a search for one that is not there is given up
without touching any other.
-/

namespace RankExchange

namespace Group

theorem putInbox_putInbox {group : Group} {rank : Nat} {member : Member}
    (h : group.members[rank]? = some member) (inbox later : Inbox) :
    (group.putInbox rank inbox).putInbox rank later = group.putInbox rank later := by
  unfold putInbox
  rw [modify_of_getElem? h, modify_of_getElem? h]
  have hlt : rank < group.members.length := (List.getElem?_eq_some_iff.1 h).1
  rw [modify_of_getElem? (List.getElem?_set_self hlt), List.set_set]

theorem putInbox_self {group : Group} {rank : Nat} {member : Member}
    (h : group.members[rank]? = some member) : group.putInbox rank member.inbox = group := by
  unfold putInbox
  rw [modify_of_getElem? h, set_eq_self h]

end Group

def Search.turn {α : Type} (search : Search) (group : Group) (rank : Nat) (actor : Actor α)
    (found : Message → Group × Actor α) (deserted : Program α) : Option (Group × Actor α) :=
  match search with
  | .found message => some (found message)
  | .moved inbox => some (group.putInbox rank inbox, actor)
  | .deserted => some (group, actor.resume deserted)
  | .blocked => none

theorem Search.isSome_turn {α : Type} {search : Search} (h : search ≠ .blocked) (group : Group)
    (rank : Nat) (actor : Actor α) (found : Message → Group × Actor α) (deserted : Program α) :
    (search.turn group rank actor found deserted).isSome = true := by
  cases search with
  | blocked => exact absurd rfl h
  | found => rfl
  | moved => rfl
  | deserted => rfl

/-- A main thread looks for a message in a running group of some size. -/
def Actor.Seeks {α : Type} (actor : Actor α) (rank size : Nat) (wanted : Wanted) (own : Bool)
    (found : Group → Message → Group × Actor α) (deserted : Program α) : Prop :=
  ∀ group channel, group.size = size → group.isStopped rank = false →
    actor.advance group rank channel =
      (group.search rank wanted own channel).turn group rank actor (found group) deserted

namespace Actor

variable {α : Type} {actor : Actor α} {rank size : Nat}

theorem seeks_probe {tag : Tag} {next : Except Fault Arrival → Program α}
    (hprogram : actor.program = .act (.call (.probe tag)) next) :
    actor.Seeks rank size { tag } (decide (size = 1))
      (fun group message => (group, actor.resume (next (.ok message.arrival))))
      (next (.error (.transport .probe (.deserted rank)))) := by
  rintro group channel rfl hrunning
  unfold advance
  rw [hprogram]
  simp only [call, hrunning, Bool.false_eq_true, if_false]
  cases group.search rank { tag } (decide (group.size = 1)) channel <;> rfl

theorem seeks_receive {source length : Nat} {tag : Tag}
    {next : Except Fault (Buffer length) → Program α}
    (hprogram : actor.program = .act (.call (.receive source tag length)) next) :
    actor.Seeks rank size ⟨tag, some source⟩ (decide (source = rank))
      (fun group message => ((group.receive rank ⟨tag, some source⟩ message length).2,
        actor.resume (next (group.receive rank ⟨tag, some source⟩ message length).1)))
      (next (.error (.transport .receive (.deserted rank)))) := by
  rintro group channel - hrunning
  unfold advance
  rw [hprogram]
  simp only [call, hrunning, Bool.false_eq_true, if_false]
  cases group.search rank ⟨tag, some source⟩ (decide (source = rank)) channel <;> rfl

end Actor

namespace World

variable {α : Type} {world next last : World α} {rank : Nat} {p : World α → Prop}

/-- Whoever takes the steps, the world comes to be so. -/
inductive Comes (p : World α → Prop) : World α → Prop
  | now {world : World α} (h : p world) : Comes p world
  | later {world : World α} (hmoves : world.Moves)
      (h : ∀ move next, world.step move = some next → Comes p next) : Comes p world

/-- A call of a rank has been answered: it goes on with its program, its inbox may be
another one, and all else is as it was. -/
structure Answered (world : World α) (rank : Nat) (actor : Actor α) (program : Program α)
    (inbox : Inbox) (last : World α) : Prop where
  members : last.group.members = (world.group.putInbox rank inbox).members
  actors : last.actors = world.actors.set rank (actor.resume program)

theorem answered_putInbox (world : World α) (rank : Nat) (actor : Actor α)
    (inbox : Inbox) (program : Program α) :
    world.Answered rank actor program inbox
      ⟨world.group.putInbox rank inbox, world.actors.set rank (actor.resume program)⟩ :=
  ⟨rfl, rfl⟩

/-- What the calls of a rank come to when all others have left. -/
structure Survives (world : World α) (rank : Nat) (member : Member) (actor : Actor α) :
    Prop where
  finds : ∀ tag next, actor.program = .act (.call (.probe tag)) next →
    (∃ message ∈ member.inbox.waiting, message.tag = tag) →
    world.Comes (fun last => ∃ message inbox,
      message.tag = tag ∧ (member.inbox.lane message.source tag).head? = some message ∧
      member.inbox.SearchedTo rank inbox ∧
      world.Answered rank actor (next (.ok message.arrival)) inbox last)
  misses : ∀ tag next, actor.program = .act (.call (.probe tag)) next →
    (∀ message ∈ member.inbox.waiting, message.tag ≠ tag) →
    world.Comes (fun last => ∃ inbox, member.inbox.SearchedTo rank inbox ∧
      world.Answered rank actor (next (.error (.transport .probe (.deserted rank)))) inbox last)
  takes : ∀ source tag length next message,
    actor.program = .act (.call (.receive source tag length)) next →
    (member.inbox.lane source tag).head? = some message →
    world.Comes (fun last => ∃ answer inbox, answer.map Subtype.val = message.given length ∧
      member.inbox.Yields rank ⟨tag, some source⟩ inbox ∧
      world.Answered rank actor (next answer) inbox last)
  fails : ∀ source tag length next,
    actor.program = .act (.call (.receive source tag length)) next → source ≠ rank →
    member.inbox.lane source tag = [] →
    world.Comes (fun last => ∃ inbox, member.inbox.SearchedTo rank inbox ∧
      world.Answered rank actor (next (.error (.transport .receive (.deserted rank)))) inbox last)
  sends : ∀ tag payload next, actor.program = .act (.call (.send rank tag payload)) next →
    world.Comes (world.Answered rank actor (next (.ok ()))
      { member.inbox with
        loopback := member.inbox.loopback ++ [{ source := rank, tag, payload }] })
  refused : ∀ dest tag payload next,
    actor.program = .act (.call (.send dest tag payload)) next → dest ≠ rank →
    dest < world.group.size →
    world.Comes (world.Answered rank actor
      (next (.error (.transport .send (.departed dest)))) member.inbox)

/-- One rank is at work, with its main thread, and nobody else is. -/
structure Lone (world : World α) (rank : Nat) (member : Member) (actor : Actor α) : Prop where
  parting : world.Parting rank
  alone : world.group.isAlone rank = true
  getActor : world.actors[rank]? = some actor
  getMember : world.group.members[rank]? = some member
  idle : actor.posts = []

namespace Lone

variable {member : Member} {actor : Actor α} {wanted : Wanted} {own : Bool}
  {found : Group → Message → Group × Actor α} {deserted : Program α}

theorem exists_advance_of_step (h : world.Lone rank member actor) {move : Move}
    (hstep : world.step move = some next) :
    ∃ channel group' actor', actor.advance world.group rank channel = some (group', actor') ∧
      next = ⟨group', world.actors.set rank actor'⟩ := by
  have hrank := h.parting.rank_of_step h.alone hstep
  obtain ⟨mover, group', actor', hmover, rfl, hturn, -⟩ := exists_does_of_step hstep
  rw [hrank, h.getActor] at hmover
  cases hmover
  rw [hrank] at hturn ⊢
  cases hthread : move.thread with
  | main channel =>
      rw [hthread] at hturn
      exact ⟨channel, group', actor', hturn, rfl⟩
  | helper =>
      rw [hthread, Actor.turn_helper h.idle] at hturn
      cases hturn

/-- The world comes to what each step of the rank leads to, if it can take one. -/
theorem comes (h : world.Lone rank member actor)
    (hmoves : ∃ channel, (actor.advance world.group rank channel).isSome = true)
    (hnext : ∀ channel group' actor', actor.advance world.group rank channel =
      some (group', actor') → Comes p ⟨group', world.actors.set rank actor'⟩) :
    world.Comes p := by
  refine .later ?_ ?_
  · obtain ⟨channel, hsome⟩ := hmoves
    obtain ⟨after, hafter⟩ := Option.isSome_iff_exists.1 hsome
    exact ⟨_, _, step_of_turn world ⟨rank, .main channel⟩ h.getActor hafter⟩
  · intro move next hstep
    obtain ⟨channel, group', actor', hadvance, rfl⟩ := h.exists_advance_of_step hstep
    exact hnext channel group' actor' hadvance

theorem lasts (h : world.Lone rank member actor) : actor.Lasts member true :=
  h.alone ▸ h.parting.lasts actor member h.getActor h.getMember

theorem isStopped (h : world.Lone rank member actor) : world.group.isStopped rank = false := by
  unfold Group.isStopped
  rw [h.getMember, Option.any_some]
  exact h.lasts.running

theorem advance_of_seeks (h : world.Lone rank member actor)
    (hseeks : actor.Seeks rank world.group.size wanted own found deserted) (channel : Channel) :
    actor.advance world.group rank channel =
      (member.inbox.search wanted true own channel).turn world.group rank actor
        (found world.group) deserted := by
  have hsearch : world.group.search rank wanted own channel =
      member.inbox.search wanted true own channel := by
    unfold Group.search
    rw [h.getMember, h.alone]
  rw [hseeks _ channel rfl h.isStopped, hsearch]

theorem searched (h : world.Lone rank member actor) {channel : Channel} {inbox : Inbox}
    (hadvance : actor.advance world.group rank channel =
      some (world.group.putInbox rank inbox, actor)) :
    World.Lone ⟨world.group.putInbox rank inbox, world.actors⟩ rank { member with inbox }
      actor := by
  have hstep := step_of_turn world ⟨rank, .main channel⟩ h.getActor hadvance
  rw [set_eq_self h.getActor] at hstep
  have hturn : actor.turn world.group rank (.main channel) =
      some (world.group.putInbox rank inbox, actor) := hadvance
  have halone := (Actor.stepEffect_of_turn hturn).isAlone
  exact ⟨h.parting.step hstep, halone.trans h.alone, h.getActor,
    Group.getElem?_members_putInbox h.getMember inbox, h.idle⟩

/-- A search comes to its end: each step either ends it or leaves less to look through. -/
theorem comes_of_seeks (h : world.Lone rank member actor)
    (hseeks : actor.Seeks rank world.group.size wanted own found deserted)
    (hgoes : ∀ inbox, member.inbox.SearchedTo rank inbox → inbox.Spent true →
      ∃ channel, inbox.search wanted true own channel ≠ .blocked)
    (hfound : ∀ inbox message, member.inbox.SearchedTo rank inbox →
      inbox.parked.find? wanted.accepts = some message →
      p ⟨(found (world.group.putInbox rank inbox) message).1,
        world.actors.set rank (found (world.group.putInbox rank inbox) message).2⟩)
    (hdeserted : ∀ inbox, member.inbox.SearchedTo rank inbox →
      inbox.waiting.find? wanted.accepts = none →
      p ⟨world.group.putInbox rank inbox, world.actors.set rank (actor.resume deserted)⟩) :
    world.Comes p := by
  have hloop : ∀ inbox, member.inbox.SearchedTo rank inbox →
      Lone ⟨world.group.putInbox rank inbox, world.actors⟩ rank { member with inbox } actor →
      Comes p ⟨world.group.putInbox rank inbox, world.actors⟩ := by
    intro inbox hsifts hlone
    -- A step that parks a message, or sees that no more can come, leaves a smaller backlog.
    induction hbacklog : inbox.backlog using Nat.strong_induction_on generalizing inbox with
    | _ backlog ih =>
      have hspent : inbox.Spent true := hlone.lasts.spent
      have hsize : (world.group.putInbox rank inbox).size = world.group.size :=
        (Group.sameBut_modify _ _ _).size
      have hstep := hlone.advance_of_seeks (hsize ▸ hseeks)
      refine hlone.comes ?_ ?_
      · obtain ⟨channel, hchannel⟩ := hgoes inbox hsifts hspent
        refine ⟨channel, ?_⟩
        rw [hstep]
        exact Search.isSome_turn hchannel _ _ _ _ _
      · intro channel group' actor' hadvance
        have hturn := (hstep channel).symm.trans hadvance
        simp only at hturn
        cases hsearch : inbox.search wanted true own channel with
        | blocked =>
            rw [hsearch] at hturn
            cases hturn
        | found message =>
            rw [hsearch] at hturn
            have hlast := hfound inbox message hsifts (Inbox.found_of_search hsearch)
            rw [Option.some.inj hturn] at hlast
            exact .now hlast
        | deserted =>
            rw [hsearch] at hturn
            cases hturn
            refine .now (hdeserted inbox hsifts ?_)
            exact Inbox.find?_waiting_of_deserted (fun hclosed => (hspent hclosed).2) hsearch
        | moved later =>
            rw [hsearch] at hturn
            cases hturn
            have hapart := hlone.parting.sorted rank _ hlone.getMember
            have hsifts' := (Inbox.searchedTo_search hapart hspent hsearch).1
            have hlone' := hlone.searched hadvance
            simp only [Group.putInbox_putInbox h.getMember] at hlone' ⊢
            rw [set_eq_self h.getActor]
            exact ih later.backlog (hbacklog ▸ Inbox.backlog_search hsearch) later
              (hsifts.trans hsifts') hlone' rfl
  have hself := hloop member.inbox (.refl rank member.inbox)
  rw [Group.putInbox_self h.getMember] at hself
  exact hself h

theorem answered_receive (h : world.Lone rank member actor) (inbox : Inbox) (wanted : Wanted)
    (message : Message) (length : Nat) (program : Program α) :
    world.Answered rank actor program (inbox.take wanted)
      ⟨((world.group.putInbox rank inbox).receive rank wanted message length).2,
        world.actors.set rank (actor.resume program)⟩ := by
  refine ⟨?_, rfl⟩
  have hmember := Group.getElem?_members_putInbox h.getMember inbox
  rw [Group.members_receive hmember, Group.members_putInbox h.getMember,
    Group.members_putInbox h.getMember, List.set_set]

/-- Nobody who looks for a message of others is held up. -/
theorem goes_of_not_own (member : Member) (wanted : Wanted) :
    ∀ inbox, member.inbox.SearchedTo rank inbox → inbox.Spent true →
      ∃ channel, inbox.search wanted true false channel ≠ .blocked :=
  fun inbox _ _ => ⟨.remote, inbox.not_blocked_of_alone wanted⟩

theorem comes_of_probe (h : world.Lone rank member actor) (hsize : world.group.size ≠ 1)
    {tag : Tag} {next : Except Fault Arrival → Program α}
    (hprogram : actor.program = .act (.call (.probe tag)) next)
    (hfound : ∀ inbox message, member.inbox.SearchedTo rank inbox → message.tag = tag →
      (member.inbox.lane message.source tag).head? = some message →
      p ⟨world.group.putInbox rank inbox,
        world.actors.set rank (actor.resume (next (.ok message.arrival)))⟩)
    (hdeserted : ∀ inbox, member.inbox.SearchedTo rank inbox →
      (∀ message ∈ member.inbox.waiting, message.tag ≠ tag) →
      p ⟨world.group.putInbox rank inbox, world.actors.set rank
        (actor.resume (next (.error (.transport .probe (.deserted rank)))))⟩) :
    world.Comes p := by
  have hseeks : actor.Seeks rank world.group.size { tag } (decide (world.group.size = 1)) _ _ :=
    Actor.seeks_probe hprogram
  rw [decide_eq_false hsize] at hseeks
  refine h.comes_of_seeks hseeks (goes_of_not_own member _) ?_ ?_
  · intro inbox message hsifts hmessage
    obtain ⟨htag, hsource⟩ := find?_source_of_find?_tag hmessage
    exact hfound inbox message hsifts htag (hsifts.head?_lane hsource)
  · intro inbox hsifts hnone
    refine hdeserted inbox hsifts (fun message hmem htag => ?_)
    have hnot := List.find?_eq_none.1 hnone message (hsifts.mem_waiting.2 hmem)
    exact hnot (Wanted.accepts_of_tag_iff.2 htag)

theorem comes_of_receive (h : world.Lone rank member actor) {source length : Nat} {tag : Tag}
    {next : Except Fault (Buffer length) → Program α}
    (hprogram : actor.program = .act (.call (.receive source tag length)) next)
    (hown : source = rank → (member.inbox.lane source tag).head?.isSome = true)
    (hfound : ∀ inbox message answer, member.inbox.Yields rank ⟨tag, some source⟩ inbox →
      (member.inbox.lane source tag).head? = some message →
      answer.map Subtype.val = message.given length →
      ∀ last, world.Answered rank actor (next answer) inbox last → p last)
    (hdeserted : ∀ inbox, member.inbox.SearchedTo rank inbox → member.inbox.lane source tag = [] →
      p ⟨world.group.putInbox rank inbox, world.actors.set rank
        (actor.resume (next (.error (.transport .receive (.deserted rank)))))⟩) :
    world.Comes p := by
  refine h.comes_of_seeks (Actor.seeks_receive hprogram) ?_ ?_ ?_
  · by_cases heq : source = rank
    · intro inbox hsifts hspent
      refine Inbox.exists_search_of_find? (fun hclosed => (hspent hclosed).2) ?_ _ _
      rw [← Inbox.head?_lane, hsifts.lane]
      exact hown heq
    · simpa [heq] using goes_of_not_own member _
  · intro inbox message hsifts hmessage
    exact hfound (inbox.take ⟨tag, some source⟩) message _ (Inbox.yields_take hsifts hmessage)
      (hsifts.head?_lane hmessage) (Group.receive_given _ _ _ _ _) _
      (h.answered_receive inbox _ message length _)
  · intro inbox hsifts hnone
    refine hdeserted inbox hsifts ?_
    rw [← hsifts.lane, ← List.head?_eq_none_iff, Inbox.head?_lane]
    exact hnone

theorem comes_of_turn (h : world.Lone rank member actor) {after : Group} {later : Actor α}
    (hturn : ∀ channel, actor.turn world.group rank (.main channel) = some (after, later))
    (hlast : p ⟨after, world.actors.set rank later⟩) : world.Comes p := by
  refine h.comes ⟨.remote, Option.isSome_iff_exists.2 ⟨_, hturn .remote⟩⟩ ?_
  intro channel group' actor' hadvance
  cases (hturn channel).symm.trans hadvance
  exact .now hlast

theorem pause_of_send (h : world.Lone rank member actor) {dest : Nat} {tag : Tag}
    {payload : Bytes} {next : Except Fault Unit → Program α}
    (hprogram : actor.program = .act (.call (.send dest tag payload)) next) :
    actor.pause = .none := by
  rcases h.lasts.ready with hready | ⟨_, hbarrier⟩
  · exact hready
  · cases hprogram.symm.trans hbarrier

theorem comes_of_send_self (h : world.Lone rank member actor) {tag : Tag} {payload : Bytes}
    {next : Except Fault Unit → Program α}
    (hprogram : actor.program = .act (.call (.send rank tag payload)) next) :
    world.Comes (world.Answered rank actor (next (.ok ()))
      { member.inbox with
        loopback := member.inbox.loopback ++ [{ source := rank, tag, payload }] }) := by
  let inbox : Inbox :=
    { member.inbox with
      loopback := member.inbox.loopback ++ [{ source := rank, tag, payload }] }
  have henqueue : world.group.enqueue rank rank tag payload =
      .ok ({ world.group with
        members := world.group.members.set rank { member with inbox } }, none) := by
    unfold Group.enqueue
    simp only [h.isStopped, h.getMember, h.lasts.present, h.parting.buffered,
      Bool.false_eq_true, if_false, if_true, inbox]
  refine h.comes_of_turn
    (fun channel => (Actor.does_send_of_queued hprogram (h.pause_of_send hprogram) channel
      henqueue).1) ⟨?_, rfl⟩
  rw [Group.members_putInbox h.getMember]

theorem comes_of_send_departed (h : world.Lone rank member actor) {dest : Nat} {tag : Tag}
    {payload : Bytes} {next : Except Fault Unit → Program α}
    (hprogram : actor.program = .act (.call (.send dest tag payload)) next)
    (hne : dest ≠ rank) (hdest : dest < world.group.size) :
    world.Comes (world.Answered rank actor
      (next (.error (.transport .send (.departed dest)))) member.inbox) := by
  obtain ⟨receiver, hreceiver⟩ : ∃ receiver, world.group.members[dest]? = some receiver :=
    ⟨_, List.getElem?_eq_getElem hdest⟩
  have haway := Group.isAlone_iff.1 h.alone dest receiver hne hreceiver
  have henqueue : world.group.enqueue rank dest tag payload =
      .error (.transport .send (.departed dest)) := by
    unfold Group.enqueue
    simp only [h.isStopped, hreceiver, haway, Bool.false_eq_true, if_false]
  refine h.comes_of_turn
    (fun channel => (Actor.does_send_of_refused hprogram (h.pause_of_send hprogram) channel
      henqueue).1) ⟨?_, rfl⟩
  rw [Group.putInbox_self h.getMember]

end Lone

theorem survives_of_lone {member : Member} {actor : Actor α}
    (h : world.Lone rank member actor) (hsize : world.group.size ≠ 1) :
    world.Survives rank member actor where
  finds := by
    rintro tag next hprogram ⟨message, hmem, htag⟩
    refine h.comes_of_probe hsize hprogram ?_ ?_
    · intro inbox found hsifts hfound hhead
      exact ⟨found, inbox, hfound, hhead, hsifts, answered_putInbox _ _ _ inbox _⟩
    · intro inbox _ hnone
      exact absurd htag (hnone message hmem)
  misses := by
    intro tag next hprogram hnone
    refine h.comes_of_probe hsize hprogram ?_ ?_
    · intro inbox message _ htag hhead
      rw [Inbox.head?_lane] at hhead
      exact absurd htag (hnone message (List.mem_of_find?_eq_some hhead))
    · intro inbox hsifts _
      exact ⟨inbox, hsifts, answered_putInbox _ _ _ inbox _⟩
  takes := by
    intro source tag length next message hprogram hhead
    refine h.comes_of_receive hprogram (fun _ => by rw [hhead]; rfl) ?_ ?_
    · intro inbox found answer hyields hfound hanswer last hanswered
      cases hfound.symm.trans hhead
      exact ⟨answer, inbox, hanswer, hyields, hanswered⟩
    · intro inbox _ hnil
      rw [hnil] at hhead
      cases hhead
  fails := by
    intro source tag length next hprogram hne hnil
    refine h.comes_of_receive hprogram (fun heq => absurd heq hne) ?_ ?_
    · intro inbox message answer _ hhead
      rw [hnil] at hhead
      cases hhead
    · intro inbox hsifts _
      exact ⟨inbox, hsifts, answered_putInbox _ _ _ inbox _⟩
  sends := by
    intro tag payload next hprogram
    exact h.comes_of_send_self hprogram
  refused := by
    intro dest tag payload next hprogram hne hdest
    exact h.comes_of_send_departed hprogram hne hdest

theorem Records.size {first : World α} {ledger : List Deed}
    (h : first.Records ledger world) : world.group.size = first.group.size := by
  induction h with
  | start => rfl
  | step move _ hstep ih =>
      obtain ⟨_, _, _, _, rfl, heffect⟩ := exists_stepEffect_of_step hstep
      exact heffect.size.trans ih

/-- Who stays never throws a message away unread. -/
theorem Records.not_dropped {first : World α} {ledger : List Deed}
    (h : first.Records ledger world) (hfirst : first.Parting rank) (message : Message) :
    .dropped rank message ∉ ledger := by
  induction h with
  | start => exact List.not_mem_nil
  | @step ledger world next move hrecords hstep ih =>
      intro hmem
      rcases List.mem_append.1 hmem with hold | hnew
      · exact ih hold
      · have hparting := hrecords.parting hfirst
        obtain ⟨actor, group', actor', hactor, -, heffect⟩ := exists_stepEffect_of_step hstep
        generalize world.deeds move = deeds at heffect hnew
        cases heffect with
        | @leaves next actor' hprogram =>
            obtain ⟨_, _, heq⟩ := List.mem_map.1 hnew
            cases heq
            obtain ⟨member, hmember⟩ := hparting.exists_member hactor
            have hstays := (hparting.lasts actor member hactor hmember).stays
            rw [hprogram] at hstays
            exact hstays.1
        | _ => simp at hnew

/-- In a buffered group of several, one member stays and the others leave, each when its work
is done.  Nothing that was sent to the one is lost: what it has received and what still
waits are all that was queued for it.  It stays alone, nobody else does anything any more,
and each of its calls comes to an end: what is there is found and taken, oldest first, and
what is not there is reported as such, with all other messages in their order. -/
theorem survives_of_departures {grants : List Threading} {program : Nat → Program α}
    (hsize : 2 ≤ grants.length) (hstays : (program rank).Stays)
    (hleaves : ∀ other, other ≠ rank → (program other).LeavesLast false)
    {ledger : List Deed}
    (h : (starting (.ofGrants .buffered grants) program).Records ledger world)
    (halone : world.group.isAlone rank = true) {actor : Actor α}
    (hactor : world.actors[rank]? = some actor) :
    ∃ member, world.group.members[rank]? = some member ∧
      (∀ source tag, ledger.filterMap (Deed.removed? rank source tag) ++
        member.inbox.lane source tag = ledger.filterMap (Deed.queued? rank source tag)) ∧
      (∀ message, .dropped rank message ∉ ledger) ∧
      (∀ move next, world.step move = some next →
        move.rank = rank ∧ next.group.isAlone rank = true) ∧
      (actor.posts = [] → world.Survives rank member actor) := by
  have hfirst : (starting (.ofGrants .buffered grants) program).Parting rank :=
    parting_starting hstays hleaves
  have hparting := h.parting hfirst
  obtain ⟨member, hmember⟩ := hparting.exists_member hactor
  refine ⟨member, hmember, ?_, h.not_dropped hfirst, ?_, ?_⟩
  · intro source tag
    have hbalance := h.balance (Group.sorted_ofGrants _ _) rank source tag
    rw [Group.lane_of_getElem? hmember] at hbalance
    rw [hbalance, starting, Group.lane_ofGrants, List.nil_append]
  · intro move next hstep
    have hrank := hparting.rank_of_step halone hstep
    obtain ⟨_, _, _, _, rfl, heffect⟩ := exists_stepEffect_of_step hstep
    rw [hrank] at heffect
    exact ⟨hrank, heffect.isAlone.trans halone⟩
  · intro hidle
    have hgrants : world.group.size = grants.length := by
      rw [h.size, starting, Group.size, Group.ofGrants, List.length_map]
    exact survives_of_lone ⟨hparting, halone, hactor, hmember, hidle⟩ (by omega)

/-- Rank 0 writes itself a note and takes one message of rank 1, and the others leave
while it looks for one that nobody has sent. -/
def departuresDuringSearch : Nat → Program Unit
  | 0 => do
      Program.send 0 4 [7]
      let _ ← Program.receive 1 2 1
      let _ ← Program.probe 9
      return ()
  | 1 => do
      Program.send 0 3 [2]
      Program.send 0 2 [1]
      Program.leave
  | _ => do
      Program.send 0 3 [5]
      Program.leave

theorem survives_of_departuresDuringSearch : ∃ ledger world actor member,
    (starting (.ofGrants .buffered [.multiple, .multiple, .multiple])
      departuresDuringSearch).Records ledger world ∧
    world.group.isAlone 0 = true ∧ world.actors[0]? = some actor ∧ actor.posts = [] ∧
    world.group.members[0]? = some member ∧
    member.inbox.parked = [⟨1, 3, [2], none⟩] ∧ member.inbox.remote = [⟨2, 3, [5], none⟩] ∧
    member.inbox.loopback = [⟨0, 4, [7], none⟩] ∧ world.Survives 0 member actor := by
  let schedule := [0, 1, 1, 0, 0, 0, 2, 1, 2].map (fun rank => Move.mk rank (.main .remote))
  let first := starting (.ofGrants .buffered [.multiple, .multiple, .multiple])
    departuresDuringSearch
  have hrun : (first.recorded [] schedule).map (fun run => (run.2.group.isAlone 0,
      run.2.actors[0]?.map Actor.posts, run.2.group.members[0]?.map Member.inbox)) =
      some (true, some [], some ⟨[⟨2, 3, [5], none⟩], [⟨0, 4, [7], none⟩],
        [⟨1, 3, [2], none⟩], true⟩) := by
    decide +kernel
  obtain ⟨⟨ledger, world⟩, hrecorded, heq⟩ := Option.map_eq_some_iff.1 hrun
  have hrecords : first.Records ledger world := Records.start.recorded hrecorded
  simp only [Prod.mk.injEq, Option.map_eq_some_iff] at heq
  obtain ⟨halone, ⟨actor, hactor, hidle⟩, ⟨member, hmember, hinbox⟩⟩ := heq
  have hstays : (departuresDuringSearch 0).Stays :=
    .bind ⟨trivial, fun _ => trivial⟩ (fun _ => .bind ⟨trivial, fun _ => trivial⟩
      (fun _ => .bind ⟨trivial, fun _ => trivial⟩ (fun _ => trivial)))
  have hsend : ∀ {tag payload} {f : Unit → Program Unit}, (f ()).LeavesLast false →
      ((Program.send 0 tag payload).bind f).LeavesLast false := by
    rintro tag payload f hlater (fault | answer)
    · trivial
    · exact hlater
  have hleaves : ∀ other, other ≠ 0 → (departuresDuringSearch other).LeavesLast false := by
    rintro (_ | _ | other) hne
    · exact absurd rfl hne
    · exact hsend (hsend ⟨rfl, _, rfl⟩)
    · exact hsend ⟨rfl, _, rfl⟩
  obtain ⟨found, hfound, -, -, -, hsurvives⟩ :=
    survives_of_departures (by decide) hstays hleaves hrecords halone hactor
  cases hmember.symm.trans hfound
  exact ⟨ledger, world, actor, member, hrecords, halone, hactor, hidle, hmember,
    by rw [hinbox], by rw [hinbox], by rw [hinbox], hsurvives hidle⟩

end World

end RankExchange
