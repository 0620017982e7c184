import RankExchange.Proofs.Arrivals
import RankExchange.Proofs.WorldInStep
import RankExchange.Proofs.ExchangeScripts
import RankExchange.Proofs.RegularMembers

/-!
# One rank in a round

Of a group in which the other ranks do what they like, one rank is in the midst of a round
beside a helper thread.  All that it is owed by others is there already, and its own message,
if it is a peer of itself, is there or is still to be sent.  Such a rank stays in step,
whatever the others do, unless it is alone and looks for its own message too soon.
-/

namespace RankExchange

namespace Script

/-- What is left of the script of one round. -/
inductive Single (tag : Tag) (text : Nat → Bytes) (posts : List Envelope) : Script → Prop
  | whole (owed : RankSet) :
      Single tag text posts (.spawn 0 posts :: await 0 tag owed text [.join 0])
  | taking (owed : RankSet) (found : Option Nat) (howed : owed.ranks ≠ []) :
      Single tag text posts [.take 0 tag owed text found, .join 0]
  | joining : Single tag text posts [.join 0]
  | done : Single tag text posts []

variable {tag : Tag} {text : Nat → Bytes} {posts : List Envelope} {script script' : Script}

theorem single_await (owed : RankSet) :
    Single tag text posts (await 0 tag owed text [.join 0]) := by
  unfold await
  split
  · exact .joining
  · next howed => exact .taking owed none howed

theorem Single.proceeds (h : script.Single tag text posts) (hproceeds : Proceeds script script') :
    script'.Single tag text posts := by
  cases hproceeds with
  | same => exact h
  | next =>
      cases h with
      | whole owed => exact single_await owed
      | taking => exact .joining
      | joining => exact .done
  | begun =>
      cases h with
      | taking _ _ howed => exact .taking _ _ howed
  | served =>
      cases h with
      | taking owed => exact single_await _

theorem Single.orderly (h : script.Single tag text posts) : script.Orderly (fun _ => True) := by
  have hawait : ∀ owed : RankSet, ∀ duty ∈ await 0 tag owed text [.join 0], duty.time = 0 := by
    intro owed duty hduty
    rcases mem_await hduty with rfl | hduty
    · rfl
    · rw [List.mem_singleton.1 hduty]
      rfl
  have htime : ∀ duty ∈ script, duty.time = 0 := by
    cases h with
    | whole owed => exact List.forall_mem_cons.2 ⟨rfl, hawait owed⟩
    | taking => exact List.forall_mem_cons.2 ⟨rfl, List.forall_mem_singleton.2 rfl⟩
    | joining => exact List.forall_mem_singleton.2 rfl
    | done => exact fun duty hduty => by cases hduty
  refine ⟨?_, fun _ _ _ _ _ _ => trivial, ?_⟩
  · apply List.pairwise_of_forall_mem_list
    intro first hfirst second hsecond
    rw [htime first hfirst, htime second hsecond]
  · intro time label owed payload found htake
    cases h with
    | whole owed =>
        rcases mem_await htake with heq | hjoin
        · cases heq
          rfl
        · cases List.mem_singleton.1 hjoin
    | taking => cases List.mem_singleton.1 htake
    | joining => cases htake
    | done => cases htake

theorem Single.eq_of_take {time : Nat} {label : Tag} {owed : RankSet} {payload : Nat → Bytes}
    {found : Option Nat}
    (h : Single tag text posts (.take time label owed payload found :: script)) :
    time = 0 ∧ label = tag ∧ payload = text ∧ script = [.join 0] ∧ owed.ranks ≠ [] := by
  cases h with
  | taking _ _ howed => exact ⟨rfl, rfl, rfl, rfl, howed⟩

theorem Single.ne_send (h : script.Single tag text posts) (time : Nat) (post : Envelope)
    (rest : Script) : script ≠ .send time post :: rest := by
  cases h <;> simp

end Script

/-- A helper thread gets no new messages but at the start of a round. -/
theorem ScriptStep.posts_sublist {α : Type} {Rest : Bool → Program α → Script → Prop}
    {actor actor' : Actor α} {group group' : Group} {rank : Nat} {position position' : Position}
    (h : ScriptStep Rest group rank actor position group' actor' position') :
    actor'.posts.Sublist actor.posts ∨
      ∃ time script, position.script = .spawn time actor'.posts :: script := by
  cases h with
  | steady _ _ hposts => exact .inl (by rw [hposts])
  | sends _ _ _ _ _ hposts' => exact .inl (by rw [hposts']; exact List.nil_sublist _)
  | offers _ _ _ _ _ hposts' => exact .inl (by rw [hposts']; exact List.nil_sublist _)
  | resumes _ _ _ _ _ hposts' => exact .inl (by rw [hposts']; exact List.nil_sublist _)
  | spawns hscript => exact .inr ⟨_, _, hscript⟩
  | joins _ _ _ hposts' => exact .inl (by rw [hposts']; exact List.nil_sublist _)
  | parks => exact .inl (List.Sublist.refl _)
  | finds _ _ _ _ _ _ _ hposts => exact .inl (by rw [hposts])
  | takes _ _ _ _ _ _ hposts => exact .inl (by rw [hposts])
  | wanders _ _ _ _ _ _ _ _ hposts => exact .inl (by rw [hposts])
  | posts hposts _ _ _ _ _ hposts' =>
      rw [hposts, hposts']
      split
      · exact .inl (List.sublist_cons_self _ _)
      · exact .inl (List.Sublist.refl _)
  | confirmed hposts _ _ _ _ _ hposts' =>
      rw [hposts, hposts']
      exact .inl (List.sublist_cons_self _ _)

theorem Member.Changes.stopped {α : Type} {group : Group} {mover rank : Nat}
    {program : Program α} {member member' : Member}
    (h : member.Changes group mover program rank member')
    (hfinalize : rank = mover → ∀ next, program ≠ .act (.call .finalize) next) :
    member'.stopped = member.stopped := by
  cases h with
  | stops hprogram heq => exact absurd hprogram (hfinalize heq _)
  | same => rfl
  | leaves => rfl
  | searches => rfl
  | gets => rfl
  | gives => rfl

namespace StepEffect

variable {α : Type} {group group' : Group} {mover rank : Nat} {actor actor' : Actor α}
  {thread : Thread} {deeds : List Deed}

theorem isStopped (h : StepEffect group mover actor thread deeds group' actor')
    (hfinalize : rank = mover → ∀ next, actor.program ≠ .act (.call .finalize) next) :
    group'.isStopped rank = group.isStopped rank := by
  have hsize : group'.members.length = group.members.length := h.size
  unfold Group.isStopped
  cases hmember : group.members[rank]? with
  | none =>
      rw [List.getElem?_eq_none_iff, ← hsize, ← List.getElem?_eq_none_iff] at hmember
      rw [hmember]
  | some member =>
      obtain ⟨member', hmember', hchanges⟩ := h.changes hmember
      rw [hmember', Option.any_some, Option.any_some, hchanges.stopped hfinalize]

/-- What others do to a lane of a rank is to queue messages there. -/
theorem lane_of_ne (h : StepEffect group mover actor thread deeds group' actor')
    (hne : rank ≠ mover) {source : Nat} {tag : Tag}
    (hqueued : deeds.filterMap (Deed.queued? rank mover tag) = []) :
    group'.lane rank source tag = group.lane rank source tag := by
  cases h with
  | rests hmembers => exact Group.lane_eq_of_members (by rw [hmembers])
  | stops => exact (Group.sameBut_modify _ _ _).lane hne
  | parks => exact (Group.sameBut_modify _ _ _).lane hne
  | @queues post _ _ _ henqueue =>
      refine Group.lane_enqueue_of_ne henqueue ?_
      rintro ⟨rfl, -, rfl⟩
      simp [Deed.queued?] at hqueued
  | returns => rfl
  | finds => rfl
  | misses => rfl
  | takes => exact (Group.sameBut_receive _ _ _ _).lane hne
  | fails => rfl
  | leaves => exact (Group.sameBut_leave _ _).lane hne

theorem found_of_ne (h : StepEffect group mover actor thread deeds group' actor')
    (hne : rank ≠ mover) {position : Position} (hfound : position.Found group rank) :
    position.Found group' rank := by
  cases h with
  | rests hmembers => exact hfound.of_members (by rw [hmembers])
  | stops => exact hfound.of_members ((Group.sameBut_modify _ _ _).member rank hne)
  | parks => exact hfound.of_members ((Group.sameBut_modify _ _ _).member rank hne)
  | queues henqueue => exact hfound.enqueue henqueue
  | returns => exact hfound
  | finds => exact hfound
  | misses => exact hfound
  | takes => exact hfound.of_members ((Group.sameBut_receive _ _ _ _).member rank hne)
  | fails => exact hfound
  | leaves => exact hfound.of_members ((Group.sameBut_leave _ _).member rank hne)

end StepEffect

namespace Actor

variable {α : Type}

def looks (actor : Actor α) (tag : Tag) : Bool :=
  match actor.program with
  | .act (.call (.probe label)) _ => decide (label = tag)
  | _ => false

/-- What a rank has still to queue for itself on a tag. -/
def ownUnsent (actor : Actor α) (rank : Nat) (tag : Tag) (script : Script) : List Bytes :=
  (Script.select rank tag (actor.unsent script)).map Prod.snd

/-- A rank in the midst of a round: in each lane, what waits and, where it is the source,
what it has still to queue are together what it is owed. -/
structure InRound (group : Group) (rank : Nat) (tag : Tag) (text : Nat → Bytes)
    (posts : List Envelope) (value : α) (actor : Actor α) (position : Position) : Prop where
  follows : actor.FollowsScript (Program.Ends (Closing value)) position
  inStep : position.inStep = true
  single : position.script.Single tag text posts
  posting : actor.posts.Sublist posts
  found : position.Found group rank
  running : group.isStopped rank = false
  lanes : ∀ source, (group.lane rank source tag).map Message.payload ++
      (if source = rank then actor.ownUnsent rank tag position.script else []) =
    (Script.select source tag position.script.incoming).map Prod.snd

namespace InRound

variable {group group' : Group} {rank : Nat} {tag : Tag} {text : Nat → Bytes}
  {posts : List Envelope} {value : α} {actor actor' : Actor α} {position position' : Position}

section

variable (h : actor.InRound group rank tag text posts value position)

include h

/-- While it takes, a rank is owed one message by each of some ranks. -/
theorem lane_of_take {owed : RankSet} {found : Option Nat}
    (hscript : position.script = [.take 0 tag owed text found, .join 0]) (source : Nat) :
    (group.lane rank source tag).map Message.payload ++
        (if source = rank then actor.ownUnsent rank tag position.script else []) =
      if source ∈ owed then [text source] else [] := by
  rw [h.lanes source, hscript, Script.select_incoming_take]
  by_cases howed : source ∈ owed
  · simp only [howed, and_self, if_true]
    rfl
  · simp only [howed, false_and, if_false]
    rfl

theorem payload_of_found {owed : RankSet} {found : Option Nat} {member : Member}
    {source : Nat} {message : Message}
    (hscript : position.script = [.take 0 tag owed text found, .join 0])
    (hmember : group.members[rank]? = some member)
    (hfound : member.inbox.parked.find? (Wanted.accepts ⟨tag, some source⟩) = some message)
    (howed : source ∈ owed) : message.payload = text source := by
  have hlane := h.lane_of_take hscript source
  rw [if_pos howed, Group.lane_of_getElem? hmember, Inbox.lane_eq_cons_of_found hfound] at hlane
  exact (List.cons.inj hlane).1

theorem backed : position.Backed group rank where
  found := by
    intro time label owed payload source script hstep hscript
    obtain ⟨howed, member, message, hmember, hfound⟩ :=
      h.found time label owed payload source script hstep hscript
    have hsingle := h.single
    rw [hscript] at hsingle
    obtain ⟨rfl, rfl, rfl, rfl, -⟩ := hsingle.eq_of_take
    exact ⟨howed, member, message, hmember, hfound,
      h.payload_of_found hscript hmember hfound howed⟩
  due := by
    intro time label owed payload script member message _ hscript hmember hfound howed
    have hsingle := h.single
    rw [hscript] at hsingle
    obtain ⟨rfl, rfl, rfl, rfl, -⟩ := hsingle.eq_of_take
    exact h.payload_of_found hscript hmember hfound howed

theorem not_stranger {owed : RankSet} {member : Member} {message : Message}
    (hscript : position.script = [.take 0 tag owed text none, .join 0])
    (hmember : group.members[rank]? = some member)
    (hfound : member.inbox.parked.find? (Wanted.accepts { tag }) = some message) :
    message.source ∈ owed := by
  by_contra hstranger
  obtain ⟨-, hsource⟩ := find?_source_of_find?_tag hfound
  have hlane := h.lane_of_take hscript message.source
  rw [if_neg hstranger, Group.lane_of_getElem? hmember, Inbox.lane_eq_cons_of_found hsource]
    at hlane
  cases hlane

theorem ownUnsent_of_take {owed : RankSet} {found : Option Nat}
    (hscript : position.script = [.take 0 tag owed text found, .join 0]) :
    actor.ownUnsent rank tag position.script =
      (Script.select rank tag (actor.unposted.map (fun post => (0, post)))).map Prod.snd := by
  have hready : actor.pause.isSending = false := by
    apply h.follows.ready
    rw [hscript]
    simp
  unfold ownUnsent unsent
  rw [Actor.remaining_of_ready hready, hscript]
  change (Script.select rank tag (_ ++ [])).map _ = _
  rw [List.append_nil]
  rfl

/-- Who gives up a search in the midst of a round has still to queue its own message. -/
theorem not_deserted {owed : RankSet} {channel : Channel} {member : Member}
    (hscript : position.script = [.take 0 tag owed text none, .join 0])
    (hmember : group.members[rank]? = some member)
    (hspent : member.inbox.Spent (group.isAlone rank))
    (hposted : group.size ≠ 1 → group.isAlone rank = true →
      (∀ message ∈ group.waitingAt rank, message.tag ≠ tag) →
        ∀ post ∈ actor.unposted, post.peer ≠ rank) :
    group.search rank { tag } (group.size = 1) channel ≠ .deserted := by
  intro hsearch
  unfold Group.search at hsearch
  rw [hmember] at hsearch
  obtain ⟨halone, hsize, hnone⟩ := Inbox.of_search_deserted hspent hsearch
  have hempty : ∀ message ∈ member.inbox.waiting, message.tag ≠ tag := by
    intro message hwaits htag
    exact List.find?_eq_none.1 (hnone _ member.inbox.arrives_waiting) message hwaits
      (Wanted.accepts_of_tag_iff.2 htag)
  have hown : actor.ownUnsent rank tag position.script = [] := by
    rw [h.ownUnsent_of_take hscript, List.map_eq_nil_iff, List.eq_nil_iff_forall_not_mem]
    rintro ⟨time, payload⟩ hmem
    obtain ⟨post, hpost, heq⟩ := List.mem_map.1 (Script.mem_select_iff.1 hmem)
    obtain ⟨-, rfl⟩ := Prod.mk.inj heq
    refine hposted (of_decide_eq_false hsize) halone ?_ _ hpost rfl
    rw [Group.waitingAt_of_getElem? hmember]
    exact hempty
  have hlane : ∀ source, group.lane rank source tag = [] := by
    intro source
    rw [Group.lane_of_getElem? hmember, List.eq_nil_iff_forall_not_mem]
    intro message hmessage
    obtain ⟨hwaits, -, htag⟩ := Inbox.mem_lane_iff.1 hmessage
    exact hempty message hwaits htag
  -- So nothing is owed any more, but then the rank would not look.
  have hsingle := h.single
  rw [hscript] at hsingle
  obtain ⟨-, -, -, -, hranks⟩ := hsingle.eq_of_take
  obtain ⟨source, hsource⟩ := List.exists_mem_of_ne_nil _ hranks
  have howed := h.lane_of_take hscript source
  rw [hlane, hown, if_pos (RankSet.mem_def.2 hsource)] at howed
  simp at howed

theorem not_lost {member : Member} (hmember : group.members[rank]? = some member)
    (hspent : member.inbox.Spent (group.isAlone rank))
    (hposted : group.size ≠ 1 → group.isAlone rank = true →
      (∀ message ∈ group.waitingAt rank, message.tag ≠ tag) → actor.looks tag = true →
        ∀ post ∈ actor.unposted, post.peer ≠ rank) :
    ¬ Lost (Program.Ends (Closing value)) group rank actor position := by
  have hsingle := h.single
  intro hlost
  cases hlost with
  | astray hstep =>
      rw [h.inStep] at hstep
      cases hstep
  | resting _ _ _ hrest =>
      obtain ⟨result, heq, -⟩ := hrest
      cases heq
  | stopped hstopped =>
      rw [h.running] at hstopped
      cases hstopped
  | deserted _ _ _ _ _ _ _ hscript hprogram hsearch =>
      rw [hscript] at hsingle
      obtain ⟨rfl, rfl, rfl, rfl, -⟩ := hsingle.eq_of_take
      refine h.not_deserted hscript hmember hspent (fun hsize halone hempty => ?_) hsearch
      refine hposted hsize halone hempty ?_
      simp [looks, hprogram]
  | stranger _ _ _ _ _ _ _ hscript hfinder hfound hstranger =>
      rw [hscript] at hsingle
      obtain ⟨rfl, rfl, rfl, rfl, -⟩ := hsingle.eq_of_take
      exact hstranger (h.not_stranger hscript hfinder hfound)

theorem ne_finalize (next : Except Fault Unit → Program α) :
    actor.program ≠ .act (.call .finalize) next := by
  intro hprogram
  have hfollows := h.follows.program
  rw [hprogram, h.inStep] at hfollows
  cases hfollows with
  | rest hrest =>
      obtain ⟨result, heq, -⟩ := hrest
      cases heq

/-- All sends are the helper thread's. -/
theorem posting?_main (channel : Channel) : actor.posting? (.main channel) = none := by
  have hprogram := h.follows.program
  have hsingle := h.single
  rw [h.inStep] at hprogram
  generalize heq : actor.program = program at hprogram
  generalize position.script = script at hprogram hsingle
  unfold posting?
  rw [heq]
  cases hprogram with
  | rest hrest =>
      obtain ⟨result, rfl, -⟩ := hrest
      rfl
  | send => exact absurd rfl (hsingle.ne_send _ _ _)
  | _ => rfl

theorem lanes_of_effect
    (heffect : Effect (fun _ => True) group rank (actor.unsent position.script) position group'
      (actor'.unsent position'.script) position') (hinStep : position'.inStep = true)
    (hsorted : group.Sorted) (source : Nat) :
    (group'.lane rank source tag).map Message.payload ++
        (if source = rank then actor'.ownUnsent rank tag position'.script else []) =
      (Script.select source tag position'.script.incoming).map Prod.snd := by
  have hlane := h.lanes source
  cases heffect with
  | keeps _ hunsent _ hsettles =>
      have hown : actor'.ownUnsent rank tag position'.script =
          actor.ownUnsent rank tag position.script := by
        unfold ownUnsent
        rw [hunsent]
      rw [hown]
      rcases hsettles hinStep source tag trivial with ⟨hsame, hdue⟩ |
        ⟨message, entry, hwaiting, hdue⟩
      · rw [hsame, hdue]
        exact hlane
      · rw [hwaiting, hdue] at hlane
        exact (List.cons.inj hlane).2
  | queues time post ticket henqueue hunsent _ hincoming =>
      rw [hincoming, ← hlane]
      have hown : actor.ownUnsent rank tag position.script =
          (if rank = post.peer ∧ tag = post.tag then [post.payload] else []) ++
            actor'.ownUnsent rank tag position'.script := by
        unfold ownUnsent
        rw [hunsent, Script.select_cons, List.map_append]
        split <;> rfl
      by_cases hsource : source = rank
      · subst hsource
        rw [if_pos rfl, if_pos rfl, hown]
        by_cases hmatch : source = post.peer ∧ tag = post.tag
        · obtain ⟨hpeer, rfl⟩ := hmatch
          rw [← hpeer] at henqueue
          rw [Group.lane_enqueue_self (hsorted source) trivial henqueue, if_pos ⟨hpeer, rfl⟩,
            List.map_append, List.append_assoc]
          rfl
        · rw [Group.lane_enqueue_of_ne henqueue (fun heq => hmatch ⟨heq.1, heq.2.2⟩),
            if_neg hmatch, List.nil_append]
      · rw [if_neg hsource, if_neg hsource,
          Group.lane_enqueue_of_ne henqueue (fun heq => hsource heq.2.1)]

theorem scriptStep (hsorted : group.Sorted)
    (hscriptStep : ScriptStep (Program.Ends (Closing value)) group rank actor position group'
      actor' position')
    (hinStep : position'.inStep = true) (hrunning : group'.isStopped rank = false) :
    actor'.InRound group' rank tag text posts value position' := by
  have horderly := h.single.orderly
  have hproceeds : position.script.Proceeds position'.script := by
    rcases hscriptStep.proceeds with ⟨-, hproceeds⟩ | ⟨hlost, -⟩
    · exact hproceeds
    · rw [hinStep] at hlost
      cases hlost
  refine ⟨hscriptStep.follows, hinStep, h.single.proceeds hproceeds, ?_,
    hscriptStep.found horderly h.found, hrunning, ?_⟩
  · rcases hscriptStep.posts_sublist with hsub | ⟨time, script, hscript⟩
    · exact hsub.trans h.posting
    · have hsingle := h.single
      rw [hscript] at hsingle
      cases hsingle
      exact List.Sublist.refl _
  · exact h.lanes_of_effect
      (hscriptStep.effect h.follows horderly (fun _ => hsorted rank)) hinStep hsorted

/-- A step of another rank that queues nothing for the round. -/
theorem step_of_ne {mover : Nat} {other other' : Actor α} {thread : Thread} {deeds : List Deed}
    (heffect : StepEffect group mover other thread deeds group' other') (hne : rank ≠ mover)
    (hqueued : deeds.filterMap (Deed.queued? rank mover tag) = []) :
    actor.InRound group' rank tag text posts value position := by
  refine ⟨h.follows, h.inStep, h.single, h.posting, heffect.found_of_ne hne h.found, ?_, ?_⟩
  · rw [heffect.isStopped (fun heq => absurd heq hne)]
    exact h.running
  · intro source
    rw [heffect.lane_of_ne hne hqueued]
    exact h.lanes source

theorem result {result : Except Fault α} (hresult : actor.result? = some result) :
    result = .ok value := by
  have hfollows := h.follows.program
  rw [Actor.program_of_result hresult, h.inStep] at hfollows
  cases hfollows with
  | rest hrest =>
      obtain ⟨_, heq, hclosing⟩ := hrest
      cases heq
      exact (hclosing rfl).1

end

end InRound

end Actor

namespace World

variable {α : Type} {rank : Nat} {tag : Tag} {text : Nat → Bytes} {posts : List Envelope}
  {value : α} {first world next : World α}

/-- Whether a rank looks for a message on a tag when all others have left, nothing is there
on the tag, and its helper thread has still to queue its own. -/
def looksTooSoon (world : World α) (rank : Nat) (tag : Tag) : Bool :=
  decide (world.group.size ≠ 1) && world.group.isAlone rank &&
    (world.group.waitingAt rank).all (fun message => decide (message.tag ≠ tag)) &&
    world.actors[rank]?.any (fun actor =>
      actor.looks tag && actor.unposted.any (fun post => decide (post.peer = rank)))

/-- A step that is no hindrance to a round of a rank on a tag. -/
structure Favours (rank : Nat) (tag : Tag) (world : World α) (move : Move) : Prop where
  sends : move.rank = rank → world.sendFails move = false
  others : move.rank ≠ rank →
    (world.deeds move).filterMap (Deed.queued? rank move.rank tag) = []
  posted : move.rank = rank → move.thread ≠ .helper → world.looksTooSoon rank tag = false

instance (rank : Nat) (tag : Tag) (world : World α) (move : Move) :
    Decidable (world.Favours rank tag move) :=
  decidable_of_iff
    ((move.rank = rank → world.sendFails move = false) ∧
      (move.rank ≠ rank →
        (world.deeds move).filterMap (Deed.queued? rank move.rank tag) = []) ∧
      (move.rank = rank → move.thread ≠ .helper → world.looksTooSoon rank tag = false))
    ⟨fun h => ⟨h.1, h.2.1, h.2.2⟩, fun h => ⟨h.sends, h.others, h.posted⟩⟩

/-- Some sequence of steps that are no hindrance to a round leads from one world to
another. -/
inductive ReachesFavouring (rank : Nat) (tag : Tag) : World α → World α → Prop
  | refl (world : World α) : ReachesFavouring rank tag world world
  | step {first second last : World α} (move : Move) (hfavours : first.Favours rank tag move)
      (h : first.step move = some second) (rest : ReachesFavouring rank tag second last) :
      ReachesFavouring rank tag first last

/-- Takes the steps of a schedule, if each can be taken and is no hindrance to a round. -/
def followFavouring (rank : Nat) (tag : Tag) (world : World α) : List Move → Option (World α)
  | [] => some world
  | move :: rest =>
      if world.Favours rank tag move then
        (world.step move).bind (fun next => next.followFavouring rank tag rest)
      else none

theorem reachesFavouring_of_follow {moves : List Move} :
    ∀ {first last : World α}, first.followFavouring rank tag moves = some last →
      first.ReachesFavouring rank tag last := by
  induction moves with
  | nil =>
      intro first last h
      cases h
      exact .refl first
  | cons move moves ih =>
      intro first last h
      unfold followFavouring at h
      split at h
      · next hfavours =>
          obtain ⟨next, hstep, hrest⟩ := Option.bind_eq_some_iff.1 h
          exact .step move hfavours hstep (ih hrest)
      · cases h

theorem ReachesFavouring.reaches (h : first.ReachesFavouring rank tag world) :
    first.Reaches world := by
  induction h with
  | refl => exact .refl _
  | step move _ hstep _ ih => exact .step move hstep ih

def InRound (rank : Nat) (tag : Tag) (text : Nat → Bytes) (posts : List Envelope) (value : α)
    (world : World α) : Prop :=
  ∃ actor position, world.actors[rank]? = some actor ∧
    actor.InRound world.group rank tag text posts value position

theorem Regular.exists_member (h : world.Regular) {actor : Actor α}
    (hactor : world.actors[rank]? = some actor) :
    ∃ member, world.group.members[rank]? = some member := by
  have hlt : rank < world.group.members.length := by
    have := (List.getElem?_eq_some_iff.1 hactor).1
    rwa [h.staffed] at this
  exact ⟨_, List.getElem?_eq_getElem hlt⟩

namespace InRound

theorem step_self (h : world.InRound rank tag text posts value) (hregular : world.Regular)
    {thread : Thread} (hfavours : world.Favours rank tag ⟨rank, thread⟩)
    (hstep : world.step ⟨rank, thread⟩ = some next) :
    next.InRound rank tag text posts value := by
  obtain ⟨actor, position, hactor, hround⟩ := h
  obtain ⟨member, hmember⟩ := hregular.exists_member hactor
  have hrunning : next.group.isStopped rank = false := by
    obtain ⟨mover, group', mover', hmover, rfl, heffect⟩ := exists_stepEffect_of_step hstep
    cases hmover.symm.trans hactor
    exact (heffect.isStopped (fun _ => hround.ne_finalize)).trans hround.running
  obtain ⟨mover, group', actor', hmover, rfl, hthread⟩ := step_eq_some hstep
  cases hmover.symm.trans hactor
  have hactor' : (world.actors.set rank actor')[rank]? = some actor' := by
    rw [getElem?_of_set hactor, if_pos rfl]
  have hrefuses : ∀ posting, actor.posting? thread = some posting →
      world.group.refuses rank posting = false := by
    intro posting hposting
    have hfails := hfavours.sends rfl
    unfold sendFails at hfails
    simpa only [hactor, hposting] using hfails
  rcases hthread with ⟨channel, rfl, hadvance⟩ | ⟨rfl, hhelp⟩
  · obtain ⟨position', hscriptStep⟩ :=
      Actor.scriptStep_of_advance (restful_closing value) hround.follows
      hround.backed hrefuses hadvance
    refine ⟨actor', position', hactor', hround.scriptStep hregular.sorted hscriptStep ?_ hrunning⟩
    have hposted := hfavours.posted rfl (by simp)
    have hkept := hround.not_lost hmember (hregular.spent rank member hmember)
      (fun hsize halone hempty hlooks post hpost hpeer => by
        have hsoon : world.looksTooSoon rank tag = true := by
          simp only [looksTooSoon, hactor, Option.any_some, Bool.and_eq_true, List.all_eq_true,
            List.any_eq_true, decide_eq_true_eq]
          exact ⟨⟨⟨hsize, halone⟩, hempty⟩, hlooks, post, hpost, hpeer⟩
        rw [hposted] at hsoon
        cases hsoon)
    exact hscriptStep.inStep hround.inStep hkept
  · exact ⟨actor', position, hactor', hround.scriptStep hregular.sorted
      (Actor.scriptStep_of_help hround.follows hrefuses hhelp) hround.inStep hrunning⟩

theorem step (h : world.InRound rank tag text posts value) (hregular : world.Regular)
    {move : Move} (hfavours : world.Favours rank tag move) (hstep : world.step move = some next) :
    next.InRound rank tag text posts value := by
  obtain ⟨mover, thread⟩ := move
  by_cases hmover : mover = rank
  · subst hmover
    exact h.step_self hregular hfavours hstep
  · obtain ⟨actor, position, hactor, hround⟩ := h
    obtain ⟨other, group', other', hother, rfl, heffect⟩ := exists_stepEffect_of_step hstep
    refine ⟨actor, position, ?_, hround.step_of_ne heffect (Ne.symm hmover)
      (hfavours.others hmover)⟩
    rw [getElem?_of_set hother, if_neg (Ne.symm hmover)]
    exact hactor

theorem of_reaches (hreaches : first.ReachesFavouring rank tag world)
    (h : first.InRound rank tag text posts value) (hregular : first.Regular) :
    world.InRound rank tag text posts value ∧ world.Regular := by
  induction hreaches with
  | refl => exact ⟨h, hregular⟩
  | step move hfavours hstep _ ih =>
      exact ih (h.step hregular hfavours hstep) (hregular.step hstep)

end InRound

end World

end RankExchange
