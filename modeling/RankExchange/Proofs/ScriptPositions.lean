import RankExchange.Proofs.Lane
import RankExchange.Proofs.ScriptedPrograms

/-!
# Positions in a script

The position of a rank is what is left of its script, with the word whether the
rank is in step.  `ScriptStep` lists what one step of one thread can do when the
rank follows its script from there: to the group, to the rank and to the position
itself.  All that is known about whole runs comes from it.
-/

namespace RankExchange

structure Position where
  inStep : Bool
  script : Script

def Pause.isSending : Pause → Bool
  | .sending _ => true
  | _ => false

namespace Actor

variable {α : Type}

def unposted (actor : Actor α) : List Envelope :=
  match actor.ticket with
  | none => actor.posts
  | some _ => actor.posts.tail

/-- What the main thread has still to do; the message that it waits for is
queued already. -/
def remaining (actor : Actor α) (script : Script) : Script :=
  if actor.pause.isSending then script.tail else script

def unsent (actor : Actor α) (script : Script) : List (Nat × Envelope) :=
  actor.unposted.map (fun post => (script.clock, post)) ++ (actor.remaining script).outgoing

/-- The send that a thread is at, and the ticket that it waits for. -/
def posting? (actor : Actor α) : Thread → Option (Envelope × Option Nat)
  | .helper => actor.posts.head?.map (fun post => (post, actor.ticket))
  | .main _ =>
      match actor.program, actor.pause with
      | .act (.call (.send dest tag payload)) _, .none => some (⟨dest, tag, payload⟩, none)
      | .act (.call (.send dest tag payload)) _, .sending ticket =>
          some (⟨dest, tag, payload⟩, some ticket)
      | _, _ => none

/-- A rank follows its script: its main thread is at the head of what is left, which
it leaves only when the message is confirmed that it waits for, and its helper
thread is at work only in the middle of a round. -/
structure FollowsScript (Rest : Bool → Program α → Script → Prop) (actor : Actor α)
    (position : Position) : Prop where
  program : Program.FollowsScript Rest position.inStep actor.program position.script
  paused : actor.pause.isSending = true →
    ∃ (time : Nat) (post : Envelope) (script : Script) (next : _ → Program α),
      position.script = .send time post :: script ∧
      actor.program = .act (.call (.send post.peer post.tag post.payload)) next ∧
      Program.FollowsScript Rest position.inStep (next (.ok ())) script
  helping : actor.posts ≠ [] → position.script.Helping
  posts : actor.posts = [] → actor.ticket = none
  failure : actor.failure = none

end Actor

/-- Whether a send is answered by a fault. -/
def Group.refuses (group : Group) (rank : Nat) : Envelope × Option Nat → Bool
  | (post, none) =>
      match group.enqueue rank post.peer post.tag post.payload with
      | .error _ => true
      | .ok _ => false
  | (post, some ticket) =>
      match group.confirmation post.peer ticket with
      | some (.error _) => true
      | _ => false

def World.sendFails {α : Type} (world : World α) (move : Move) : Bool :=
  match world.actors[move.rank]? with
  | none => false
  | some actor =>
      match actor.posting? move.thread with
      | none => false
      | some posting => world.group.refuses move.rank posting

/-- A rest is a state in which a program sends nothing any more. -/
structure Restful {α : Type} (Rest : Bool → Program α → Script → Prop) : Prop where
  astray : ∀ inStep program script, Rest inStep program script → Rest false program script
  quiet : ∀ inStep action next script, Rest inStep (.act action next) script →
    action.isQuiet = true
  answer : ∀ inStep action next script, Rest inStep (.act action next) script →
    ∀ answer, Rest false (next answer) script

/-- Why a rank is out of step after a step. -/
inductive Lost {α : Type} (Rest : Bool → Program α → Script → Prop) (group : Group) (rank : Nat)
    (actor : Actor α) (position : Position) : Prop
  | astray (h : position.inStep = false)
  | resting (action : Action) (next : action.Answer → Program α)
      (hprogram : actor.program = .act action next)
      (h : Rest position.inStep (.act action next) position.script)
  | stopped (h : group.isStopped rank = true)
  | deserted (time : Nat) (tag : Tag) (owed : RankSet) (payload : Nat → Bytes) (script : Script)
      (channel : Channel) (next : Except Fault Arrival → Program α)
      (hscript : position.script = .take time tag owed payload none :: script)
      (hprogram : actor.program = .act (.call (.probe tag)) next)
      (h : group.search rank { tag } (group.size = 1) channel = .deserted)
  | stranger (time : Nat) (tag : Tag) (owed : RankSet) (payload : Nat → Bytes) (script : Script)
      (message : Message) (member : Member)
      (hscript : position.script = .take time tag owed payload none :: script)
      (hmember : group.members[rank]? = some member)
      (hfound : member.inbox.parked.find? (Wanted.accepts { tag }) = some message)
      (h : ¬ message.source ∈ owed)

/-- What a step of a rank that follows its script can do. -/
inductive ScriptStep {α : Type} (Rest : Bool → Program α → Script → Prop) (group : Group)
    (rank : Nat) (actor : Actor α) (position : Position) : Group → Actor α → Position → Prop
  | steady {actor' : Actor α} (hready : actor.pause.isSending = false)
      (hfollows : actor'.FollowsScript Rest position)
      (hposts : actor'.posts = actor.posts) (hticket : actor'.ticket = actor.ticket)
      (hpause : actor'.pause = .none) :
      ScriptStep Rest group rank actor position group actor' position
  | sends {time : Nat} {post : Envelope} {script : Script} {group' : Group} {actor' : Actor α}
      (hscript : position.script = .send time post :: script) (hposts : actor.posts = [])
      (hready : actor.pause.isSending = false)
      (henqueue : group.enqueue rank post.peer post.tag post.payload = .ok (group', none))
      (hfollows : actor'.FollowsScript Rest ⟨position.inStep, script⟩) (hposts' : actor'.posts = [])
      (hpause : actor'.pause = .none) :
      ScriptStep Rest group rank actor position group' actor' ⟨position.inStep, script⟩
  | offers {time : Nat} {post : Envelope} {script : Script} {group' : Group} {ticket : Nat}
      {actor' : Actor α}
      (hscript : position.script = .send time post :: script) (hposts : actor.posts = [])
      (hready : actor.pause.isSending = false)
      (henqueue : group.enqueue rank post.peer post.tag post.payload = .ok (group', some ticket))
      (hfollows : actor'.FollowsScript Rest position) (hposts' : actor'.posts = [])
      (hpause : actor'.pause = .sending ticket) :
      ScriptStep Rest group rank actor position group' actor' position
  | resumes {time : Nat} {post : Envelope} {script : Script} {ticket : Nat} {actor' : Actor α}
      (hscript : position.script = .send time post :: script) (hposts : actor.posts = [])
      (hsending : actor.pause = .sending ticket)
      (hconfirmed : group.confirmation post.peer ticket = some (.ok ()))
      (hfollows : actor'.FollowsScript Rest ⟨position.inStep, script⟩) (hposts' : actor'.posts = [])
      (hpause : actor'.pause = .none) :
      ScriptStep Rest group rank actor position group actor' ⟨position.inStep, script⟩
  | spawns {time : Nat} {script : Script} {actor' : Actor α}
      (hscript : position.script = .spawn time actor'.posts :: script) (hposts : actor.posts = [])
      (hfollows : actor'.FollowsScript Rest ⟨position.inStep, script⟩)
      (hticket : actor'.ticket = none)
      (hclock : script.clock = time) (hpause : actor'.pause = .none) :
      ScriptStep Rest group rank actor position group actor' ⟨position.inStep, script⟩
  | joins {time : Nat} {script : Script} {actor' : Actor α}
      (hscript : position.script = .join time :: script) (hposts : actor.posts = [])
      (hfollows : actor'.FollowsScript Rest ⟨position.inStep, script⟩) (hposts' : actor'.posts = [])
      (hpause : actor'.pause = .none) :
      ScriptStep Rest group rank actor position group actor' ⟨position.inStep, script⟩
  | parks {time : Nat} {tag : Tag} {owed : RankSet} {payload : Nat → Bytes} {script : Script}
      {wanted : Wanted} {own : Bool} {channel : Channel} {inbox : Inbox}
      (hscript : position.script = .take time tag owed payload none :: script)
      (hsearch : group.search rank wanted own channel = .moved inbox)
      (hfollows : actor.FollowsScript Rest position) :
      ScriptStep Rest group rank actor position (group.putInbox rank inbox) actor position
  | finds {time : Nat} {tag : Tag} {owed : RankSet} {payload : Nat → Bytes} {script : Script}
      {member : Member} {message : Message} {actor' : Actor α} (hstep : position.inStep = true)
      (hscript : position.script = .take time tag owed payload none :: script)
      (hmember : group.members[rank]? = some member)
      (hfound : member.inbox.parked.find? (Wanted.accepts ⟨tag, some message.source⟩) =
        some message)
      (howed : message.source ∈ owed) (hpayload : message.payload = payload message.source)
      (hfollows : actor'.FollowsScript Rest
        ⟨true, .take time tag owed payload (some message.source) :: script⟩)
      (hposts : actor'.posts = actor.posts) (hticket : actor'.ticket = actor.ticket)
      (hpause : actor'.pause = .none) :
      ScriptStep Rest group rank actor position group actor'
        ⟨true, .take time tag owed payload (some message.source) :: script⟩
  | takes {time : Nat} {tag : Tag} {owed : RankSet} {payload : Nat → Bytes} {source : Nat}
      {script : Script} {member : Member} {message : Message} {actor' : Actor α}
      (hstep : position.inStep = true)
      (hscript : position.script = .take time tag owed payload (some source) :: script)
      (hmember : group.members[rank]? = some member)
      (hfound : member.inbox.parked.find? (Wanted.accepts ⟨tag, some source⟩) = some message)
      (howed : source ∈ owed)
      (hfollows : actor'.FollowsScript Rest
        ⟨true, Script.await time tag (owed.erase source) payload script⟩)
      (hposts : actor'.posts = actor.posts) (hticket : actor'.ticket = actor.ticket)
      (hpause : actor'.pause = .none) :
      ScriptStep Rest group rank actor position
        (group.receive rank ⟨tag, some source⟩ message message.payload.length).2 actor'
        ⟨true, Script.await time tag (owed.erase source) payload script⟩
  | wanders {group' : Group} {actor' : Actor α} {script' : Script}
      (hlost : Lost Rest group rank actor position) (hready : actor.pause.isSending = false)
      (hready' : actor'.pause.isSending = false) (hsame : Group.SameBut rank group group')
      (hfollows : actor'.FollowsScript Rest ⟨false, script'⟩)
      (hscript : script'.Sublist position.script)
      (houtgoing : script'.outgoing = position.script.outgoing)
      (hclock : actor.posts ≠ [] → script'.clock = position.script.clock)
      (hposts : actor'.posts = actor.posts) (hticket : actor'.ticket = actor.ticket) :
      ScriptStep Rest group rank actor position group' actor' ⟨false, script'⟩
  | posts {post : Envelope} {posts : List Envelope} {group' : Group} {actor' : Actor α}
      {ticket : Option Nat} (hposts : actor.posts = post :: posts) (hticket : actor.ticket = none)
      (henqueue : group.enqueue rank post.peer post.tag post.payload = .ok (group', ticket))
      (hfollows : actor'.FollowsScript Rest position) (hpause : actor'.pause = actor.pause)
      (hticket' : actor'.ticket = ticket)
      (hposts' : actor'.posts = if ticket = none then posts else post :: posts) :
      ScriptStep Rest group rank actor position group' actor' position
  | confirmed {post : Envelope} {posts : List Envelope} {ticket : Nat} {actor' : Actor α}
      (hposts : actor.posts = post :: posts) (hticket : actor.ticket = some ticket)
      (hconfirmed : group.confirmation post.peer ticket = some (.ok ()))
      (hfollows : actor'.FollowsScript Rest position) (hpause : actor'.pause = actor.pause)
      (hticket' : actor'.ticket = none) (hposts' : actor'.posts = posts) :
      ScriptStep Rest group rank actor position group actor' position

end RankExchange
