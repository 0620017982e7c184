import RankExchange.Proofs.ExchangeScripts
import RankExchange.Proofs.Lane

/-!
# What a rank does not see

A rank that looks for messages reads and writes its own inbox.  Changes elsewhere
in the group, such as messages to others, neither alter its steps nor are altered
by them, so they may as well come before or after.  Which sends are refused is
not changed by any of this.
-/

namespace RankExchange

/-- What decides on the calls of a member and on the sends to it. -/
def Member.status (member : Member) : Bool × Bool :=
  (member.stopped, member.present)

namespace Group

/-- Groups of which the same members are at work and the same have left. -/
structure Alike (group group' : Group) : Prop where
  delivery : group'.delivery = group.delivery
  status : group'.members.map Member.status = group.members.map Member.status

def refusal? (group : Group) (rank : Nat) (post : Envelope) : Option Fault :=
  match group.enqueue rank post.peer post.tag post.payload with
  | .error fault => some fault
  | .ok _ => none

def push (group : Group) (rank : Nat) (post : Envelope) : Group :=
  group.modify post.peer (fun member => { member with
    inbox := member.inbox.push post.peer ⟨rank, post.tag, post.payload, none⟩ })

def given (group : Group) (rank : Nat) (posts : List Envelope) : Group :=
  posts.foldl (fun group post => group.push rank post) group

/-- A change of the group that a rank neither sees nor touches. -/
structure Unseen (rank : Nat) (change : Group → Group) : Prop where
  alike : ∀ group : Group, group.Alike (change group)
  member : ∀ group : Group, (change group).members[rank]? = group.members[rank]?
  modify : ∀ (group : Group) f, change (group.modify rank f) = (change group).modify rank f
  settle : ∀ (group : Group) ticket receipt,
    change (group.settle ticket receipt) = (change group).settle ticket receipt

variable {group group' : Group} {rank other : Nat} {post : Envelope} {change : Group → Group}

theorem modify_eq (group : Group) (rank : Nat) (f : Member → Member) :
    group.modify rank f = { group with members := group.members.modify rank f } := by
  cases hmember : group.members[rank]? with
  | none =>
      have hle := List.getElem?_eq_none_iff.1 hmember
      rw [List.modify_eq_self hle]
      unfold Group.modify
      rw [hmember]
  | some member =>
      rw [modify_of_getElem? hmember]
      congr 1
      refine List.ext_getElem? (fun other => ?_)
      rw [List.getElem?_modify, getElem?_of_set hmember]
      by_cases hother : rank = other
      · rw [← hother, hmember]
        simp
      · simp [hother, Ne.symm hother]

theorem modify_modify_of_ne (h : rank ≠ other) (f g : Member → Member) :
    (group.modify rank f).modify other g = (group.modify other g).modify rank f := by
  simp only [modify_eq]
  rw [List.modify_modify_ne f g _ h]

theorem modify_settle (ticket : Option Nat) (receipt : Receipt) (f : Member → Member) :
    (group.settle ticket receipt).modify rank f =
      (group.modify rank f).settle ticket receipt := by
  rw [modify_eq, modify_eq]
  cases ticket <;> rfl

namespace Alike

theorem refl (group : Group) : group.Alike group :=
  ⟨rfl, rfl⟩

theorem trans {group'' : Group} (h : group.Alike group') (h' : group'.Alike group'') :
    group.Alike group'' :=
  ⟨h'.delivery.trans h.delivery, h'.status.trans h.status⟩

theorem modify {f : Member → Member} (h : ∀ member, (f member).status = member.status) :
    group.Alike (group.modify rank f) := by
  rw [modify_eq]
  refine ⟨rfl, List.ext_getElem? (fun other => ?_)⟩
  rw [List.getElem?_map, List.getElem?_map, List.getElem?_modify]
  cases group.members[other]? with
  | none => rfl
  | some member =>
      by_cases hother : rank = other
      · simp [hother, h]
      · simp [hother]

theorem settle (ticket : Option Nat) (receipt : Receipt) :
    group.Alike (group.settle ticket receipt) := by
  cases ticket <;> exact ⟨rfl, rfl⟩

theorem receive (wanted : Wanted) (message : Message) (length : Nat) :
    group.Alike (group.receive rank wanted message length).2 := by
  have hrest : group.Alike (group.modify rank (fun member =>
      { member with inbox := member.inbox.take wanted })) := modify (fun _ => rfl)
  unfold Group.receive
  split <;> exact hrest.trans (settle _ _)

variable (h : group.Alike group')

include h

theorem size : group'.size = group.size := by
  simpa [Group.size] using congrArg List.length h.status

theorem getElem?_status (rank : Nat) :
    group'.members[rank]?.map Member.status = group.members[rank]?.map Member.status := by
  rw [← List.getElem?_map, h.status, List.getElem?_map]

theorem isStopped (rank : Nat) : group'.isStopped rank = group.isStopped rank := by
  have hany : ∀ group : Group, group.isStopped rank =
      (group.members[rank]?.map Member.status).any Prod.fst := by
    intro group
    rw [Option.any_map]
    rfl
  rw [hany, hany, h.getElem?_status]

theorem isAlone (rank : Nat) : group'.isAlone rank = group.isAlone rank := by
  have hall : ∀ group : Group, group.isAlone rank =
      (group.members.map Member.status).zipIdx.all
        (fun (status, other) => other = rank || !status.2) := by
    intro group
    rw [List.zipIdx_map, List.all_map]
    rfl
  rw [hall, hall, h.status]

end Alike

theorem refusal?_eq (group : Group) (rank : Nat) (post : Envelope) : group.refusal? rank post =
    if group.isStopped rank then some (.transport .send .stopped)
    else
      match group.members[post.peer]?.map Member.status with
      | none => some (.transport .send (.noSuchRank post.peer))
      | some status =>
          if status.2 then none else some (.transport .send (.departed post.peer)) := by
  unfold refusal? enqueue
  by_cases hstopped : group.isStopped rank = true
  · simp [hstopped]
  · cases hmember : group.members[post.peer]? with
    | none => simp [hstopped]
    | some member =>
        by_cases hpresent : member.present = true
        · simp [hstopped, hpresent, Member.status]
        · simp [hstopped, hpresent, Member.status]

theorem Alike.refusal? (h : group.Alike group') (rank : Nat) (post : Envelope) :
    group'.refusal? rank post = group.refusal? rank post := by
  rw [refusal?_eq, refusal?_eq, h.isStopped, h.getElem?_status]

/-- A send in a group with buffered delivery is refused, or done at once. -/
theorem enqueue_eq (hbuffered : group.delivery = .buffered) (rank : Nat) (post : Envelope) :
    group.enqueue rank post.peer post.tag post.payload =
      match group.refusal? rank post with
      | some fault => .error fault
      | none => .ok (group.push rank post, none) := by
  unfold refusal?
  cases henqueue : group.enqueue rank post.peer post.tag post.payload with
  | error fault => rfl
  | ok result =>
      unfold enqueue at henqueue
      split at henqueue
      · cases henqueue
      · split at henqueue
        · cases henqueue
        · next member hmember =>
            split at henqueue
            · rw [hbuffered] at henqueue
              cases henqueue
              simp only [push, modify_of_getElem? hmember, Inbox.push, hbuffered]
            · cases henqueue

namespace Unseen

theorem refl (rank : Nat) : Unseen rank (fun group => group) :=
  ⟨Alike.refl, fun _ => rfl, fun _ _ => rfl, fun _ _ _ => rfl⟩

theorem comp {further : Group → Group} (h : Unseen rank change) (hfurther : Unseen rank further) :
    Unseen rank (fun group => further (change group)) where
  alike group := (h.alike group).trans (hfurther.alike _)
  member group := (hfurther.member _).trans (h.member group)
  modify group f := by rw [h.modify, hfurther.modify]
  settle group ticket receipt := by rw [h.settle, hfurther.settle]

theorem push (hother : post.peer ≠ rank) (source : Nat) :
    Unseen rank (fun group => group.push source post) where
  alike _ := .modify (fun _ => rfl)
  member _ := (sameBut_modify _ _ _).member rank (Ne.symm hother)
  modify _ _ := modify_modify_of_ne (Ne.symm hother) _ _
  settle _ _ _ := modify_settle _ _ _

theorem given {posts : List Envelope} (h : ∀ post ∈ posts, post.peer ≠ rank) :
    Unseen rank (fun group => group.given rank posts) := by
  induction posts with
  | nil => exact .refl rank
  | cons post posts ih =>
      obtain ⟨hpost, hposts⟩ := List.forall_mem_cons.1 h
      exact (push hpost rank).comp (ih hposts)

variable (h : Unseen rank change)

include h

theorem search (group : Group) (wanted : Wanted) (own : Bool) (channel : Channel) :
    (change group).search rank wanted own channel = group.search rank wanted own channel := by
  unfold Group.search
  rw [h.member, (h.alike group).isAlone]

theorem receive (group : Group) (wanted : Wanted) (message : Message) (length : Nat) :
    (change group).receive rank wanted message length =
      ((group.receive rank wanted message length).1,
        change (group.receive rank wanted message length).2) := by
  unfold Group.receive
  simp only
  split <;> rw [h.settle, h.modify]

end Unseen

end Group

namespace Program

variable {α β : Type}

/-- A program that does nothing but look for messages and take them, with all the
answers that a group can give. -/
inductive Listens : Program α → Prop
  | done {result : Except Fault α} (h : result ≠ .error .noRoom) : Listens (.done result)
  | log {event : Event} {next : Unit → Program α} (h : (next ()).Listens) :
      Listens (.act (.log event) next)
  | reserve {length : Nat} {next : Except Fault Unit → Program α}
      (h : (next (.ok ())).Listens) : Listens (.act (.reserve length) next)
  | probe {tag : Tag} {next : Except Fault Arrival → Program α}
      (h : ∀ answer, answer ≠ .error .noRoom → (next answer).Listens) :
      Listens (.act (.call (.probe tag)) next)
  | receive {source length : Nat} {tag : Tag} {next : Except Fault (Buffer length) → Program α}
      (h : ∀ answer, answer ≠ .error .noRoom → (next answer).Listens) :
      Listens (.act (.call (.receive source tag length)) next)

/-- A larger program that takes its steps from the one inside it. -/
structure Transparent (wrap : Program α → Program β) : Prop where
  act : ∀ action next, wrap (.act action next) = .act action (fun answer => wrap (next answer))

theorem Listens.raise {fault : Fault} (h : fault ≠ .noRoom) :
    Listens (.done (.error fault) : Program α) :=
  .done (fun heq => h (Except.error.inj heq))

theorem Listens.bind {program : Program α} {f : α → Program β} (h : program.Listens)
    (hnext : ∀ value, (f value).Listens) : (program.bind f).Listens := by
  induction h with
  | @done result h =>
      cases result with
      | ok value => exact hnext value
      | error fault => exact .raise (fun heq => h (congrArg Except.error heq))
  | log _ ih => exact .log ih
  | reserve _ ih => exact .reserve ih
  | probe _ ih => exact .probe ih
  | receive _ ih => exact .receive ih

end Program

namespace Endpoint

open Program

theorem listens_probe (endpoint : Endpoint) (tag : Tag) : (endpoint.probe tag).Listens := by
  refine .probe (fun answer hanswer => ?_)
  cases answer with
  | error fault => exact .raise (fun heq => hanswer (congrArg Except.error heq))
  | ok arrival =>
      refine .log ?_
      change Listens (if _ then _ else _)
      split
      · exact .done (by simp)
      · exact .raise (by simp)

theorem listens_accept (arrival : Arrival) : (accept arrival).Listens := by
  refine .reserve (.receive (fun answer hanswer => ?_))
  cases answer with
  | error fault => exact .raise (fun heq => hanswer (congrArg Except.error heq))
  | ok buffer => exact .log (.done (by simp))

theorem listens_receiveOwed (endpoint : Endpoint) : ∀ count round received,
    (endpoint.receiveOwed count round received).Listens := by
  intro count
  induction count with
  | zero => exact fun _ _ => .done (by simp)
  | succ count ih =>
      intro round received
      apply Listens.bind (listens_probe _ _)
      intro arrival
      have hsettle : Listens (liftM (round.settle arrival.source) : Program Round) := by
        refine .done (fun heq => ?_)
        unfold Round.settle at heq
        split at heq <;> cases heq
      apply Listens.bind hsettle
      intro next
      apply Listens.bind (listens_accept _)
      intro envelope
      exact ih next _

theorem listens_receiveAll (endpoint : Endpoint) (round : Round) :
    (endpoint.receiveAll round).Listens :=
  listens_receiveOwed endpoint _ _ _

end Endpoint

namespace Actor

variable {α β : Type} {core core' : Actor α} {group group' : Group} {rank : Nat}
  {channel : Channel}

/-- The rank whose program is wrapped in a larger one, with a helper at work. -/
def host (core : Actor α) (wrap : Program α → Program β) (posts : List Envelope)
    (failure : Option Fault) (older : List Event) : Actor β :=
  { program := wrap core.program, pause := core.pause, posts, failure,
    trail := core.trail ++ older }

/-- What a step of a listening rank leaves as it was. -/
structure Keeps (rank : Nat) (group : Group) (core : Actor α) (group' : Group)
    (core' : Actor α) : Prop where
  listens : core'.program.Listens
  posts : core'.posts = core.posts
  alike : group.Alike group'
  sameBut : Group.SameBut rank group group'

theorem keeps_resume {program : Program α} (h : program.Listens) (trail : List Event) :
    Keeps rank group core group { core.resume program with trail } :=
  ⟨h, rfl, .refl group, .refl rank group⟩

theorem keeps_putInbox (h : core.program.Listens) (inbox : Inbox) :
    Keeps rank group core (group.putInbox rank inbox) core :=
  ⟨h, rfl, .modify (fun _ => rfl), Group.sameBut_modify _ _ _⟩

theorem keeps_of_advance (hlistens : core.program.Listens)
    (h : core.advance group rank channel = some (group', core')) :
    Keeps rank group core group' core' := by
  have hsame := hlistens
  generalize hprogram : core.program = program at hlistens
  unfold advance at h
  rw [hprogram] at h
  cases hlistens with
  | done => cases h
  | log hnext =>
      cases h
      exact keeps_resume hnext _
  | reserve hnext =>
      cases h
      exact keeps_resume hnext _
  | probe hnext =>
      simp only [call] at h
      split at h
      · cases h
        exact keeps_resume (hnext _ (by simp)) _
      · split at h <;> cases h
        · exact keeps_resume (hnext _ (by simp)) _
        · exact keeps_putInbox hsame _
        · exact keeps_resume (hnext _ (by simp)) _
  | receive hnext =>
      simp only [call] at h
      split at h
      · cases h
        exact keeps_resume (hnext _ (by simp)) _
      · split at h <;> cases h
        · refine ⟨hnext _ ?_, rfl, .receive _ _ _, Group.sameBut_receive _ _ _ _⟩
          unfold Group.receive
          simp only
          split <;> simp
        · exact keeps_putInbox hsame _
        · exact keeps_resume (hnext _ (by simp)) _

/-- A listening rank takes the same steps inside a larger program and beside changes
that it does not see. -/
theorem advance_host {wrap : Program α → Program β} {change : Group → Group}
    (hwrap : Program.Transparent wrap) (hunseen : Group.Unseen rank change)
    (hlistens : core.program.Listens) (hresult : core.result? = none) (posts : List Envelope)
    (failure : Option Fault) (older : List Event) (channel : Channel) :
    (core.host wrap posts failure older).advance (change group) rank channel =
      (core.advance group rank channel).map (fun after =>
        (change after.1, after.2.host wrap posts failure older)) := by
  obtain ⟨program, pause, corePosts, ticket, coreFailure, trail⟩ := core
  have hstopped := (hunseen.alike group).isStopped rank
  have hsize := (hunseen.alike group).size
  cases hlistens with
  | done => cases hresult
  | log =>
      simp only [advance, host, hwrap.act]
      rfl
  | reserve =>
      simp only [advance, host, hwrap.act]
      rfl
  | probe =>
      simp only [advance, host, hwrap.act, call, hstopped, hsize, hunseen.search]
      split
      · rfl
      · split
        · rfl
        · simp only [Option.map_some, Group.putInbox, hunseen.modify, hwrap.act]
        · rfl
        · rfl
  | receive =>
      simp only [advance, host, hwrap.act, call, hstopped, hunseen.search, hunseen.receive]
      split
      · rfl
      · split
        · rfl
        · simp only [Option.map_some, Group.putInbox, hunseen.modify, hwrap.act]
        · rfl
        · rfl

end Actor

end RankExchange
