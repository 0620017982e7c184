import Mathlib.Data.List.Infix
import RankExchange.Proofs.LaneBalance
import RankExchange.Proofs.WorldInStep

/-!
# An inbox as one queue

The messages of a member are in three places, and go from one to another
whenever it looks for some other message.  As long as what it sends to itself
and what others send it do not wait on one tag, it is as if they were in one
queue, in the order in which they were sent: a probe tells of the first one on
its tag, and a receive takes the first one of its source and tag.
-/

namespace RankExchange

/-- On each tag, two lists hold the same messages in the same order. -/
def SameOnTags (messages messages' : List Message) : Prop :=
  ∀ tag, messages.filter (Wanted.accepts { tag }) = messages'.filter (Wanted.accepts { tag })

/-- On each tag, either all messages come from a rank or none does. -/
def Unmixed (rank : Nat) (messages : List Message) : Prop :=
  ∀ message ∈ messages, ∀ other ∈ messages, message.tag = other.tag →
    message.source = rank → other.source = rank

theorem Wanted.tag_of_accepts {wanted : Wanted} {message : Message}
    (h : wanted.accepts message = true) : Wanted.accepts { tag := wanted.tag } message = true := by
  refine accepts_of_tag_iff.2 ?_
  unfold accepts at h
  rw [Bool.and_eq_true] at h
  exact of_decide_eq_true h.1

namespace SameOnTags

variable {messages messages' others : List Message}

theorem refl (messages : List Message) : SameOnTags messages messages :=
  fun _ => rfl

theorem trans (h : SameOnTags messages messages') (h' : SameOnTags messages' others) :
    SameOnTags messages others :=
  fun tag => (h tag).trans (h' tag)

theorem append (h : SameOnTags messages messages') (others : List Message) :
    SameOnTags (messages ++ others) (messages' ++ others) := by
  intro tag
  rw [List.filter_append, List.filter_append, h tag]

theorem mem (h : SameOnTags messages messages') {message : Message} (hmem : message ∈ messages) :
    message ∈ messages' := by
  have haccepts : Wanted.accepts { tag := message.tag } message = true :=
    Wanted.accepts_of_tag_iff.2 rfl
  have hfilter := List.mem_filter.2 ⟨hmem, haccepts⟩
  rw [h] at hfilter
  exact (List.mem_filter.1 hfilter).1

theorem unmixed (h : SameOnTags messages messages') {rank : Nat}
    (hunmixed : Unmixed rank messages') : Unmixed rank messages :=
  fun message hmem other hother => hunmixed message (h.mem hmem) other (h.mem hother)

/-- Which message is the first one wanted is a matter of its tag alone. -/
theorem find? (h : SameOnTags messages messages') (wanted : Wanted) :
    messages.find? wanted.accepts = messages'.find? wanted.accepts := by
  have hof : ∀ l : List Message, l.find? wanted.accepts =
      (l.filter (Wanted.accepts { tag := wanted.tag })).find? wanted.accepts := by
    intro l
    rw [List.find?_filter]
    congr 1
    funext message
    cases haccepts : wanted.accepts message with
    | false => simp
    | true => simp [Wanted.tag_of_accepts haccepts]
  rw [hof messages, hof messages', h]

theorem eraseP (h : SameOnTags messages messages') (wanted : Wanted) :
    SameOnTags (messages.eraseP wanted.accepts) (messages'.eraseP wanted.accepts) := by
  intro tag
  by_cases htag : tag = wanted.tag
  · have hof : ∀ l : List Message, (l.eraseP wanted.accepts).filter (Wanted.accepts { tag }) =
        (l.filter (Wanted.accepts { tag })).eraseP wanted.accepts := by
      intro l
      rw [List.eraseP_filter]
      congr 2
      funext message
      cases haccepts : wanted.accepts message with
      | false => rfl
      | true => rw [htag, Wanted.tag_of_accepts haccepts, Bool.true_and]
    rw [hof messages, hof messages', h]
  · have hdisjoint : ∀ message, wanted.accepts message = true →
        Wanted.accepts { tag } message = false := by
      intro message haccepts
      rw [Bool.eq_false_iff]
      intro htag'
      have hwanted := Wanted.accepts_of_tag_iff.1 (Wanted.tag_of_accepts haccepts)
      exact htag ((Wanted.accepts_of_tag_iff.1 htag').symm.trans hwanted)
    rw [filter_eraseP_of_disjoint hdisjoint, filter_eraseP_of_disjoint hdisjoint, h]

end SameOnTags

namespace Inbox

variable {rank : Nat} {inbox moved : Inbox} {wanted : Wanted} {alone own : Bool}
  {channel : Channel}

/-- A message of another rank has no fellows in the loopback, and one of the rank itself
none in the other channel. -/
theorem filter_eq_nil_of_unmixed {messages : List Message} {message : Message}
    (hmem : ∀ other ∈ messages, message.tag = other.tag → False) :
    messages.filter (Wanted.accepts { tag := message.tag }) = [] := by
  rw [List.filter_eq_nil_iff]
  intro other hother haccepts
  exact hmem other hother (Wanted.accepts_of_tag_iff.1 haccepts).symm

theorem sameOnTags_pull? (hapart : inbox.Apart (fun _ => True) rank)
    (hunmixed : Unmixed rank inbox.waiting) (h : inbox.pull? channel = some moved) :
    SameOnTags moved.waiting inbox.waiting := by
  cases channel with
  | remote =>
      rw [waiting_pull? h]
      exact .refl _
  | loopback =>
      obtain ⟨remote, loopback, parked, expectsRemote⟩ := inbox
      cases loopback with
      | nil => cases h
      | cons message loopback =>
          cases h
          have hmessage : message.source = rank := hapart.loopback message (by simp) trivial
          -- What the message overtakes is of other tags.
          have hovertaken : remote.filter (Wanted.accepts { tag := message.tag }) = [] := by
            apply filter_eq_nil_of_unmixed
            intro other hother htag
            exact hapart.remote other hother trivial
              (hunmixed message (by simp [waiting]) other (by simp [waiting, hother]) htag hmessage)
          intro tag
          simp only [waiting, List.filter_append]
          by_cases htag : message.tag = tag
          · have hpos : Wanted.accepts { tag } message = true := Wanted.accepts_of_tag_iff.2 htag
            rw [htag] at hovertaken
            rw [hovertaken, List.filter_cons_of_pos hpos, List.filter_cons_of_pos hpos]
            simp
          · have hneg : ¬ Wanted.accepts { tag } message = true :=
              fun haccepts => htag (Wanted.accepts_of_tag_iff.1 haccepts)
            rw [List.filter_cons_of_neg hneg, List.filter_cons_of_neg hneg]
            simp

theorem sameOnTags_search (hapart : inbox.Apart (fun _ => True) rank)
    (hunmixed : Unmixed rank inbox.waiting)
    (h : inbox.search wanted alone own channel = .moved moved) :
    SameOnTags moved.waiting inbox.waiting := by
  unfold search at h
  split at h
  · cases h
  · split at h
    · split at h
      · next hpull =>
          cases h
          exact sameOnTags_pull? hapart hunmixed hpull
      · split at h
        · cases h
          exact .refl _
        · cases h
    · split at h
      · next hpull =>
          cases h
          exact sameOnTags_pull? hapart hunmixed hpull
      · split at h <;> cases h

theorem sameOnTags_push {message : Message} (hapart : inbox.Apart (fun _ => True) rank)
    (hunmixed : Unmixed rank (inbox.waiting ++ [message])) :
    SameOnTags (inbox.push rank message).waiting (inbox.waiting ++ [message]) := by
  unfold push
  split
  · intro tag
    simp only [waiting, List.append_assoc]
  · next hne =>
      have hovertaken : inbox.loopback.filter (Wanted.accepts { tag := message.tag }) = [] := by
        apply filter_eq_nil_of_unmixed
        intro other hother htag
        exact hne (hunmixed other (by simp [waiting, hother]) message (by simp) htag.symm
          (hapart.loopback other hother trivial)).symm
      intro tag
      simp only [waiting, List.filter_append]
      by_cases htag : message.tag = tag
      · rw [htag] at hovertaken
        rw [hovertaken]
        simp
      · have hneg : ¬ Wanted.accepts { tag } message = true :=
          fun haccepts => htag (Wanted.accepts_of_tag_iff.1 haccepts)
        rw [List.filter_cons_of_neg hneg]
        simp

theorem waiting_take {message : Message}
    (hfound : inbox.parked.find? wanted.accepts = some message) :
    (inbox.take wanted).waiting = inbox.waiting.eraseP wanted.accepts := by
  have haccepts := List.find?_some hfound
  have hmem := List.mem_of_find?_eq_some hfound
  simp only [waiting, take]
  rw [List.append_assoc, List.append_assoc, List.eraseP_append_left haccepts _ hmem]

theorem find?_waiting_of_parked {message : Message}
    (hfound : inbox.parked.find? wanted.accepts = some message) :
    inbox.waiting.find? wanted.accepts = some message := by
  simp only [waiting, List.find?_append, hfound, Option.some_or]

/-- A member that gives up has nothing left that it could want. -/
theorem find?_waiting_of_deserted (hspent : inbox.expectsRemote = false → inbox.remote = [])
    (h : inbox.search wanted alone own channel = .deserted) :
    inbox.waiting.find? wanted.accepts = none := by
  obtain ⟨remote, loopback, parked, expectsRemote⟩ := inbox
  unfold search at h
  split at h
  · cases h
  · next hparked =>
      cases expectsRemote with
      | true =>
          simp only [if_true] at h
          split at h
          · cases h
          · split at h <;> cases h
      | false =>
          cases loopback with
          | nil =>
              have hremote : remote = [] := hspent rfl
              rw [hremote]
              simpa [waiting] using hparked
          | cons => cases h

/-- A member that wants something that it has can go on. -/
theorem exists_search_of_find? (hspent : inbox.expectsRemote = false → inbox.remote = [])
    (h : (inbox.waiting.find? wanted.accepts).isSome) (alone own : Bool) :
    ∃ channel, inbox.search wanted alone own channel ≠ .blocked := by
  obtain ⟨remote, loopback, parked, expectsRemote⟩ := inbox
  cases hparked : parked.find? wanted.accepts with
  | some message =>
      refine ⟨.remote, ?_⟩
      rw [search_found_of_parked alone own .remote hparked]
      exact fun heq => by cases heq
  | none =>
      unfold search
      simp only [hparked]
      cases remote with
      | cons first rest =>
          have hopen : expectsRemote = true := by
            cases expectsRemote with
            | true => rfl
            | false => cases hspent rfl
          exact ⟨.remote, by simp [hopen, pull?]⟩
      | nil =>
          cases loopback with
          | nil => simp [waiting, hparked] at h
          | cons first rest => exact ⟨.loopback, by cases expectsRemote <;> simp [pull?]⟩

end Inbox

namespace Deed

/-- What a deed does to the queue of a rank.  A receive takes the first message of its
source and tag, whether it fits or not. -/
def onQueue (rank : Nat) (queue : List Message) : Deed → List Message
  | .queued dest message => if dest = rank then queue ++ [message] else queue
  | .received dest source tag _ _ _ =>
      if dest = rank then queue.eraseP (Wanted.accepts ⟨tag, some source⟩) else queue
  | _ => queue

/-- A deed is answered as the queue of its rank would have it. -/
def AsQueue (queue : Nat → List Message) : Deed → Prop
  | .probed rank tag answer =>
      ∃ message, (queue rank).find? (Wanted.accepts { tag }) = some message ∧
        answer = .ok message.arrival
  | .received rank source tag length taken answer =>
      taken = (queue rank).find? (Wanted.accepts ⟨tag, some source⟩) ∧
        answer = match taken with
          | none => .error (.transport .receive (.deserted rank))
          | some message => message.given length
  | _ => True

end Deed

def queueAt (ledger : List Deed) (rank : Nat) : List Message :=
  ledger.foldl (Deed.onQueue rank) []

theorem queueAt_append (ledger deeds : List Deed) (rank : Nat) :
    queueAt (ledger ++ deeds) rank = deeds.foldl (Deed.onQueue rank) (queueAt ledger rank) :=
  List.foldl_append

theorem queueAt_snoc (ledger : List Deed) (deed : Deed) (rank : Nat) :
    queueAt (ledger ++ [deed]) rank = deed.onQueue rank (queueAt ledger rank) :=
  queueAt_append ledger [deed] rank

/-- An action of a rank that keeps its member. -/
def Action.Stays : Action → Prop
  | .call .finalize => False
  | .call .leave => False
  | _ => True

def Program.Stays {α : Type} : Program α → Prop
  | .done _ => True
  | .act action next => action.Stays ∧ ∀ answer, (next answer).Stays

namespace Program.Stays

variable {α β : Type} {program program' : Program α}

theorem bind {f : α → Program β} (h : program.Stays) (hnext : ∀ value, (f value).Stays) :
    (program.bind f).Stays := by
  induction program with
  | done result =>
      cases result with
      | ok value => exact hnext value
      | error fault => trivial
  | act action next ih => exact ⟨h.1, fun answer => ih answer (h.2 answer)⟩

theorem attempt (h : program.Stays) : program.attempt.Stays := by
  induction program with
  | done result => trivial
  | act action next ih => exact ⟨h.1, fun answer => ih answer (h.2 answer)⟩

theorem continues (h : program.Stays) (hcontinues : program.Continues program') :
    program'.Stays := by
  cases hcontinues with
  | same => exact h
  | next hprogram hplain answer =>
      rw [hprogram] at h
      exact h.2 answer

end Program.Stays

def Action.wanted? : Action → Option Wanted
  | .call (.probe tag) => some { tag }
  | .call (.receive source tag _) => some ⟨tag, some source⟩
  | _ => none

theorem Group.SameBut.waitingAt {group group' : Group} {rank other : Nat}
    (h : SameBut rank group group') (hne : other ≠ rank) :
    group'.waitingAt other = group.waitingAt other := by
  unfold Group.waitingAt
  rw [h.member other hne]

/-- The group is as if each of its ranks had one queue. -/
structure Group.Queues (group : Group) (queue : Nat → List Message) : Prop where
  intact : group.Intact
  sorted : group.Sorted
  sources : ∀ rank, ∀ message ∈ queue rank, message.source < group.size
  same : ∀ rank, SameOnTags (group.waitingAt rank) (queue rank)

namespace Group.Queues

variable {group group' : Group} {queue queue' : Nat → List Message} {rank : Nat}
  {member : Member}

theorem find?_eq (h : group.Queues queue) (hmember : group.members[rank]? = some member)
    (wanted : Wanted) :
    member.inbox.waiting.find? wanted.accepts = (queue rank).find? wanted.accepts := by
  rw [← waitingAt_of_getElem? hmember]
  exact (h.same rank).find? wanted

/-- Only in a group of one does a member give up hope, and nobody else sends it anything. -/
theorem spent (h : group.Queues queue) (hmember : group.members[rank]? = some member) :
    member.inbox.expectsRemote = false → member.inbox.remote = [] := by
  intro hexpects
  rcases h.intact.expects with hsize | hall
  · rw [List.eq_nil_iff_forall_not_mem]
    intro message hmem
    have hwaiting : message ∈ group.waitingAt rank := by
      rw [waitingAt_of_getElem? hmember]
      simp [Inbox.waiting, hmem]
    have hsource := h.sources rank message ((h.same rank).mem hwaiting)
    have hrank : rank < group.size := (List.getElem?_eq_some_iff.1 hmember).1
    exact (h.sorted rank member hmember).remote message hmem trivial (by omega)
  · rw [hall rank member hmember] at hexpects
    cases hexpects

theorem find?_of_deserted (h : group.Queues queue) {wanted : Wanted} {own : Bool}
    {channel : Channel} (hsearch : group.search rank wanted own channel = .deserted) :
    (queue rank).find? wanted.accepts = none := by
  unfold Group.search at hsearch
  split at hsearch
  · cases hsearch
  · next member hmember =>
      rw [← h.find?_eq hmember]
      exact Inbox.find?_waiting_of_deserted (h.spent hmember) hsearch

theorem of_sameBut (h : group.Queues queue) (hsame : SameBut rank group group')
    (hintact : group'.Intact) (hsorted : group'.Sorted)
    (hsources : ∀ message ∈ queue' rank, message ∈ queue rank ∨ message.source < group.size)
    (hrank : SameOnTags (group'.waitingAt rank) (queue' rank))
    (hqueue : ∀ other, other ≠ rank → queue' other = queue other) : group'.Queues queue' where
  intact := hintact
  sorted := hsorted
  sources := by
    have hsize : group'.size = group.size := hsame.size
    intro other message hmem
    rw [hsize]
    by_cases hother : other = rank
    · rw [hother] at hmem
      rcases hsources message hmem with hold | hnew
      · exact h.sources rank message hold
      · exact hnew
    · rw [hqueue other hother] at hmem
      exact h.sources other message hmem
  same := by
    intro other
    by_cases hother : other = rank
    · rw [hother]
      exact hrank
    · rw [hqueue other hother, hsame.waitingAt hother]
      exact h.same other

end Group.Queues

theorem Group.Intact.of_members {group group' : Group} (h : group.Intact)
    (hmembers : group'.members = group.members) : group'.Intact := by
  have hsize : group'.size = group.size := by
    unfold Group.size
    rw [hmembers]
  refine ⟨?_, ?_, ?_⟩
  · rw [hmembers]
    exact h.present
  · rw [hmembers]
    exact h.running
  · rw [hmembers, hsize]
    exact h.expects

theorem Group.Intact.search {group : Group} {rank : Nat} {wanted : Wanted} {own : Bool}
    {channel : Channel} {inbox : Inbox} (h : group.Intact)
    (hsearch : group.search rank wanted own channel = .moved inbox) :
    (group.putInbox rank inbox).Intact := by
  unfold Group.search at hsearch
  split at hsearch
  · cases hsearch
  · next member hmember =>
      apply h.of_set hmember (Group.members_putInbox hmember _)
      by_cases hsize : group.size = 1
      · exact .inl hsize
      · have hrank : rank < group.size := (List.getElem?_eq_some_iff.1 hmember).1
        rw [h.not_isAlone hsize hrank] at hsearch
        exact .inr (Inbox.expectsRemote_of_search hsearch)

namespace Group.Queues

variable {group group' : Group} {queue : Nat → List Message} {rank source length : Nat}
  {tag : Tag}

theorem of_members (h : group.Queues queue) (hmembers : group'.members = group.members) :
    group'.Queues queue where
  intact := h.intact.of_members hmembers
  sorted := h.sorted.of_members hmembers
  sources := by
    unfold Group.size
    rw [hmembers]
    exact h.sources
  same := by
    unfold waitingAt
    rw [hmembers]
    exact h.same

theorem putInbox (h : group.Queues queue) (hunmixed : Unmixed rank (queue rank))
    {wanted : Wanted} {own : Bool} {channel : Channel} {inbox : Inbox}
    (hsearch : group.search rank wanted own channel = .moved inbox) :
    (group.putInbox rank inbox).Queues queue := by
  refine h.of_sameBut (sameBut_modify _ _ _) (h.intact.search hsearch)
    (h.sorted.putInbox hsearch) (fun _ hmem => .inl hmem) ?_ (fun _ _ => rfl)
  unfold Group.search at hsearch
  split at hsearch
  · cases hsearch
  · next member hmember =>
      have hsame := h.same rank
      rw [waitingAt_of_getElem? hmember] at hsame
      rw [waitingAt_of_getElem? (getElem?_members_putInbox hmember inbox)]
      exact (Inbox.sameOnTags_search (h.sorted rank member hmember)
        (hsame.unmixed hunmixed) hsearch).trans hsame

theorem enqueue (h : group.Queues queue) {post : Envelope} {ticket : Option Nat}
    (hsource : source < group.size)
    (hunmixed : Unmixed post.peer
      (queue post.peer ++ [⟨source, post.tag, post.payload, ticket⟩]))
    (henqueue : group.enqueue source post.peer post.tag post.payload = .ok (group', ticket)) :
    group'.Queues (fun other => Deed.onQueue other (queue other)
      (.queued post.peer ⟨source, post.tag, post.payload, ticket⟩)) := by
  obtain ⟨member, hmember, hnew⟩ := getElem?_receiver henqueue
  refine h.of_sameBut (sameBut_enqueue henqueue) (h.intact.enqueue henqueue)
    (h.sorted.enqueue henqueue) ?_ ?_ (fun other hother => if_neg (Ne.symm hother))
  · intro message hmem
    simp only [Deed.onQueue, if_true] at hmem
    rcases List.mem_append.1 hmem with hmem | hmem
    · exact .inl hmem
    · rw [List.mem_singleton.1 hmem]
      exact .inr hsource
  · have hsame := (h.same post.peer).append [⟨source, post.tag, post.payload, ticket⟩]
    simp only [Deed.onQueue, if_true]
    rw [waitingAt_of_getElem? hmember] at hsame
    rw [waitingAt_of_getElem? hnew]
    exact (Inbox.sameOnTags_push (h.sorted _ member hmember)
      (hsame.unmixed hunmixed)).trans hsame

theorem receive (h : group.Queues queue) {member : Member} {message : Message}
    (hmember : group.members[rank]? = some member)
    (hfound : member.inbox.parked.find? (Wanted.accepts ⟨tag, some source⟩) = some message) :
    (group.receive rank ⟨tag, some source⟩ message length).2.Queues (fun other =>
      Deed.onQueue other (queue other) (.received rank source tag length (some message)
        ((group.receive rank ⟨tag, some source⟩ message length).1.map Subtype.val))) := by
  refine h.of_sameBut (sameBut_receive _ _ _ _)
    (h.intact.of_set hmember (members_receive hmember _ _ _) (.inr rfl))
    (h.sorted.receive hmember _ _ _) ?_ ?_ (fun other hother => if_neg (Ne.symm hother))
  · intro other hmem
    simp only [Deed.onQueue, if_true] at hmem
    exact .inl (List.mem_of_mem_eraseP hmem)
  · have hsame := h.same rank
    rw [waitingAt_of_getElem? hmember] at hsame
    rw [waitingAt_of_getElem? (getElem?_taker hmember _ _ _)]
    simp only [Deed.onQueue, if_true]
    rw [Inbox.waiting_take hfound]
    exact hsame.eraseP _

theorem of_deserted (h : group.Queues queue) {own : Bool} {channel : Channel}
    (hsearch : group.search rank ⟨tag, some source⟩ own channel = .deserted)
    (length : Nat) (answer : Except Fault Bytes) :
    group.Queues (fun other =>
      Deed.onQueue other (queue other) (.received rank source tag length none answer)) := by
  have hnone := List.find?_eq_none.1 (h.find?_of_deserted hsearch)
  have hqueue : (fun other => Deed.onQueue other (queue other)
      (.received rank source tag length none answer)) = queue := by
    funext other
    unfold Deed.onQueue
    simp only
    split
    · next heq =>
        subst heq
        exact List.eraseP_of_forall_not hnone
    · rfl
  rw [hqueue]
  exact h

end Group.Queues

namespace StepEffect

variable {α : Type} {group group' : Group} {rank : Nat} {actor actor' : Actor α}
  {thread : Thread} {deeds : List Deed} {queue : Nat → List Message}

theorem stays (h : StepEffect group rank actor thread deeds group' actor')
    (hstays : actor.program.Stays) : actor'.program.Stays := by
  cases h with
  | rests _ _ _ hcontinues => exact hstays.continues hcontinues
  | stops hprogram =>
      rw [hprogram] at hstays
      exact hstays.1.elim
  | parks => exact hstays
  | queues _ hcontinues => exact hstays.continues hcontinues
  | returns _ hcontinues => exact hstays.continues hcontinues
  | finds hprogram _ _ hprogram' =>
      rw [hprogram] at hstays
      rw [hprogram']
      exact hstays.2 _
  | misses hprogram _ hprogram' =>
      rw [hprogram] at hstays
      rw [hprogram']
      exact hstays.2 (.error _)
  | takes hprogram _ _ hprogram' =>
      rw [hprogram] at hstays
      rw [hprogram']
      exact hstays.2 _
  | fails hprogram _ hprogram' =>
      rw [hprogram] at hstays
      rw [hprogram']
      exact hstays.2 (.error _)
  | leaves hprogram =>
      rw [hprogram] at hstays
      exact hstays.1.elim

/-- A step of a rank that stays does to the group what it does to the queues. -/
theorem queued (h : StepEffect group rank actor thread deeds group' actor')
    (hstays : actor.program.Stays) (hqueues : group.Queues queue) (hrank : rank < group.size)
    (hunmixed : ∀ other, Unmixed other (queue other))
    (hunmixed' : ∀ other, Unmixed other (deeds.foldl (Deed.onQueue other) (queue other))) :
    group'.Queues (fun other => deeds.foldl (Deed.onQueue other) (queue other)) := by
  cases h with
  | rests hmembers => exact hqueues.of_members hmembers
  | stops hprogram =>
      rw [hprogram] at hstays
      exact hstays.1.elim
  | parks hsearch => exact hqueues.putInbox (hunmixed rank) hsearch
  | @queues post ticket _ _ henqueue =>
      refine hqueues.enqueue hrank ?_ henqueue
      simpa [Deed.onQueue] using hunmixed' post.peer
  | returns => exact hqueues
  | finds => exact hqueues
  | misses => exact hqueues
  | takes _ hmember hfound => exact hqueues.receive hmember hfound
  | @fails _ _ length fault _ _ _ hfault =>
      rcases hfault with ⟨hstopped, _⟩ | ⟨channel, hsearch, _⟩
      · rw [hqueues.intact.isStopped rank] at hstopped
        cases hstopped
      · exact hqueues.of_deserted hsearch length (.error fault)
  | leaves hprogram =>
      rw [hprogram] at hstays
      exact hstays.1.elim

/-- Every answer that a step gives is that of the queue. -/
theorem asQueue (h : StepEffect group rank actor thread deeds group' actor')
    (hstays : actor.program.Stays) (hqueues : group.Queues queue) :
    ∀ deed ∈ deeds, deed.AsQueue queue := by
  cases h with
  | rests => exact fun _ hmem => (List.not_mem_nil hmem).elim
  | stops => exact fun _ hmem => (List.not_mem_nil hmem).elim
  | parks => exact fun _ hmem => (List.not_mem_nil hmem).elim
  | queues => exact List.forall_mem_singleton.2 trivial
  | returns => exact List.forall_mem_singleton.2 trivial
  | @finds tag message member _ _ _ hmember hfound =>
      refine List.forall_mem_singleton.2 ⟨message, ?_, rfl⟩
      rw [← hqueues.find?_eq hmember]
      exact Inbox.find?_waiting_of_parked hfound
  | @misses tag _ _ _ _ hfault =>
      rcases hfault with ⟨hstopped, _⟩ | ⟨channel, hsearch, _⟩
      · rw [hqueues.intact.isStopped rank] at hstopped
        cases hstopped
      · exact absurd hsearch (hqueues.intact.not_deserted tag channel)
  | @takes source tag length message member _ _ _ hmember hfound =>
      refine List.forall_mem_singleton.2 ⟨?_, ?_⟩
      · rw [← hqueues.find?_eq hmember]
        exact (Inbox.find?_waiting_of_parked hfound).symm
      · exact Group.receive_given _ _ _ _ _
  | fails _ hfault =>
      rcases hfault with ⟨hstopped, _⟩ | ⟨channel, hsearch, rfl⟩
      · rw [hqueues.intact.isStopped rank] at hstopped
        cases hstopped
      · exact List.forall_mem_singleton.2 ⟨(hqueues.find?_of_deserted hsearch).symm, rfl⟩
  | leaves hprogram =>
      rw [hprogram] at hstays
      exact hstays.1.elim

theorem deeds_of_stays (h : StepEffect group rank actor thread deeds group' actor')
    (hstays : actor.program.Stays) : deeds = [] ∨ ∃ deed, deeds = [deed] := by
  cases h with
  | rests => exact .inl rfl
  | stops => exact .inl rfl
  | parks => exact .inl rfl
  | queues => exact .inr ⟨_, rfl⟩
  | returns => exact .inr ⟨_, rfl⟩
  | finds => exact .inr ⟨_, rfl⟩
  | misses => exact .inr ⟨_, rfl⟩
  | takes => exact .inr ⟨_, rfl⟩
  | fails => exact .inr ⟨_, rfl⟩
  | leaves hprogram =>
      rw [hprogram] at hstays
      exact hstays.1.elim

end StepEffect

/-- A main thread that looks for a message goes on unless the search is held up. -/
theorem Actor.isSome_advance_of_search {α : Type} {actor : Actor α} {group : Group} {rank : Nat}
    {action : Action} {next : action.Answer → Program α} {wanted : Wanted}
    (hprogram : actor.program = .act action next) (hwanted : action.wanted? = some wanted)
    (hrunning : group.isStopped rank = false) :
    ∃ own, ∀ channel, group.search rank wanted own channel ≠ .blocked →
      (actor.advance group rank channel).isSome := by
  unfold Action.wanted? at hwanted
  split at hwanted
  · cases hwanted
    refine ⟨decide (group.size = 1), fun channel hsearch => ?_⟩
    unfold advance
    rw [hprogram]
    simp only [call, hrunning, Bool.false_eq_true, if_false]
    split
    · rfl
    · rfl
    · rfl
    · contradiction
  · next _ source tag length =>
      cases hwanted
      refine ⟨decide (source = rank), fun channel hsearch => ?_⟩
      unfold advance
      rw [hprogram]
      simp only [call, hrunning, Bool.false_eq_true, if_false]
      split
      · rfl
      · rfl
      · rfl
      · contradiction
  · cases hwanted

namespace World

variable {α : Type}

structure Queues (world : World α) (queue : Nat → List Message) : Prop where
  group : world.group.Queues queue
  stays : ∀ (rank : Nat) (actor : Actor α), world.actors[rank]? = some actor →
    actor.program.Stays
  staffed : world.actors.length = world.group.size

theorem queues_starting {delivery : Delivery} {grants : List Threading}
    {program : Nat → Program α} (hstays : ∀ rank, (program rank).Stays) :
    (starting (.ofGrants delivery grants) program).Queues (queueAt []) where
  group := by
    refine ⟨Group.intact_ofGrants, Group.sorted_ofGrants _ _,
      fun _ _ hmem => (List.not_mem_nil hmem).elim, ?_⟩
    intro rank
    rw [starting, Group.waitingAt_ofGrants]
    exact .refl _
  stays := by
    intro rank actor hactor
    obtain ⟨_, rfl⟩ := getElem?_starting hactor
    exact hstays rank
  staffed := by simp [starting]

theorem Queues.step {world next : World α} {queue : Nat → List Message} {move : Move}
    (h : world.Queues queue) (hunmixed : ∀ rank, Unmixed rank (queue rank))
    (hunmixed' : ∀ rank, Unmixed rank ((world.deeds move).foldl (Deed.onQueue rank) (queue rank)))
    (hstep : world.step move = some next) :
    next.Queues (fun rank => (world.deeds move).foldl (Deed.onQueue rank) (queue rank)) ∧
      (∀ deed ∈ world.deeds move, deed.AsQueue queue) ∧
      (world.deeds move = [] ∨ ∃ deed, world.deeds move = [deed]) := by
  obtain ⟨actor, group', actor', hactor, rfl, heffect⟩ := exists_stepEffect_of_step hstep
  have hstays := h.stays move.rank actor hactor
  have hrank : move.rank < world.group.size := by
    rw [← h.staffed]
    exact (List.getElem?_eq_some_iff.1 hactor).1
  have hqueued := heffect.queued hstays h.group hrank hunmixed hunmixed'
  refine ⟨⟨hqueued, ?_, ?_⟩, heffect.asQueue hstays h.group, heffect.deeds_of_stays hstays⟩
  · intro rank other hother
    rw [getElem?_of_set hactor] at hother
    split at hother
    · cases hother
      exact heffect.stays hstays
    · exact h.stays rank other hother
  · have hsize : group'.size = world.group.size := heffect.size
    rw [List.length_set, h.staffed, hsize]

/-- At no time does a tag have both messages of a rank to itself and messages of others
waiting at that rank. -/
def NeverMixes (ledger : List Deed) : Prop :=
  ∀ front, front <+: ledger → ∀ rank, Unmixed rank (queueAt front rank)

theorem Records.queues {first world : World α} {ledger : List Deed}
    (h : first.Records ledger world) (hfirst : first.Queues (queueAt []))
    (hunmixed : NeverMixes ledger) :
    world.Queues (queueAt ledger) ∧
      ∀ front deed, front ++ [deed] <+: ledger → deed.AsQueue (queueAt front) := by
  induction h with
  | start => exact ⟨hfirst, fun front deed hfront => by simp at hfront⟩
  | @step ledger world next move hrecords hstep ih =>
      have hbefore : NeverMixes ledger :=
        fun front hfront => hunmixed front (hfront.trans (List.prefix_append _ _))
      obtain ⟨hqueues, hanswered⟩ := ih hbefore
      have hafter := hunmixed _ (List.prefix_refl _)
      simp only [queueAt_append] at hafter
      obtain ⟨hqueues', hanswers, hdeeds⟩ :=
        hqueues.step (hbefore ledger (List.prefix_refl _)) hafter hstep
      have hqueue : queueAt (ledger ++ world.deeds move) = fun rank =>
          (world.deeds move).foldl (Deed.onQueue rank) (queueAt ledger rank) :=
        funext (queueAt_append ledger _)
      refine ⟨by rw [hqueue]; exact hqueues', fun front deed hfront => ?_⟩
      rcases hdeeds with hnil | ⟨last, hlast⟩
      · rw [hnil, List.append_nil] at hfront
        exact hanswered front deed hfront
      · rw [hlast] at hfront hanswers
        rcases List.prefix_concat_iff.1 hfront with heq | hfront
        · obtain ⟨rfl, hdeed⟩ := List.append_inj' heq rfl
          rw [List.singleton_inj.1 hdeed]
          exact hanswers last List.mem_cons_self
        · exact hanswered front deed hfront

/-- A main thread that looks for a message can go on if one is in the queue. -/
theorem Queues.exists_step {world : World α} {queue : Nat → List Message}
    (h : world.Queues queue) {rank : Nat} {actor : Actor α} {action : Action}
    {next : action.Answer → Program α} {wanted : Wanted}
    (hactor : world.actors[rank]? = some actor) (hprogram : actor.program = .act action next)
    (hwanted : action.wanted? = some wanted)
    (hqueue : ((queue rank).find? wanted.accepts).isSome) :
    ∃ channel next, world.step ⟨rank, .main channel⟩ = some next := by
  have hrank : rank < world.group.members.length := by
    change rank < world.group.size
    rw [← h.staffed]
    exact (List.getElem?_eq_some_iff.1 hactor).1
  have hmember : world.group.members[rank]? = some world.group.members[rank] :=
    List.getElem?_eq_getElem hrank
  rw [← h.group.find?_eq hmember] at hqueue
  obtain ⟨own, hgoes⟩ :=
    Actor.isSome_advance_of_search hprogram hwanted (h.group.intact.isStopped rank)
  obtain ⟨channel, hsearch⟩ := Inbox.exists_search_of_find? (h.group.spent hmember) hqueue
    (world.group.isAlone rank) own
  have hadvance : (actor.advance world.group rank channel).isSome := by
    apply hgoes
    unfold Group.search
    rw [hmember]
    exact hsearch
  obtain ⟨after, hafter⟩ := Option.isSome_iff_exists.1 hadvance
  refine ⟨channel, ⟨after.1, world.actors.set rank after.2⟩, ?_⟩
  simp only [World.step, hactor, hafter, Option.map_some]

/-- In every run in which no member leaves and no tag is mixed: each probe tells of the
oldest message on its tag, and each receive takes the oldest message of its source and
tag, with the bytes of it if they fit and a fault if they do not; on each tag the rest
waits in the order in which it was sent; and who looks for a message that is there is
not held up. -/
theorem asQueue_of_stays {delivery : Delivery} {grants : List Threading}
    {program : Nat → Program α} (hstays : ∀ rank, (program rank).Stays)
    {ledger : List Deed} {world : World α}
    (h : (starting (.ofGrants delivery grants) program).Records ledger world)
    (hunmixed : NeverMixes ledger) :
    (∀ front deed, front ++ [deed] <+: ledger → deed.AsQueue (queueAt front)) ∧
    (∀ rank, SameOnTags (world.group.waitingAt rank) (queueAt ledger rank)) ∧
    ∀ (rank : Nat) (actor : Actor α) (action : Action) (next : action.Answer → Program α)
      (wanted : Wanted), world.actors[rank]? = some actor → actor.program = .act action next →
        action.wanted? = some wanted → ((queueAt ledger rank).find? wanted.accepts).isSome →
          ∃ channel after, world.step ⟨rank, .main channel⟩ = some after := by
  obtain ⟨hqueues, hanswered⟩ := h.queues (queues_starting hstays) hunmixed
  exact ⟨hanswered, hqueues.group.same, fun rank actor action next wanted hactor hprogram =>
    hqueues.exists_step hactor hprogram⟩

/-- No tag is mixed where ranks have one sort of tags for themselves and one for others. -/
theorem neverMixes_of_queued {ledger : List Deed}
    (h : ∀ rank message other, Deed.queued rank message ∈ ledger → .queued rank other ∈ ledger →
      message.tag = other.tag → message.source = rank → other.source = rank) :
    NeverMixes ledger := by
  have hqueued : ∀ (front : List Deed) rank, ∀ message ∈ queueAt front rank,
      .queued rank message ∈ front := by
    intro front rank
    induction front using List.reverseRecOn with
    | nil => exact fun _ hmem => (List.not_mem_nil hmem).elim
    | append_singleton front deed ih =>
        intro message hmem
        rw [queueAt_snoc] at hmem
        have hold : message ∈ queueAt front rank → .queued rank message ∈ front ++ [deed] :=
          fun hmem => List.mem_append_left _ (ih message hmem)
        cases deed with
        | queued dest last =>
            simp only [Deed.onQueue] at hmem
            split at hmem
            · next heq =>
                rcases List.mem_append.1 hmem with hmem | hmem
                · exact hold hmem
                · rw [List.mem_singleton.1 hmem, heq]
                  exact List.mem_append_right _ List.mem_cons_self
            · exact hold hmem
        | received =>
            simp only [Deed.onQueue] at hmem
            split at hmem
            · exact hold (List.mem_of_mem_eraseP hmem)
            · exact hold hmem
        | returned => exact hold hmem
        | probed => exact hold hmem
        | dropped => exact hold hmem
  intro front hfront rank message hmessage other hother
  exact h rank message other (hfront.subset (hqueued front rank message hmessage))
    (hfront.subset (hqueued front rank other hother))

/-- Rank 0 asks first for what has come last, and for the rest with a buffer that is
too long. -/
def lastArrivalFirst : Nat → Program Unit
  | 0 => do
      Program.send 0 1 [9]
      let _ ← Program.receive 1 3 2
      let _ ← (Program.receive 1 2 5).attempt
      let _ ← Program.probe 1
      return ()
  | _ => do
      Program.send 0 2 [1]
      Program.send 0 3 [2, 2]

theorem asQueue_of_lastArrivalFirst : ∃ ledger world,
    (starting (.ofGrants .buffered [.multiple, .multiple]) lastArrivalFirst).Records ledger world ∧
    (world.result? 0).isSome ∧ NeverMixes ledger ∧
    Deed.received 0 1 2 5 (some ⟨1, 2, [1], none⟩)
      (.error (.transport .receive (.misfit 1 5))) ∈ ledger ∧
    SameOnTags (world.group.waitingAt 0) [⟨0, 1, [9], none⟩] := by
  let schedule := [0, 1, 1, 0, 0, 0, 0].map (fun rank => Move.mk rank (.main .remote)) ++
    [⟨0, .main .loopback⟩, ⟨0, .main .loopback⟩]
  let first := starting (.ofGrants .buffered [.multiple, .multiple]) lastArrivalFirst
  let ledger : List Deed := [.queued 0 ⟨0, 1, [9], none⟩, .queued 0 ⟨1, 2, [1], none⟩,
    .queued 0 ⟨1, 3, [2, 2], none⟩, .received 0 1 3 2 (some ⟨1, 3, [2, 2], none⟩) (.ok [2, 2]),
    .received 0 1 2 5 (some ⟨1, 2, [1], none⟩) (.error (.transport .receive (.misfit 1 5))),
    .probed 0 1 (.ok ⟨0, 1, 1⟩)]
  have hstays : ∀ rank, (lastArrivalFirst rank).Stays := by
    rintro (_ | rank)
    · exact .bind ⟨trivial, fun _ => trivial⟩ (fun _ => .bind ⟨trivial, fun _ => trivial⟩
        (fun _ => .bind (.attempt ⟨trivial, fun _ => trivial⟩)
          (fun _ => .bind ⟨trivial, fun _ => trivial⟩ (fun _ => trivial))))
    · exact .bind ⟨trivial, fun _ => trivial⟩ (fun _ => ⟨trivial, fun _ => trivial⟩)
  have hfollow : (first.recorded [] schedule).map (fun (ledger, world) =>
      (ledger, (world.result? 0).isSome)) = some (ledger, true) := by
    decide +kernel
  obtain ⟨⟨ledger', world⟩, hrecorded, heq⟩ := Option.map_eq_some_iff.1 hfollow
  obtain ⟨hledger, hdone⟩ := Prod.mk.inj heq
  have hrecords : first.Records ledger world := by
    rw [← hledger]
    exact Records.start.recorded hrecorded
  have hunmixed : NeverMixes ledger := by
    apply neverMixes_of_queued
    intro rank message other hmessage hother htag hsource
    simp only [ledger, List.mem_cons, Deed.queued.injEq, List.not_mem_nil, reduceCtorEq,
      or_false] at hmessage hother
    rcases hmessage with ⟨rfl, rfl⟩ | ⟨rfl, rfl⟩ | ⟨rfl, rfl⟩ <;>
      rcases hother with ⟨_, rfl⟩ | ⟨_, rfl⟩ | ⟨_, rfl⟩ <;> simp_all
  refine ⟨ledger, world, hrecords, hdone, hunmixed, by simp [ledger], ?_⟩
  exact (asQueue_of_stays hstays hrecords hunmixed).2.1 0

end World

end RankExchange
