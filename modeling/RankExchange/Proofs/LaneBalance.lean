import RankExchange.Proofs.LaneAccounts
import RankExchange.Proofs.FreshGroups
import RankExchange.Proofs.Ledger

/-!
# The balance of a lane

In every lane, what has been taken out and what still waits are together what
has been put in, in the same order.  This holds of every run of any programs,
also of those that leave or receive into a buffer of the wrong length.
-/

namespace RankExchange

def Message.given (message : Message) (length : Nat) : Except Fault Bytes :=
  if message.payload.length = length then .ok message.payload
  else .error (.transport .receive (.misfit message.payload.length length))

theorem Group.receive_given (group : Group) (rank : Nat) (wanted : Wanted) (message : Message)
    (length : Nat) :
    (group.receive rank wanted message length).1.map Subtype.val = message.given length := by
  unfold receive Message.given
  simp only
  split <;> rfl

namespace Deed

/-- A receive gets the kind of message that it asks for, or a fault. -/
def Honest : Deed → Prop
  | .received _ source tag length (some message) answer =>
      message.source = source ∧ message.tag = tag ∧ answer = message.given length
  | .received _ _ _ _ none answer => ∃ fault, answer = .error fault
  | _ => True

def queued? (dest source : Nat) (tag : Tag) : Deed → Option Message
  | .queued rank message =>
      if rank = dest ∧ message.source = source ∧ message.tag = tag then some message else none
  | _ => none

def removed? (dest source : Nat) (tag : Tag) : Deed → Option Message
  | .received rank _ _ _ (some message) _ =>
      if rank = dest ∧ message.source = source ∧ message.tag = tag then some message else none
  | .dropped rank message =>
      if rank = dest ∧ message.source = source ∧ message.tag = tag then some message else none
  | _ => none

variable {dest source rank : Nat} {tag : Tag}

theorem queued?_eq_some {deed : Deed} {message : Message}
    (h : deed.queued? dest source tag = some message) :
    deed = .queued dest message ∧ message.source = source ∧ message.tag = tag := by
  unfold queued? at h
  split at h
  · split at h
    · next heq =>
        cases h
        exact ⟨by rw [heq.1], heq.2⟩
    · cases h
  · cases h

theorem filterMap_removed?_dropped (messages : List Message) :
    (messages.map (dropped rank)).filterMap (removed? dest source tag) =
      if rank = dest then messages.filter (Wanted.accepts ⟨tag, some source⟩) else [] := by
  induction messages with
  | nil => simp
  | cons message messages ih =>
      rw [List.map_cons, List.filterMap_cons, ih]
      by_cases hrank : rank = dest
      · by_cases hlane : message.source = source ∧ message.tag = tag
        · rw [if_pos hrank, List.filter_cons_of_pos (Wanted.accepts_of_source_iff.2 hlane)]
          simp [removed?, hrank, hlane]
        · have hneg : ¬ Wanted.accepts ⟨tag, some source⟩ message = true :=
            fun haccepts => hlane (Wanted.accepts_of_source_iff.1 haccepts)
          rw [if_pos hrank, List.filter_cons_of_neg hneg]
          simp [removed?, hrank, hlane]
      · simp [removed?, hrank]

theorem filterMap_queued?_dropped (messages : List Message) :
    (messages.map (dropped rank)).filterMap (queued? dest source tag) = [] := by
  rw [List.filterMap_eq_nil_iff]
  intro deed hdeed
  obtain ⟨message, _, rfl⟩ := List.mem_map.1 hdeed
  rfl

end Deed

theorem Inbox.apart_empty {used : Tag → Prop} {rank : Nat} : Apart used rank {} :=
  ⟨fun _ hmem => (List.not_mem_nil hmem).elim, fun _ hmem => (List.not_mem_nil hmem).elim⟩

namespace Group

/-- Every channel of every member carries what it is meant for. -/
def Sorted (group : Group) : Prop :=
  ∀ rank, group.Apart (fun _ => True) rank

variable {group group' : Group} {rank source dest : Nat} {tag : Tag}

theorem Sorted.of_sameBut (h : group.Sorted) (hsame : SameBut rank group group')
    (hapart : group'.Apart (fun _ => True) rank) : group'.Sorted := by
  intro other
  by_cases hother : other = rank
  · rw [hother]
    exact hapart
  · exact (h other).of_members (hsame.member other hother)

theorem Sorted.of_members (h : group.Sorted) (hmembers : group'.members = group.members) :
    group'.Sorted :=
  fun other => (h other).of_members (by rw [hmembers])

theorem Sorted.putInbox (h : group.Sorted) {wanted : Wanted} {own : Bool} {channel : Channel}
    {inbox : Inbox} (hsearch : group.search rank wanted own channel = .moved inbox) :
    (group.putInbox rank inbox).Sorted :=
  h.of_sameBut (sameBut_modify _ _ _) (search_moved (h rank) hsearch).1

theorem Sorted.enqueue (h : group.Sorted) {post : Envelope} {ticket : Option Nat}
    (henqueue : group.enqueue source post.peer post.tag post.payload = .ok (group', ticket)) :
    group'.Sorted :=
  fun other => apart_enqueue (h other) henqueue

theorem Sorted.receive (h : group.Sorted) {member : Member}
    (hmember : group.members[rank]? = some member) (wanted : Wanted) (message : Message)
    (length : Nat) : (group.receive rank wanted message length).2.Sorted :=
  h.of_sameBut (sameBut_receive _ _ _ _)
    (apart_of_getElem? (getElem?_taker hmember _ _ _) ((h rank _ hmember).take _))

theorem lane_eq_filter (group : Group) (dest source : Nat) (tag : Tag) :
    group.lane dest source tag =
      (group.waitingAt dest).filter (Wanted.accepts ⟨tag, some source⟩) := by
  cases hmember : group.members[dest]? with
  | none =>
      rw [waitingAt_of_none hmember, lane, hmember]
      rfl
  | some member =>
      rw [waitingAt_of_getElem? hmember, lane_of_getElem? hmember]
      rfl

theorem sorted_ofGrants (delivery : Delivery) (grants : List Threading) :
    (ofGrants delivery grants).Sorted := by
  intro rank member hmember
  obtain ⟨grant, _, rfl⟩ := exists_grant_of_getElem? hmember
  exact Inbox.apart_empty

theorem waitingAt_ofGrants (delivery : Delivery) (grants : List Threading) (rank : Nat) :
    (ofGrants delivery grants).waitingAt rank = [] := by
  cases hmember : (ofGrants delivery grants).members[rank]? with
  | none => exact waitingAt_of_none hmember
  | some member =>
      obtain ⟨grant, _, rfl⟩ := exists_grant_of_getElem? hmember
      exact waitingAt_of_getElem? hmember

theorem lane_ofGrants (delivery : Delivery) (grants : List Threading) (dest source : Nat)
    (tag : Tag) : (ofGrants delivery grants).lane dest source tag = [] := by
  rw [lane_eq_filter, waitingAt_ofGrants, List.filter_nil]

theorem getElem?_finalize {member : Member} (h : group.members[rank]? = some member) :
    (group.finalize rank).members[rank]? = some { member with stopped := true } := by
  unfold finalize
  rw [modify_of_getElem? h]
  simp only [getElem?_of_set h, if_true]

theorem getElem?_leave {member : Member} (h : group.members[rank]? = some member) :
    (group.leave rank).members[rank]? =
      some { member with inbox := {}, present := false } := by
  have hsettle : ∀ (messages : List Message) (gone : Group),
      (messages.foldl (fun group message => group.settle message.ticket .discarded)
        gone).members = gone.members := by
    intro messages
    induction messages with
    | nil => exact fun _ => rfl
    | cons message messages ih => exact fun gone => (ih _).trans (members_settle _ _ _)
  unfold leave
  rw [h]
  simp only [hsettle, getElem?_of_set h, if_true]

theorem finalize_of_none (h : group.members[rank]? = none) : group.finalize rank = group := by
  unfold finalize modify
  rw [h]

theorem lane_finalize : (group.finalize rank).lane dest source tag =
    group.lane dest source tag := by
  by_cases hdest : dest = rank
  · subst hdest
    cases hmember : group.members[dest]? with
    | none => rw [finalize_of_none hmember]
    | some member => rw [lane_of_getElem? hmember, lane_of_getElem? (getElem?_finalize hmember)]
  · exact (sameBut_modify _ _ _).lane hdest

theorem sorted_finalize (h : group.Sorted) : (group.finalize rank).Sorted := by
  refine h.of_sameBut (sameBut_modify _ _ _) ?_
  cases hmember : group.members[rank]? with
  | none =>
      rw [finalize_of_none hmember]
      exact h rank
  | some member => exact apart_of_getElem? (getElem?_finalize hmember) (h rank member hmember)

theorem sorted_leave (h : group.Sorted) : (group.leave rank).Sorted := by
  refine h.of_sameBut (sameBut_leave group rank) ?_
  cases hmember : group.members[rank]? with
  | none =>
      have hsame : group.leave rank = group := by
        unfold leave
        rw [hmember]
      rw [hsame]
      exact h rank
  | some member =>
      exact apart_of_getElem? (getElem?_leave hmember) Inbox.apart_empty

end Group

namespace StepEffect

variable {α : Type} {group group' : Group} {rank : Nat} {actor actor' : Actor α}
  {thread : Thread} {deeds : List Deed}

theorem size (h : StepEffect group rank actor thread deeds group' actor') :
    group'.size = group.size := by
  cases h with
  | rests hmembers => exact congrArg List.length hmembers
  | stops => exact (Group.sameBut_modify group rank _).size
  | parks => exact (Group.sameBut_modify group rank _).size
  | queues henqueue => exact (Group.sameBut_enqueue henqueue).size
  | returns => rfl
  | finds => rfl
  | misses => rfl
  | takes => exact (Group.sameBut_receive _ _ _ _).size
  | fails => rfl
  | leaves => exact (Group.sameBut_leave group rank).size

theorem sorted (h : StepEffect group rank actor thread deeds group' actor')
    (hsorted : group.Sorted) : group'.Sorted := by
  cases h with
  | rests hmembers => exact hsorted.of_members hmembers
  | stops => exact Group.sorted_finalize hsorted
  | parks hsearch => exact hsorted.putInbox hsearch
  | queues henqueue => exact hsorted.enqueue henqueue
  | returns => exact hsorted
  | finds => exact hsorted
  | misses => exact hsorted
  | takes _ hmember => exact hsorted.receive hmember _ _ _
  | fails => exact hsorted
  | leaves => exact Group.sorted_leave hsorted

theorem honest (h : StepEffect group rank actor thread deeds group' actor') :
    ∀ deed ∈ deeds, deed.Honest := by
  cases h with
  | rests => exact fun _ hmem => (List.not_mem_nil hmem).elim
  | stops => exact fun _ hmem => (List.not_mem_nil hmem).elim
  | parks => exact fun _ hmem => (List.not_mem_nil hmem).elim
  | queues => exact List.forall_mem_singleton.2 trivial
  | returns => exact List.forall_mem_singleton.2 trivial
  | finds => exact List.forall_mem_singleton.2 trivial
  | misses => exact List.forall_mem_singleton.2 trivial
  | takes _ _ hfound =>
      obtain ⟨hsource, htag⟩ := Wanted.accepts_of_source_iff.1 (List.find?_some hfound)
      exact List.forall_mem_singleton.2 ⟨hsource, htag, Group.receive_given _ _ _ _ _⟩
  | fails => exact List.forall_mem_singleton.2 ⟨_, rfl⟩
  | leaves =>
      intro deed hdeed
      obtain ⟨message, _, rfl⟩ := List.mem_map.1 hdeed
      trivial

/-- What one step takes out of a lane comes off its front, and what it puts in goes
to its end. -/
theorem balance (h : StepEffect group rank actor thread deeds group' actor')
    (hsorted : group.Sorted) (dest source : Nat) (tag : Tag) :
    deeds.filterMap (Deed.removed? dest source tag) ++ group'.lane dest source tag =
      group.lane dest source tag ++ deeds.filterMap (Deed.queued? dest source tag) := by
  cases h with
  | rests hmembers =>
      have hlane : group'.lane dest source tag = group.lane dest source tag :=
        Group.lane_eq_of_members (by rw [hmembers])
      rw [hlane]
      exact (List.append_nil _).symm
  | stops =>
      rw [Group.lane_finalize]
      exact (List.append_nil _).symm
  | @parks _ _ _ inbox hsearch =>
      have hlane :
          (group.putInbox rank inbox).lane dest source tag = group.lane dest source tag := by
        by_cases hdest : dest = rank
        · rw [hdest]
          exact (Group.search_moved (hsorted rank) hsearch).2 source tag trivial
        · exact (Group.sameBut_modify _ _ _).lane hdest
      rw [hlane]
      exact (List.append_nil _).symm
  | @queues post _ _ _ henqueue =>
        by_cases hlane : dest = post.peer ∧ source = rank ∧ tag = post.tag
        · obtain ⟨rfl, rfl, rfl⟩ := hlane
          rw [Group.lane_enqueue_self (hsorted _) trivial henqueue]
          simp [Deed.removed?, Deed.queued?]
        · have hne : ¬ (post.peer = dest ∧ rank = source ∧ post.tag = tag) :=
            fun heq => hlane ⟨heq.1.symm, heq.2.1.symm, heq.2.2.symm⟩
          rw [Group.lane_enqueue_of_ne henqueue hlane]
          simp [Deed.removed?, Deed.queued?, hne]
  | returns => exact (List.append_nil _).symm
  | finds => exact (List.append_nil _).symm
  | misses => exact (List.append_nil _).symm
  | @takes origin label length message _ _ _ _ hmember hfound =>
        obtain ⟨hsource, htag⟩ := Wanted.accepts_of_source_iff.1 (List.find?_some hfound)
        by_cases hlane : dest = rank ∧ source = origin ∧ tag = label
        · obtain ⟨rfl, rfl, rfl⟩ := hlane
          rw [Group.lane_receive_self hmember hfound length]
          simp [Deed.removed?, Deed.queued?, hsource, htag]
        · have hne : ¬ (rank = dest ∧ message.source = source ∧ message.tag = tag) := by
            rintro ⟨rfl, rfl, rfl⟩
            exact hlane ⟨rfl, hsource, htag⟩
          rw [Group.lane_receive_of_ne hmember length hlane]
          simp [List.filterMap_cons, Deed.removed?, Deed.queued?, hne]
  | fails => exact (List.append_nil _).symm
  | leaves =>
      rw [Deed.filterMap_removed?_dropped, Deed.filterMap_queued?_dropped, List.append_nil]
      by_cases hdest : rank = dest
      · subst hdest
        unfold Group.waitingAt Group.lane
        cases hmember : group.members[rank]? with
        | none =>
            unfold Group.leave
            rw [hmember]
            simp [hmember]
        | some member =>
            rw [Group.getElem?_leave hmember]
            simp [Inbox.lane, Inbox.waiting]
      · rw [if_neg hdest, (Group.sameBut_leave group rank).lane (Ne.symm hdest)]
        rfl

end StepEffect

namespace World.Records

variable {α : Type} {first world : World α} {ledger : List Deed}

theorem sorted (h : first.Records ledger world) (hsorted : first.group.Sorted) :
    world.group.Sorted := by
  induction h with
  | start => exact hsorted
  | step move _ hstep ih =>
      obtain ⟨actor, group', actor', _, rfl, heffect⟩ := exists_stepEffect_of_step hstep
      exact heffect.sorted ih

theorem honest (h : first.Records ledger world) : ∀ deed ∈ ledger, deed.Honest := by
  induction h with
  | start => exact fun _ hmem => (List.not_mem_nil hmem).elim
  | step move _ hstep ih =>
      obtain ⟨actor, group', actor', _, rfl, heffect⟩ := exists_stepEffect_of_step hstep
      exact List.forall_mem_append.2 ⟨ih, heffect.honest⟩

/-- What has been taken out of a lane and what still waits in it are together what was
there at the start and what has been put in. -/
theorem balance (h : first.Records ledger world) (hsorted : first.group.Sorted)
    (dest source : Nat) (tag : Tag) :
    ledger.filterMap (Deed.removed? dest source tag) ++ world.group.lane dest source tag =
      first.group.lane dest source tag ++ ledger.filterMap (Deed.queued? dest source tag) := by
  induction h with
  | start => simp
  | step move hrecords hstep ih =>
      obtain ⟨actor, group', actor', _, rfl, heffect⟩ := exists_stepEffect_of_step hstep
      have hbalance := heffect.balance (hrecords.sorted hsorted) dest source tag
      rw [List.filterMap_append, List.filterMap_append, List.append_assoc, hbalance,
        ← List.append_assoc, ih, List.append_assoc]

end World.Records

end RankExchange
