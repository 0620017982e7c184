import RankExchange.Proofs.OneQueue

/-!
# Groups restricted to some tags

A group restricts to another one if that holds what the first holds on some tags, the
spared ones, and nothing else.  As long as what a member sends to itself and what
others send it do not wait on one tag, this is kept by all that is done on spared
tags to both groups, and by all that is done on other tags to the first.
-/

namespace RankExchange

namespace SameOnTags

variable {messages messages' : List Message}

theorem symm (h : SameOnTags messages messages') : SameOnTags messages' messages :=
  fun tag => (h tag).symm

theorem filter (h : SameOnTags messages messages') (kept : Message → Bool) :
    SameOnTags (messages.filter kept) (messages'.filter kept) := by
  intro tag
  rw [List.filter_comm, h tag, List.filter_comm]

end SameOnTags

theorem Unmixed.of_subset {rank : Nat} {messages messages' : List Message}
    (h : Unmixed rank messages) (hsub : ∀ message ∈ messages', message ∈ messages) :
    Unmixed rank messages' :=
  fun message hmem other hother => h message (hsub message hmem) other (hsub other hother)

def Message.isSpared (spared : Tag → Bool) (message : Message) : Bool :=
  spared message.tag

theorem Wanted.isSpared_of_accepts {spared : Tag → Bool} {wanted : Wanted} {message : Message}
    (h : wanted.accepts message = true) : message.isSpared spared = spared wanted.tag :=
  congrArg spared (accepts_of_tag_iff.1 (tag_of_accepts h))

theorem Inbox.mem_waiting_push {inbox : Inbox} {rank : Nat} {message other : Message} :
    other ∈ (inbox.push rank message).waiting ↔ other ∈ inbox.waiting ∨ other = message := by
  unfold push waiting
  split
  · simp only [List.mem_append, List.mem_singleton, or_assoc]
  · simp only [List.mem_append, List.mem_singleton, or_assoc, or_comm (a := other = message)]

theorem Inbox.filter_push {inbox : Inbox} {rank : Nat} {message : Message} (spared : Tag → Bool)
    (hapart : inbox.Apart (fun _ => True) rank)
    (hunmixed : Unmixed rank (inbox.push rank message).waiting) : SameOnTags
      ((inbox.push rank message).waiting.filter (Message.isSpared spared))
      (inbox.waiting.filter (Message.isSpared spared) ++
        [message].filter (Message.isSpared spared)) := by
  rw [← List.filter_append]
  refine (sameOnTags_push hapart (hunmixed.of_subset fun other hmem => ?_)).filter _
  rw [mem_waiting_push, ← List.mem_singleton, ← List.mem_append]
  exact hmem

variable {spared : Tag → Bool} {rank size : Nat} {wanted : Wanted} {own : Bool} {channel : Channel}

def Search.isOver : Search → Bool
  | .found _ => true
  | .deserted => true
  | _ => false

structure Member.Attends (size rank : Nat) (member : Member) : Prop where
  present : member.present = true
  apart : member.inbox.Apart (fun _ => True) rank
  sources : ∀ message ∈ member.inbox.waiting, message.source < size
  expects : size = 1 ∨ member.inbox.expectsRemote = true

namespace Member.Attends

variable {member : Member} (h : member.Attends size rank)

include h

theorem spent (hrank : rank < size) :
    member.inbox.expectsRemote = false → member.inbox.remote = [] := by
  intro hexpects
  rcases h.expects with hsize | hall
  · rw [List.eq_nil_iff_forall_not_mem]
    intro message hmem
    have hsource := h.sources message (by simp [Inbox.waiting, hmem])
    exact h.apart.remote message hmem trivial (by omega)
  · rw [hall] at hexpects
    cases hexpects

theorem search {alone : Bool} {inbox : Inbox} (hunmixed : Unmixed rank member.inbox.waiting)
    (halone : size ≠ 1 → alone = false)
    (hsearch : member.inbox.search wanted alone own channel = .moved inbox) :
    ({ member with inbox } : Member).Attends size rank where
  present := h.present
  apart := (Inbox.search_moved h.apart hsearch).1
  sources := fun message hmem =>
    h.sources message ((Inbox.sameOnTags_search h.apart hunmixed hsearch).mem hmem)
  expects := by
    by_cases hsize : size = 1
    · exact .inl hsize
    · rw [halone hsize] at hsearch
      exact .inr ((Inbox.expectsRemote_of_search hsearch).trans (h.expects.resolve_left hsize))

theorem take (wanted : Wanted) :
    ({ member with inbox := member.inbox.take wanted } : Member).Attends size rank where
  present := h.present
  apart := h.apart.take wanted
  sources := by
    intro message hmem
    refine h.sources message ?_
    simp only [Inbox.waiting, Inbox.take, List.mem_append] at hmem ⊢
    exact hmem.imp_left (fun hmem => hmem.imp_left List.mem_of_mem_eraseP)
  expects := h.expects

theorem push {message : Message} (hsource : message.source < size) :
    ({ member with inbox := member.inbox.push rank message } : Member).Attends size rank where
  present := h.present
  apart := h.apart.push message
  sources := by
    intro other hmem
    rcases Inbox.mem_waiting_push.1 hmem with hmem | rfl
    · exact h.sources other hmem
    · exact hsource
  expects := by
    rw [Inbox.expectsRemote_push]
    exact h.expects

end Member.Attends

/-- Two members of which the second has what waits for the first on spared tags. -/
structure Member.RestrictsTo (spared : Tag → Bool) (member member' : Member) : Prop where
  waiting : SameOnTags (member.inbox.waiting.filter (Message.isSpared spared))
    member'.inbox.waiting
  grant : member'.grant = member.grant
  stopped : member'.stopped = member.stopped

namespace Member.RestrictsTo

variable {member member' : Member} (h : member.RestrictsTo spared member')

include h

theorem find?_eq (hspared : spared wanted.tag = true) :
    member'.inbox.waiting.find? wanted.accepts = member.inbox.waiting.find? wanted.accepts := by
  rw [← h.waiting.find?, List.find?_filter]
  congr 1
  funext message
  cases haccepts : wanted.accepts message with
  | false => simp
  | true => simp [Wanted.isSpared_of_accepts haccepts, hspared]

theorem search {alone : Bool} {inbox : Inbox} (hapart : member.inbox.Apart (fun _ => True) rank)
    (hunmixed : Unmixed rank member.inbox.waiting)
    (hsearch : member.inbox.search wanted alone own channel = .moved inbox) :
    ({ member with inbox } : Member).RestrictsTo spared member' where
  waiting := ((Inbox.sameOnTags_search hapart hunmixed hsearch).filter _).trans h.waiting
  grant := h.grant
  stopped := h.stopped

theorem search_right {alone : Bool} {inbox : Inbox}
    (hapart : member'.inbox.Apart (fun _ => True) rank)
    (hunmixed : Unmixed rank member'.inbox.waiting)
    (hsearch : member'.inbox.search wanted alone own channel = .moved inbox) :
    member.RestrictsTo spared { member' with inbox } where
  waiting := h.waiting.trans (Inbox.sameOnTags_search hapart hunmixed hsearch).symm
  grant := h.grant
  stopped := h.stopped

theorem take {message message' : Message} (hspared : spared wanted.tag = true)
    (hfound : member.inbox.parked.find? wanted.accepts = some message)
    (hfound' : member'.inbox.parked.find? wanted.accepts = some message') :
    ({ member with inbox := member.inbox.take wanted } : Member).RestrictsTo spared
      { member' with inbox := member'.inbox.take wanted } where
  waiting := by
    simp only [Inbox.waiting_take hfound, Inbox.waiting_take hfound']
    have hfilter : (member.inbox.waiting.eraseP wanted.accepts).filter
        (Message.isSpared spared) =
        (member.inbox.waiting.filter (Message.isSpared spared)).eraseP
          wanted.accepts := by
      rw [List.eraseP_filter]
      congr 2
      funext message
      cases haccepts : wanted.accepts message with
      | false => rfl
      | true => simp [Wanted.isSpared_of_accepts haccepts, hspared]
    rw [hfilter]
    exact h.waiting.eraseP wanted
  grant := h.grant
  stopped := h.stopped

theorem take_left {message : Message} (hdropped : spared wanted.tag = false)
    (hfound : member.inbox.parked.find? wanted.accepts = some message) :
    ({ member with inbox := member.inbox.take wanted } : Member).RestrictsTo spared member' where
  waiting := by
    simp only [Inbox.waiting_take hfound]
    rw [filter_eraseP_of_disjoint]
    · exact h.waiting
    · intro message haccepts
      rw [Wanted.isSpared_of_accepts haccepts, hdropped]
  grant := h.grant
  stopped := h.stopped

section Push

variable {message : Message} (hapart : member.inbox.Apart (fun _ => True) rank)
  (hunmixed : Unmixed rank (member.inbox.push rank message).waiting)

include hapart hunmixed

theorem push (hapart' : member'.inbox.Apart (fun _ => True) rank)
    (hspared : spared message.tag = true) :
    ({ member with inbox := member.inbox.push rank message } : Member).RestrictsTo spared
      { member' with inbox := member'.inbox.push rank message } where
  waiting := by
    have hfull := Inbox.filter_push spared hapart hunmixed
    rw [List.filter_cons_of_pos (show message.isSpared spared = true from hspared),
      List.filter_nil] at hfull
    have hboth := h.waiting.append [message]
    have hunmixed' : Unmixed rank (member'.inbox.waiting ++ [message]) := by
      refine (hfull.trans hboth).symm.unmixed (hunmixed.of_subset fun other hmem => ?_)
      exact (List.mem_filter.1 hmem).1
    exact (hfull.trans hboth).trans (Inbox.sameOnTags_push hapart' hunmixed').symm
  grant := h.grant
  stopped := h.stopped

theorem push_left (hdropped : spared message.tag = false) :
    ({ member with
        inbox := member.inbox.push rank message } : Member).RestrictsTo spared member' where
  waiting := by
    have hfull := Inbox.filter_push spared hapart hunmixed
    rw [List.filter_cons_of_neg (by simp [Message.isSpared, hdropped]), List.filter_nil,
      List.append_nil] at hfull
    exact hfull.trans h.waiting
  grant := h.grant
  stopped := h.stopped

end Push

end Member.RestrictsTo

namespace Group

/-- All of a group but its members and its receipts. -/
def setting (group : Group) : Delivery × Nat × Nat :=
  (group.delivery, group.arrived, group.epoch)

@[simp] theorem setting_modify (group : Group) (rank : Nat) (f : Member → Member) :
    (group.modify rank f).setting = group.setting := by
  unfold modify
  split <;> rfl

@[simp] theorem setting_settle (group : Group) (ticket : Option Nat) (receipt : Receipt) :
    (group.settle ticket receipt).setting = group.setting := by
  cases ticket <;> rfl

@[simp] theorem setting_receive (group : Group) (rank : Nat) (wanted : Wanted)
    (message : Message) (length : Nat) :
    (group.receive rank wanted message length).2.setting = group.setting := by
  unfold receive
  split <;> simp

theorem setting_enqueue {group group' : Group} {source dest : Nat} {tag : Tag} {payload : Bytes}
    {ticket : Option Nat} (h : group.enqueue source dest tag payload = .ok (group', ticket)) :
    group'.setting = group.setting := by
  unfold enqueue at h
  split at h
  · cases h
  · split at h
    · cases h
    · split at h
      · cases h
        rfl
      · cases h

/-- A group that nobody has left, and that delivers at once. -/
structure Attended (group : Group) : Prop where
  buffered : group.delivery = .buffered
  member : ∀ (rank : Nat) (member : Member), group.members[rank]? = some member →
    member.Attends group.size rank

/-- Two groups of one size, of which the second has of what waits in the first what is on
spared tags. -/
structure RestrictsTo (spared : Tag → Bool) (group group' : Group) : Prop where
  size : group'.size = group.size
  setting : group'.setting = group.setting
  member : ∀ (rank : Nat) (member member' : Member), group.members[rank]? = some member →
    group'.members[rank]? = some member' → member.RestrictsTo spared member'

variable {group group' next next' : Group} {member member' : Member}

theorem Attended.of_sameBut (h : group.Attended) (hsame : SameBut rank group next)
    (hsetting : next.setting = group.setting)
    (hrank : ∀ changed, next.members[rank]? = some changed → changed.Attends group.size rank) :
    next.Attended where
  buffered := (congrArg Prod.fst hsetting).trans h.buffered
  member := by
    have hsize : next.size = group.size := hsame.size
    intro other changed hchanged
    rw [hsize]
    by_cases hother : other = rank
    · rw [hother] at hchanged ⊢
      exact hrank changed hchanged
    · rw [hsame.member other hother] at hchanged
      exact h.member other changed hchanged

theorem RestrictsTo.of_sameBut (h : group.RestrictsTo spared group')
    (hsame : SameBut rank group next)
    (hsame' : SameBut rank group' next') (hsetting : next'.setting = next.setting)
    (hrank : ∀ changed changed', next.members[rank]? = some changed →
      next'.members[rank]? = some changed' → changed.RestrictsTo spared changed') :
    next.RestrictsTo spared next' where
  size := by
    have hsize : next.size = group.size := hsame.size
    have hsize' : next'.size = group'.size := hsame'.size
    rw [hsize, hsize', h.size]
  setting := hsetting
  member := by
    intro other changed changed' hchanged hchanged'
    by_cases hother : other = rank
    · rw [hother] at hchanged hchanged'
      exact hrank changed changed' hchanged hchanged'
    · rw [hsame.member other hother] at hchanged
      rw [hsame'.member other hother] at hchanged'
      exact h.member other changed changed' hchanged hchanged'

theorem exists_member_of_search {result : Search}
    (h : group.search rank wanted own channel = result) (hresult : result ≠ .blocked) :
    ∃ member, group.members[rank]? = some member ∧
      member.inbox.search wanted (group.isAlone rank) own channel = result := by
  unfold search at h
  split at h
  · exact absurd h.symm hresult
  · next member hmember => exact ⟨member, hmember, h⟩

theorem find?_of_found {message : Message}
    (hsearch : group.search rank wanted own channel = .found message) :
    (group.waitingAt rank).find? wanted.accepts = some message := by
  obtain ⟨member, hmember, hsearch⟩ := exists_member_of_search hsearch (by simp)
  rw [waitingAt_of_getElem? hmember]
  exact Inbox.find?_waiting_of_parked (Inbox.found_of_search hsearch)

namespace Attended

variable (h : group.Attended)

include h

theorem not_isAlone (hrank : rank < group.size) (hsize : group.size ≠ 1) :
    group.isAlone rank = false :=
  not_isAlone_of_present (fun other member hmember => (h.member other member hmember).present)
    hsize hrank

theorem of_members (hmembers : next.members = group.members)
    (hdelivery : next.delivery = group.delivery) : next.Attended where
  buffered := hdelivery.trans h.buffered
  member := by
    unfold Group.size
    rw [hmembers]
    exact h.member

theorem putInbox {inbox : Inbox} (hunmixed : Unmixed rank (group.waitingAt rank))
    (hsearch : group.search rank wanted own channel = .moved inbox) :
    (group.putInbox rank inbox).Attended := by
  obtain ⟨member, hmember, hsearch⟩ := exists_member_of_search hsearch (by simp)
  have hrank : rank < group.size := (List.getElem?_eq_some_iff.1 hmember).1
  rw [waitingAt_of_getElem? hmember] at hunmixed
  refine h.of_sameBut (sameBut_modify _ _ _) (setting_modify _ _ _) (fun changed hchanged => ?_)
  rw [getElem?_members_putInbox hmember] at hchanged
  cases hchanged
  exact (h.member rank member hmember).search hunmixed (h.not_isAlone hrank) hsearch

theorem receive (hmember : group.members[rank]? = some member) (message : Message)
    (length : Nat) : (group.receive rank wanted message length).2.Attended := by
  refine h.of_sameBut (sameBut_receive _ _ _ _) (setting_receive _ _ _ _ _)
    (fun changed hchanged => ?_)
  rw [getElem?_taker hmember] at hchanged
  cases hchanged
  exact (h.member rank member hmember).take wanted

theorem enqueue {source dest : Nat} {tag : Tag} {payload : Bytes} {ticket : Option Nat}
    (hsource : source < group.size)
    (henqueue : group.enqueue source dest tag payload = .ok (next, ticket)) : next.Attended := by
  obtain ⟨member, hmember, hnew⟩ := getElem?_receiver henqueue
  refine h.of_sameBut (sameBut_enqueue henqueue) (setting_enqueue henqueue)
    (fun changed hchanged => ?_)
  rw [hnew] at hchanged
  cases hchanged
  exact (h.member dest member hmember).push hsource

theorem ticket_eq_none {source dest : Nat} {tag : Tag} {payload : Bytes} {ticket : Option Nat}
    (henqueue : group.enqueue source dest tag payload = .ok (next, ticket)) : ticket = none := by
  obtain ⟨_, _, _, _, _, ⟨_, hticket, _⟩ | ⟨hdelivery, _⟩⟩ := enqueue_eq_ok henqueue
  · exact hticket
  · rw [h.buffered] at hdelivery
    cases hdelivery

theorem finalize (rank : Nat) : (group.finalize rank).Attended := by
  refine h.of_sameBut (sameBut_modify _ rank _) (setting_modify _ _ _) (fun changed hchanged => ?_)
  cases hmember : group.members[rank]? with
  | none =>
      rw [finalize_of_none hmember, hmember] at hchanged
      cases hchanged
  | some member =>
      rw [getElem?_finalize hmember] at hchanged
      cases hchanged
      have hmember := h.member rank member hmember
      exact ⟨hmember.present, hmember.apart, hmember.sources, hmember.expects⟩

theorem find?_of_deserted (hsearch : group.search rank wanted own channel = .deserted) :
    (group.waitingAt rank).find? wanted.accepts = none := by
  obtain ⟨member, hmember, hsearch⟩ := exists_member_of_search hsearch (by simp)
  have hrank : rank < group.size := (List.getElem?_eq_some_iff.1 hmember).1
  rw [waitingAt_of_getElem? hmember]
  exact Inbox.find?_waiting_of_deserted ((h.member rank member hmember).spent hrank) hsearch

theorem alone_of_deserted (hsearch : group.search rank wanted own channel = .deserted) :
    group.size = 1 ∧ own = false := by
  obtain ⟨member, hmember, hsearch⟩ := exists_member_of_search hsearch (by simp)
  have hattends := h.member rank member hmember
  unfold Inbox.search at hsearch
  split at hsearch
  · cases hsearch
  · split at hsearch
    · split at hsearch
      · cases hsearch
      · split at hsearch <;> cases hsearch
    · next hexpects =>
        refine ⟨hattends.expects.resolve_right hexpects, ?_⟩
        split at hsearch
        · cases hsearch
        · cases own with
          | true => cases hsearch
          | false => rfl

theorem exists_search_of_find? (hfind : ((group.waitingAt rank).find? wanted.accepts).isSome)
    (own : Bool) : ∃ channel, group.search rank wanted own channel ≠ .blocked := by
  cases hmember : group.members[rank]? with
  | none =>
      rw [waitingAt_of_none hmember] at hfind
      cases hfind
  | some member =>
      have hrank : rank < group.size := (List.getElem?_eq_some_iff.1 hmember).1
      rw [waitingAt_of_getElem? hmember] at hfind
      obtain ⟨channel, hsearch⟩ := Inbox.exists_search_of_find?
        ((h.member rank member hmember).spent hrank) hfind (group.isAlone rank) own
      refine ⟨channel, ?_⟩
      unfold search
      rw [hmember]
      exact hsearch

end Attended

/-- A member of a group of one that looks for what only others could send is not held up. -/
theorem search_of_single (hsize : group.size = 1) (hrank : rank < group.size) :
    group.search rank wanted false .remote ≠ .blocked := by
  have hmember : group.members[rank]? = some group.members[rank] := List.getElem?_eq_getElem hrank
  have halone : group.isAlone rank = true := by
    unfold isAlone
    rw [List.all_eq_true]
    rintro ⟨member, other⟩ hmem
    rw [List.mem_zipIdx_iff_getElem?] at hmem
    have hother : other < group.size := (List.getElem?_eq_some_iff.1 hmem).1
    simp [show other = rank by omega]
  unfold search Inbox.search
  rw [hmember, halone]
  simp only
  split
  · simp
  · split
    · split <;> simp
    · split <;> simp

namespace RestrictsTo

variable (h : group.RestrictsTo spared group')

include h

theorem exists_member (hmember : group.members[rank]? = some member) :
    ∃ member', group'.members[rank]? = some member' ∧ member.RestrictsTo spared member' := by
  have hrank : rank < group'.members.length := by
    change rank < group'.size
    rw [h.size]
    exact (List.getElem?_eq_some_iff.1 hmember).1
  have hmember' := List.getElem?_eq_getElem hrank
  exact ⟨_, hmember', h.member rank member _ hmember hmember'⟩

theorem delivery : group'.delivery = group.delivery :=
  congrArg Prod.fst h.setting

theorem arrived : group'.arrived = group.arrived :=
  congrArg (fun setting => setting.2.1) h.setting

theorem epoch : group'.epoch = group.epoch :=
  congrArg (fun setting => setting.2.2) h.setting

theorem none_of_none (hmember : group.members[rank]? = none) :
    group'.members[rank]? = none := by
  rw [List.getElem?_eq_none_iff] at hmember ⊢
  change group'.size ≤ rank
  rw [h.size]
  exact hmember

theorem isStopped (rank : Nat) : group'.isStopped rank = group.isStopped rank := by
  unfold Group.isStopped
  cases hmember : group.members[rank]? with
  | none => rw [h.none_of_none hmember]
  | some member =>
      obtain ⟨member', hmember', hrestricts⟩ := h.exists_member hmember
      rw [hmember', Option.any_some, Option.any_some, hrestricts.stopped]

theorem waitingAt (rank : Nat) : SameOnTags
    ((group.waitingAt rank).filter (Message.isSpared spared)) (group'.waitingAt rank) := by
  cases hmember : group.members[rank]? with
  | none =>
      rw [waitingAt_of_none hmember, waitingAt_of_none (h.none_of_none hmember)]
      exact .refl _
  | some member =>
      obtain ⟨member', hmember', hrestricts⟩ := h.exists_member hmember
      rw [waitingAt_of_getElem? hmember, waitingAt_of_getElem? hmember']
      exact hrestricts.waiting

theorem find?_eq (rank : Nat) (hspared : spared wanted.tag = true) :
    (group'.waitingAt rank).find? wanted.accepts =
      (group.waitingAt rank).find? wanted.accepts := by
  cases hmember : group.members[rank]? with
  | none => rw [waitingAt_of_none hmember, waitingAt_of_none (h.none_of_none hmember)]
  | some member =>
      obtain ⟨member', hmember', hrestricts⟩ := h.exists_member hmember
      rw [waitingAt_of_getElem? hmember, waitingAt_of_getElem? hmember',
        hrestricts.find?_eq hspared]

theorem unmixed (hunmixed : Unmixed rank (group.waitingAt rank)) :
    Unmixed rank (group'.waitingAt rank) :=
  (h.waitingAt rank).symm.unmixed
    (hunmixed.of_subset (fun _ hmem => (List.mem_filter.1 hmem).1))

theorem of_members (hmembers : next.members = group.members)
    (hmembers' : next'.members = group'.members) (hsetting : next'.setting = next.setting) :
    next.RestrictsTo spared next' where
  size := by
    have hsize := h.size
    unfold Group.size at hsize ⊢
    rw [hmembers, hmembers', hsize]
  setting := hsetting
  member := by
    rw [hmembers, hmembers']
    exact h.member

theorem putInbox {inbox : Inbox} (hattended : group.Attended)
    (hunmixed : Unmixed rank (group.waitingAt rank))
    (hsearch : group.search rank wanted own channel = .moved inbox) :
    (group.putInbox rank inbox).RestrictsTo spared group' := by
  obtain ⟨member, hmember, hsearch⟩ := exists_member_of_search hsearch (by simp)
  rw [waitingAt_of_getElem? hmember] at hunmixed
  refine h.of_sameBut (sameBut_modify _ _ _) (.refl rank _)
    (h.setting.trans (setting_modify _ _ _).symm) (fun changed changed' hchanged hchanged' => ?_)
  rw [getElem?_members_putInbox hmember] at hchanged
  cases hchanged
  exact (h.member rank member changed' hmember hchanged').search
    (hattended.member rank member hmember).apart hunmixed hsearch

theorem putInbox_right {inbox : Inbox} (hattended' : group'.Attended)
    (hunmixed : Unmixed rank (group.waitingAt rank))
    (hsearch : group'.search rank wanted own channel = .moved inbox) :
    group.RestrictsTo spared (group'.putInbox rank inbox) := by
  have hunmixed' := h.unmixed hunmixed
  obtain ⟨member', hmember', hsearch⟩ := exists_member_of_search hsearch (by simp)
  rw [waitingAt_of_getElem? hmember'] at hunmixed'
  refine h.of_sameBut (.refl rank _) (sameBut_modify _ _ _)
    ((setting_modify _ _ _).trans h.setting) (fun changed changed' hchanged hchanged' => ?_)
  rw [getElem?_members_putInbox hmember'] at hchanged'
  cases hchanged'
  exact (h.member rank changed member' hchanged hmember').search_right
    (hattended'.member rank member' hmember').apart hunmixed' hsearch

theorem receive {message message' : Message} (hspared : spared wanted.tag = true)
    (hmember : group.members[rank]? = some member)
    (hfound : member.inbox.parked.find? wanted.accepts = some message)
    (hmember' : group'.members[rank]? = some member')
    (hfound' : member'.inbox.parked.find? wanted.accepts = some message') (length : Nat) :
    (group.receive rank wanted message length).2.RestrictsTo spared
      (group'.receive rank wanted message' length).2 := by
  refine h.of_sameBut (sameBut_receive _ _ _ _) (sameBut_receive _ _ _ _)
    (by simp only [setting_receive, h.setting]) (fun changed changed' hchanged hchanged' => ?_)
  rw [getElem?_taker hmember] at hchanged
  rw [getElem?_taker hmember'] at hchanged'
  cases hchanged
  cases hchanged'
  exact (h.member rank member member' hmember hmember').take hspared hfound hfound'

theorem receive_left {message : Message} (hdropped : spared wanted.tag = false)
    (hmember : group.members[rank]? = some member)
    (hfound : member.inbox.parked.find? wanted.accepts = some message) (length : Nat) :
    (group.receive rank wanted message length).2.RestrictsTo spared group' := by
  refine h.of_sameBut (sameBut_receive _ _ _ _) (.refl rank _)
    (by rw [setting_receive, h.setting]) (fun changed changed' hchanged hchanged' => ?_)
  rw [getElem?_taker hmember] at hchanged
  cases hchanged
  exact (h.member rank member changed' hmember hchanged').take_left hdropped hfound

theorem finalize (rank : Nat) :
    (group.finalize rank).RestrictsTo spared (group'.finalize rank) := by
  refine h.of_sameBut (sameBut_modify _ rank _) (sameBut_modify _ rank _) ?_
    (fun changed changed' hchanged hchanged' => ?_)
  · unfold Group.finalize
    simp only [setting_modify, h.setting]
  · cases hmember : group.members[rank]? with
    | none =>
        rw [finalize_of_none hmember, hmember] at hchanged
        cases hchanged
    | some member =>
        obtain ⟨member', hmember', hrestricts⟩ := h.exists_member hmember
        rw [getElem?_finalize hmember] at hchanged
        rw [getElem?_finalize hmember'] at hchanged'
        cases hchanged
        cases hchanged'
        exact ⟨hrestricts.waiting, hrestricts.grant, rfl⟩

section Enqueue

variable {source dest : Nat} {tag : Tag} {payload : Bytes} {ticket : Option Nat}

theorem enqueue_error (hattended : group.Attended) {fault : Fault}
    (henqueue : group.enqueue source dest tag payload = .error fault) :
    group'.enqueue source dest tag payload = .error fault := by
  unfold Group.enqueue at henqueue ⊢
  rw [h.isStopped]
  split at henqueue
  · next hstopped =>
      rw [if_pos hstopped]
      exact henqueue
  · next hstopped =>
      rw [if_neg hstopped]
      cases hmember : group.members[dest]? with
      | none =>
          rw [hmember] at henqueue
          rw [h.none_of_none hmember]
          exact henqueue
      | some member =>
          simp only [hmember, (hattended.member dest member hmember).present, if_true] at henqueue
          cases henqueue

theorem exists_enqueue (hattended : group.Attended) (hattended' : group'.Attended)
    (hsource : source < group.size) (hspared : spared tag = true)
    (henqueue : group.enqueue source dest tag payload = .ok (next, ticket))
    (hunmixed : Unmixed dest (next.waitingAt dest)) :
    ∃ next', group'.enqueue source dest tag payload = .ok (next', none) ∧
      next.RestrictsTo spared next' ∧ next'.Attended := by
  have hrunning : group'.isStopped source = false := by
    rw [h.isStopped]
    unfold Group.enqueue at henqueue
    split at henqueue
    · cases henqueue
    · next hstopped => exact Bool.eq_false_iff.2 hstopped
  obtain ⟨member, hmember, hnew⟩ := getElem?_receiver henqueue
  obtain ⟨member', hmember', hrestricts⟩ := h.exists_member hmember
  have hattends' := hattended'.member dest member' hmember'
  have hok : ∃ next' ticket', group'.enqueue source dest tag payload = .ok (next', ticket') :=
    enqueue_isOk hrunning hmember' hattends'.present
  obtain ⟨next', ticket', henqueue'⟩ := hok
  have hnone := hattended.ticket_eq_none henqueue
  have hnone' := hattended'.ticket_eq_none henqueue'
  subst hnone hnone'
  refine ⟨next', henqueue', ?_, hattended'.enqueue (by rw [h.size]; exact hsource) henqueue'⟩
  refine h.of_sameBut (sameBut_enqueue henqueue) (sameBut_enqueue henqueue')
    (by rw [setting_enqueue henqueue, setting_enqueue henqueue', h.setting])
    (fun changed changed' hchanged hchanged' => ?_)
  obtain ⟨_, hsame, hnew'⟩ := getElem?_receiver henqueue'
  rw [hmember'] at hsame
  cases hsame
  rw [waitingAt_of_getElem? hnew] at hunmixed
  rw [hnew] at hchanged
  rw [hnew'] at hchanged'
  cases hchanged
  cases hchanged'
  exact hrestricts.push (hattended.member dest member hmember).apart hunmixed hattends'.apart
    hspared

theorem enqueue_left (hattended : group.Attended) (hdropped : spared tag = false)
    (henqueue : group.enqueue source dest tag payload = .ok (next, ticket))
    (hunmixed : Unmixed dest (next.waitingAt dest)) : next.RestrictsTo spared group' := by
  obtain ⟨member, hmember, hnew⟩ := getElem?_receiver henqueue
  refine h.of_sameBut (sameBut_enqueue henqueue) (.refl dest _)
    (by rw [setting_enqueue henqueue, h.setting]) (fun changed changed' hchanged hchanged' => ?_)
  rw [waitingAt_of_getElem? hnew] at hunmixed
  rw [hnew] at hchanged
  cases hchanged
  exact (h.member dest member changed' hmember hchanged').push_left
    (hattended.member dest member hmember).apart hunmixed hdropped

end Enqueue

section Search

variable (hattended : group.Attended) (hattended' : group'.Attended)
  (hspared : spared wanted.tag = true) {result result' : Search} {channel' : Channel}
  (hsearch : group.search rank wanted own channel = result) (hover : result.isOver = true)

include hattended hattended' hspared hsearch hover

/-- Who looks for the same in both groups comes to the same end. -/
theorem search_eq (hsearch' : group'.search rank wanted own channel' = result')
    (hover' : result'.isOver = true) : result' = result := by
  have hfind := h.find?_eq rank hspared
  cases result with
  | blocked => cases hover
  | moved inbox => cases hover
  | found message =>
      rw [find?_of_found hsearch] at hfind
      cases result' with
      | blocked => cases hover'
      | moved inbox => cases hover'
      | found message' =>
          rw [find?_of_found hsearch'] at hfind
          rw [Option.some.inj hfind]
      | deserted =>
          rw [hattended'.find?_of_deserted hsearch'] at hfind
          cases hfind
  | deserted =>
      rw [hattended.find?_of_deserted hsearch] at hfind
      cases result' with
      | blocked => cases hover'
      | moved inbox => cases hover'
      | found message' =>
          rw [find?_of_found hsearch'] at hfind
          cases hfind
      | deserted => rfl

/-- It is not held up in the second group if it has come to an end in the first one. -/
theorem exists_search : ∃ channel', group'.search rank wanted own channel' ≠ .blocked := by
  cases result with
  | blocked => cases hover
  | moved inbox => cases hover
  | found message =>
      refine hattended'.exists_search_of_find? ?_ own
      rw [h.find?_eq rank hspared, find?_of_found hsearch]
      rfl
  | deserted =>
      obtain ⟨member, hmember, _⟩ := exists_member_of_search hsearch (by simp)
      have hrank : rank < group.size := (List.getElem?_eq_some_iff.1 hmember).1
      obtain ⟨hsize, rfl⟩ := hattended.alone_of_deserted hsearch
      exact ⟨.remote, search_of_single (h.size.trans hsize) (by rw [h.size]; exact hrank)⟩

end Search

end RestrictsTo

end Group

end RankExchange
