import RankExchange.World.Basic

/-!
# Lanes

A lane holds the messages of one source and one tag that wait at one rank.
Looking for a message may move it from a channel to the parked ones, but within
a lane nothing changes places: a send appends to one lane, and a receive takes
the head of one.
-/

namespace RankExchange

section Lists

variable {α : Type} {p q : α → Bool}

theorem filter_eq_cons_of_find? {l : List α} {a : α} (h : l.find? p = some a) :
    l.filter p = a :: (l.eraseP p).filter p := by
  induction l with
  | nil => cases h
  | cons first rest ih =>
      cases hfirst : p first with
      | true =>
          have heq : first = a := by simpa [hfirst] using h
          rw [List.filter_cons_of_pos hfirst, List.eraseP_cons_of_pos hfirst, heq]
      | false =>
          have hrest : rest.find? p = some a := by simpa [hfirst] using h
          have hneg : ¬ p first = true := by simp [hfirst]
          rw [List.filter_cons_of_neg hneg, List.eraseP_cons_of_neg hneg,
            List.filter_cons_of_neg hneg]
          exact ih hrest

theorem filter_eraseP_of_disjoint {l : List α} (h : ∀ a, p a = true → q a = false) :
    (l.eraseP p).filter q = l.filter q := by
  induction l with
  | nil => rfl
  | cons first rest ih =>
      cases hfirst : p first with
      | true =>
          have hq : ¬ q first = true := by simp [h first hfirst]
          rw [List.eraseP_cons_of_pos hfirst, List.filter_cons_of_neg hq]
      | false =>
          rw [List.eraseP_cons_of_neg (by simp [hfirst]), List.filter_cons, List.filter_cons, ih]

/-- The first of the wanted is also the first of those that are alike to it. -/
theorem find?_eq_of_find? {l : List α} {a : α} (h : l.find? p = some a)
    (hqp : ∀ b, q b = true → p b = true) (ha : q a = true) : l.find? q = some a := by
  induction l with
  | nil => cases h
  | cons first rest ih =>
      cases hfirst : p first with
      | true =>
          have heq : first = a := by simpa [hfirst] using h
          rw [List.find?_cons_of_pos (by rw [heq]; exact ha), heq]
      | false =>
          have hrest : rest.find? p = some a := by simpa [hfirst] using h
          have hneg : ¬ q first = true := by
            intro hq
            rw [hqp first hq] at hfirst
            cases hfirst
          rw [List.find?_cons_of_neg hneg]
          exact ih hrest

theorem getElem?_of_set {l : List α} {i j : Nat} {a changed : α} (h : l[i]? = some a) :
    (l.set i changed)[j]? = if j = i then some changed else l[j]? := by
  obtain ⟨hlt, _⟩ := List.getElem?_eq_some_iff.1 h
  by_cases heq : j = i
  · simp [heq, hlt]
  · simp [heq, Ne.symm heq]

end Lists

namespace Wanted

theorem accepts_of_source_iff {source : Nat} {tag : Tag} {message : Message} :
    accepts ⟨tag, some source⟩ message = true ↔ message.source = source ∧ message.tag = tag := by
  unfold accepts
  rw [Bool.and_eq_true, Bool.or_eq_true]
  constructor
  · rintro ⟨htag, hsource | hsource⟩
    · simp at hsource
    · exact ⟨(by simpa using hsource : source = message.source).symm, by simpa using htag⟩
  · rintro ⟨rfl, rfl⟩
    simp

theorem accepts_of_tag_iff {tag : Tag} {message : Message} :
    accepts ⟨tag, none⟩ message = true ↔ message.tag = tag := by
  unfold accepts
  simp

theorem not_accepts_of_ne {source other : Nat} {tag label : Tag} {message : Message}
    (h : accepts ⟨tag, some source⟩ message = true) (hne : ¬ (other = source ∧ label = tag)) :
    accepts ⟨label, some other⟩ message = false := by
  rw [Bool.eq_false_iff]
  intro haccepts
  obtain ⟨hsource, htag⟩ := accepts_of_source_iff.1 h
  obtain ⟨hother, hlabel⟩ := accepts_of_source_iff.1 haccepts
  exact hne ⟨hother.symm.trans hsource, hlabel.symm.trans htag⟩

end Wanted

namespace Inbox

/-- The messages of one source and tag that wait, the oldest first. -/
def lane (inbox : Inbox) (source : Nat) (tag : Tag) : List Message :=
  inbox.waiting.filter (Wanted.accepts ⟨tag, some source⟩)

/-- On the used tags, the two channels carry what they are meant for. -/
structure Apart (used : Tag → Prop) (rank : Nat) (inbox : Inbox) : Prop where
  remote : ∀ message ∈ inbox.remote, used message.tag → message.source ≠ rank
  loopback : ∀ message ∈ inbox.loopback, used message.tag → message.source = rank

variable {used : Tag → Prop} {rank source : Nat} {tag : Tag} {inbox : Inbox}

theorem lane_eq_append : inbox.lane source tag =
    inbox.parked.filter (Wanted.accepts ⟨tag, some source⟩) ++
      inbox.remote.filter (Wanted.accepts ⟨tag, some source⟩) ++
      inbox.loopback.filter (Wanted.accepts ⟨tag, some source⟩) := by
  unfold lane waiting
  rw [List.filter_append, List.filter_append]

theorem mem_lane_iff {message : Message} : message ∈ inbox.lane source tag ↔
    message ∈ inbox.waiting ∧ message.source = source ∧ message.tag = tag := by
  unfold lane
  rw [List.mem_filter, Wanted.accepts_of_source_iff]

theorem Apart.filter_remote (h : inbox.Apart used rank) (hused : used tag) :
    inbox.remote.filter (Wanted.accepts ⟨tag, some rank⟩) = [] := by
  rw [List.filter_eq_nil_iff]
  intro message hmem haccepts
  obtain ⟨hsource, htag⟩ := Wanted.accepts_of_source_iff.1 haccepts
  exact h.remote message hmem (by rw [htag]; exact hused) hsource

theorem Apart.filter_loopback (h : inbox.Apart used rank) (hused : used tag)
    (hne : source ≠ rank) :
    inbox.loopback.filter (Wanted.accepts ⟨tag, some source⟩) = [] := by
  rw [List.filter_eq_nil_iff]
  intro message hmem haccepts
  obtain ⟨hsource, htag⟩ := Wanted.accepts_of_source_iff.1 haccepts
  have hrank := h.loopback message hmem (by rw [htag]; exact hused)
  exact hne (hsource.symm.trans hrank)

theorem Apart.pull? {moved : Inbox} {channel : Channel} (h : inbox.Apart used rank)
    (hpull : inbox.pull? channel = some moved) : moved.Apart used rank := by
  obtain ⟨remote, loopback, parked, expectsRemote⟩ := inbox
  cases channel with
  | remote =>
      cases remote with
      | nil => cases hpull
      | cons message remote =>
          cases hpull
          exact ⟨fun other hother => h.remote other (List.mem_cons_of_mem _ hother), h.loopback⟩
  | loopback =>
      cases loopback with
      | nil => cases hpull
      | cons message loopback =>
          cases hpull
          exact ⟨h.remote, fun other hother => h.loopback other (List.mem_cons_of_mem _ hother)⟩

theorem lane_pull? {moved : Inbox} {channel : Channel} (h : inbox.Apart used rank)
    (hused : used tag) (hpull : inbox.pull? channel = some moved) :
    moved.lane source tag = inbox.lane source tag := by
  cases channel with
  | remote =>
      unfold lane
      rw [waiting_pull? hpull]
  | loopback =>
      obtain ⟨remote, loopback, parked, expectsRemote⟩ := inbox
      cases loopback with
      | nil => cases hpull
      | cons message loopback =>
          cases hpull
          rw [lane_eq_append, lane_eq_append]
          by_cases hsource : source = rank
          · have hremote := h.filter_remote hused
            simp only at hremote
            rw [hsource, hremote, List.append_nil, List.append_nil]
            rw [List.filter_append, List.append_assoc, ← List.filter_append, List.singleton_append]
          · have hloopback := h.filter_loopback hused hsource
            have hmessage : Wanted.accepts ⟨tag, some source⟩ message = false := by
              simpa using List.filter_eq_nil_iff.1 hloopback message (by simp)
            rw [List.filter_append, List.filter_cons_of_neg (by simp [hmessage]), List.filter_nil,
              List.append_nil]
            simp [hmessage]

theorem search_moved {wanted : Wanted} {alone own : Bool} {channel : Channel} {moved : Inbox}
    (h : inbox.Apart used rank) (hsearch : inbox.search wanted alone own channel = .moved moved) :
    moved.Apart used rank ∧
      ∀ source tag, used tag → moved.lane source tag = inbox.lane source tag := by
  unfold search at hsearch
  split at hsearch
  · cases hsearch
  · split at hsearch
    · split at hsearch
      · next hpull =>
          cases hsearch
          exact ⟨h.pull? hpull, fun _ _ hused => lane_pull? h hused hpull⟩
      · split at hsearch
        · cases hsearch
          exact ⟨⟨h.remote, h.loopback⟩, fun _ _ _ => rfl⟩
        · cases hsearch
    · split at hsearch
      · next hpull =>
          cases hsearch
          exact ⟨h.pull? hpull, fun _ _ hused => lane_pull? h hused hpull⟩
      · split at hsearch <;> cases hsearch

theorem search_found_of_parked {wanted : Wanted} {message : Message} (alone own : Bool)
    (channel : Channel) (h : inbox.parked.find? wanted.accepts = some message) :
    inbox.search wanted alone own channel = .found message := by
  unfold search
  rw [h]

theorem lane_eq_cons_of_found {message : Message}
    (h : inbox.parked.find? (Wanted.accepts ⟨tag, some source⟩) = some message) :
    inbox.lane source tag = message :: (inbox.take ⟨tag, some source⟩).lane source tag := by
  rw [lane_eq_append, lane_eq_append]
  simp only [take]
  rw [filter_eq_cons_of_find? h]
  simp only [List.cons_append]

theorem lane_take_of_ne {other : Nat} {label : Tag} (hne : ¬ (other = source ∧ label = tag)) :
    (inbox.take ⟨tag, some source⟩).lane other label = inbox.lane other label := by
  rw [lane_eq_append, lane_eq_append]
  simp only [take]
  rw [filter_eraseP_of_disjoint (fun _ h => Wanted.not_accepts_of_ne h hne)]

theorem Apart.take (h : inbox.Apart used rank) (wanted : Wanted) :
    (inbox.take wanted).Apart used rank :=
  ⟨h.remote, h.loopback⟩

def push (inbox : Inbox) (rank : Nat) (message : Message) : Inbox :=
  if rank = message.source then { inbox with loopback := inbox.loopback ++ [message] }
  else { inbox with remote := inbox.remote ++ [message] }

theorem Apart.push (h : inbox.Apart used rank) (message : Message) :
    (inbox.push rank message).Apart used rank := by
  unfold Inbox.push
  split
  · next heq =>
      refine ⟨h.remote, fun other hother hused => ?_⟩
      rcases List.mem_append.1 hother with hother | hother
      · exact h.loopback other hother hused
      · rw [List.mem_singleton.1 hother]
        exact heq.symm
  · next hne =>
      refine ⟨fun other hother hused => ?_, h.loopback⟩
      rcases List.mem_append.1 hother with hother | hother
      · exact h.remote other hother hused
      · rw [List.mem_singleton.1 hother]
        exact Ne.symm hne

theorem parked_push (message : Message) : (inbox.push rank message).parked = inbox.parked := by
  unfold push
  split <;> rfl

theorem expectsRemote_push (message : Message) :
    (inbox.push rank message).expectsRemote = inbox.expectsRemote := by
  unfold push
  split <;> rfl

theorem lane_push_self {message : Message} (h : inbox.Apart used rank) (hused : used message.tag) :
    (inbox.push rank message).lane message.source message.tag =
      inbox.lane message.source message.tag ++ [message] := by
  have haccepts : Wanted.accepts ⟨message.tag, some message.source⟩ message = true :=
    Wanted.accepts_of_source_iff.2 ⟨rfl, rfl⟩
  have hsingle : [message].filter (Wanted.accepts ⟨message.tag, some message.source⟩) =
      [message] := List.filter_eq_self.2 (by simpa using haccepts)
  rw [lane_eq_append, lane_eq_append]
  unfold push
  split
  · simp only
    rw [List.filter_append, hsingle, List.append_assoc, List.append_assoc, List.append_assoc]
  · next hne =>
      simp only
      rw [h.filter_loopback hused (Ne.symm hne), List.filter_append, hsingle, List.append_nil,
        List.append_nil, List.append_assoc]

theorem lane_push_of_ne {message : Message}
    (hne : ¬ (source = message.source ∧ tag = message.tag)) :
    (inbox.push rank message).lane source tag = inbox.lane source tag := by
  have hnone : [message].filter (Wanted.accepts ⟨tag, some source⟩) = [] := by
    rw [List.filter_eq_nil_iff]
    intro other hother haccepts
    rw [List.mem_singleton.1 hother] at haccepts
    obtain ⟨hsource, htag⟩ := Wanted.accepts_of_source_iff.1 haccepts
    exact hne ⟨hsource.symm, htag.symm⟩
  rw [lane_eq_append, lane_eq_append]
  unfold push
  split
  · simp only
    rw [List.filter_append, hnone, List.append_nil]
  · simp only
    rw [List.filter_append, hnone, List.append_nil]

end Inbox

namespace Group

def lane (group : Group) (dest source : Nat) (tag : Tag) : List Message :=
  match group.members[dest]? with
  | none => []
  | some member => member.inbox.lane source tag

structure SameBut (rank : Nat) (group group' : Group) : Prop where
  size : group'.members.length = group.members.length
  member : ∀ other, other ≠ rank → group'.members[other]? = group.members[other]?

variable {used : Tag → Prop} {rank source dest : Nat} {tag : Tag} {group group' : Group}
  {member : Member}

theorem lane_of_getElem? (h : group.members[dest]? = some member) :
    group.lane dest source tag = member.inbox.lane source tag := by
  unfold lane
  rw [h]

theorem lane_eq_of_members (h : group'.members[dest]? = group.members[dest]?) :
    group'.lane dest source tag = group.lane dest source tag := by
  unfold lane
  rw [h]

theorem exists_member_of_mem_lane {message : Message} (h : message ∈ group.lane dest source tag) :
    ∃ member, group.members[dest]? = some member ∧ message ∈ member.inbox.lane source tag := by
  unfold lane at h
  split at h
  · cases h
  · next member hmember => exact ⟨member, hmember, h⟩

theorem SameBut.refl (rank : Nat) (group : Group) : SameBut rank group group :=
  ⟨rfl, fun _ _ => rfl⟩

theorem SameBut.trans {group'' : Group} (h : SameBut rank group group')
    (h' : SameBut rank group' group'') : SameBut rank group group'' :=
  ⟨h'.size.trans h.size, fun other hne => (h'.member other hne).trans (h.member other hne)⟩

theorem SameBut.lane (h : SameBut rank group group') (hne : dest ≠ rank) :
    group'.lane dest source tag = group.lane dest source tag :=
  lane_eq_of_members (h.member dest hne)

theorem sameBut_of_members (h : group'.members = group.members) : SameBut rank group group' :=
  ⟨by rw [h], fun _ _ => by rw [h]⟩

theorem sameBut_set (group : Group) (rank : Nat) (member : Member) :
    SameBut rank group { group with members := group.members.set rank member } :=
  ⟨by simp, fun other hne => by simp [Ne.symm hne]⟩

theorem sameBut_modify (group : Group) (rank : Nat) (f : Member → Member) :
    SameBut rank group (group.modify rank f) := by
  unfold modify
  split
  · exact .refl rank group
  · exact sameBut_set group rank _

theorem sameBut_settle (group : Group) (ticket : Option Nat) (receipt : Receipt) :
    SameBut rank group (group.settle ticket receipt) :=
  sameBut_of_members (members_settle group ticket receipt)

theorem sameBut_receive (group : Group) (wanted : Wanted) (message : Message) (length : Nat) :
    SameBut rank group (group.receive rank wanted message length).2 := by
  unfold receive
  split <;> exact (sameBut_modify group rank _).trans (sameBut_settle _ _ _)

theorem sameBut_leave (group : Group) (rank : Nat) : SameBut rank group (group.leave rank) := by
  unfold leave
  split
  · exact .refl rank group
  · next member hmember =>
      have hfold : ∀ (messages : List Message) (gone : Group), SameBut rank group gone →
          SameBut rank group (messages.foldl
            (fun group message => group.settle message.ticket .discarded) gone) := by
        intro messages
        induction messages with
        | nil => exact fun gone hgone => hgone
        | cons message messages ih =>
            intro gone hgone
            exact ih _ (hgone.trans (sameBut_settle _ _ _))
      exact hfold _ _ (sameBut_set group rank _)

theorem members_putInbox (h : group.members[rank]? = some member) (inbox : Inbox) :
    (group.putInbox rank inbox).members = group.members.set rank { member with inbox } := by
  rw [putInbox, modify_of_getElem? h]

theorem members_receive (h : group.members[rank]? = some member) (wanted : Wanted)
    (message : Message) (length : Nat) :
    (group.receive rank wanted message length).2.members =
      group.members.set rank { member with inbox := member.inbox.take wanted } := by
  unfold receive
  rw [modify_of_getElem? h]
  split <;> rw [members_settle]

theorem getElem?_taker (h : group.members[rank]? = some member) (wanted : Wanted)
    (message : Message) (length : Nat) :
    (group.receive rank wanted message length).2.members[rank]? =
      some { member with inbox := member.inbox.take wanted } := by
  rw [members_receive h, getElem?_of_set h, if_pos rfl]

theorem lane_receive_self {message : Message} (h : group.members[rank]? = some member)
    (hfound : member.inbox.parked.find? (Wanted.accepts ⟨tag, some source⟩) = some message)
    (length : Nat) : group.lane rank source tag = message ::
      (group.receive rank ⟨tag, some source⟩ message length).2.lane rank source tag := by
  rw [lane_of_getElem? h, lane_of_getElem? (getElem?_taker h _ _ _)]
  exact Inbox.lane_eq_cons_of_found hfound

theorem lane_receive_of_ne {message : Message} {other origin : Nat} {label : Tag}
    (h : group.members[rank]? = some member) (length : Nat)
    (hne : ¬ (other = rank ∧ origin = source ∧ label = tag)) :
    (group.receive rank ⟨tag, some source⟩ message length).2.lane other origin label =
      group.lane other origin label := by
  by_cases hother : other = rank
  · rw [hother, lane_of_getElem? h, lane_of_getElem? (getElem?_taker h _ _ _)]
    exact Inbox.lane_take_of_ne (fun hlane => hne ⟨hother, hlane⟩)
  · exact (sameBut_receive _ _ _ _).lane hother

/-- What a send that is let through does: the message is queued at its
destination, and nothing else happens there. -/
theorem enqueue_eq_ok {payload : Bytes} {ticket : Option Nat}
    (h : group.enqueue source dest tag payload = .ok (group', ticket)) :
    ∃ member, group.members[dest]? = some member ∧ member.present = true ∧
      group'.members = group.members.set dest
        { member with inbox := member.inbox.push dest { source, tag, payload, ticket } } ∧
      group'.delivery = group.delivery ∧
      ((group.delivery = .buffered ∧ ticket = none ∧ group'.receipts = group.receipts) ∨
        (group.delivery = .rendezvous ∧ ticket = some group.receipts.issued ∧
          group'.receipts = group.receipts.issue)) := by
  unfold enqueue at h
  split at h
  · cases h
  · split at h
    · cases h
    · next member hmember =>
        split at h
        · next hpresent =>
            cases hdelivery : group.delivery with
            | buffered =>
                rw [hdelivery] at h
                cases h
                refine ⟨member, hmember, hpresent, ?_, rfl, .inl ⟨rfl, rfl, rfl⟩⟩
                simp only [Inbox.push]
            | rendezvous =>
                rw [hdelivery] at h
                cases h
                refine ⟨member, hmember, hpresent, ?_, rfl, .inr ⟨rfl, rfl, rfl⟩⟩
                simp only [Inbox.push]
        · cases h

theorem enqueue_isOk {payload : Bytes} (hstopped : group.isStopped source = false)
    (hmember : group.members[dest]? = some member) (hpresent : member.present = true) :
    ∃ group' ticket, group.enqueue source dest tag payload = .ok (group', ticket) := by
  unfold enqueue
  rw [hstopped, hmember]
  simp only [Bool.false_eq_true, if_false, hpresent, if_true]
  exact ⟨_, _, rfl⟩

theorem getElem?_receiver {payload : Bytes} {ticket : Option Nat}
    (h : group.enqueue source dest tag payload = .ok (group', ticket)) :
    ∃ member, group.members[dest]? = some member ∧ group'.members[dest]? = some { member with
      inbox := member.inbox.push dest { source, tag, payload, ticket } } := by
  obtain ⟨member, hmember, _, hmembers, _⟩ := enqueue_eq_ok h
  refine ⟨member, hmember, ?_⟩
  rw [hmembers, getElem?_of_set hmember, if_pos rfl]

theorem sameBut_enqueue {payload : Bytes} {ticket : Option Nat}
    (h : group.enqueue source dest tag payload = .ok (group', ticket)) :
    SameBut dest group group' := by
  obtain ⟨member, _, _, hmembers, _⟩ := enqueue_eq_ok h
  have hset := sameBut_set group dest { member with
    inbox := member.inbox.push dest { source, tag, payload, ticket } }
  exact hset.trans (sameBut_of_members hmembers)

theorem lane_enqueue_self {payload : Bytes} {ticket : Option Nat}
    (hapart : ∀ member, group.members[dest]? = some member → member.inbox.Apart used dest)
    (hused : used tag) (h : group.enqueue source dest tag payload = .ok (group', ticket)) :
    group'.lane dest source tag =
      group.lane dest source tag ++ [⟨source, tag, payload, ticket⟩] := by
  obtain ⟨member, hmember, hnew⟩ := getElem?_receiver h
  rw [lane_of_getElem? hnew, lane_of_getElem? hmember]
  exact Inbox.lane_push_self (hapart member hmember) hused

theorem lane_enqueue_of_ne {payload : Bytes} {ticket : Option Nat} {other origin : Nat}
    {label : Tag} (h : group.enqueue source dest tag payload = .ok (group', ticket))
    (hne : ¬ (other = dest ∧ origin = source ∧ label = tag)) :
    group'.lane other origin label = group.lane other origin label := by
  by_cases hother : other = dest
  · obtain ⟨member, hmember, hnew⟩ := getElem?_receiver h
    rw [hother, lane_of_getElem? hnew, lane_of_getElem? hmember]
    exact Inbox.lane_push_of_ne (fun hlane => hne ⟨hother, hlane⟩)
  · exact (sameBut_enqueue h).lane hother

end Group

end RankExchange
