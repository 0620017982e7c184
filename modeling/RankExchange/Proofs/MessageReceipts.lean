import Mathlib.Data.List.Nodup
import Mathlib.Data.List.Pairwise
import RankExchange.Proofs.LaneBalance
import RankExchange.Proofs.UnconfirmedSends

/-!
# What becomes of a message

With rendezvous delivery every message that is queued has a ticket of its own.
The receipt under the ticket says the truth: the message waits at its
destination, or has been taken, or has been given up.
-/

namespace RankExchange

namespace Deed

def ticket? : Deed → Option Nat
  | .queued _ message => message.ticket
  | _ => none

def ApartInTicket (deed other : Deed) : Prop :=
  ∀ ticket, deed.ticket? = some ticket → ∀ ticket', other.ticket? = some ticket' →
    ticket ≠ ticket'

instance : Std.Symm ApartInTicket :=
  ⟨fun _ _ h ticket hother ticket' hdeed => (h ticket' hdeed ticket hother).symm⟩

/-- The message that a deed takes out of an inbox, and what its sender is to be told. -/
def verdict? : Deed → Option (Message × Receipt)
  | .received _ _ _ _ (some message) (.ok _) => some (message, .taken)
  | .received _ _ _ _ (some message) (.error _) => some (message, .discarded)
  | .dropped _ message => some (message, .discarded)
  | _ => none

theorem verdict?_ne_waiting {deed : Deed} {message : Message} {receipt : Receipt}
    (h : deed.verdict? = some (message, receipt)) : receipt ≠ .waiting := by
  unfold verdict? at h
  split at h <;> cases h <;> exact fun heq => by cases heq

end Deed

namespace Group

variable {group group' : Group} {rank dest : Nat} {message : Message} {ticket : Nat}

theorem mem_waitingAt_of_parked {member : Member} {wanted : Wanted}
    (hmember : group.members[rank]? = some member)
    (hfound : member.inbox.parked.find? wanted.accepts = some message) :
    message ∈ group.waitingAt rank := by
  rw [waitingAt_of_getElem? hmember, Inbox.waiting]
  exact List.mem_append_left _ (List.mem_append_left _ (List.mem_of_find?_eq_some hfound))

theorem mem_lane_of_waitingAt (h : message ∈ group.waitingAt dest) :
    message ∈ group.lane dest message.source message.tag := by
  rw [lane_eq_filter]
  exact List.mem_filter.2 ⟨h, Wanted.accepts_of_source_iff.2 ⟨rfl, rfl⟩⟩

theorem mem_waitingAt_of_lane {source : Nat} {tag : Tag}
    (h : message ∈ group.lane dest source tag) : message ∈ group.waitingAt dest := by
  rw [lane_eq_filter] at h
  exact (List.mem_filter.1 h).1

theorem count_lane (group : Group) (dest : Nat) (message : Message) :
    (group.lane dest message.source message.tag).count message =
      (group.waitingAt dest).count message := by
  rw [lane_eq_filter]
  exact List.count_filter (Wanted.accepts_of_source_iff.2 ⟨rfl, rfl⟩)

theorem get?_settle (group : Group) (settled : Option Nat) (receipt : Receipt)
    (h : ticket < group.receipts.issued) :
    (group.settle settled receipt).receipts.get? ticket =
      if settled = some ticket then some receipt else group.receipts.get? ticket := by
  cases settled with
  | none => simp
  | some other =>
      simp only [settle, Receipts.get?_put, Option.some.injEq]
      by_cases heq : ticket = other
      · rw [if_pos ⟨heq, heq ▸ h⟩, if_pos heq.symm]
      · rw [if_neg (fun hand => heq hand.1), if_neg (Ne.symm heq)]

theorem issued_settle (group : Group) (settled : Option Nat) (receipt : Receipt) :
    (group.settle settled receipt).receipts.issued = group.receipts.issued := by
  cases settled with
  | none => rfl
  | some other => exact Receipts.issued_put _ _ _

theorem receipts_modify (group : Group) (rank : Nat) (f : Member → Member) :
    (group.modify rank f).receipts = group.receipts := by
  unfold modify
  split <;> rfl

theorem delivery_modify (group : Group) (rank : Nat) (f : Member → Member) :
    (group.modify rank f).delivery = group.delivery := by
  unfold modify
  split <;> rfl

theorem issued_receive (group : Group) (rank : Nat) (wanted : Wanted) (message : Message)
    (length : Nat) :
    (group.receive rank wanted message length).2.receipts.issued = group.receipts.issued := by
  unfold receive
  split <;> rw [issued_settle, receipts_modify]

theorem get?_receive (group : Group) (rank : Nat) (wanted : Wanted) (message : Message)
    (length : Nat) (h : ticket < group.receipts.issued) :
    (group.receive rank wanted message length).2.receipts.get? ticket =
      if message.ticket = some ticket then
        some (if message.payload.length = length then .taken else .discarded)
      else group.receipts.get? ticket := by
  unfold receive
  simp only
  split
  · rw [get?_settle _ _ _ (by rw [receipts_modify]; exact h), receipts_modify]
  · rw [get?_settle _ _ _ (by rw [receipts_modify]; exact h), receipts_modify]

theorem get?_discard (messages : List Message) (group : Group)
    (h : ticket < group.receipts.issued) :
    (messages.foldl (fun group message => group.settle message.ticket .discarded)
        group).receipts.get? ticket =
      if ∃ message ∈ messages, message.ticket = some ticket then some .discarded
      else group.receipts.get? ticket := by
  induction messages generalizing group with
  | nil => simp
  | cons message messages ih =>
      rw [List.foldl_cons, ih _ (by rw [issued_settle]; exact h), get?_settle _ _ _ h]
      by_cases hrest : ∃ message ∈ messages, message.ticket = some ticket
      · have hall : ∃ other ∈ message :: messages, other.ticket = some ticket := by
          obtain ⟨other, hmem, hticket⟩ := hrest
          exact ⟨other, List.mem_cons_of_mem _ hmem, hticket⟩
        rw [if_pos hrest, if_pos hall]
      · by_cases hfirst : message.ticket = some ticket
        · rw [if_neg hrest, if_pos hfirst, if_pos ⟨message, List.mem_cons_self, hfirst⟩]
        · rw [if_neg hrest, if_neg hfirst, if_neg]
          rintro ⟨other, hmem, hticket⟩
          rcases List.mem_cons.1 hmem with rfl | hmem
          · exact hfirst hticket
          · exact hrest ⟨other, hmem, hticket⟩

theorem issued_discard (messages : List Message) (group : Group) :
    (messages.foldl (fun group message => group.settle message.ticket .discarded)
        group).receipts.issued = group.receipts.issued := by
  induction messages generalizing group with
  | nil => rfl
  | cons message messages ih => rw [List.foldl_cons, ih, issued_settle]

theorem delivery_discard (messages : List Message) (group : Group) :
    (messages.foldl (fun group message => group.settle message.ticket .discarded)
        group).delivery = group.delivery := by
  induction messages generalizing group with
  | nil => rfl
  | cons message messages ih =>
      rw [List.foldl_cons, ih]
      cases message.ticket <;> rfl

theorem leave_receipts (group : Group) (rank : Nat) :
    (group.leave rank).delivery = group.delivery ∧
    (group.leave rank).receipts.issued = group.receipts.issued ∧
    ∀ ticket, ticket < group.receipts.issued → (group.leave rank).receipts.get? ticket =
      if ∃ message ∈ group.waitingAt rank, message.ticket = some ticket then some .discarded
      else group.receipts.get? ticket := by
  unfold leave
  cases hmember : group.members[rank]? with
  | none => exact ⟨rfl, rfl, fun ticket _ => by simp [waitingAt_of_none hmember]⟩
  | some member =>
      rw [waitingAt_of_getElem? hmember]
      exact ⟨delivery_discard _ _, issued_discard _ _, fun ticket h => get?_discard _ _ h⟩

end Group

namespace StepEffect

variable {α : Type} {group group' : Group} {rank : Nat} {actor actor' : Actor α}
  {thread : Thread} {deeds : List Deed} {deed : Deed} {message : Message} {receipt : Receipt}
  {ticket : Nat}

theorem delivery (h : StepEffect group rank actor thread deeds group' actor') :
    group'.delivery = group.delivery := by
  cases h with
  | rests _ _ hdelivery => exact hdelivery
  | stops => exact Group.delivery_modify _ _ _
  | parks => exact Group.delivery_modify _ _ _
  | queues henqueue =>
      obtain ⟨_, _, _, _, hdelivery, _⟩ := Group.enqueue_eq_ok henqueue
      exact hdelivery
  | returns => rfl
  | finds => rfl
  | misses => rfl
  | takes => exact Group.delivery_receive _ _ _ _ _
  | fails => rfl
  | leaves => exact (Group.leave_receipts _ _).1

/-- What a step judges has waited at its rank, and has been received or left behind. -/
theorem cases_of_verdict (h : StepEffect group rank actor thread deeds group' actor')
    (hdeed : deed ∈ deeds) (hverdict : deed.verdict? = some (message, receipt)) :
    message ∈ group.waitingAt rank ∧
      deed.removed? rank message.source message.tag = some message ∧
      ((∃ wanted length, group' = (group.receive rank wanted message length).2 ∧
          receipt = if message.payload.length = length then .taken else .discarded) ∨
        (group' = group.leave rank ∧ receipt = .discarded)) := by
  have hsingle : ∀ {other : Deed}, other.verdict? = none → deeds = [other] → False := by
    rintro other hnone rfl
    rw [List.mem_singleton.1 hdeed, hnone] at hverdict
    cases hverdict
  cases h with
  | rests => cases hdeed
  | stops => cases hdeed
  | parks => cases hdeed
  | queues => exact (hsingle rfl rfl).elim
  | returns => exact (hsingle rfl rfl).elim
  | finds => exact (hsingle rfl rfl).elim
  | misses => exact (hsingle rfl rfl).elim
  | @takes source tag length message member _ _ _ hmember hfound =>
      rw [List.mem_singleton.1 hdeed, Group.receive_given, Message.given] at hverdict
      have hwaits := Group.mem_waitingAt_of_parked hmember hfound
      have hremoved : deed.removed? rank message.source message.tag = some message := by
        rw [List.mem_singleton.1 hdeed]
        exact if_pos ⟨rfl, rfl, rfl⟩
      by_cases hfits : message.payload.length = length
      · rw [if_pos hfits] at hverdict
        cases hverdict
        exact ⟨hwaits, hremoved, .inl ⟨_, _, rfl, (if_pos hfits).symm⟩⟩
      · rw [if_neg hfits] at hverdict
        cases hverdict
        exact ⟨hwaits, hremoved, .inl ⟨_, _, rfl, (if_neg hfits).symm⟩⟩
  | fails => exact (hsingle rfl rfl).elim
  | leaves =>
      obtain ⟨other, hother, rfl⟩ := List.mem_map.1 hdeed
      cases hverdict
      exact ⟨hother, if_pos ⟨rfl, rfl, rfl⟩, .inr ⟨rfl, rfl⟩⟩

theorem receipt_of_verdict (h : StepEffect group rank actor thread deeds group' actor')
    (hdeed : deed ∈ deeds) (hverdict : deed.verdict? = some (message, receipt))
    (hticket : message.ticket = some ticket) (hissued : ticket < group.receipts.issued) :
    group'.receipts.get? ticket = some receipt := by
  obtain ⟨hwaits, _, ⟨wanted, length, rfl, rfl⟩ | ⟨rfl, rfl⟩⟩ := h.cases_of_verdict hdeed hverdict
  · rw [Group.get?_receive _ _ _ _ _ hissued, if_pos hticket]
  · rw [(Group.leave_receipts group rank).2.2 ticket hissued, if_pos ⟨message, hwaits, hticket⟩]

theorem receipt_of_no_verdict (h : StepEffect group rank actor thread deeds group' actor')
    (hissued : ticket < group.receipts.issued)
    (hnone : ∀ deed ∈ deeds, ∀ message receipt, deed.verdict? = some (message, receipt) →
      message.ticket ≠ some ticket) :
    group'.receipts.get? ticket = group.receipts.get? ticket := by
  cases h with
  | rests _ hreceipts => rw [hreceipts]
  | stops => rw [Group.finalize, Group.receipts_modify]
  | parks => rw [Group.putInbox, Group.receipts_modify]
  | queues henqueue =>
      obtain ⟨_, _, _, _, _, hway⟩ := Group.enqueue_eq_ok henqueue
      rcases hway with ⟨_, _, hreceipts⟩ | ⟨_, _, hreceipts⟩
      · rw [hreceipts]
      · rw [hreceipts, Receipts.get?_issue, if_neg (Nat.ne_of_lt hissued)]
  | returns => rfl
  | finds => rfl
  | misses => rfl
  | takes =>
      rw [Group.receive_given] at hnone
      have hverdict := hnone _ List.mem_cons_self
      rw [Group.get?_receive _ _ _ _ _ hissued, if_neg]
      unfold Message.given at hverdict
      split at hverdict
      · exact hverdict _ _ rfl
      · exact hverdict _ _ rfl
  | fails => rfl
  | leaves =>
      rw [(Group.leave_receipts group rank).2.2 ticket hissued, if_neg]
      rintro ⟨message, hmem, hticket⟩
      exact hnone _ (List.mem_map.2 ⟨message, hmem, rfl⟩) _ _ rfl hticket

theorem enqueue_of_queued (h : StepEffect group rank actor thread deeds group' actor') {dest : Nat}
    (hmem : .queued dest message ∈ deeds) :
    message.source = rank ∧
      group.enqueue rank dest message.tag message.payload = .ok (group', message.ticket) := by
  have hsingle : ∀ {other : Deed}, other ≠ .queued dest message → deeds = [other] → False := by
    rintro other hne rfl
    exact hne (List.mem_singleton.1 hmem).symm
  cases h with
  | rests => cases hmem
  | stops => cases hmem
  | parks => cases hmem
  | queues henqueue =>
      cases List.mem_singleton.1 hmem
      exact ⟨rfl, henqueue⟩
  | returns => exact (hsingle (by simp) rfl).elim
  | finds => exact (hsingle (by simp) rfl).elim
  | misses => exact (hsingle (by simp) rfl).elim
  | takes => exact (hsingle (by simp) rfl).elim
  | fails => exact (hsingle (by simp) rfl).elim
  | leaves =>
      obtain ⟨other, _, heq⟩ := List.mem_map.1 hmem
      cases heq

theorem ticket_of_queued (h : StepEffect group rank actor thread deeds group' actor') {dest : Nat}
    (hdelivery : group.delivery = .rendezvous) (hmem : .queued dest message ∈ deeds) :
    message.ticket = some group.receipts.issued ∧
      group'.receipts.get? group.receipts.issued = some .waiting := by
  obtain ⟨_, _, _, _, _, hway⟩ := Group.enqueue_eq_ok (h.enqueue_of_queued hmem).2
  rcases hway with ⟨hbuffered, _, _⟩ | ⟨_, hticket, hreceipts⟩
  · rw [hbuffered] at hdelivery
    cases hdelivery
  · refine ⟨hticket, ?_⟩
    rw [hreceipts, Receipts.get?_issue, if_pos rfl]

theorem tickets (h : StepEffect group rank actor thread deeds group' actor')
    (hdelivery : group.delivery = .rendezvous) :
    List.range group.receipts.issued ++ deeds.filterMap Deed.ticket? =
      List.range group'.receipts.issued := by
  have hsame : deeds.filterMap Deed.ticket? = [] →
      group'.receipts.issued = group.receipts.issued →
      List.range group.receipts.issued ++ deeds.filterMap Deed.ticket? =
        List.range group'.receipts.issued := by
    intro hnone hissued
    rw [hnone, hissued, List.append_nil]
  cases h with
  | rests _ hreceipts => exact hsame rfl (by rw [hreceipts])
  | stops => exact hsame rfl (by rw [Group.finalize, Group.receipts_modify])
  | parks => exact hsame rfl (by rw [Group.putInbox, Group.receipts_modify])
  | queues henqueue =>
      obtain ⟨_, _, _, _, _, hway⟩ := Group.enqueue_eq_ok henqueue
      rcases hway with ⟨hbuffered, _, _⟩ | ⟨_, rfl, hreceipts⟩
      · rw [hbuffered] at hdelivery
        cases hdelivery
      · rw [hreceipts]
        exact List.range_succ.symm
  | returns => exact hsame rfl rfl
  | finds => exact hsame rfl rfl
  | misses => exact hsame rfl rfl
  | takes => exact hsame rfl (Group.issued_receive _ _ _ _ _)
  | fails => exact hsame rfl rfl
  | leaves =>
      refine hsame ?_ (Group.leave_receipts group rank).2.1
      rw [List.filterMap_eq_nil_iff]
      intro deed hdeed
      obtain ⟨message, _, rfl⟩ := List.mem_map.1 hdeed
      rfl

end StepEffect

/-- What is known of the messages of a ledger, by lanes and by tickets. -/
structure Group.Judges (group : Group) (ledger : List Deed) : Prop where
  delivery : group.delivery = .rendezvous
  sorted : group.Sorted
  tickets : ledger.filterMap Deed.ticket? = List.range group.receipts.issued
  ticketed : ∀ dest message, .queued dest message ∈ ledger →
    ∃ ticket, message.ticket = some ticket
  balance : ∀ dest source tag,
    ledger.filterMap (Deed.removed? dest source tag) ++ group.lane dest source tag =
      ledger.filterMap (Deed.queued? dest source tag)
  waiting : ∀ dest, ∀ message ∈ group.waitingAt dest, ∀ ticket,
    message.ticket = some ticket → group.receipts.get? ticket = some .waiting
  judged : ∀ deed ∈ ledger, ∀ message receipt ticket, deed.verdict? = some (message, receipt) →
    message.ticket = some ticket → group.receipts.get? ticket = some receipt

namespace Group.Judges

variable {group group' : Group} {ledger : List Deed} {dest dest' : Nat}
  {message message' : Message} {ticket : Nat}

theorem issued (h : group.Judges ledger) (hqueued : .queued dest message ∈ ledger)
    (hticket : message.ticket = some ticket) : ticket < group.receipts.issued := by
  rw [← List.mem_range, ← h.tickets, List.mem_filterMap]
  exact ⟨_, hqueued, hticket⟩

theorem pairwise (h : group.Judges ledger) : ledger.Pairwise Deed.ApartInTicket := by
  unfold Deed.ApartInTicket
  rw [← List.pairwise_filterMap, h.tickets]
  exact List.nodup_range

theorem eq_of_ticket (h : group.Judges ledger) (hqueued : .queued dest message ∈ ledger)
    (hqueued' : .queued dest' message' ∈ ledger) (hticket : message.ticket = some ticket)
    (hticket' : message'.ticket = some ticket) : dest = dest' ∧ message = message' := by
  by_contra hne
  have hdeeds : Deed.queued dest message ≠ .queued dest' message' := by
    intro heq
    cases heq
    exact hne ⟨rfl, rfl⟩
  exact h.pairwise.forall hqueued hqueued' hdeeds _ hticket _ hticket' rfl

theorem queued_of_waiting (h : group.Judges ledger) (hwaits : message ∈ group.waitingAt dest) :
    .queued dest message ∈ ledger := by
  have hlane : message ∈ ledger.filterMap
      (Deed.queued? dest message.source message.tag) := by
    rw [← h.balance]
    exact List.mem_append_right _ (mem_lane_of_waitingAt hwaits)
  obtain ⟨deed, hdeed, heq⟩ := List.mem_filterMap.1 hlane
  rw [(Deed.queued?_eq_some heq).1] at hdeed
  exact hdeed

/-- A message that has been queued either waits or has been taken out, and either just
once. -/
theorem count (h : group.Judges ledger) (hqueued : .queued dest message ∈ ledger) :
    (ledger.filterMap (Deed.removed? dest message.source message.tag)).count message +
      (group.waitingAt dest).count message = 1 := by
  rw [← count_lane, ← List.count_append, h.balance]
  refine List.count_eq_one_of_mem ?_ ?_
  · unfold List.Nodup
    rw [List.pairwise_filterMap]
    refine h.pairwise.imp_of_mem ?_
    intro deed other hdeed hother hapart first hfirst second hsecond heq
    obtain ⟨rfl, _⟩ := Deed.queued?_eq_some hfirst
    obtain ⟨rfl, _⟩ := Deed.queued?_eq_some hsecond
    obtain ⟨ticket, hticket⟩ := h.ticketed _ _ hdeed
    exact hapart ticket hticket ticket (by rw [← heq]; exact hticket) rfl
  · exact List.mem_filterMap.2 ⟨_, hqueued, by simp [Deed.queued?]⟩

variable {α : Type} {rank : Nat} {actor actor' : Actor α} {thread : Thread} {deeds : List Deed}

/-- A receipt that has been given is final. -/
theorem receipt_eq (h : group.Judges ledger)
    (heffect : StepEffect group rank actor thread deeds group' actor') {receipt : Receipt}
    (hreceipt : group.receipts.get? ticket = some receipt) (hfinal : receipt ≠ .waiting) :
    group'.receipts.get? ticket = some receipt := by
  have hissued : ticket < group.receipts.issued := by
    by_contra hle
    rw [Receipts.get?_eq_none_iff.2 (Nat.le_of_not_lt hle)] at hreceipt
    cases hreceipt
  rw [heffect.receipt_of_no_verdict hissued, hreceipt]
  intro deed hdeed message other hverdict hticket
  have hwaits := (heffect.cases_of_verdict hdeed hverdict).1
  rw [h.waiting rank message hwaits ticket hticket] at hreceipt
  cases hreceipt
  exact hfinal rfl

theorem confirmation_eq (h : group.Judges ledger)
    (heffect : StepEffect group rank actor thread deeds group' actor') {answer : Except Fault Unit}
    (hanswer : group.confirmation dest ticket = some answer) :
    group'.confirmation dest ticket = some answer := by
  have hsame : ∀ receipt, group.receipts.get? ticket = some receipt → receipt ≠ .waiting →
      group'.confirmation dest ticket = group.confirmation dest ticket := by
    intro receipt hreceipt hfinal
    unfold confirmation
    rw [hreceipt, h.receipt_eq heffect hreceipt hfinal]
  rw [← hanswer]
  unfold confirmation at hanswer
  split at hanswer
  · next hreceipt => exact hsame _ hreceipt (by simp)
  · next hreceipt => exact hsame _ hreceipt (by simp)
  · cases hanswer

theorem not_waiting_of_removed (h : group.Judges ledger)
    (heffect : StepEffect group rank actor thread deeds group' actor')
    (hqueued : .queued dest message ∈ ledger) {deed : Deed} (hdeed : deed ∈ deeds)
    (hremoved : deed.removed? dest message.source message.tag = some message) :
    ¬ message ∈ group'.waitingAt dest := by
  intro hwaits
  have hbalance := congrArg (List.count message)
    (heffect.balance h.sorted dest message.source message.tag)
  rw [List.count_append, List.count_append, count_lane, count_lane] at hbalance
  have hold := h.count hqueued
  have htaken := List.count_pos_iff.2 (List.mem_filterMap.2 ⟨deed, hdeed, hremoved⟩)
  have hstill := List.count_pos_iff.2 hwaits
  have hnew : (deeds.filterMap (Deed.queued? dest message.source message.tag)).count message =
      0 := by
    rw [List.count_eq_zero]
    intro hmem
    obtain ⟨other, hother, heq⟩ := List.mem_filterMap.1 hmem
    rw [(Deed.queued?_eq_some heq).1] at hother
    have hnext := (heffect.ticket_of_queued h.delivery hother).1
    exact Nat.lt_irrefl _ (h.issued hqueued hnext)
  omega

theorem step (h : group.Judges ledger)
    (heffect : StepEffect group rank actor thread deeds group' actor') :
    group'.Judges (ledger ++ deeds) where
  delivery := by rw [heffect.delivery, h.delivery]
  sorted := heffect.sorted h.sorted
  tickets := by rw [List.filterMap_append, h.tickets, heffect.tickets h.delivery]
  ticketed := by
    intro dest message hmem
    rcases List.mem_append.1 hmem with hmem | hmem
    · exact h.ticketed dest message hmem
    · exact ⟨_, (heffect.ticket_of_queued h.delivery hmem).1⟩
  balance := by
    intro dest source tag
    rw [List.filterMap_append, List.filterMap_append, List.append_assoc,
      heffect.balance h.sorted, ← List.append_assoc, h.balance]
  waiting := by
    intro dest message hwaits ticket hticket
    have hlane := mem_lane_of_waitingAt hwaits
    have hmem : message ∈ group.lane dest message.source message.tag ++
        deeds.filterMap (Deed.queued? dest message.source message.tag) := by
      rw [← heffect.balance h.sorted]
      exact List.mem_append_right _ hlane
    rcases List.mem_append.1 hmem with hold | hnew
    · have hwaited := mem_waitingAt_of_lane hold
      have hqueued := h.queued_of_waiting hwaited
      rw [heffect.receipt_of_no_verdict (h.issued hqueued hticket)]
      · exact h.waiting dest message hwaited ticket hticket
      · intro deed hdeed other receipt hverdict hother
        -- It would be this very message that is taken out, but it still waits.
        obtain ⟨hjudged, hremoved, _⟩ := heffect.cases_of_verdict hdeed hverdict
        obtain ⟨rfl, rfl⟩ := h.eq_of_ticket hqueued (h.queued_of_waiting hjudged) hticket hother
        exact h.not_waiting_of_removed heffect hqueued hdeed hremoved hwaits
    · obtain ⟨deed, hdeed, heq⟩ := List.mem_filterMap.1 hnew
      rw [(Deed.queued?_eq_some heq).1] at hdeed
      obtain ⟨hnext, hwaiting⟩ := heffect.ticket_of_queued h.delivery hdeed
      rw [hticket] at hnext
      cases hnext
      exact hwaiting
  judged := by
    intro deed hmem message receipt ticket hverdict hticket
    rcases List.mem_append.1 hmem with hmem | hmem
    · exact h.receipt_eq heffect (h.judged deed hmem message receipt ticket hverdict hticket)
        (Deed.verdict?_ne_waiting hverdict)
    · have hwaits := (heffect.cases_of_verdict hmem hverdict).1
      exact heffect.receipt_of_verdict hmem hverdict hticket
        (h.issued (h.queued_of_waiting hwaits) hticket)

end Group.Judges

end RankExchange
