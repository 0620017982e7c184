import RankExchange.Proofs.MessageReceipts

/-!
# Sender and receiver agree

With rendezvous delivery a send does not return before something has become of
its message, and what it returns says what: it has been taken as a whole, or it
has been given up.
-/

namespace RankExchange

namespace Actor

variable {α : Type} {actor : Actor α} {post : Envelope} {ticket : Nat}

theorem awaiting_eq_some_iff (thread : Thread) :
    actor.awaiting thread.isHelper = some (post, ticket) ↔
      actor.posting? thread = some (post, some ticket) := by
  have hposting : actor.posting? (bif thread.isHelper then .helper else .main .remote) =
      actor.posting? thread := by
    cases thread <;> rfl
  unfold awaiting
  rw [hposting]
  rcases actor.posting? thread with _ | ⟨other, _ | other⟩ <;> simp

/-- A thread that waits for a receipt goes on just when there is one, and then returns
with what it says. -/
theorem step_of_posting (group : Group) (rank : Nat) {thread : Thread}
    (h : actor.posting? thread = some (post, some ticket)) :
    ((match thread with
      | .main channel => actor.advance group rank channel
      | .helper => actor.help group rank).isSome ↔
        ∃ answer, group.confirmation post.peer ticket = some answer) ∧
    ∀ answer, group.confirmation post.peer ticket = some answer →
      actor.deeds group rank thread = [.returned rank ticket answer] := by
  constructor
  · cases thread with
    | main channel =>
        unfold posting? at h
        simp only at h
        split at h
        · cases h
        · next dest tag payload next _ hprogram hpause =>
            cases h
            simp only [advance, hprogram, call, hpause, Option.isSome_map]
            rw [Option.isSome_iff_exists]
        · cases h
    | helper =>
        unfold posting? at h
        simp only at h
        obtain ⟨first, hfirst, heq⟩ := Option.map_eq_some_iff.1 h
        obtain ⟨posts, hposts⟩ := List.head?_eq_some_iff.1 hfirst
        obtain ⟨rfl, hticket⟩ := Prod.mk.inj heq
        simp only [help, hposts, hticket]
        split
        · next hnone => simp [hnone]
        · next hsome => simp [hsome]
        · next hsome => simp [hsome]
  · exact fun _ hconfirmation => deeds_of_ends h hconfirmation

end Actor

def Deed.isSending : Deed → Bool
  | .queued _ _ => true
  | .returned _ _ _ => true
  | _ => false

/-- What a step has to do with the sends of its rank: nothing, or one begins or ends. -/
theorem StepEffect.cases_of_sending {α : Type} {group group' : Group} {rank : Nat}
    {actor actor' : Actor α} {thread : Thread} {deeds : List Deed}
    (h : StepEffect group rank actor thread deeds group' actor')
    (hdelivery : group.delivery = .rendezvous) :
    (actor'.awaiting = actor.awaiting ∧ ∀ deed ∈ deeds, deed.isSending = false) ∨
    (∃ post message ticket, deeds = [.queued post.peer message] ∧ message.source = rank ∧
      message.ticket = some ticket ∧ actor.awaiting thread.isHelper = none ∧
      actor'.awaiting = Function.update actor.awaiting thread.isHelper (some (post, ticket))) ∨
    (∃ post ticket answer, deeds = [.returned rank ticket answer] ∧
      group.confirmation post.peer ticket = some answer ∧
      actor.awaiting thread.isHelper = some (post, ticket) ∧
      actor'.awaiting = Function.update actor.awaiting thread.isHelper none) := by
  have hupdate : ∀ awaited, actor'.awaiting thread.isHelper = awaited →
      actor'.awaiting (!thread.isHelper) = actor.awaiting (!thread.isHelper) →
      actor'.awaiting = Function.update actor.awaiting thread.isHelper awaited := by
    intro awaited hafter hother
    refine Function.eq_update_iff.2 ⟨hafter, fun helping hne => ?_⟩
    rw [← Bool.eq_not_of_ne hne] at hother
    exact hother
  cases h with
  | rests _ _ _ _ hawaiting => exact .inl ⟨hawaiting, fun _ hmem => by cases hmem⟩
  | stops _ _ hawaiting => exact .inl ⟨hawaiting, fun _ hmem => by cases hmem⟩
  | parks => exact .inl ⟨rfl, fun _ hmem => by cases hmem⟩
  | @queues post ticket _ _ henqueue _ hbefore hafter hother =>
      obtain ⟨_, _, _, _, _, hway⟩ := Group.enqueue_eq_ok henqueue
      rcases hway with ⟨hbuffered, _, _⟩ | ⟨_, rfl, _⟩
      · rw [hbuffered] at hdelivery
        cases hdelivery
      · exact .inr (.inl ⟨post, _, _, rfl, rfl, rfl, hbefore, hupdate _ hafter hother⟩)
  | returns hconfirmation _ hbefore hafter hother =>
      exact .inr (.inr ⟨_, _, _, rfl, hconfirmation, hbefore, hupdate _ hafter hother⟩)
  | finds _ _ _ _ hawaiting => exact .inl ⟨hawaiting, List.forall_mem_singleton.2 rfl⟩
  | misses _ _ _ hawaiting => exact .inl ⟨hawaiting, List.forall_mem_singleton.2 rfl⟩
  | takes _ _ _ _ hawaiting => exact .inl ⟨hawaiting, List.forall_mem_singleton.2 rfl⟩
  | fails _ _ _ hawaiting => exact .inl ⟨hawaiting, List.forall_mem_singleton.2 rfl⟩
  | leaves _ _ hawaiting =>
      refine .inl ⟨hawaiting, fun deed hdeed => ?_⟩
      obtain ⟨message, _, rfl⟩ := List.mem_map.1 hdeed
      rfl

/-- A send that waits for its receipt has waited before, or has just queued its message. -/
theorem StepEffect.cases_of_awaiting {α : Type} {group group' : Group} {rank : Nat}
    {actor actor' : Actor α} {thread : Thread} {deeds : List Deed}
    (h : StepEffect group rank actor thread deeds group' actor') {helping : Bool} {post : Envelope}
    {ticket : Nat} (hawaiting : actor'.awaiting helping = some (post, ticket)) :
    actor.awaiting helping = some (post, ticket) ∨
      (group.delivery = .rendezvous ∧
        deeds = [.queued post.peer ⟨rank, post.tag, post.payload, some ticket⟩]) := by
  have hkept : actor'.awaiting = actor.awaiting → actor.awaiting helping = some (post, ticket) :=
    fun hsame => by rw [← hsame]; exact hawaiting
  cases h with
  | rests _ _ _ _ hsame => exact .inl (hkept hsame)
  | stops _ _ hsame => exact .inl (hkept hsame)
  | parks => exact .inl hawaiting
  | @queues sent queued _ _ henqueue _ _ hafter hother =>
      by_cases hthread : helping = thread.isHelper
      · rw [hthread, hafter] at hawaiting
        obtain ⟨issued, rfl, heq⟩ := Option.map_eq_some_iff.1 hawaiting
        cases heq
        obtain ⟨_, _, _, _, _, hway⟩ := Group.enqueue_eq_ok henqueue
        rcases hway with ⟨_, hnone, _⟩ | ⟨hdelivery, _⟩
        · cases hnone
        · exact .inr ⟨hdelivery, rfl⟩
      · rw [Bool.eq_not_of_ne hthread, hother, ← Bool.eq_not_of_ne hthread] at hawaiting
        exact .inl hawaiting
  | returns _ _ _ hafter hother =>
      by_cases hthread : helping = thread.isHelper
      · rw [hthread, hafter] at hawaiting
        cases hawaiting
      · rw [Bool.eq_not_of_ne hthread, hother, ← Bool.eq_not_of_ne hthread] at hawaiting
        exact .inl hawaiting
  | finds _ _ _ _ hsame => exact .inl (hkept hsame)
  | misses _ _ _ hsame => exact .inl (hkept hsame)
  | takes _ _ _ _ hsame => exact .inl (hkept hsame)
  | fails _ _ _ hsame => exact .inl (hkept hsame)
  | leaves _ _ hsame => exact .inl (hkept hsame)

/-- A message leaves its inbox only by a receive of its source and tag, or with its owner. -/
theorem StepEffect.release_of_gone {α : Type} {group group' : Group} {rank dest : Nat}
    {actor actor' : Actor α} {thread : Thread} {deeds : List Deed} {message : Message}
    (h : StepEffect group rank actor thread deeds group' actor') (hsorted : group.Sorted)
    (hwaits : message ∈ group.waitingAt dest) (hgone : message ∉ group'.waitingAt dest) :
    (∃ length answer,
      .received dest message.source message.tag length (some message) answer ∈ deeds) ∨
    .dropped dest message ∈ deeds := by
  have hmem : message ∈ deeds.filterMap (Deed.removed? dest message.source message.tag) ++
      group'.lane dest message.source message.tag := by
    rw [h.balance hsorted]
    exact List.mem_append_left _ (Group.mem_lane_of_waitingAt hwaits)
  rcases List.mem_append.1 hmem with hremoved | hlane
  · obtain ⟨deed, hdeed, hremoved⟩ := List.mem_filterMap.1 hremoved
    have hhonest := h.honest deed hdeed
    unfold Deed.removed? at hremoved
    split at hremoved
    · split at hremoved
      · next heq =>
          cases hremoved
          obtain ⟨rfl, rfl, _⟩ := hhonest
          obtain ⟨rfl, _⟩ := heq
          exact .inl ⟨_, _, hdeed⟩
      · cases hremoved
    · split at hremoved
      · next heq =>
          cases hremoved
          rw [heq.1] at hdeed
          exact .inr hdeed
      · cases hremoved
    · cases hremoved
  · exact absurd (Group.mem_waitingAt_of_lane hlane) hgone

namespace World

variable {α : Type}

def awaiting (world : World α) (rank : Nat) (helping : Bool) : Option (Envelope × Nat) :=
  world.actors[rank]?.bind (fun actor => actor.awaiting helping)

theorem cases_of_step {world next : World α} {move : Move}
    (hdelivery : world.group.delivery = .rendezvous) (hstep : world.step move = some next) :
    (next.awaiting = world.awaiting ∧ ∀ deed ∈ world.deeds move, deed.isSending = false) ∨
    (∃ helping post message ticket, world.deeds move = [.queued post.peer message] ∧
      message.source = move.rank ∧ message.ticket = some ticket ∧
      world.awaiting move.rank helping = none ∧
      ∀ rank other, next.awaiting rank other =
        if rank = move.rank ∧ other = helping then some (post, ticket)
        else world.awaiting rank other) ∨
    (∃ helping post ticket answer, world.deeds move = [.returned move.rank ticket answer] ∧
      world.group.confirmation post.peer ticket = some answer ∧
      world.awaiting move.rank helping = some (post, ticket) ∧
      ∀ rank other, next.awaiting rank other =
        if rank = move.rank ∧ other = helping then none else world.awaiting rank other) := by
  obtain ⟨actor, group', actor', hactor, rfl, heffect⟩ := exists_stepEffect_of_step hstep
  have hold : ∀ helping, world.awaiting move.rank helping = actor.awaiting helping := by
    intro helping
    rw [awaiting, hactor, Option.bind_some]
  have hnew : ∀ rank helping,
      (⟨group', world.actors.set move.rank actor'⟩ : World α).awaiting rank helping =
        if rank = move.rank then actor'.awaiting helping else world.awaiting rank helping := by
    intro rank helping
    simp only [awaiting, getElem?_of_set hactor]
    split <;> rfl
  have hupdate : ∀ awaited,
      actor'.awaiting = Function.update actor.awaiting move.thread.isHelper awaited →
      ∀ rank helping,
        (⟨group', world.actors.set move.rank actor'⟩ : World α).awaiting rank helping =
          if rank = move.rank ∧ helping = move.thread.isHelper then awaited
          else world.awaiting rank helping := by
    intro awaited hawaiting rank helping
    rw [hnew, hawaiting, Function.update_apply]
    by_cases hrank : rank = move.rank
    · rw [if_pos hrank, hrank, hold]
      simp
    · rw [if_neg hrank, if_neg (fun hand => hrank hand.1)]
  rcases heffect.cases_of_sending hdelivery with ⟨hawaiting, hsilent⟩ |
    ⟨post, message, ticket, hdeeds, hsource, hticket, hbefore, hafter⟩ |
    ⟨post, ticket, answer, hdeeds, hconfirmation, hbefore, hafter⟩
  · refine .inl ⟨?_, hsilent⟩
    funext rank helping
    rw [hnew, hawaiting]
    split
    · next heq => rw [heq, hold]
    · rfl
  · exact .inr (.inl ⟨_, post, message, ticket, hdeeds, hsource, hticket,
      (hold _).trans hbefore, hupdate _ hafter⟩)
  · exact .inr (.inr ⟨_, post, ticket, answer, hdeeds, hconfirmation,
      (hold _).trans hbefore, hupdate _ hafter⟩)

/-- A send is under way just as long as it has not returned. -/
structure Attends (world : World α) (ledger : List Deed) : Prop where
  judges : world.group.Judges ledger
  awaited : ∀ rank helping post ticket, world.awaiting rank helping = some (post, ticket) →
    (∃ message, .queued post.peer message ∈ ledger ∧ message.source = rank ∧
      message.ticket = some ticket) ∧ ∀ answer, .returned rank ticket answer ∉ ledger
  single : ∀ rank helping other post post' ticket,
    world.awaiting rank helping = some (post, ticket) →
    world.awaiting rank other = some (post', ticket) → helping = other
  returned : ∀ source ticket answer, .returned source ticket answer ∈ ledger →
    ∃ dest message, .queued dest message ∈ ledger ∧ message.source = source ∧
      message.ticket = some ticket ∧ world.group.confirmation dest ticket = some answer
  pending : ∀ dest message ticket, .queued dest message ∈ ledger →
    message.ticket = some ticket → (∃ answer, .returned message.source ticket answer ∈ ledger) ∨
      ∃ helping post, world.awaiting message.source helping = some (post, ticket)

namespace Attends

variable {world next : World α} {ledger : List Deed} {move : Move}

theorem issued_of_awaiting (h : world.Attends ledger) {rank ticket : Nat} {helping : Bool}
    {post : Envelope} (hawaiting : world.awaiting rank helping = some (post, ticket)) :
    ticket < world.group.receipts.issued := by
  obtain ⟨message, hqueued, _, hticket⟩ := (h.awaited _ _ _ _ hawaiting).1
  exact h.judges.issued hqueued hticket

variable {deeds : List Deed}

theorem returned_append (h : world.Attends ledger)
    (hconfirmation : ∀ dest ticket answer, world.group.confirmation dest ticket = some answer →
      next.group.confirmation dest ticket = some answer)
    {source ticket : Nat} {answer : Except Fault Unit}
    (hreturned : .returned source ticket answer ∈ ledger) :
    ∃ dest message, .queued dest message ∈ ledger ++ deeds ∧ message.source = source ∧
      message.ticket = some ticket ∧ next.group.confirmation dest ticket = some answer := by
  obtain ⟨dest, message, hqueued, hsource, hticket, hanswer⟩ := h.returned _ _ _ hreturned
  exact ⟨dest, message, List.mem_append_left _ hqueued, hsource, hticket,
    hconfirmation _ _ _ hanswer⟩

theorem of_silent (h : world.Attends ledger) (hjudges : next.group.Judges (ledger ++ deeds))
    (hawaiting : next.awaiting = world.awaiting)
    (hsilent : ∀ deed ∈ deeds, deed.isSending = false)
    (hconfirmation : ∀ dest ticket answer, world.group.confirmation dest ticket = some answer →
      next.group.confirmation dest ticket = some answer) : next.Attends (ledger ++ deeds) := by
  have hsending : ∀ {deed : Deed}, deed.isSending = true → deed ∈ ledger ++ deeds →
      deed ∈ ledger := by
    intro deed hsending hmem
    rcases List.mem_append.1 hmem with hmem | hmem
    · exact hmem
    · rw [hsilent deed hmem] at hsending
      cases hsending
  refine ⟨hjudges, ?_, ?_, ?_, ?_⟩
  · intro rank helping post ticket hwaits
    rw [hawaiting] at hwaits
    obtain ⟨⟨message, hqueued, hmessage⟩, hreturned⟩ := h.awaited rank helping post ticket hwaits
    exact ⟨⟨message, List.mem_append_left _ hqueued, hmessage⟩,
      fun answer hmem => hreturned answer (hsending rfl hmem)⟩
  · rw [hawaiting]
    exact h.single
  · intro source ticket answer hmem
    exact h.returned_append hconfirmation (hsending rfl hmem)
  · intro dest message ticket hmem hticket
    rw [hawaiting]
    rcases h.pending dest message ticket (hsending rfl hmem) hticket with
      ⟨answer, hreturned⟩ | hwaits
    · exact .inl ⟨answer, List.mem_append_left _ hreturned⟩
    · exact .inr hwaits

/-- The next ticket belongs to no send, be it under way or returned. -/
theorem fresh (h : world.Attends ledger) {ticket : Nat}
    (hnew : ticket = world.group.receipts.issued) :
    (∀ rank helping post, world.awaiting rank helping ≠ some (post, ticket)) ∧
      ∀ source answer, .returned source ticket answer ∉ ledger := by
  refine ⟨fun rank helping post hwaits => ?_, fun source answer hreturned => ?_⟩
  · have hissued := h.issued_of_awaiting hwaits
    rw [hnew] at hissued
    exact Nat.lt_irrefl _ hissued
  · obtain ⟨dest, earlier, hqueued, _, hearlier, _⟩ := h.returned _ _ _ hreturned
    have hissued := h.judges.issued hqueued hearlier
    rw [hnew] at hissued
    exact Nat.lt_irrefl _ hissued

theorem of_begins (h : world.Attends ledger) {rank ticket : Nat} {helping : Bool}
    {post : Envelope} {message : Message}
    (hjudges : next.group.Judges (ledger ++ [.queued post.peer message]))
    (hsource : message.source = rank) (hmessage : message.ticket = some ticket)
    (hnew : ticket = world.group.receipts.issued)
    (hbefore : world.awaiting rank helping = none)
    (hawaiting : ∀ other helping', next.awaiting other helping' =
      if other = rank ∧ helping' = helping then some (post, ticket)
      else world.awaiting other helping')
    (hconfirmation : ∀ dest ticket answer, world.group.confirmation dest ticket = some answer →
      next.group.confirmation dest ticket = some answer) :
    next.Attends (ledger ++ [.queued post.peer message]) := by
  have hreturned : ∀ {source ticket answer},
      .returned source ticket answer ∈ ledger ++ [.queued post.peer message] →
        .returned source ticket answer ∈ ledger := by
    intro source ticket answer hmem
    rcases List.mem_append.1 hmem with hmem | hmem
    · exact hmem
    · cases List.mem_singleton.1 hmem
  obtain ⟨hfresh, hunused⟩ := h.fresh hnew
  refine ⟨hjudges, ?_, ?_, ?_, ?_⟩
  · intro other helping' post' ticket' hwaits
    rw [hawaiting] at hwaits
    split at hwaits
    · next heq =>
        cases hwaits
        exact ⟨⟨message, by simp, hsource.trans heq.1.symm, hmessage⟩,
          fun answer hmem => hunused _ _ (hreturned hmem)⟩
    · obtain ⟨⟨earlier, hqueued, hearlier⟩, hnot⟩ := h.awaited _ _ _ _ hwaits
      exact ⟨⟨earlier, List.mem_append_left _ hqueued, hearlier⟩,
        fun answer hmem => hnot answer (hreturned hmem)⟩
  · intro other first second post' post'' ticket' hfirst hsecond
    rw [hawaiting] at hfirst hsecond
    split at hfirst
    · next heq =>
        split at hsecond
        · next heq' => exact heq.2.trans heq'.2.symm
        · cases hfirst
          exact absurd hsecond (hfresh _ _ _)
    · split at hsecond
      · cases hsecond
        exact absurd hfirst (hfresh _ _ _)
      · exact h.single _ _ _ _ _ _ hfirst hsecond
  · intro source ticket' answer hmem
    exact h.returned_append hconfirmation (hreturned hmem)
  · intro dest other ticket' hmem hticket
    rcases List.mem_append.1 hmem with hmem | hmem
    · rcases h.pending dest other ticket' hmem hticket with ⟨answer, hearlier⟩ |
        ⟨helping', post', hwaits⟩
      · exact .inl ⟨answer, List.mem_append_left _ hearlier⟩
      · refine .inr ⟨helping', post', ?_⟩
        rw [hawaiting, if_neg, hwaits]
        rintro ⟨heq, rfl⟩
        rw [heq, hbefore] at hwaits
        cases hwaits
    · cases List.mem_singleton.1 hmem
      rw [hmessage] at hticket
      cases hticket
      exact .inr ⟨helping, post, by rw [hawaiting, if_pos ⟨hsource, rfl⟩]⟩

theorem of_ends (h : world.Attends ledger) {rank ticket : Nat} {helping : Bool}
    {post : Envelope} {answer : Except Fault Unit}
    (hjudges : next.group.Judges (ledger ++ [.returned rank ticket answer]))
    (hanswer : world.group.confirmation post.peer ticket = some answer)
    (hbefore : world.awaiting rank helping = some (post, ticket))
    (hawaiting : ∀ other helping', next.awaiting other helping' =
      if other = rank ∧ helping' = helping then none else world.awaiting other helping')
    (hconfirmation : ∀ dest ticket answer, world.group.confirmation dest ticket = some answer →
      next.group.confirmation dest ticket = some answer) :
    next.Attends (ledger ++ [.returned rank ticket answer]) := by
  have hqueued : ∀ {dest message}, .queued dest message ∈ ledger ++ [.returned rank ticket answer] →
      .queued dest message ∈ ledger := by
    intro dest message hmem
    rcases List.mem_append.1 hmem with hmem | hmem
    · exact hmem
    · cases List.mem_singleton.1 hmem
  obtain ⟨message, hmessage, hsource, hticket⟩ := (h.awaited _ _ _ _ hbefore).1
  have hawaits : ∀ other helping' post' ticket',
      next.awaiting other helping' = some (post', ticket') →
        ¬ (other = rank ∧ helping' = helping) ∧
          world.awaiting other helping' = some (post', ticket') := by
    intro other helping' post' ticket' hwaits
    rw [hawaiting] at hwaits
    split at hwaits
    · cases hwaits
    · next hne => exact ⟨hne, hwaits⟩
  refine ⟨hjudges, ?_, ?_, ?_, ?_⟩
  · intro other helping' post' ticket' hwaits
    obtain ⟨hne, hold⟩ := hawaits _ _ _ _ hwaits
    obtain ⟨⟨earlier, hearlier, hlane⟩, hnot⟩ := h.awaited _ _ _ _ hold
    refine ⟨⟨earlier, List.mem_append_left _ hearlier, hlane⟩, fun answer' hmem => ?_⟩
    rcases List.mem_append.1 hmem with hmem | hmem
    · exact hnot answer' hmem
    · cases List.mem_singleton.1 hmem
      exact hne ⟨rfl, h.single _ _ _ _ _ _ hold hbefore⟩
  · intro other first second post' post'' ticket' hfirst hsecond
    exact h.single _ _ _ _ _ _ (hawaits _ _ _ _ hfirst).2 (hawaits _ _ _ _ hsecond).2
  · intro source ticket' answer' hmem
    rcases List.mem_append.1 hmem with hmem | hmem
    · exact h.returned_append hconfirmation hmem
    · cases List.mem_singleton.1 hmem
      exact ⟨_, message, List.mem_append_left _ hmessage, hsource, hticket,
        hconfirmation _ _ _ hanswer⟩
  · intro dest other ticket' hmem hticket'
    rcases h.pending dest other ticket' (hqueued hmem) hticket' with ⟨answer', hearlier⟩ |
      ⟨helping', post', hwaits⟩
    · exact .inl ⟨answer', List.mem_append_left _ hearlier⟩
    · by_cases heq : other.source = rank ∧ helping' = helping
      · rw [heq.1, heq.2, hbefore] at hwaits
        cases hwaits
        exact .inl ⟨answer, by rw [heq.1]; simp⟩
      · exact .inr ⟨helping', post', by rw [hawaiting, if_neg heq, hwaits]⟩

theorem step (h : world.Attends ledger) (hstep : world.step move = some next) :
    next.Attends (ledger ++ world.deeds move) := by
  have hcases := cases_of_step h.judges.delivery hstep
  obtain ⟨actor, group', actor', hactor, rfl, heffect⟩ := exists_stepEffect_of_step hstep
  have hjudges := h.judges.step heffect
  have hconfirmation : ∀ dest ticket answer,
      world.group.confirmation dest ticket = some answer →
        group'.confirmation dest ticket = some answer :=
    fun _ _ _ => h.judges.confirmation_eq heffect
  rcases hcases with ⟨hawaiting, hsilent⟩ |
    ⟨helping, post, message, ticket, hdeeds, hsource, hticket, hbefore, hawaiting⟩ |
    ⟨helping, post, ticket, answer, hdeeds, hanswer, hbefore, hawaiting⟩
  · exact h.of_silent hjudges hawaiting hsilent hconfirmation
  · have hnew : ticket = world.group.receipts.issued := by
      have hnext := (heffect.ticket_of_queued h.judges.delivery
        (by rw [hdeeds]; exact List.mem_cons_self)).1
      rw [hticket] at hnext
      exact Option.some.inj hnext
    rw [hdeeds] at hjudges ⊢
    exact h.of_begins hjudges hsource hticket hnew hbefore hawaiting hconfirmation
  · rw [hdeeds] at hjudges ⊢
    exact h.of_ends hjudges hanswer hbefore hawaiting hconfirmation

end Attends

theorem awaiting_starting {delivery : Delivery} {grants : List Threading}
    {program : Nat → Program α} (rank : Nat) (helping : Bool) :
    (starting (.ofGrants delivery grants) program).awaiting rank helping = none := by
  unfold awaiting
  cases hactor : (starting (.ofGrants delivery grants) program).actors[rank]? with
  | none => rfl
  | some actor =>
      obtain ⟨_, rfl⟩ := getElem?_starting hactor
      cases helping with
      | true => rfl
      | false => exact Actor.awaiting_main_of_ready rfl

theorem attends_starting {grants : List Threading} {program : Nat → Program α} :
    (starting (.ofGrants .rendezvous grants) program).Attends [] := by
  have hjudges : (Group.ofGrants .rendezvous grants).Judges [] := by
    refine ⟨rfl, Group.sorted_ofGrants _ _, rfl, fun _ _ hmem => (by cases hmem), ?_, ?_,
      fun _ hmem => (by cases hmem)⟩
    · intro dest source tag
      rw [Group.lane_ofGrants]
      rfl
    · intro dest message hmem
      rw [Group.waitingAt_ofGrants] at hmem
      cases hmem
  refine ⟨hjudges, ?_, ?_, fun _ _ _ hmem => (by cases hmem), fun _ _ _ hmem => (by cases hmem)⟩
  · intro rank helping post ticket hwaits
    rw [awaiting_starting] at hwaits
    cases hwaits
  · intro rank helping other post post' ticket hwaits
    rw [awaiting_starting] at hwaits
    cases hwaits

theorem Records.attends {first world : World α} {ledger : List Deed}
    (h : first.Records ledger world) (hfirst : first.Attends []) : world.Attends ledger := by
  induction h with
  | start => exact hfirst
  | step move _ hstep ih => exact ih.step hstep

/-- Where a send waits for its receipt, its message has been queued. -/
theorem Records.queued_of_awaiting {first world : World α} {ledger : List Deed}
    (h : first.Records ledger world)
    (hfirst : ∀ rank helping, first.awaiting rank helping = none) {rank ticket : Nat}
    {helping : Bool} {post : Envelope}
    (hawaiting : world.awaiting rank helping = some (post, ticket)) :
    world.group.delivery = .rendezvous ∧
      .queued post.peer ⟨rank, post.tag, post.payload, some ticket⟩ ∈ ledger := by
  induction h with
  | start =>
      rw [hfirst] at hawaiting
      cases hawaiting
  | @step ledger world _ move _ hstep ih =>
      obtain ⟨actor, group', actor', hactor, rfl, heffect⟩ := exists_stepEffect_of_step hstep
      have hdelivery : group'.delivery = world.group.delivery := heffect.delivery
      have hearlier : world.awaiting rank helping = some (post, ticket) →
          group'.delivery = .rendezvous ∧
            .queued post.peer ⟨rank, post.tag, post.payload, some ticket⟩ ∈
              ledger ++ world.deeds move := by
        intro hbefore
        obtain ⟨hrendezvous, hqueued⟩ := ih hbefore
        exact ⟨hdelivery.trans hrendezvous, List.mem_append_left _ hqueued⟩
      unfold awaiting at hawaiting
      simp only [getElem?_of_set hactor] at hawaiting
      split at hawaiting
      · next heq =>
          subst heq
          rw [Option.bind_some] at hawaiting
          rcases heffect.cases_of_awaiting hawaiting with hbefore | ⟨hrendezvous, hdeeds⟩
          · refine hearlier ?_
            rw [awaiting, hactor, Option.bind_some, hbefore]
          · refine ⟨hdelivery.trans hrendezvous, List.mem_append_right _ ?_⟩
            rw [hdeeds]
            exact List.mem_cons_self
      · exact hearlier hawaiting

theorem Records.delivery {first world : World α} {ledger : List Deed}
    (h : first.Records ledger world) : world.group.delivery = first.group.delivery := by
  induction h with
  | start => rfl
  | step move _ hstep ih =>
      obtain ⟨actor, group', actor', _, rfl, heffect⟩ := exists_stepEffect_of_step hstep
      exact heffect.delivery.trans ih

def Copied (ledger : List Deed) (dest : Nat) (message : Message) : Prop :=
  .received dest message.source message.tag message.payload.length (some message)
    (.ok message.payload) ∈ ledger

/-- A receive has taken the message into a buffer of another length, or its destination
has left without it. -/
def Discarded (ledger : List Deed) (dest : Nat) (message : Message) : Prop :=
  (∃ length, length ≠ message.payload.length ∧
    .received dest message.source message.tag length (some message)
      (.error (.transport .receive (.misfit message.payload.length length))) ∈ ledger) ∨
  .dropped dest message ∈ ledger

def Awaits (world : World α) (rank ticket : Nat) (thread : Thread) : Prop :=
  ∃ post, world.awaiting rank thread.isHelper = some (post, ticket)

/-- Sender and receiver agree on a message that has been queued. -/
structure Agrees (world : World α) (ledger : List Deed) (dest : Nat) (message : Message)
    (ticket : Nat) : Prop where
  marked : message.ticket = some ticket
  own : ledger.count (.queued dest message) = 1 ∧ ∀ other message',
    .queued other message' ∈ ledger → message'.ticket = some ticket →
      other = dest ∧ message' = message
  state :
    ((world.group.waitingAt dest).count message = 1 ∧ ¬ Copied ledger dest message ∧
      ¬ Discarded ledger dest message) ∨
    (message ∉ world.group.waitingAt dest ∧ Copied ledger dest message ∧
      ¬ Discarded ledger dest message) ∨
    (message ∉ world.group.waitingAt dest ∧ ¬ Copied ledger dest message ∧
      Discarded ledger dest message)
  returned : ∀ answer, .returned message.source ticket answer ∈ ledger →
    (answer = .ok () ∧ Copied ledger dest message) ∨
    (answer = .error (.transport .send (.discarded dest)) ∧ Discarded ledger dest message)
  unreturned : (∀ answer, .returned message.source ticket answer ∉ ledger) ↔
    ∃ thread, world.Awaits message.source ticket thread
  waits : ∀ thread, world.Awaits message.source ticket thread →
    message ∈ world.group.waitingAt dest → world.step ⟨message.source, thread⟩ = none
  succeeds : ∀ thread, world.Awaits message.source ticket thread →
    Copied ledger dest message → (world.step ⟨message.source, thread⟩).isSome ∧
      world.deeds ⟨message.source, thread⟩ = [.returned message.source ticket (.ok ())]
  fails : ∀ thread, world.Awaits message.source ticket thread →
    Discarded ledger dest message → (world.step ⟨message.source, thread⟩).isSome ∧
      world.deeds ⟨message.source, thread⟩ =
        [.returned message.source ticket (.error (.transport .send (.discarded dest)))]
  /-- Only a receive of its source and tag, or the end of its destination, releases a
  message. -/
  released : ∀ move next, world.step move = some next →
    message ∈ world.group.waitingAt dest → message ∉ next.group.waitingAt dest →
      (∃ length answer, .received dest message.source message.tag length (some message) answer ∈
        world.deeds move) ∨
      .dropped dest message ∈ world.deeds move

namespace Attends

variable {world : World α} {ledger : List Deed} {dest ticket : Nat} {message : Message}

theorem receipt_of_copied (h : world.Attends ledger) (hticket : message.ticket = some ticket)
    (hcopied : Copied ledger dest message) :
    world.group.receipts.get? ticket = some .taken :=
  h.judges.judged _ hcopied message .taken ticket rfl hticket

theorem receipt_of_discarded (h : world.Attends ledger) (hticket : message.ticket = some ticket)
    (hdiscarded : Discarded ledger dest message) :
    world.group.receipts.get? ticket = some .discarded := by
  rcases hdiscarded with ⟨length, _, hmem⟩ | hmem
  · exact h.judges.judged _ hmem message .discarded ticket rfl hticket
  · exact h.judges.judged _ hmem message .discarded ticket rfl hticket

theorem copied_or_discarded (hhonest : ∀ deed ∈ ledger, deed.Honest)
    (h : message ∈ ledger.filterMap (Deed.removed? dest message.source message.tag)) :
    Copied ledger dest message ∨ Discarded ledger dest message := by
  obtain ⟨deed, hdeed, hremoved⟩ := List.mem_filterMap.1 h
  unfold Deed.removed? at hremoved
  split at hremoved
  · next rank source tag length taken answer =>
      split at hremoved
      · next heq =>
          cases hremoved
          obtain ⟨rfl, rfl, hanswer⟩ := hhonest _ hdeed
          obtain ⟨rfl, _⟩ := heq
          unfold Message.given at hanswer
          split at hanswer
          · next hfits =>
              rw [hanswer, ← hfits] at hdeed
              exact .inl hdeed
          · next hfits =>
              rw [hanswer] at hdeed
              exact .inr (.inl ⟨length, Ne.symm hfits, hdeed⟩)
      · cases hremoved
  · split at hremoved
    · next heq =>
        cases hremoved
        rw [heq.1] at hdeed
        exact .inr (.inr hdeed)
    · cases hremoved
  · cases hremoved

theorem count_queued (h : world.Attends ledger) (hqueued : .queued dest message ∈ ledger) :
    ledger.count (.queued dest message) = 1 := by
  obtain ⟨ticket, hticket⟩ := h.judges.ticketed _ _ hqueued
  have hpos : 0 < ledger.count (.queued dest message) := List.count_pos_iff.2 hqueued
  by_contra hne
  have htwice : [Deed.queued dest message, .queued dest message].Sublist ledger := by
    have hle : 2 ≤ ledger.count (.queued dest message) := by omega
    exact List.replicate_sublist_iff.2 hle
  have hapart := List.rel_of_pairwise_cons (h.judges.pairwise.sublist htwice) List.mem_cons_self
  exact hapart ticket hticket ticket hticket rfl

/-- The receipt of a message tells where it is. -/
theorem fate (h : world.Attends ledger) (hhonest : ∀ deed ∈ ledger, deed.Honest)
    (hqueued : .queued dest message ∈ ledger) (hticket : message.ticket = some ticket) :
    ((world.group.waitingAt dest).count message = 1 ∧
      world.group.receipts.get? ticket = some .waiting) ∨
    (message ∉ world.group.waitingAt dest ∧ Copied ledger dest message ∧
      world.group.receipts.get? ticket = some .taken) ∨
    (message ∉ world.group.waitingAt dest ∧ Discarded ledger dest message ∧
      world.group.receipts.get? ticket = some .discarded) := by
  have hcount := h.judges.count hqueued
  by_cases hwaits : message ∈ world.group.waitingAt dest
  · have hpos := List.count_pos_iff.2 hwaits
    exact .inl ⟨by omega, h.judges.waiting _ _ hwaits _ hticket⟩
  · rw [List.count_eq_zero.2 hwaits] at hcount
    have hremoved : message ∈ ledger.filterMap
        (Deed.removed? dest message.source message.tag) := List.count_pos_iff.1 (by omega)
    rcases copied_or_discarded hhonest hremoved with hcopied | hdiscarded
    · exact .inr (.inl ⟨hwaits, hcopied, h.receipt_of_copied hticket hcopied⟩)
    · exact .inr (.inr ⟨hwaits, hdiscarded, h.receipt_of_discarded hticket hdiscarded⟩)

theorem confirmation_of_awaits (h : world.Attends ledger)
    (hqueued : .queued dest message ∈ ledger) (hticket : message.ticket = some ticket)
    {thread : Thread} (hawaits : world.Awaits message.source ticket thread) :
    ((world.step ⟨message.source, thread⟩).isSome ↔
      ∃ answer, world.group.confirmation dest ticket = some answer) ∧
    ∀ answer, world.group.confirmation dest ticket = some answer →
      world.deeds ⟨message.source, thread⟩ = [.returned message.source ticket answer] := by
  obtain ⟨post, hawaits⟩ := hawaits
  obtain ⟨other, hother, _, hticket'⟩ := (h.awaited _ _ _ _ hawaits).1
  obtain ⟨rfl, _⟩ := h.judges.eq_of_ticket hother hqueued hticket' hticket
  obtain ⟨actor, hactor, hawaiting⟩ := Option.bind_eq_some_iff.1 hawaits
  have hposting := Actor.step_of_posting world.group message.source
    ((Actor.awaiting_eq_some_iff thread).1 hawaiting)
  refine ⟨?_, fun answer hanswer => ?_⟩
  · rw [← hposting.1]
    cases thread <;> simp only [World.step, hactor, Option.isSome_map]
  · simp only [World.deeds, hactor]
    exact hposting.2 answer hanswer

theorem not_copied (h : world.Attends ledger) (hticket : message.ticket = some ticket)
    {receipt : Receipt} (hreceipt : world.group.receipts.get? ticket = some receipt)
    (hne : receipt ≠ .taken) : ¬ Copied ledger dest message := by
  intro hcopied
  rw [h.receipt_of_copied hticket hcopied] at hreceipt
  exact hne (Option.some.inj hreceipt).symm

theorem not_discarded (h : world.Attends ledger) (hticket : message.ticket = some ticket)
    {receipt : Receipt} (hreceipt : world.group.receipts.get? ticket = some receipt)
    (hne : receipt ≠ .discarded) : ¬ Discarded ledger dest message := by
  intro hdiscarded
  rw [h.receipt_of_discarded hticket hdiscarded] at hreceipt
  exact hne (Option.some.inj hreceipt).symm

theorem answer_of_returned (h : world.Attends ledger) (hhonest : ∀ deed ∈ ledger, deed.Honest)
    (hqueued : .queued dest message ∈ ledger) (hticket : message.ticket = some ticket)
    {answer : Except Fault Unit} (hreturned : .returned message.source ticket answer ∈ ledger) :
    (answer = .ok () ∧ Copied ledger dest message) ∨
    (answer = .error (.transport .send (.discarded dest)) ∧ Discarded ledger dest message) := by
  obtain ⟨other, message', hother, _, hticket', hanswer⟩ := h.returned _ _ _ hreturned
  obtain ⟨rfl, rfl⟩ := h.judges.eq_of_ticket hother hqueued hticket' hticket
  unfold Group.confirmation at hanswer
  rcases h.fate hhonest hqueued hticket with ⟨_, hwaiting⟩ | ⟨_, hcopied, htaken⟩ |
    ⟨_, hdiscarded, hlost⟩
  · rw [hwaiting] at hanswer
    cases hanswer
  · rw [htaken] at hanswer
    cases hanswer
    exact .inl ⟨rfl, hcopied⟩
  · rw [hlost] at hanswer
    cases hanswer
    exact .inr ⟨rfl, hdiscarded⟩

/-- A send whose answer is there returns it in the next step of its thread. -/
theorem returns_of_awaits (h : world.Attends ledger) (hqueued : .queued dest message ∈ ledger)
    (hticket : message.ticket = some ticket) {thread : Thread}
    (hawaits : world.Awaits message.source ticket thread) {answer : Except Fault Unit}
    (hanswer : world.group.confirmation dest ticket = some answer) :
    (world.step ⟨message.source, thread⟩).isSome ∧
      world.deeds ⟨message.source, thread⟩ = [.returned message.source ticket answer] := by
  obtain ⟨hstep, hdeeds⟩ := h.confirmation_of_awaits hqueued hticket hawaits
  exact ⟨hstep.2 ⟨answer, hanswer⟩, hdeeds answer hanswer⟩

theorem agrees (h : world.Attends ledger) (hhonest : ∀ deed ∈ ledger, deed.Honest)
    (hqueued : .queued dest message ∈ ledger) (hticket : message.ticket = some ticket) :
    world.Agrees ledger dest message ticket where
  marked := hticket
  own := ⟨h.count_queued hqueued, fun other message' hother hticket' => by
    obtain ⟨rfl, rfl⟩ := h.judges.eq_of_ticket hother hqueued hticket' hticket
    exact ⟨rfl, rfl⟩⟩
  state := by
    rcases h.fate hhonest hqueued hticket with ⟨hcount, hwaiting⟩ | ⟨hgone, hcopied, htaken⟩ |
      ⟨hgone, hdiscarded, hlost⟩
    · exact .inl ⟨hcount, h.not_copied hticket hwaiting (by simp),
        h.not_discarded hticket hwaiting (by simp)⟩
    · exact .inr (.inl ⟨hgone, hcopied, h.not_discarded hticket htaken (by simp)⟩)
    · exact .inr (.inr ⟨hgone, h.not_copied hticket hlost (by simp), hdiscarded⟩)
  returned := fun _ => h.answer_of_returned hhonest hqueued hticket
  unreturned := by
    constructor
    · intro hnone
      rcases h.pending _ _ _ hqueued hticket with ⟨answer, hreturned⟩ | ⟨helping, post, hawaits⟩
      · exact absurd hreturned (hnone answer)
      · cases helping with
        | true => exact ⟨.helper, post, hawaits⟩
        | false => exact ⟨.main .remote, post, hawaits⟩
    · rintro ⟨thread, post, hawaits⟩
      exact (h.awaited _ _ _ _ hawaits).2
  waits := by
    intro thread hawaits hwaits
    have hstep := (h.confirmation_of_awaits hqueued hticket hawaits).1
    rw [Group.confirmation, h.judges.waiting _ _ hwaits _ hticket] at hstep
    simpa using hstep
  succeeds := by
    intro thread hawaits hcopied
    apply h.returns_of_awaits hqueued hticket hawaits
    rw [Group.confirmation, h.receipt_of_copied hticket hcopied]
  fails := by
    intro thread hawaits hdiscarded
    apply h.returns_of_awaits hqueued hticket hawaits
    rw [Group.confirmation, h.receipt_of_discarded hticket hdiscarded]
  released := by
    intro move next hstep hwaits hgone
    obtain ⟨actor, group', actor', _, rfl, heffect⟩ := exists_stepEffect_of_step hstep
    exact heffect.release_of_gone h.judges.sorted hwaits hgone

end Attends

/-- A send without a receipt has its message still waiting where it was sent, and only a group
with rendezvous delivery has such sends. -/
theorem waits_of_awaiting {delivery : Delivery} {grants : List Threading}
    {program : Nat → Program α} {world : World α}
    (hreaches : (starting (.ofGrants delivery grants) program).Reaches world)
    {rank ticket : Nat} {helping : Bool} {post : Envelope}
    (hawaiting : world.awaiting rank helping = some (post, ticket))
    (hnone : world.group.confirmation post.peer ticket = none) : delivery = .rendezvous ∧
      ⟨rank, post.tag, post.payload, some ticket⟩ ∈ world.group.waitingAt post.peer := by
  obtain ⟨ledger, hrecords⟩ := reaches_iff_records.1 hreaches
  obtain ⟨hrendezvous, hqueued⟩ := hrecords.queued_of_awaiting awaiting_starting hawaiting
  have hdelivery : delivery = .rendezvous := hrecords.delivery.symm.trans hrendezvous
  subst hdelivery
  refine ⟨rfl, ?_⟩
  have hattends := hrecords.attends attends_starting
  rcases hattends.fate hrecords.honest hqueued rfl with ⟨hcount, -⟩ | ⟨-, -, htaken⟩ |
    ⟨-, -, hdiscarded⟩
  · exact List.count_pos_iff.1 (by omega)
  · simp [Group.confirmation, htaken] at hnone
  · simp [Group.confirmation, hdiscarded] at hnone

/-- Whatever the ranks of a fresh group with rendezvous delivery do, sender and receiver
agree on every message that has been queued. -/
theorem agrees_of_records {grants : List Threading} {program : Nat → Program α}
    {ledger : List Deed} {world : World α}
    (h : (starting (.ofGrants .rendezvous grants) program).Records ledger world)
    {dest : Nat} {message : Message} (hqueued : .queued dest message ∈ ledger) :
    ∃ ticket, world.Agrees ledger dest message ticket := by
  have hattends := h.attends attends_starting
  obtain ⟨ticket, hticket⟩ := hattends.judges.ticketed dest message hqueued
  exact ⟨ticket, hattends.agrees h.honest hqueued hticket⟩

/-- Rank 1 has room for one byte at a time, and for two messages. -/
def shortBuffer : Nat → Program Unit
  | 0 => do
      Program.send 1 5 [7]
      let _ ← (Program.send 1 5 [8, 9]).attempt
      Program.send 1 6 [1]
  | _ => do
      let _ ← Program.receive 0 5 1
      let _ ← (Program.receive 0 5 1).attempt
      return ()

theorem agrees_of_shortBuffer : ∃ ledger world,
    (starting (.ofGrants .rendezvous [.multiple, .multiple]) shortBuffer).Records ledger world ∧
    .returned 0 0 (.ok ()) ∈ ledger ∧
    .returned 0 1 (.error (.transport .send (.discarded 1))) ∈ ledger ∧
    ∀ message ∈ [⟨0, 5, [7], some 0⟩, ⟨0, 5, [8, 9], some 1⟩, ⟨0, 6, [1], some 2⟩],
      .queued 1 message ∈ ledger ∧ ∃ ticket, world.Agrees ledger 1 message ticket := by
  let schedule := [0, 1, 1, 0, 0, 1, 1, 0, 0].map (fun rank => Move.mk rank (.main .remote))
  let first := starting (.ofGrants .rendezvous [.multiple, .multiple]) shortBuffer
  let ledger : List Deed := [.queued 1 ⟨0, 5, [7], some 0⟩,
    .received 1 0 5 1 (some ⟨0, 5, [7], some 0⟩) (.ok [7]), .returned 0 0 (.ok ()),
    .queued 1 ⟨0, 5, [8, 9], some 1⟩,
    .received 1 0 5 1 (some ⟨0, 5, [8, 9], some 1⟩) (.error (.transport .receive (.misfit 2 1))),
    .returned 0 1 (.error (.transport .send (.discarded 1))), .queued 1 ⟨0, 6, [1], some 2⟩]
  have hfollow : (first.recorded [] schedule).map Prod.fst = some ledger := by decide +kernel
  obtain ⟨⟨ledger', world⟩, hrecorded, hledger⟩ := Option.map_eq_some_iff.1 hfollow
  have hrecords : first.Records ledger world := by
    rw [← hledger]
    exact Records.start.recorded hrecorded
  refine ⟨ledger, world, hrecords, by simp [ledger], by simp [ledger], fun message hmem => ?_⟩
  have hqueued : .queued 1 message ∈ ledger := by
    simp only [List.mem_cons, List.not_mem_nil, or_false] at hmem
    rcases hmem with rfl | rfl | rfl <;> simp [ledger]
  exact ⟨hqueued, agrees_of_records hrecords hqueued⟩

end World

end RankExchange
