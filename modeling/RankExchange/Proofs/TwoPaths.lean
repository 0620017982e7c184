import RankExchange.Proofs.AllOrNothing
import RankExchange.Proofs.Draining
import RankExchange.Proofs.Posting

/-!
# Beside and in turn

With buffered delivery a round comes to the same whether a helper thread sends while
the main thread receives or everything is sent first.  The receiving half takes the
same steps on its own, beside the helper and after the sends, since messages to
others are out of its sight.
-/

namespace RankExchange

namespace Program

variable {α : Type}

/-- Receives, and awaits the helper thread afterwards. -/
def joining (program : Program α) : Program α :=
  program.attempt.bind (fun received =>
    join.attempt.bind (fun sent => .done (Endpoint.settled sent received)))

theorem transparent_joining : Transparent (joining : Program α → Program α) :=
  ⟨fun _ _ => rfl⟩

theorem joining_done (received : Except Fault α) : (Program.done received).joining =
    .act .join (fun answer => .done (Endpoint.settled answer received)) := rfl

end Program

theorem Endpoint.exchangeInTurn_eq (endpoint : Endpoint) (round : Round) (posts : List Envelope) :
    endpoint.exchangeInTurn round posts =
      (posts.forM dispatch).bind (fun _ => endpoint.receiveAll round) := rfl

namespace World

variable {α : Type} {size rank : Nat} {group reached : Group} {drain : Program α}
  {core : Actor α}

/-- The points of a round with a helper thread: the main thread drains while the
helper sends, or both have come to their ends. -/
inductive Beside (size : Nat) (group : Group) (rank : Nat) (drain : Program α)
    (posts : List Envelope) (now : Group) (actor : Actor α) : Prop
  | hosting (reached : Group) (core : Actor α) (done rest : List Envelope)
      (failure : Option Fault) (hdrained : Drained size group rank drain reached core)
      (hposted : Posted group rank posts done rest failure)
      (hnow : now = reached.given rank done)
      (hactor : actor = core.host Program.joining rest failure [])
  | ended (reached : Group) (received : Except Fault α)
      (hconcludes : (solo size group rank { program := drain }).Concludes rank received reached)
      (hnow : now = reached.given rank (group.accepted rank posts))
      (hresult : actor.result? = some (Endpoint.settled (group.sent rank posts) received))
      (hposts : actor.posts = [])

theorem outcome_of_failure {actor : Actor α} (posts : List Envelope)
    (h : actor.failure = group.sendFault? rank posts) :
    actor.outcome = group.sent rank posts := by
  unfold Actor.outcome Group.sent
  cases hfault : group.sendFault? rank posts <;> simp only [h, hfault]

namespace Beside

variable {posts done rest : List Envelope} {failure : Option Fault} {now now' : Group}
  {actor actor' : Actor α} {received : Except Fault α} {channel : Channel} {older : List Event}

theorem advance_joining (hreceived : core.result? = some received) :
    (core.host Program.joining rest failure older).advance now rank channel =
      if rest.isEmpty then
        let outcome := (core.host Program.joining rest failure older).outcome
        let program := .done (Endpoint.settled outcome received)
        some (now, { program, posts := rest, trail := core.trail ++ older })
      else none := by
  unfold Actor.advance
  simp only [Actor.host, Actor.program_of_result hreceived, Program.joining_done]
  rfl

theorem advance_joined (hreceived : core.result? = some received) :
    (core.host Program.joining [] (group.sendFault? rank posts) older).advance now rank channel =
      some (now, { program := .done (Endpoint.settled (group.sent rank posts) received)
                   trail := core.trail ++ older }) := by
  rw [advance_joining hreceived, outcome_of_failure posts rfl]
  rfl

theorem result?_joining : (core.host Program.joining rest failure older).result? = none := by
  unfold Actor.host Actor.result?
  cases core.program <;> rfl

theorem of_advance (hrank : rank < size) (hlistens : drain.Listens)
    (hunseen : Group.Unseen rank (fun group => group.given rank done))
    (hdrained : Drained size group rank drain reached core)
    (hposted : Posted group rank posts done rest failure)
    (h : (core.host Program.joining rest failure []).advance (reached.given rank done) rank
      channel = some (now', actor')) :
    Beside size group rank drain posts now' actor' := by
  cases hresult : core.result? with
  | none =>
      obtain ⟨reached', core', hdrained', hnow, hactor⟩ :=
        hdrained.of_advance_host hrank Program.transparent_joining hunseen hresult h
      exact .hosting reached' core' done rest failure hdrained' hposted hnow hactor
  | some received =>
      -- The main thread is at its join, where it waits until nothing is left to send.
      cases rest with
      | cons post rest =>
          rw [advance_joining hresult] at h
          cases h
      | nil =>
          rw [hposted.failure_eq, advance_joined hresult] at h
          cases h
          have hconcludes := (concludes_iff_drained hrank hlistens).2 ⟨core, hdrained, hresult⟩
          exact .ended reached received hconcludes (by rw [hposted.done_eq]) rfl rfl

theorem of_help (hbuffered : group.delivery = .buffered)
    (hunseen : Group.Unseen rank (fun group => group.given rank done))
    (hdrained : Drained size group rank drain reached core)
    (hposted : Posted group rank posts done rest failure)
    (h : (core.host Program.joining rest failure []).turn (reached.given rank done) rank
      .helper = some (now', actor')) :
    Beside size group rank drain posts now' actor' := by
  have halike : group.Alike (reached.given rank done) :=
    hdrained.alike.trans (hunseen.alike reached)
  cases rest with
  | nil => cases h
  | cons post rest =>
      rw [Actor.turn_posts (halike.delivery.trans hbuffered) rank rfl rfl, halike.refusal?] at h
      cases hrefusal : group.refusal? rank post with
      | some fault =>
          rw [hrefusal] at h
          cases h
          exact .hosting reached core done [] (some fault) hdrained
            (hposted.refused hrefusal) rfl rfl
      | none =>
          rw [hrefusal] at h
          cases h
          refine .hosting reached core (done ++ [post]) rest failure hdrained
            (hposted.next hrefusal) ?_ rfl
          rw [Group.given_append]
          rfl

theorem turn (hrank : rank < size) (hlistens : drain.Listens)
    (hbuffered : group.delivery = .buffered) (hothers : ∀ post ∈ posts, post.peer ≠ rank)
    {thread : Thread} (h : Beside size group rank drain posts now actor)
    (hturn : actor.turn now rank thread = some (now', actor')) :
    Beside size group rank drain posts now' actor' := by
  cases h with
  | hosting reached core done rest failure hdrained hposted hnow hactor =>
      have hunseen := hposted.unseen hothers
      subst hnow hactor
      cases thread with
      | main channel => exact of_advance hrank hlistens hunseen hdrained hposted hturn
      | helper => exact of_help hbuffered hunseen hdrained hposted hturn
  | ended reached received hconcludes hnow hresult hposts =>
      cases thread with
      | main channel =>
          have hadvance : actor.advance now rank channel = some (now', actor') := hturn
          rw [Actor.advance_of_result hresult] at hadvance
          cases hadvance
      | helper =>
          rw [Actor.turn_helper hposts] at hturn
          cases hturn

theorem result_or_turn (hrank : rank < size)
    (hfinishes : (solo size group rank { program := drain }).Finishes)
    (hbuffered : group.delivery = .buffered) (hothers : ∀ post ∈ posts, post.peer ≠ rank)
    (h : Beside size group rank drain posts now actor) :
    actor.result?.isSome = true ∨ ∃ thread, (actor.turn now rank thread).isSome = true := by
  cases h with
  | ended reached received hconcludes hnow hresult hposts =>
      rw [hresult]
      exact .inl rfl
  | hosting reached core done rest failure hdrained hposted hnow hactor =>
      have hunseen := hposted.unseen hothers
      have halike : group.Alike (reached.given rank done) :=
        hdrained.alike.trans (hunseen.alike reached)
      subst hnow hactor
      right
      cases hresult : core.result? with
      | none =>
          obtain ⟨channel, hturn⟩ := hdrained.exists_advance_host hrank hfinishes
            Program.transparent_joining hunseen hresult rest failure []
          exact ⟨.main channel, hturn⟩
      | some received =>
          cases rest with
          | nil =>
              refine ⟨.main .remote, ?_⟩
              unfold Actor.turn
              simp only [advance_joining hresult]
              rfl
          | cons post rest =>
              refine ⟨.helper, ?_⟩
              rw [Actor.turn_posts (halike.delivery.trans hbuffered) rank rfl rfl]
              cases (reached.given rank done).refusal? rank post <;> rfl

theorem of_reaches (hrank : rank < size) (hlistens : drain.Listens)
    (hbuffered : group.delivery = .buffered) (hothers : ∀ post ∈ posts, post.peer ≠ rank)
    {last : World α}
    (h : (solo size group rank { program := drain.joining, posts }).Reaches last) :
    ∃ now actor, last = solo size now rank actor ∧ Beside size group rank drain posts now actor :=
  exists_solo_of_reaches hrank
    (fun _ _ _ _ _ hbeside hturn => hbeside.turn hrank hlistens hbuffered hothers hturn)
    (.hosting group { program := drain } [] posts none (.start hlistens) (.start group rank posts)
      rfl rfl) h

end Beside

section Paths

variable {posts : List Envelope} {result : Except Fault α} {after : Group} {older : List Event}

/-- The two threads come to what the sends and the drain come to on their own. -/
theorem concludes_joining_iff (hrank : rank < size) (hlistens : drain.Listens)
    (hbuffered : group.delivery = .buffered) (hothers : ∀ post ∈ posts, post.peer ≠ rank) :
    (solo size group rank { program := drain.joining, posts }).Concludes rank result after ↔
      ∃ received reached,
        (solo size group rank { program := drain }).Concludes rank received reached ∧
        result = Endpoint.settled (group.sent rank posts) received ∧
        after = reached.given rank (group.accepted rank posts) := by
  have hunseen := Group.unseen_accepted hothers group
  constructor
  · rintro ⟨last, hreaches, hresult, rfl⟩
    obtain ⟨now, actor, rfl, hbeside⟩ :=
      Beside.of_reaches hrank hlistens hbuffered hothers hreaches
    rw [result?_solo hrank] at hresult
    cases hbeside with
    | hosting reached core done rest failure hdrained hposted hnow hactor =>
        rw [hactor, Beside.result?_joining] at hresult
        cases hresult
    | ended reached received hconcludes hnow hsettled hposts =>
        rw [hsettled] at hresult
        exact ⟨received, reached, hconcludes, (Option.some.inj hresult).symm, hnow⟩
  · rintro ⟨received, reached, hconcludes, rfl, rfl⟩
    obtain ⟨core, hdrained, hresult⟩ := (concludes_iff_drained hrank hlistens).1 hconcludes
    let start : Actor α := { program := drain.joining, posts }
    have hsends : (solo size group rank start).Reaches
        (solo size (group.given rank (group.accepted rank posts)) rank
          (({ program := drain } : Actor α).host Program.joining []
            (group.sendFault? rank posts) [])) :=
      reaches_helped hrank hbuffered rfl rfl rfl
    have hdrains := hdrained.reaches_host hrank hlistens Program.transparent_joining hunseen hsends
    have hjoin : (core.host Program.joining [] (group.sendFault? rank posts) []).turn
        (reached.given rank (group.accepted rank posts)) rank (.main .remote) = some _ :=
      Beside.advance_joined hresult
    exact ⟨_, hdrains.turn hrank hjoin, result?_solo hrank, rfl⟩

theorem finishes_joining (hrank : rank < size) (hlistens : drain.Listens)
    (hbuffered : group.delivery = .buffered) (hothers : ∀ post ∈ posts, post.peer ≠ rank)
    (hfinishes : (solo size group rank { program := drain }).Finishes) :
    (solo size group rank { program := drain.joining, posts }).Finishes := by
  refine finishes_of_reaches (fun last hreaches => ?_)
  obtain ⟨now, actor, rfl, hbeside⟩ :=
    Beside.of_reaches hrank hlistens hbuffered hothers hreaches
  rcases hbeside.result_or_turn hrank hfinishes hbuffered hothers with hresult | ⟨thread, hturn⟩
  · exact .inl ((isDone_solo hrank).2 hresult)
  · exact .inr (moves_of_turn hrank hturn)

theorem concludes_draining_iff (hrank : rank < size) (hlistens : drain.Listens)
    (hbuffered : group.delivery = .buffered) (hothers : ∀ post ∈ posts, post.peer ≠ rank)
    (hsent : group.sent rank posts = .ok ()) :
    (solo size group rank
        { program := (posts.forM Endpoint.dispatch).bind (fun _ => drain) }).Concludes rank result
        after ↔
      ∃ reached, (solo size group rank { program := drain }).Concludes rank result reached ∧
        after = reached.given rank (group.accepted rank posts) := by
  have hunseen := Group.unseen_accepted hothers group
  obtain ⟨trail, hleads⟩ := leadsTo_dispatched hrank hbuffered drain posts []
  rw [hsent] at hleads
  exact (hleads.concludes result after).trans (concludes_unseen_iff hrank hunseen hlistens)

theorem concludes_failing_iff (hrank : rank < size) (hbuffered : group.delivery = .buffered)
    {fault : Fault} (hsent : group.sent rank posts = .error fault) :
    (solo size group rank
        { program := (posts.forM Endpoint.dispatch).bind (fun _ => drain) }).Concludes rank result
        after ↔
      result = .error fault ∧ after = group.given rank (group.accepted rank posts) := by
  obtain ⟨trail, hleads⟩ := leadsTo_dispatched hrank hbuffered drain posts []
  rw [hsent] at hleads
  exact (hleads.concludes result after).trans (concludes_done_iff hrank)

theorem finishes_draining (hrank : rank < size) (hlistens : drain.Listens)
    (hbuffered : group.delivery = .buffered) (hothers : ∀ post ∈ posts, post.peer ≠ rank)
    (hfinishes : (solo size group rank { program := drain }).Finishes) :
    (solo size group rank
      { program := (posts.forM Endpoint.dispatch).bind (fun _ => drain) }).Finishes := by
  have hunseen := Group.unseen_accepted hothers group
  obtain ⟨trail, hleads⟩ := leadsTo_dispatched hrank hbuffered drain posts []
  apply hleads.finishes
  cases group.sent rank posts with
  | ok => exact finishes_unseen hrank hunseen hlistens hfinishes
  | error fault => exact .done ((isDone_solo hrank).2 rfl)

theorem leadsTo_spawned (hrank : rank < size) (group : Group) (endpoint : Endpoint)
    (round : Round) (posts : List Envelope) :
    (solo size group rank { program := endpoint.exchangeBeside round posts }).LeadsTo
      (solo size group rank { program := (endpoint.receiveAll round).joining, posts }) rank :=
  leadsTo_of_advance hrank rfl (fun _ => rfl)

/-- In the failing case the main thread may still receive what is for it, but the other
ranks get what the sends deliver. -/
theorem settled_of_concludes (hrank : rank < size) (hlistens : drain.Listens) {fault : Fault}
    {reached : Group} {received : Except Fault α}
    (h : (solo size group rank { program := drain }).Concludes rank received reached)
    (posts : List Envelope) :
    Endpoint.settled (.error fault) received = .error fault ∧ ∀ other, other ≠ rank →
      (reached.given rank posts).members[other]? = (group.given rank posts).members[other]? := by
  obtain ⟨core, hdrained, hreceived⟩ := (concludes_iff_drained hrank hlistens).1 h
  have hroom : received ≠ .error .noRoom := by
    have hdone := hdrained.listens
    rw [Actor.program_of_result hreceived] at hdone
    cases hdone with
    | done h => exact h
  refine ⟨?_, (hdrained.sameBut.given rank posts).member⟩
  rcases Endpoint.settled_error fault received with h | ⟨h, _⟩
  · exact h
  · exact absurd h hroom

end Paths

/-- With buffered delivery, a round whose messages are there comes to the same whether
its helper thread sends while its main thread receives or everything is sent first: to
the same results with the same messages left in all inboxes if the sends succeed, and
else to the fault of the sends, with the other ranks having got what the sends deliver. -/
theorem twoPaths_agree {endpoint : Endpoint} {peers : RankSet} {tag : Tag}
    {outgoing : RankMap Bytes} (hrank : rank < group.size)
    (hbuffered : group.delivery = .buffered) (hown : ¬ rank ∈ outgoing.keys)
    (hdrain : (assign group [(rank, endpoint.receiveAll ⟨tag, peers⟩)]).Finishes) :
    let posts := outgoingPosts tag outgoing
    let sends := assign group [(rank, posts.forM Endpoint.dispatch)]
    let beside := assign group [(rank, endpoint.exchangeBeside ⟨tag, peers⟩ posts)]
    let inTurn := assign group [(rank, endpoint.exchangeInTurn ⟨tag, peers⟩ posts)]
    beside.Finishes ∧ inTurn.Finishes ∧
      ∃ sent delivered,
        (∀ result after, sends.Concludes rank result after ↔ result = sent ∧ after = delivered) ∧
        (sent = .ok () → ∀ result after,
          beside.Concludes rank result after ↔ inTurn.Concludes rank result after) ∧
        ∀ fault, sent = .error fault → ∀ result after,
          beside.Concludes rank result after ∨ inTurn.Concludes rank result after →
            result = .error fault ∧ ∀ other, other ≠ rank →
              after.members[other]? = delivered.members[other]? := by
  intro posts sends beside inTurn
  have hothers : ∀ post ∈ posts, post.peer ≠ rank := by
    intro post hpost heq
    obtain ⟨⟨peer, payload⟩, hentry, rfl⟩ := List.mem_map.1 hpost
    have hkey : peer ∈ outgoing.keys := RankSet.mem_def.2 (List.mem_map_of_mem hentry)
    exact hown (heq ▸ hkey)
  have hlistens := endpoint.listens_receiveAll ⟨tag, peers⟩
  rw [assign_singleton] at hdrain
  have hspawned := leadsTo_spawned hrank group endpoint ⟨tag, peers⟩ posts
  simp only [sends, beside, inTurn, assign_singleton, Endpoint.exchangeInTurn_eq]
  refine ⟨hspawned.finishes (finishes_joining hrank hlistens hbuffered hothers hdrain),
    finishes_draining hrank hlistens hbuffered hothers hdrain, group.sent rank posts,
    group.given rank (group.accepted rank posts),
    fun result after => concludes_dispatched_iff hrank hbuffered, ?_, ?_⟩
  · intro hsent result after
    rw [hspawned.concludes, concludes_joining_iff hrank hlistens hbuffered hothers,
      concludes_draining_iff hrank hlistens hbuffered hothers hsent, hsent]
    constructor
    · rintro ⟨received, reached, hconcludes, rfl, hafter⟩
      rw [Endpoint.settled_ok]
      exact ⟨reached, hconcludes, hafter⟩
    · rintro ⟨reached, hconcludes, hafter⟩
      exact ⟨result, reached, hconcludes, (Endpoint.settled_ok result).symm, hafter⟩
  · rintro fault hsent result after (hbeside | hinTurn)
    · rw [hspawned.concludes, concludes_joining_iff hrank hlistens hbuffered hothers, hsent]
        at hbeside
      obtain ⟨received, reached, hconcludes, rfl, rfl⟩ := hbeside
      exact settled_of_concludes hrank hlistens hconcludes _
    · obtain ⟨rfl, rfl⟩ := (concludes_failing_iff hrank hbuffered hsent).1 hinTurn
      exact ⟨rfl, fun _ _ => rfl⟩

/-- Rank 1 waits for a message and has sent its own, and rank 2 has left. -/
def departedRank : Group :=
  ((Group.ofGrants .buffered (List.replicate 3 .multiple)).leave 2).putInbox 0
    { parked := [⟨2, 5, [8], none⟩], remote := [⟨1, 4, [7], none⟩] }

/-- Rank 1 gets its message before the send to rank 2 fails, on either path. -/
theorem twoPaths_agree_of_departedRank :
    let endpoint : Endpoint := {}
    let round : Round := ⟨4, ⟨[1], by decide⟩⟩
    let posts : List Envelope := [⟨1, 4, [5]⟩, ⟨2, 4, [6]⟩]
    (assign departedRank [(0, endpoint.receiveAll round)]).Finishes ∧
      ∀ result after,
        (assign departedRank [(0, endpoint.exchangeBeside round posts)]).Concludes 0 result after ∨
            (assign departedRank
              [(0, endpoint.exchangeInTurn round posts)]).Concludes 0 result after →
          result = .error (.transport .send (.departed 2)) ∧
            after.members[1]?.map (fun member => member.inbox.waiting.map Message.payload) =
              some [[5]] := by
  intro endpoint round posts
  have hdrain : (assign departedRank [(0, endpoint.receiveAll round)]).Finishes :=
    finishes_of_finishesWithin 12 (by decide +kernel)
  let outgoing : RankMap Bytes := ⟨[(1, [5]), (2, [6])], by decide⟩
  have hown : ¬ 0 ∈ outgoing.keys := by decide
  obtain ⟨-, -, sent, delivered, hsends, -, hfault⟩ :=
    twoPaths_agree (by decide : 0 < departedRank.size) rfl hown hdrain
  have hfollow : ((assign departedRank [(0, posts.forM Endpoint.dispatch)]).follow
      (List.replicate 4 ⟨0, .main .remote⟩)).map (fun last => (last.result? 0,
        last.group.members[1]?.map (fun member => member.inbox.waiting.map Message.payload))) =
      some (some (.error (.transport .send (.departed 2))), some [[5]]) := by
    rfl
  obtain ⟨last, hlast, heq⟩ := Option.map_eq_some_iff.1 hfollow
  obtain ⟨hresult, hinbox⟩ := Prod.mk.inj heq
  obtain ⟨rfl, rfl⟩ := (hsends _ last.group).1
    ⟨last, reaches_iff_follow.2 ⟨_, hlast⟩, hresult, rfl⟩
  refine ⟨hdrain, fun result after hconcludes => ?_⟩
  obtain ⟨hresult, hothers⟩ := hfault _ rfl result after hconcludes
  rw [hothers 1 (by decide)]
  exact ⟨hresult, hinbox⟩

end World

end RankExchange