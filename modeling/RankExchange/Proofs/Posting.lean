import RankExchange.Proofs.UnseenChanges
import RankExchange.Proofs.SingleRankRuns

/-!
# Sends in a row

With buffered delivery a rank that sends is never held up.  Its messages are queued
one after the other, up to the first that is refused, and which one that is does not
depend on what the rank does besides.
-/

namespace RankExchange

namespace Group

/-- Why the sends of a rank fail, if they do: the first refusal. -/
def sendFault? (group : Group) (rank : Nat) (posts : List Envelope) : Option Fault :=
  posts.findSome? (group.refusal? rank)

def accepted (group : Group) (rank : Nat) (posts : List Envelope) : List Envelope :=
  posts.takeWhile (fun post => (group.refusal? rank post).isNone)

def sent (group : Group) (rank : Nat) (posts : List Envelope) : Except Fault Unit :=
  match group.sendFault? rank posts with
  | none => .ok ()
  | some fault => .error fault

variable {group group' : Group} {rank : Nat} {post : Envelope} {posts : List Envelope}
  {fault : Fault}

theorem sendFault?_of_refusal (h : group.refusal? rank post = some fault) :
    group.sendFault? rank (post :: posts) = some fault := by
  simp [sendFault?, h]

theorem sendFault?_of_accepted (h : group.refusal? rank post = none) :
    group.sendFault? rank (post :: posts) = group.sendFault? rank posts := by
  simp [sendFault?, h]

theorem accepted_of_refusal (h : group.refusal? rank post = some fault) :
    group.accepted rank (post :: posts) = [] := by
  simp [accepted, h]

theorem accepted_of_accepted (h : group.refusal? rank post = none) :
    group.accepted rank (post :: posts) = post :: group.accepted rank posts := by
  simp [accepted, h]

theorem sent_of_refusal (h : group.refusal? rank post = some fault) :
    group.sent rank (post :: posts) = .error fault := by
  unfold sent
  rw [sendFault?_of_refusal h]

theorem sent_of_accepted (h : group.refusal? rank post = none) :
    group.sent rank (post :: posts) = group.sent rank posts := by
  unfold sent
  rw [sendFault?_of_accepted h]

theorem mem_of_mem_accepted (h : post ∈ group.accepted rank posts) : post ∈ posts :=
  (List.takeWhile_sublist _).subset h

theorem unseen_accepted (hothers : ∀ post ∈ posts, post.peer ≠ rank) (group : Group) :
    Unseen rank (fun now => now.given rank (group.accepted rank posts)) :=
  .given (fun post hpost => hothers post (mem_of_mem_accepted hpost))

theorem Alike.sendFault? (h : group.Alike group') (rank : Nat) (posts : List Envelope) :
    group'.sendFault? rank posts = group.sendFault? rank posts := by
  unfold Group.sendFault?
  rw [funext (h.refusal? rank)]

theorem Alike.accepted (h : group.Alike group') (rank : Nat) (posts : List Envelope) :
    group'.accepted rank posts = group.accepted rank posts := by
  unfold Group.accepted
  rw [funext (h.refusal? rank)]

theorem Alike.sent (h : group.Alike group') (rank : Nat) (posts : List Envelope) :
    group'.sent rank posts = group.sent rank posts := by
  unfold Group.sent
  rw [h.sendFault?]

theorem given_append (group : Group) (rank : Nat) (first second : List Envelope) :
    group.given rank (first ++ second) = (group.given rank first).given rank second :=
  List.foldl_append

theorem SameBut.modify (h : SameBut rank group group') (other : Nat) (f : Member → Member) :
    SameBut rank (group.modify other f) (group'.modify other f) := by
  rw [modify_eq, modify_eq]
  refine ⟨by simpa using h.size, fun third hthird => ?_⟩
  rw [List.getElem?_modify, List.getElem?_modify, h.member third hthird]

theorem SameBut.given (h : SameBut rank group group') (source : Nat) (posts : List Envelope) :
    SameBut rank (group.given source posts) (group'.given source posts) := by
  induction posts generalizing group group' with
  | nil => exact h
  | cons post posts ih => exact ih (h.modify post.peer _)

end Group

/-- What has become of a list of sends: those that are done, those that are still to
come, and the fault that has ended them. -/
structure Posted (group : Group) (rank : Nat) (posts done rest : List Envelope)
    (failure : Option Fault) : Prop where
  accepted : done ++ group.accepted rank rest = group.accepted rank posts
  fault : failure.or (group.sendFault? rank rest) = group.sendFault? rank posts
  halted : failure ≠ none → rest = []

namespace Posted

variable {group : Group} {rank : Nat} {post : Envelope} {posts done rest : List Envelope}
  {failure : Option Fault} {fault : Fault}

theorem start (group : Group) (rank : Nat) (posts : List Envelope) :
    Posted group rank posts [] posts none :=
  ⟨rfl, rfl, fun h => absurd rfl h⟩

theorem failure_eq_none (h : Posted group rank posts done (post :: rest) failure) :
    failure = none := by
  by_contra hfailure
  cases h.halted hfailure

theorem refused (h : Posted group rank posts done (post :: rest) failure)
    (hrefusal : group.refusal? rank post = some fault) :
    Posted group rank posts done [] (some fault) := by
  have haccepted := h.accepted
  have hfault := h.fault
  rw [Group.accepted_of_refusal hrefusal] at haccepted
  rw [h.failure_eq_none, Group.sendFault?_of_refusal hrefusal] at hfault
  exact ⟨haccepted, hfault, fun _ => rfl⟩

theorem next (h : Posted group rank posts done (post :: rest) failure)
    (hrefusal : group.refusal? rank post = none) :
    Posted group rank posts (done ++ [post]) rest failure := by
  have haccepted := h.accepted
  have hfault := h.fault
  rw [Group.accepted_of_accepted hrefusal] at haccepted
  rw [Group.sendFault?_of_accepted hrefusal] at hfault
  refine ⟨?_, hfault, fun hne => absurd h.failure_eq_none hne⟩
  rw [List.append_assoc]
  exact haccepted

theorem done_eq (h : Posted group rank posts done [] failure) :
    done = group.accepted rank posts :=
  (List.append_nil done).symm.trans h.accepted

theorem failure_eq (h : Posted group rank posts done [] failure) :
    failure = group.sendFault? rank posts :=
  Option.or_none.symm.trans h.fault

theorem unseen (h : Posted group rank posts done rest failure)
    (hothers : ∀ post ∈ posts, post.peer ≠ rank) :
    Group.Unseen rank (fun now => now.given rank done) := by
  refine .given (fun post hpost => hothers post ?_)
  exact Group.mem_of_mem_accepted (h.accepted ▸ List.mem_append_left _ hpost)

end Posted

theorem Actor.turn_posts {α : Type} {actor : Actor α} {group : Group} {post : Envelope}
    {posts : List Envelope} (hbuffered : group.delivery = .buffered) (rank : Nat)
    (hposts : actor.posts = post :: posts) (hticket : actor.ticket = none) :
    actor.turn group rank .helper =
      match group.refusal? rank post with
      | some fault => some (group, { actor with posts := [], failure := some fault })
      | none => some (group.push rank post, { actor with posts }) := by
  unfold turn help
  rw [hposts, hticket]
  simp only [Group.enqueue_eq hbuffered]
  cases group.refusal? rank post <;> rfl

namespace World

variable {α : Type} {size rank : Nat} {group : Group}

/-- A helper thread that is left to itself sends all that it can. -/
theorem reaches_helped {actor : Actor α} {posts : List Envelope} (hrank : rank < size)
    (hbuffered : group.delivery = .buffered) (hposts : actor.posts = posts)
    (hticket : actor.ticket = none) (hfailure : actor.failure = none) :
    (solo size group rank actor).Reaches
      (solo size (group.given rank (group.accepted rank posts)) rank
        { actor with posts := [], failure := group.sendFault? rank posts }) := by
  induction posts generalizing group actor with
  | nil =>
      obtain ⟨program, pause, posts, ticket, failure, trail⟩ := actor
      cases hposts
      cases hfailure
      exact .refl _
  | cons post posts ih =>
      have hturn := Actor.turn_posts hbuffered rank hposts hticket
      cases hrefusal : group.refusal? rank post with
      | some fault =>
          rw [hrefusal] at hturn
          rw [Group.accepted_of_refusal hrefusal, Group.sendFault?_of_refusal hrefusal]
          exact .step _ (step_solo hrank hturn) (.refl _)
      | none =>
          rw [hrefusal] at hturn
          -- A message in an inbox changes no later send.
          have halike : group.Alike (group.push rank post) := .modify (fun _ => rfl)
          have hrest : (solo size (group.push rank post) rank { actor with posts }).Reaches _ :=
            ih (halike.delivery.trans hbuffered) rfl hticket hfailure
          rw [halike.accepted, halike.sendFault?] at hrest
          rw [Group.accepted_of_accepted hrefusal, Group.sendFault?_of_accepted hrefusal]
          exact .step _ (step_solo hrank hturn) hrest

theorem leadsTo_dispatch (hrank : rank < size) (hbuffered : group.delivery = .buffered)
    (post : Envelope) (next : Unit → Program α) (older : List Event) :
    let trail := Event.sending post.peer post.tag post.length :: older
    (solo size group rank
        { program := (Endpoint.dispatch post).bind next, trail := older }).LeadsTo
      (match group.refusal? rank post with
        | some fault => solo size group rank { program := .done (.error fault), trail }
        | none => solo size (group.push rank post) rank { program := next (), trail }) rank := by
  intro trail
  let sending : Actor α :=
    { program := .act (.call (.send post.peer post.tag post.payload))
        (fun answer => (Program.done answer).bind next)
      trail }
  have hlog : (solo size group rank
      { program := (Endpoint.dispatch post).bind next, trail := older }).LeadsTo
        (solo size group rank sending) rank :=
    leadsTo_of_advance hrank rfl (fun _ => rfl)
  refine hlog.trans ?_
  cases hrefusal : group.refusal? rank post with
  | some fault =>
      refine leadsTo_of_advance hrank rfl (fun channel => ?_)
      simp only [sending, Actor.advance, Actor.call, Group.enqueue_eq hbuffered, hrefusal]
      rfl
  | none =>
      refine leadsTo_of_advance hrank rfl (fun channel => ?_)
      simp only [sending, Actor.advance, Actor.call, Group.enqueue_eq hbuffered, hrefusal]
      rfl

/-- A main thread that sends everything first comes to the end of its sends. -/
theorem leadsTo_dispatched (hrank : rank < size) (hbuffered : group.delivery = .buffered)
    (rest : Program α) (posts : List Envelope) (older : List Event) : ∃ trail,
    (solo size group rank
        { program := (posts.forM Endpoint.dispatch).bind (fun _ => rest), trail := older }).LeadsTo
      (solo size (group.given rank (group.accepted rank posts)) rank
        { program := (Program.done (group.sent rank posts)).bind (fun _ => rest), trail })
      rank := by
  induction posts generalizing group older with
  | nil => exact ⟨older, .refl _ _⟩
  | cons post posts ih =>
      have hprogram : ((post :: posts).forM Endpoint.dispatch).bind (fun _ => rest) =
          (Endpoint.dispatch post).bind
            (fun _ => (posts.forM Endpoint.dispatch).bind (fun _ => rest)) :=
        Program.bind_assoc _ _ _
      have hleads := leadsTo_dispatch hrank hbuffered post
        (fun _ => (posts.forM Endpoint.dispatch).bind (fun _ => rest)) older
      rw [hprogram]
      cases hrefusal : group.refusal? rank post with
      | some fault =>
          rw [hrefusal] at hleads
          rw [Group.accepted_of_refusal hrefusal, Group.sent_of_refusal hrefusal]
          exact ⟨_, hleads⟩
      | none =>
          rw [hrefusal] at hleads
          have halike : group.Alike (group.push rank post) := .modify (fun _ => rfl)
          obtain ⟨trail, hrest⟩ := ih (halike.delivery.trans hbuffered) _
          rw [halike.accepted, halike.sent] at hrest
          rw [Group.accepted_of_accepted hrefusal, Group.sent_of_accepted hrefusal]
          exact ⟨trail, hleads.trans hrest⟩

theorem concludes_done_iff (hrank : rank < size) {result outcome : Except Fault α}
    {after : Group} {older : List Event} :
    (solo size group rank { program := .done outcome, trail := older }).Concludes rank result
        after ↔ result = outcome ∧ after = group := by
  constructor
  · rintro ⟨last, hreaches, hresult, rfl⟩
    cases hreaches with
    | refl =>
        rw [result?_solo hrank] at hresult
        exact ⟨(Option.some.inj hresult).symm, rfl⟩
    | step move hstep =>
        obtain ⟨_, _, hturn, _⟩ := exists_turn_of_step hrank hstep
        cases hthread : move.thread <;> rw [hthread] at hturn <;> cases hturn
  · rintro ⟨rfl, rfl⟩
    exact ⟨_, .refl _, result?_solo hrank, rfl⟩

/-- Sends on their own end in one way. -/
theorem concludes_dispatched_iff (hrank : rank < size) (hbuffered : group.delivery = .buffered)
    {posts : List Envelope} {result : Except Fault Unit} {after : Group} :
    (solo size group rank { program := posts.forM Endpoint.dispatch }).Concludes rank result
        after ↔
      result = group.sent rank posts ∧ after = group.given rank (group.accepted rank posts) := by
  obtain ⟨trail, hleads⟩ :=
    leadsTo_dispatched hrank hbuffered (.done (.ok ()) : Program Unit) posts []
  have hsends : (posts.forM Endpoint.dispatch).bind (fun _ => .done (.ok ())) =
    posts.forM Endpoint.dispatch := Program.bind_pure _
  have hsent : (Program.done (group.sent rank posts)).bind (fun _ => .done (.ok ())) =
    .done (group.sent rank posts) := Program.bind_pure _
  rw [hsends, hsent] at hleads
  exact (hleads.concludes result after).trans (concludes_done_iff hrank)

end World

end RankExchange
