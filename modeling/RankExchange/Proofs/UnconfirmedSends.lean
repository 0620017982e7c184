import RankExchange.Proofs.LaneAccounts

/-!
# Sends that wait for a receipt

With rendezvous delivery a rank has at most one message under way: whichever of
its threads has queued it waits for the receipt before it goes on.  With
buffered delivery there are no tickets at all.
-/

namespace RankExchange

namespace Actor

variable {α : Type} {actor actor' : Actor α}

/-- The message that the helper thread has queued, with its ticket. -/
def posted (actor : Actor α) : Option (Envelope × Nat) :=
  actor.ticket.bind (fun ticket => actor.posts.head?.map (fun post => (post, ticket)))

/-- The message that a rank has queued and whose receipt one of its threads waits
for. -/
def unconfirmed (actor : Actor α) : Option (Envelope × Nat) :=
  match actor.pause, actor.program with
  | .sending ticket, .act (.call (.send dest tag payload)) _ => some (⟨dest, tag, payload⟩, ticket)
  | _, _ => actor.posted

theorem unconfirmed_of_ready (h : actor.pause.isSending = false) :
    actor.unconfirmed = actor.posted := by
  unfold unconfirmed
  split
  · next hpause _ =>
      rw [hpause] at h
      cases h
  · rfl

theorem unconfirmed_of_sending {post : Envelope} {ticket : Nat}
    {next : (Action.call (.send post.peer post.tag post.payload)).Answer → Program α}
    (hpause : actor.pause = .sending ticket)
    (hprogram : actor.program = .act (.call (.send post.peer post.tag post.payload)) next) :
    actor.unconfirmed = some (post, ticket) := by
  unfold unconfirmed
  rw [hpause, hprogram]

theorem posted_of_idle (h : actor.ticket = none) : actor.posted = none := by
  simp [posted, h]

theorem posted_of_cons {ticket : Nat} {post : Envelope} {posts : List Envelope}
    (hticket : actor.ticket = some ticket) (hposts : actor.posts = post :: posts) :
    actor.posted = some (post, ticket) := by
  simp [posted, hticket, hposts]

theorem posted_congr (hposts : actor'.posts = actor.posts)
    (hticket : actor'.ticket = actor.ticket) : actor'.posted = actor.posted := by
  unfold posted
  rw [hposts, hticket]

theorem unconfirmed_congr (hready : actor.pause.isSending = false)
    (hready' : actor'.pause.isSending = false) (hposts : actor'.posts = actor.posts)
    (hticket : actor'.ticket = actor.ticket) : actor'.unconfirmed = actor.unconfirmed := by
  rw [unconfirmed_of_ready hready, unconfirmed_of_ready hready', posted_congr hposts hticket]

theorem posted_of_posted {post : Envelope} {posts : List Envelope} {ticket : Option Nat}
    (hticket : actor.ticket = ticket)
    (hposts : actor.posts = if ticket = none then posts else post :: posts) :
    actor.posted = ticket.map (fun ticket => (post, ticket)) := by
  cases ticket with
  | none => exact posted_of_idle hticket
  | some ticket => exact posted_of_cons hticket (by rw [hposts]; rfl)

variable {Rest : Bool → Program α → Script → Prop} {position : Position}

theorem FollowsScript.unconfirmed_eq_none (h : actor.FollowsScript Rest position)
    (hposts : actor.posts = [])
    (hready : actor.pause.isSending = false) : actor.unconfirmed = none := by
  rw [unconfirmed_of_ready hready]
  exact posted_of_idle (h.posts hposts)

theorem FollowsScript.unconfirmed_of_send {time ticket : Nat} {post : Envelope} {script : Script}
    (h : actor.FollowsScript Rest position) (hscript : position.script = .send time post :: script)
    (hpause : actor.pause = .sending ticket) : actor.unconfirmed = some (post, ticket) := by
  obtain ⟨_, _, _, _, hscript', hprogram, _⟩ := h.paused (by rw [hpause]; rfl)
  rw [hscript] at hscript'
  cases hscript'
  exact unconfirmed_of_sending hpause hprogram

end Actor

/-- No message of a rank waits anywhere on the used tags. -/
def Group.Cleared (used : Tag → Prop) (group : Group) (rank : Nat) : Prop :=
  ∀ dest tag, used tag → group.lane dest rank tag = []

/-- What a rank has under way. -/
inductive SendStatus (used : Tag → Prop) (group : Group) (rank : Nat)
    (unconfirmed : Option (Envelope × Nat)) : Prop
  | idle (hunconfirmed : unconfirmed = none) (hcleared : group.Cleared used rank)
  | taken (post : Envelope) (ticket : Nat) (hunconfirmed : unconfirmed = some (post, ticket))
      (hreceipt : group.receipts.get? ticket = some .taken) (hcleared : group.Cleared used rank)
  | waiting (post : Envelope) (ticket : Nat) (hunconfirmed : unconfirmed = some (post, ticket))
      (hreceipt : group.receipts.get? ticket = some .waiting) (hused : used post.tag)
      (hlane : group.lane post.peer rank post.tag =
        [⟨rank, post.tag, post.payload, some ticket⟩])
      (hothers : ∀ dest tag, used tag → ¬ (dest = post.peer ∧ tag = post.tag) →
        group.lane dest rank tag = [])

namespace SendStatus

variable {used : Tag → Prop} {group group' : Group} {rank ticket : Nat} {post : Envelope}
  {unconfirmed : Option (Envelope × Nat)}

theorem issued (h : SendStatus used group rank (some (post, ticket))) :
    ticket < group.receipts.issued := by
  have hsome : group.receipts.get? ticket ≠ none := by
    cases h with
    | idle hnone => cases hnone
    | taken _ _ heq hreceipt =>
        cases heq
        simp [hreceipt]
    | waiting _ _ heq hreceipt =>
        cases heq
        simp [hreceipt]
  exact Nat.lt_of_not_le (fun hle => hsome (Receipts.get?_eq_none_iff.2 hle))

theorem cleared (h : SendStatus used group rank none) : group.Cleared used rank := by
  cases h with
  | idle _ hcleared => exact hcleared
  | taken _ _ hsome => cases hsome
  | waiting _ _ hsome => cases hsome

theorem congr (h : SendStatus used group rank unconfirmed)
    (hlanes : ∀ dest tag, used tag → group'.lane dest rank tag = group.lane dest rank tag)
    (hreceipts : ∀ post ticket, unconfirmed = some (post, ticket) →
      group'.receipts.get? ticket = group.receipts.get? ticket) :
    SendStatus used group' rank unconfirmed := by
  have hclear : group.Cleared used rank → group'.Cleared used rank := by
    intro hcleared dest tag hused
    rw [hlanes dest tag hused]
    exact hcleared dest tag hused
  cases h with
  | idle hnone hcleared => exact .idle hnone (hclear hcleared)
  | taken post ticket hsome hreceipt hcleared =>
      exact .taken post ticket hsome ((hreceipts post ticket hsome).trans hreceipt)
        (hclear hcleared)
  | waiting post ticket hsome hreceipt hused hlane hothers =>
      refine .waiting post ticket hsome ((hreceipts post ticket hsome).trans hreceipt) hused ?_ ?_
      · rw [hlanes post.peer post.tag hused]
        exact hlane
      · intro dest tag hused' hne
        rw [hlanes dest tag hused']
        exact hothers dest tag hused' hne

/-- The message at the head of a lane is the one that its sender waits for. -/
theorem of_mem_lane (h : SendStatus used group rank unconfirmed) {dest : Nat} {tag : Tag}
    {message : Message} (hused : used tag) (hmessage : message ∈ group.lane dest rank tag) :
    ∃ ticket, unconfirmed = some (⟨dest, tag, message.payload⟩, ticket) ∧
      group.receipts.get? ticket = some .waiting ∧ message.ticket = some ticket ∧
      group.lane dest rank tag = [message] ∧
      ∀ dest' tag', used tag' → ¬ (dest' = dest ∧ tag' = tag) →
        group.lane dest' rank tag' = [] := by
  cases h with
  | idle _ hcleared =>
      rw [hcleared dest tag hused] at hmessage
      cases hmessage
  | taken _ _ _ _ hcleared =>
      rw [hcleared dest tag hused] at hmessage
      cases hmessage
  | waiting post ticket hunconfirmed hreceipt _ hlane hothers =>
      by_cases heq : dest = post.peer ∧ tag = post.tag
      · obtain ⟨rfl, rfl⟩ := heq
        rw [hlane] at hmessage
        have hmessage' := List.mem_singleton.1 hmessage
        subst hmessage'
        exact ⟨ticket, hunconfirmed, hreceipt, rfl, hlane, hothers⟩
      · rw [hothers dest tag hused heq] at hmessage
        cases hmessage

/-- A rank whose message is confirmed has nothing under way. -/
theorem cleared_of_confirmed (h : SendStatus used group rank (some (post, ticket))) {dest : Nat}
    (hconfirmed : group.confirmation dest ticket = some (.ok ())) : group.Cleared used rank := by
  cases h with
  | idle hnone => cases hnone
  | taken _ _ _ _ hcleared => exact hcleared
  | waiting _ _ hsome hreceipt =>
      cases hsome
      unfold Group.confirmation at hconfirmed
      rw [hreceipt] at hconfirmed
      cases hconfirmed

end SendStatus

/-- All ranks wait for receipts of their own, if there are any. -/
structure World.TracksSends {α : Type} (used : Tag → Prop) (world : World α) : Prop where
  buffered : world.group.delivery = .buffered →
    ∀ (rank : Nat) (actor : Actor α), world.actors[rank]? = some actor → actor.unconfirmed = none
  status : world.group.delivery = .rendezvous →
    ∀ (rank : Nat) (actor : Actor α), world.actors[rank]? = some actor →
      SendStatus used world.group rank actor.unconfirmed
  distinct : ∀ (rank other : Nat) (actor actor' : Actor α) (post post' : Envelope)
    (ticket : Nat), rank ≠ other → world.actors[rank]? = some actor →
    world.actors[other]? = some actor' → actor.unconfirmed = some (post, ticket) →
    actor'.unconfirmed ≠ some (post', ticket)

namespace Group

variable {used : Tag → Prop} {group group' : Group} {rank : Nat}

theorem receipts_putInbox (group : Group) (rank : Nat) (inbox : Inbox) :
    (group.putInbox rank inbox).receipts = group.receipts := by
  unfold putInbox modify
  split <;> rfl

theorem delivery_putInbox (group : Group) (rank : Nat) (inbox : Inbox) :
    (group.putInbox rank inbox).delivery = group.delivery := by
  unfold putInbox modify
  split <;> rfl

theorem delivery_receive (group : Group) (rank : Nat) (wanted : Wanted) (message : Message)
    (length : Nat) : (group.receive rank wanted message length).2.delivery = group.delivery := by
  have hsettle : ∀ (group : Group) ticket receipt,
      (group.settle ticket receipt).delivery = group.delivery := by
    intro group ticket receipt
    cases ticket <;> rfl
  have hmodify : ∀ f, (group.modify rank f).delivery = group.delivery := by
    intro f
    unfold modify
    split <;> rfl
  unfold receive
  split <;> rw [hsettle, hmodify]

theorem receipts_receive (group : Group) (rank : Nat) (wanted : Wanted) {message : Message}
    {ticket : Nat} (h : message.ticket = some ticket) :
    (group.receive rank wanted message message.payload.length).2.receipts =
      group.receipts.put ticket .taken := by
  have hmodify : ∀ f, (group.modify rank f).receipts = group.receipts := by
    intro f
    unfold modify
    split <;> rfl
  unfold receive
  rw [dif_pos rfl, h]
  simp only [settle, hmodify]

end Group

theorem ScriptStep.delivery {α : Type} {Rest : Bool → Program α → Script → Prop}
    {actor actor' : Actor α} {group group' : Group} {rank : Nat} {position position' : Position}
    (h : ScriptStep Rest group rank actor position group' actor' position')
    (hstep : position'.inStep = true) :
    group'.delivery = group.delivery := by
  cases h with
  | steady => rfl
  | sends _ _ _ henqueue =>
      obtain ⟨_, _, _, _, hdelivery, _⟩ := Group.enqueue_eq_ok henqueue
      exact hdelivery
  | offers _ _ _ henqueue =>
      obtain ⟨_, _, _, _, hdelivery, _⟩ := Group.enqueue_eq_ok henqueue
      exact hdelivery
  | resumes => rfl
  | spawns => rfl
  | joins => rfl
  | parks => exact Group.delivery_putInbox _ _ _
  | finds => rfl
  | takes => exact Group.delivery_receive _ _ _ _ _
  | wanders => cases hstep
  | posts _ _ henqueue =>
      obtain ⟨_, _, _, _, hdelivery, _⟩ := Group.enqueue_eq_ok henqueue
      exact hdelivery
  | confirmed => rfl

namespace World.TracksSends

variable {α : Type} {used : Tag → Prop} {world : World α} {group' : Group} {rank : Nat}
  {actor actor' : Actor α}

theorem cleared_of_idle (h : world.TracksSends used) (hactor : world.actors[rank]? = some actor)
    (hidle : actor.unconfirmed = none) (hrendezvous : world.group.delivery = .rendezvous) :
    world.group.Cleared used rank := by
  have hstatus := h.status hrendezvous rank actor hactor
  rw [hidle] at hstatus
  exact hstatus.cleared

theorem cleared_of_unconfirmed (h : world.TracksSends used)
    (hactor : world.actors[rank]? = some actor)
    {post : Envelope} {ticket dest : Nat} (hunconfirmed : actor.unconfirmed = some (post, ticket))
    (hconfirmed : world.group.confirmation dest ticket = some (.ok ()))
    (hrendezvous : world.group.delivery = .rendezvous) : world.group.Cleared used rank := by
  have hstatus := h.status hrendezvous rank actor hactor
  rw [hunconfirmed] at hstatus
  exact hstatus.cleared_of_confirmed hconfirmed

theorem update (h : world.TracksSends used) (hactor : world.actors[rank]? = some actor)
    (hdelivery : group'.delivery = world.group.delivery)
    (hbuffered : world.group.delivery = .buffered → actor'.unconfirmed = none)
    (hself : world.group.delivery = .rendezvous → SendStatus used group' rank actor'.unconfirmed)
    (hothers : world.group.delivery = .rendezvous → ∀ (other : Nat) (actor'' : Actor α),
      other ≠ rank → world.actors[other]? = some actor'' →
      SendStatus used group' other actor''.unconfirmed)
    (hdistinct : ∀ (other : Nat) (actor'' : Actor α) (post post' : Envelope) (ticket : Nat),
      other ≠ rank → world.actors[other]? = some actor'' →
      actor'.unconfirmed = some (post, ticket) → actor''.unconfirmed ≠ some (post', ticket)) :
    TracksSends used ⟨group', world.actors.set rank actor'⟩ := by
  have hrank : rank < world.actors.length := (List.getElem?_eq_some_iff.1 hactor).1
  have hset : (world.actors.set rank actor')[rank]? = some actor' := by simp [hrank]
  have hkeep : ∀ other, other ≠ rank →
      (world.actors.set rank actor')[other]? = world.actors[other]? :=
    fun other hne => List.getElem?_set_ne (Ne.symm hne)
  refine ⟨?_, ?_, ?_⟩
  · intro hbuffer other actor'' hother
    simp only [hdelivery] at hbuffer
    by_cases heq : other = rank
    · rw [heq, hset] at hother
      cases hother
      exact hbuffered hbuffer
    · rw [hkeep other heq] at hother
      exact h.buffered hbuffer other actor'' hother
  · intro hrendezvous other actor'' hother
    simp only [hdelivery] at hrendezvous
    by_cases heq : other = rank
    · rw [heq, hset] at hother
      cases hother
      rw [heq]
      exact hself hrendezvous
    · rw [hkeep other heq] at hother
      exact hothers hrendezvous other actor'' heq hother
  · intro first second firstActor secondActor post post' ticket hne hfirst hsecond hticket
    by_cases heq : first = rank
    · have hother : second ≠ rank := fun h => hne (heq.trans h.symm)
      rw [heq, hset] at hfirst
      cases hfirst
      rw [hkeep second hother] at hsecond
      exact hdistinct second secondActor post post' ticket hother hsecond hticket
    · rw [hkeep first heq] at hfirst
      by_cases hother : second = rank
      · rw [hother, hset] at hsecond
        cases hsecond
        intro hticket'
        exact hdistinct first firstActor post' post ticket heq hfirst hticket' hticket
      · rw [hkeep second hother] at hsecond
        exact h.distinct first second firstActor secondActor post post' ticket hne hfirst hsecond
          hticket

theorem steady (h : world.TracksSends used) (hactor : world.actors[rank]? = some actor)
    (hdelivery : group'.delivery = world.group.delivery)
    (hreceipts : group'.receipts = world.group.receipts)
    (hlanes : ∀ dest source tag, used tag →
      group'.lane dest source tag = world.group.lane dest source tag)
    (hunconfirmed : actor'.unconfirmed = actor.unconfirmed) :
    TracksSends used ⟨group', world.actors.set rank actor'⟩ := by
  have hstatus : ∀ (other : Nat) (unconfirmed : Option (Envelope × Nat)),
      SendStatus used world.group other unconfirmed → SendStatus used group' other unconfirmed := by
    intro other unconfirmed hold
    apply hold.congr
    · exact fun dest tag hused => hlanes dest other tag hused
    · intro post ticket _
      rw [hreceipts]
  apply h.update hactor hdelivery
  · intro hbuffered
    rw [hunconfirmed]
    exact h.buffered hbuffered rank actor hactor
  · intro hrendezvous
    rw [hunconfirmed]
    exact hstatus _ _ (h.status hrendezvous rank actor hactor)
  · exact fun hrendezvous other actor'' _ hother =>
      hstatus _ _ (h.status hrendezvous other actor'' hother)
  · intro other actor'' post post' ticket hne hother hsome
    rw [hunconfirmed] at hsome
    exact h.distinct rank other actor actor'' post post' ticket (Ne.symm hne) hactor hother hsome

theorem idle (h : world.TracksSends used) (hactor : world.actors[rank]? = some actor)
    (hcleared : world.group.delivery = .rendezvous → world.group.Cleared used rank)
    (hunconfirmed : actor'.unconfirmed = none) :
    TracksSends used ⟨world.group, world.actors.set rank actor'⟩ := by
  apply h.update hactor rfl
  · exact fun _ => hunconfirmed
  · exact fun hrendezvous => .idle hunconfirmed (hcleared hrendezvous)
  · exact fun hrendezvous other actor'' _ hother => h.status hrendezvous other actor'' hother
  · intro other actor'' post post' ticket _ _ hsome
    rw [hunconfirmed] at hsome
    cases hsome

theorem queue (h : world.TracksSends used) (hactor : world.actors[rank]? = some actor)
    {post : Envelope} {ticket : Option Nat} (hidle : actor.unconfirmed = none)
    (henqueue : world.group.enqueue rank post.peer post.tag post.payload = .ok (group', ticket))
    (hapart : world.group.Apart used post.peer) (hused : used post.tag)
    (hunconfirmed : actor'.unconfirmed = ticket.map (fun ticket => (post, ticket))) :
    TracksSends used ⟨group', world.actors.set rank actor'⟩ := by
  obtain ⟨_, _, _, _, hdelivery, hway⟩ := Group.enqueue_eq_ok henqueue
  rcases hway with ⟨hbuffered, rfl, _⟩ | ⟨hrendezvous, rfl, hreceipts⟩
  · have hno : world.group.delivery ≠ .rendezvous := by simp [hbuffered]
    apply h.update hactor hdelivery
    · exact fun _ => hunconfirmed
    · exact fun hrendezvous => absurd hrendezvous hno
    · exact fun hrendezvous => absurd hrendezvous hno
    · intro other actor'' post' post'' ticket' _ _ hsome
      rw [hunconfirmed] at hsome
      cases hsome
  · have hstatus := h.status hrendezvous
    have hold : ∀ (other : Nat) (actor'' : Actor α) (post' : Envelope) (ticket' : Nat),
        world.actors[other]? = some actor'' → actor''.unconfirmed = some (post', ticket') →
          ticket' ≠ world.group.receipts.issued := by
      intro other actor'' post' ticket' hother hsome
      have htracks := hstatus other actor'' hother
      rw [hsome] at htracks
      exact Nat.ne_of_lt htracks.issued
    have hcleared : world.group.Cleared used rank := by
      have htracks := hstatus rank actor hactor
      rw [hidle] at htracks
      exact htracks.cleared
    apply h.update hactor hdelivery
    · intro hbuffered
      rw [hrendezvous] at hbuffered
      cases hbuffered
    · intro _
      refine .waiting post world.group.receipts.issued hunconfirmed ?_ hused ?_ ?_
      · rw [hreceipts, Receipts.get?_issue, if_pos rfl]
      · rw [Group.lane_enqueue_self hapart hused henqueue, hcleared _ _ hused]
        rfl
      · intro dest tag hused' hne
        rw [Group.lane_enqueue_of_ne henqueue (fun h => hne ⟨h.1, h.2.2⟩)]
        exact hcleared dest tag hused'
    · intro _ other actor'' hne hother
      apply (hstatus other actor'' hother).congr
      · intro dest tag _
        exact Group.lane_enqueue_of_ne henqueue (fun h => hne h.2.1)
      · intro post' ticket' hsome
        rw [hreceipts, Receipts.get?_issue, if_neg (hold other actor'' post' ticket' hother hsome)]
    · intro other actor'' post' post'' ticket' _ hother hnew hother'
      rw [hunconfirmed] at hnew
      cases hnew
      exact hold other actor'' _ _ hother hother' rfl

section Take

variable {tag : Tag} {source : Nat} {member : Member} {message : Message} {sender : Actor α}
  (h : world.TracksSends used) (hsender : world.actors[source]? = some sender) (hused : used tag)
  (hmember : world.group.members[rank]? = some member)
  (hfound : member.inbox.parked.find? (Wanted.accepts ⟨tag, some source⟩) = some message)

include h hsender hused hmember hfound

/-- Whoever has sent the received message gets its receipt; nobody else is
touched. -/
theorem status_receive (hrendezvous : world.group.delivery = .rendezvous) {other : Nat}
    {old : Actor α} (hold : world.actors[other]? = some old) :
    SendStatus used (world.group.receive rank ⟨tag, some source⟩ message message.payload.length).2
      other old.unconfirmed := by
  have hlane := Group.lane_receive_self hmember hfound message.payload.length
  have hmem : message ∈ world.group.lane rank source tag := by
    rw [hlane]
    exact List.mem_cons_self
  have htracks := h.status hrendezvous source sender hsender
  obtain ⟨ticket, hsome, _, hmessage, hsingle, hempty⟩ := htracks.of_mem_lane hused hmem
  have hreceipts := Group.receipts_receive world.group rank ⟨tag, some source⟩ hmessage
  by_cases hother : other = source
  · subst hother
    rw [hsender] at hold
    cases hold
    rw [hsome] at htracks
    refine .taken ⟨rank, tag, message.payload⟩ ticket hsome ?_ ?_
    · rw [hreceipts, Receipts.get?_put, if_pos ⟨rfl, htracks.issued⟩]
    · intro dest label hused'
      by_cases heq : dest = rank ∧ label = tag
      · obtain ⟨rfl, rfl⟩ := heq
        rw [hlane] at hsingle
        exact (List.cons.inj hsingle).2
      · rw [Group.lane_receive_of_ne hmember _ (fun h => heq ⟨h.1, h.2.2⟩)]
        exact hempty dest label hused' heq
  · apply (h.status hrendezvous other old hold).congr
    · intro dest label _
      exact Group.lane_receive_of_ne hmember _ (fun h => hother h.2.1)
    · intro post' ticket' hsome'
      have hne : ticket' ≠ ticket := by
        intro heq
        rw [heq] at hsome'
        exact h.distinct other source old sender _ _ ticket hother hold hsender hsome' hsome
      rw [hreceipts, Receipts.get?_put, if_neg (fun h => hne h.1)]

theorem take (hactor : world.actors[rank]? = some actor)
    (hunconfirmed : actor'.unconfirmed = actor.unconfirmed) :
    TracksSends used
      ⟨(world.group.receive rank ⟨tag, some source⟩ message message.payload.length).2,
        world.actors.set rank actor'⟩ := by
  apply h.update hactor (Group.delivery_receive _ _ _ _ _)
  · intro hbuffered
    rw [hunconfirmed]
    exact h.buffered hbuffered rank actor hactor
  · intro hrendezvous
    rw [hunconfirmed]
    exact h.status_receive hsender hused hmember hfound hrendezvous hactor
  · intro hrendezvous other actor'' _ hother
    exact h.status_receive hsender hused hmember hfound hrendezvous hother
  · intro other actor'' post' post'' ticket hne hother hsome
    rw [hunconfirmed] at hsome
    exact h.distinct rank other actor actor'' post' post'' ticket (Ne.symm hne) hactor hother hsome

end Take

end World.TracksSends

end RankExchange
