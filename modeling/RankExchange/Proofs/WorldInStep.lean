import RankExchange.Proofs.CompatibleScripts

/-!
# Worlds in step

A world is in step if all its ranks are, with compatible scripts.  Every step
keeps it so: no rank gets out of step and no send fails.
-/

namespace RankExchange

/-- In step, a program ends with the value of its rank and nothing left to do. -/
def Closing {α : Type} (value : α) (inStep : Bool) (result : Except Fault α) (script : Script) :
    Prop :=
  inStep = true → result = .ok value ∧ script = []

theorem restful_closing {α : Type} (value : α) : Restful (Program.Ends (Closing value)) where
  astray := by
    rintro inStep program script ⟨result, rfl, _⟩
    exact ⟨result, rfl, fun hstep => by cases hstep⟩
  quiet := by
    rintro inStep action next script ⟨result, heq, _⟩
    cases heq
  answer := by
    rintro inStep action next script ⟨result, heq, _⟩
    cases heq

namespace World

variable {α : Type}

structure InStep (used : Tag → Prop) (value : Nat → α) (position : Nat → Position)
    (world : World α) : Prop where
  scripts : world.FollowsScripts used (fun rank => Program.Ends (Closing (value rank)))
    (fun _ _ _ => []) (fun _ _ _ => []) position
  inStep : ∀ rank, (position rank).inStep = true
  compatible : ∀ rank,
    (position rank).script.Compatible used world.group.size world.group.delivery
  staffed : world.actors.length = world.group.size
  absent : ∀ rank, world.group.size ≤ rank → (position rank).script = []
  intact : world.group.Intact
  ungathered : ∀ (rank : Nat) (actor : Actor α), world.actors[rank]? = some actor →
    ∀ epoch, actor.pause ≠ .gathered epoch
  posts : ∀ (rank : Nat) (actor : Actor α), world.actors[rank]? = some actor →
    ∀ post ∈ actor.posts, used post.tag ∧ post.peer < world.group.size
  tracksSends : world.TracksSends used

variable {used : Tag → Prop} {value : Nat → α} {position : Nat → Position} {world world' : World α}

namespace InStep

theorem exists_actor (h : world.InStep used value position) {rank : Nat}
    (hrank : rank < world.group.size) : ∃ actor, world.actors[rank]? = some actor := by
  have hlength : rank < world.actors.length := by
    rw [h.staffed]
    exact hrank
  exact ⟨_, List.getElem?_eq_getElem hlength⟩

theorem lt_size_of_actor (h : world.InStep used value position) {rank : Nat} {actor : Actor α}
    (hactor : world.actors[rank]? = some actor) : rank < world.group.size := by
  rw [← h.staffed]
  exact (List.getElem?_eq_some_iff.1 hactor).1

/-- What waits on a lane and what is still to be sent is due. -/
theorem lane (h : world.InStep used value position) (source dest : Nat) {tag : Tag}
    (hused : used tag) : Accounted (world.group.lane dest source tag)
      (Script.select dest tag (world.unsent position source))
      (Script.select source tag (position dest).script.incoming) (position source).script := by
  have hlane := h.scripts.lanes source dest tag hused (h.inStep dest)
  rw [List.append_nil, List.append_nil] at hlane
  exact hlane

theorem used_of_take (h : world.InStep used value position) {rank time : Nat} {tag : Tag}
    {owed : RankSet} {payload : Nat → Bytes} {found : Option Nat}
    (htake : .take time tag owed payload found ∈ (position rank).script) : used tag :=
  (h.scripts.orderly rank).used _ _ _ _ _ htake

/-- Nobody but those who owe the next take can be sending for a later one. -/
theorem not_stranger (h : world.InStep used value position) {rank time : Nat} {tag : Tag}
    {owed : RankSet} {payload : Nat → Bytes} {script : Script} {member : Member}
    {message : Message}
    (hscript : (position rank).script = .take time tag owed payload none :: script)
    (hmember : world.group.members[rank]? = some member)
    (hfound : member.inbox.parked.find? (Wanted.accepts { tag }) = some message) :
    message.source ∈ owed := by
  apply Classical.byContradiction
  intro hstranger
  have htake := Script.mem_of_eq_cons hscript
  have hused := h.used_of_take htake
  obtain ⟨_, hsource⟩ := find?_source_of_find?_tag hfound
  obtain ⟨dated, hpayloads, hdated, hdue⟩ := h.lane message.source rank hused
  rw [Group.lane_of_getElem? hmember, Inbox.lane_eq_cons_of_found hsource] at hpayloads
  cases dated with
  | nil => cases hpayloads
  | cons entry dated =>
      obtain ⟨later, text⟩ := entry
      -- The message belongs to a later take on the same tag.
      have hentry : (later, text) ∈
          Script.select message.source tag (position rank).script.incoming := by
        rw [← hdue]
        exact List.mem_cons_self
      rw [hscript, Script.select_incoming_take, if_neg (fun hmem => hstranger hmem.1),
        List.nil_append] at hentry
      obtain ⟨owed', payload', found', hduty, hsource'⟩ := Script.exists_take_of_select hentry
      have hlater : .take later tag owed' payload' found' ∈ (position rank).script := by
        rw [hscript]
        exact List.mem_cons_of_mem _ hduty
      have hlt : time < later := by
        have hstaged := (h.compatible rank).staged
        rw [hscript] at hstaged
        rcases (List.pairwise_cons.1 hstaged).1 _ hduty with hlt | ⟨_, hposting | hjoin⟩
        · exact hlt
        · cases hposting
        · cases hjoin
      rcases (h.compatible rank).separated _ _ _ _ _ _ _ _ _ _ htake hlater hlt hsource' with
        hsingle | ⟨⟨early, post⟩, hearly, _, hhigh, hpeer⟩
      · obtain ⟨hranks, _⟩ := (h.compatible rank).owed _ _ _ _ _ htake
        obtain ⟨other, hother⟩ := List.exists_mem_of_ne_nil _ hranks
        rw [← hsingle other hother] at hstranger
        exact hstranger hother
      -- Before it, something is still to be sent to the source of the message,
      simp only at hhigh hpeer
      obtain ⟨hlabel, _⟩ := (h.compatible rank).posted (early, post) hearly
      obtain ⟨actor, hactor⟩ := h.exists_actor (List.getElem?_eq_some_iff.1 hmember).1
      have hunsent : (early, post.payload) ∈ Script.select message.source post.tag
          (world.unsent position rank) := by
        have hready := (h.scripts.follows rank actor hactor).ready (by simp [hscript])
        rw [Script.mem_select_iff, unsent_of_getElem? hactor, ← hpeer, Actor.unsent,
          Actor.remaining_of_ready hready]
        exact List.mem_append_right _ hearly
      -- which the source has still to take, though it is past that time.
      obtain ⟨_, _, _, hdue'⟩ := h.lane rank message.source hlabel
      have howed : (early, post.payload) ∈ Script.select rank post.tag
          (position message.source).script.incoming := by
        rw [← hdue']
        exact List.mem_append_right _ hunsent
      obtain ⟨_, _, _, hduty', _⟩ := Script.exists_take_of_select howed
      have hle : later ≤ early := hdated (later, text) List.mem_cons_self _ hduty'
      omega

theorem not_lost (h : world.InStep used value position) {rank : Nat} {actor : Actor α} :
    ¬ Lost (Program.Ends (Closing (value rank))) world.group rank actor (position rank) := by
  intro hlost
  cases hlost with
  | astray hstep =>
      rw [h.inStep rank] at hstep
      cases hstep
  | resting action next _ hrest =>
      obtain ⟨result, heq, _⟩ := hrest
      cases heq
  | stopped hstopped =>
      rw [h.intact.isStopped rank] at hstopped
      cases hstopped
  | deserted _ tag _ _ _ channel _ _ _ hsearch =>
      exact h.intact.not_deserted tag channel hsearch
  | stranger time tag owed payload script message member hscript hmember hfound hstranger =>
      exact hstranger (h.not_stranger hscript hmember hfound)

theorem posted_of_script (h : world.InStep used value position) {rank time : Nat}
    {post : Envelope} {duty : Duty} (hduty : duty ∈ (position rank).script)
    (htime : duty.time = time)
    (hpost : post ∈ duty.sent) : used post.tag ∧ post.peer < world.group.size :=
  (h.compatible rank).posted (time, post) (Script.mem_outgoing_iff.2 ⟨duty, hduty, htime, hpost⟩)

theorem inStep_of_scriptStep (h : world.InStep used value position) {rank : Nat}
    {actor actor' : Actor α} {group' : Group} {position' : Position}
    (hscriptStep : ScriptStep (Program.Ends (Closing (value rank))) world.group rank actor
      (position rank) group' actor' position') : position'.inStep = true :=
  hscriptStep.inStep (h.inStep rank) h.not_lost

theorem tracksSends_of_scriptStep (h : world.InStep used value position) {rank : Nat}
    {actor actor' : Actor α} {group' : Group} {position' : Position}
    (hactor : world.actors[rank]? = some actor)
    (hscriptStep : ScriptStep (Program.Ends (Closing (value rank))) world.group rank actor
      (position rank) group' actor' position') :
    TracksSends used ⟨group', world.actors.set rank actor'⟩ := by
  have hfollows := h.scripts.follows rank actor hactor
  cases hscriptStep with
  | steady hready _ hposts hticket hpause =>
      exact h.tracksSends.steady hactor rfl rfl (fun _ _ _ _ => rfl)
        (Actor.unconfirmed_congr hready (Actor.ready_of_none hpause) hposts hticket)
  | sends hscript hposts hready henqueue hfollows' hposts' hpause =>
      obtain ⟨hused, _⟩ :=
        h.posted_of_script (Script.mem_of_eq_cons hscript) rfl (List.mem_singleton.2 rfl)
      exact h.tracksSends.queue hactor (hfollows.unconfirmed_eq_none hposts hready) henqueue
        (h.scripts.apart _ (h.inStep _)) hused
        (hfollows'.unconfirmed_eq_none hposts' (Actor.ready_of_none hpause))
  | offers hscript hposts hready henqueue hfollows' hposts' hpause =>
      obtain ⟨hused, _⟩ :=
        h.posted_of_script (Script.mem_of_eq_cons hscript) rfl (List.mem_singleton.2 rfl)
      exact h.tracksSends.queue hactor (hfollows.unconfirmed_eq_none hposts hready) henqueue
        (h.scripts.apart _ (h.inStep _)) hused (hfollows'.unconfirmed_of_send hscript hpause)
  | resumes hscript _ hsending hconfirmed hfollows' hposts' hpause =>
      exact h.tracksSends.idle hactor
        (h.tracksSends.cleared_of_unconfirmed hactor
          (hfollows.unconfirmed_of_send hscript hsending) hconfirmed)
        (hfollows'.unconfirmed_eq_none hposts' (Actor.ready_of_none hpause))
  | spawns hscript hposts _ hticket _ hpause =>
      have hready : actor.pause.isSending = false := hfollows.ready (by simp [hscript])
      apply h.tracksSends.idle hactor
        (h.tracksSends.cleared_of_idle hactor (hfollows.unconfirmed_eq_none hposts hready))
      rw [Actor.unconfirmed_of_ready (Actor.ready_of_none hpause)]
      exact Actor.posted_of_idle hticket
  | joins hscript hposts hfollows' hposts' hpause =>
      have hready : actor.pause.isSending = false := hfollows.ready (by simp [hscript])
      exact h.tracksSends.idle hactor
        (h.tracksSends.cleared_of_idle hactor (hfollows.unconfirmed_eq_none hposts hready))
        (hfollows'.unconfirmed_eq_none hposts' (Actor.ready_of_none hpause))
  | parks _ hsearch =>
      apply h.tracksSends.steady hactor (Group.delivery_putInbox _ _ _)
        (Group.receipts_putInbox _ _ _) _ rfl
      intro dest source tag hused
      by_cases hdest : dest = rank
      · rw [hdest]
        exact (Group.search_moved (h.scripts.apart rank (h.inStep rank)) hsearch).2 source tag
          hused
      · exact (Group.sameBut_modify _ _ _).lane hdest
  | finds _ hscript _ _ _ _ _ hposts hticket hpause =>
      have hready : actor.pause.isSending = false := hfollows.ready (by simp [hscript])
      exact h.tracksSends.steady hactor rfl rfl (fun _ _ _ _ => rfl)
        (Actor.unconfirmed_congr hready (Actor.ready_of_none hpause) hposts hticket)
  | takes _ hscript hmember hfound howed _ hposts hticket hpause =>
      have hready : actor.pause.isSending = false := hfollows.ready (by simp [hscript])
      have htake := Script.mem_of_eq_cons hscript
      obtain ⟨_, hsize⟩ := (h.compatible rank).owed _ _ _ _ _ htake
      obtain ⟨sender, hsender⟩ := h.exists_actor (hsize _ howed)
      exact h.tracksSends.take hsender (h.used_of_take htake) hmember hfound hactor
        (Actor.unconfirmed_congr hready (Actor.ready_of_none hpause) hposts hticket)
  | wanders hlost => exact absurd hlost h.not_lost
  | @posts post _ _ _ ticket hposts hticket henqueue _ hpause hticket' hposts' =>
      have hpost : post ∈ actor.posts := by
        rw [hposts]
        exact List.mem_cons_self
      have hready := hfollows.ready_of_posts (List.ne_nil_of_mem hpost)
      have hidle : actor.unconfirmed = none := by
        rw [Actor.unconfirmed_of_ready hready]
        exact Actor.posted_of_idle hticket
      have hunconfirmed : actor'.unconfirmed = ticket.map (fun ticket => (post, ticket)) := by
        rw [← hpause] at hready
        rw [Actor.unconfirmed_of_ready hready]
        exact Actor.posted_of_posted hticket' hposts'
      exact h.tracksSends.queue hactor hidle henqueue
        (h.scripts.apart post.peer (h.inStep post.peer))
        (h.posts rank actor hactor post hpost).1 hunconfirmed
  | @confirmed post _ ticket _ hposts hticket hconfirmed _ hpause hticket' =>
      have hready := hfollows.ready_of_posts (by rw [hposts]; exact List.cons_ne_nil _ _)
      have hunconfirmed : actor.unconfirmed = some (post, ticket) := by
        rw [Actor.unconfirmed_of_ready hready]
        exact Actor.posted_of_cons hticket hposts
      apply h.tracksSends.idle hactor
        (h.tracksSends.cleared_of_unconfirmed hactor hunconfirmed hconfirmed)
      rw [← hpause] at hready
      rw [Actor.unconfirmed_of_ready hready]
      exact Actor.posted_of_idle hticket'

theorem posts_of_scriptStep (h : world.InStep used value position) {rank : Nat}
    {actor actor' : Actor α} {group' : Group} {position' : Position}
    (hactor : world.actors[rank]? = some actor)
    (hscriptStep : ScriptStep (Program.Ends (Closing (value rank))) world.group rank actor
      (position rank) group' actor' position') :
    ∀ post ∈ actor'.posts, used post.tag ∧ post.peer < world.group.size := by
  have hold := h.posts rank actor hactor
  cases hscriptStep with
  | steady _ _ hposts => rwa [hposts]
  | sends _ _ _ _ _ hposts' =>
      rw [hposts']
      exact fun post hpost => by cases hpost
  | offers _ _ _ _ _ hposts' =>
      rw [hposts']
      exact fun post hpost => by cases hpost
  | resumes _ _ _ _ _ hposts' =>
      rw [hposts']
      exact fun post hpost => by cases hpost
  | @spawns time _ _ hscript =>
      intro post hpost
      exact h.posted_of_script (Script.mem_of_eq_cons hscript) rfl hpost
  | joins _ _ _ hposts' =>
      rw [hposts']
      exact fun post hpost => by cases hpost
  | parks => exact hold
  | finds _ _ _ _ _ _ _ hposts => rwa [hposts]
  | takes _ _ _ _ _ _ hposts => rwa [hposts]
  | wanders hlost => exact absurd hlost h.not_lost
  | posts hposts _ _ _ _ _ hposts' =>
      intro post hpost
      apply hold
      rw [hposts]
      rw [hposts'] at hpost
      split at hpost
      · exact List.mem_cons_of_mem _ hpost
      · exact hpost
  | confirmed hposts _ _ _ _ _ hposts' =>
      intro post hpost
      apply hold
      rw [hposts]
      rw [hposts'] at hpost
      exact List.mem_cons_of_mem _ hpost

theorem ungathered_of_scriptStep (h : world.InStep used value position) {rank : Nat}
    {actor actor' : Actor α} {group' : Group} {position' : Position}
    (hactor : world.actors[rank]? = some actor)
    (hscriptStep : ScriptStep (Program.Ends (Closing (value rank))) world.group rank actor
      (position rank) group' actor' position') : ∀ epoch, actor'.pause ≠ .gathered epoch := by
  have hold := h.ungathered rank actor hactor
  cases hscriptStep with
  | steady _ _ _ _ hpause => simp [hpause]
  | sends _ _ _ _ _ _ hpause => simp [hpause]
  | offers _ _ _ _ _ _ hpause => simp [hpause]
  | resumes _ _ _ _ _ _ hpause => simp [hpause]
  | spawns _ _ _ _ _ hpause => simp [hpause]
  | joins _ _ _ _ hpause => simp [hpause]
  | parks => exact hold
  | finds _ _ _ _ _ _ _ _ _ hpause => simp [hpause]
  | takes _ _ _ _ _ _ _ _ hpause => simp [hpause]
  | wanders hlost => exact absurd hlost h.not_lost
  | posts _ _ _ _ hpause => rwa [hpause]
  | confirmed _ _ _ _ hpause => rwa [hpause]

theorem proceeds_of_scriptStep (h : world.InStep used value position) {rank : Nat}
    {actor actor' : Actor α} {group' : Group} {position' : Position}
    (hscriptStep : ScriptStep (Program.Ends (Closing (value rank))) world.group rank actor
      (position rank) group' actor' position') :
    (position rank).script.Proceeds position'.script := by
  rcases hscriptStep.proceeds with ⟨_, hproceeds⟩ | ⟨hlost, _⟩
  · exact hproceeds
  · rw [h.inStep_of_scriptStep hscriptStep] at hlost
    cases hlost

theorem of_scriptStep (h : world.InStep used value position) {rank : Nat}
    {actor actor' : Actor α} {group' : Group} {position' : Position}
    (hactor : world.actors[rank]? = some actor)
    (hscriptStep : ScriptStep (Program.Ends (Closing (value rank))) world.group rank actor
      (position rank) group' actor' position') :
    InStep used value (Function.update position rank position')
      ⟨group', world.actors.set rank actor'⟩ := by
  have hrank : rank < world.actors.length := (List.getElem?_eq_some_iff.1 hactor).1
  have hset : (world.actors.set rank actor')[rank]? = some actor' := by simp [hrank]
  have hstep := h.inStep_of_scriptStep hscriptStep
  have hproceeds := h.proceeds_of_scriptStep hscriptStep
  have hdelivery := hscriptStep.delivery hstep
  have hsize : group'.size = world.group.size := hscriptStep.size
  have hactors : ∀ {p : Nat → Actor α → Prop}, p rank actor' →
      (∀ (other : Nat) (actor'' : Actor α), world.actors[other]? = some actor'' →
        p other actor'') →
      ∀ (other : Nat) (actor'' : Actor α),
        (world.actors.set rank actor')[other]? = some actor'' → p other actor'' := by
    intro p hself hothers other actor'' hother
    by_cases heq : other = rank
    · rw [heq, hset] at hother
      cases hother
      rw [heq]
      exact hself
    · rw [List.getElem?_set_ne (Ne.symm heq)] at hother
      exact hothers other actor'' hother
  refine ⟨h.scripts.of_scriptStep hactor hscriptStep, ?_, ?_, ?_, ?_,
    hscriptStep.intact hstep h.intact,
    ?_, ?_, h.tracksSends_of_scriptStep hactor hscriptStep⟩
  · apply (Function.forall_update_iff position (fun _ position => position.inStep = true)).2
    exact ⟨hstep, fun other _ => h.inStep other⟩
  · rw [hsize, hdelivery]
    apply (Function.forall_update_iff position (fun _ position =>
      position.script.Compatible used world.group.size world.group.delivery)).2
    exact ⟨(h.compatible rank).proceeds hproceeds, fun other _ => h.compatible other⟩
  · rw [hsize, List.length_set]
    exact h.staffed
  · rw [hsize]
    apply (Function.forall_update_iff position (fun other position =>
      world.group.size ≤ other → position.script = [])).2
    refine ⟨fun hle => ?_, fun other _ => h.absent other⟩
    exact absurd (h.lt_size_of_actor hactor) (Nat.not_lt.2 hle)
  · exact hactors (p := fun _ actor => ∀ epoch, actor.pause ≠ .gathered epoch)
      (h.ungathered_of_scriptStep hactor hscriptStep) h.ungathered
  · rw [hsize]
    exact hactors (p := fun _ actor => ∀ post ∈ actor.posts, used post.tag ∧
      post.peer < world.group.size) (h.posts_of_scriptStep hactor hscriptStep) h.posts

theorem exists_enqueue (h : world.InStep used value position) (rank : Nat) {post : Envelope}
    (hpeer : post.peer < world.group.size) : ∃ group' ticket,
      world.group.enqueue rank post.peer post.tag post.payload = .ok (group', ticket) := by
  have hmember : world.group.members[post.peer]? = some world.group.members[post.peer] :=
    List.getElem?_eq_getElem hpeer
  exact Group.enqueue_isOk (h.intact.isStopped rank) hmember (h.intact.present _ _ hmember)

/-- A thread that waits for a receipt has its message still under way, or can go
on. -/
theorem confirmation (h : world.InStep used value position) {rank ticket : Nat}
    {actor : Actor α} {post : Envelope} (hactor : world.actors[rank]? = some actor)
    (hunconfirmed : actor.unconfirmed = some (post, ticket)) :
    (∀ dest, world.group.confirmation dest ticket = some (.ok ())) ∨
      ((∀ dest, world.group.confirmation dest ticket = none) ∧ used post.tag ∧
        ∃ message, message ∈ world.group.lane post.peer rank post.tag) := by
  have hrendezvous : world.group.delivery = .rendezvous := by
    cases hdelivery : world.group.delivery with
    | rendezvous => rfl
    | buffered =>
        have hnone := h.tracksSends.buffered hdelivery rank actor hactor
        rw [hunconfirmed] at hnone
        cases hnone
  cases h.tracksSends.status hrendezvous rank actor hactor with
  | idle hnone =>
      rw [hunconfirmed] at hnone
      cases hnone
  | taken _ _ hsome hreceipt =>
      rw [hunconfirmed] at hsome
      cases hsome
      refine .inl (fun dest => ?_)
      unfold Group.confirmation
      rw [hreceipt]
  | waiting _ _ hsome hreceipt hused hlane =>
      rw [hunconfirmed] at hsome
      cases hsome
      refine .inr ⟨fun dest => ?_, hused, ⟨rank, post.tag, post.payload, some ticket⟩, ?_⟩
      · unfold Group.confirmation
        rw [hreceipt]
      · rw [hlane]
        exact List.mem_cons_self

/-- The send that a thread is at is one that a duty or the helper's list has
set. -/
theorem peer_of_posting (h : world.InStep used value position) {rank : Nat} {actor : Actor α}
    {thread : Thread} {post : Envelope} {ticket : Option Nat}
    (hactor : world.actors[rank]? = some actor)
    (hposting : actor.posting? thread = some (post, ticket)) :
    post.peer < world.group.size ∧
      ∀ ticket', ticket = some ticket' → actor.unconfirmed = some (post, ticket') := by
  have hfollows := h.scripts.follows rank actor hactor
  cases thread with
  | helper =>
      have hhead : actor.posts.head?.map (fun post => (post, actor.ticket)) =
          some (post, ticket) := hposting
      obtain ⟨first, hfirst, heq⟩ := Option.map_eq_some_iff.1 hhead
      cases heq
      have hpost := List.mem_of_head? hfirst
      refine ⟨(h.posts rank actor hactor post hpost).2, fun ticket' hticket => ?_⟩
      rw [Actor.unconfirmed_of_ready (hfollows.ready_of_posts (List.ne_nil_of_mem hpost))]
      simp [Actor.posted, hticket, hfirst]
  | main channel =>
      have hsends : ∀ {dest tag payload} {next : (Action.call (.send dest tag payload)).Answer →
          Program α}, actor.program = .act (.call (.send dest tag payload)) next →
          dest < world.group.size := by
        intro dest tag payload next hprogram
        have hscripted := hfollows.program
        rw [hprogram, h.inStep rank] at hscripted
        generalize hscript : (position rank).script = script at hscripted
        cases hscripted with
        | rest hrest =>
            obtain ⟨_, heq, _⟩ := hrest
            cases heq
        | send =>
            have hduty := Script.mem_of_eq_cons hscript
            exact (h.posted_of_script hduty rfl (List.mem_singleton.2 rfl)).2
      simp only [Actor.posting?] at hposting
      split at hposting
      · next hprogram _ =>
          cases hposting
          exact ⟨hsends hprogram, fun _ hsome => by cases hsome⟩
      · next dest tag payload next ticket hprogram hpause =>
          cases hposting
          refine ⟨hsends hprogram, fun _ hsome => ?_⟩
          cases hsome
          have hunconfirmed : actor.unconfirmed = some (⟨dest, tag, payload⟩, ticket) :=
            Actor.unconfirmed_of_sending hpause hprogram
          exact hunconfirmed
      · cases hposting

theorem sendFails (h : world.InStep used value position) (move : Move) :
    world.sendFails move = false := by
  unfold World.sendFails
  split
  · rfl
  · next actor hactor =>
      split
      · rfl
      · next posting hposting =>
          obtain ⟨post, ticket⟩ := posting
          obtain ⟨hpeer, hticket⟩ := h.peer_of_posting hactor hposting
          unfold Group.refuses
          cases ticket with
          | none =>
              obtain ⟨group', ticket', henqueue⟩ := h.exists_enqueue move.rank hpeer
              simp only [henqueue]
          | some ticket =>
              rcases h.confirmation hactor (hticket ticket rfl) with hok | ⟨hwaiting, _⟩
              · simp only [hok]
              · simp only [hwaiting]

theorem step (h : world.InStep used value position) {move : Move}
    (hstep : world.step move = some world') : ∃ position', world'.InStep used value position' := by
  obtain ⟨actor, group', actor', position', hactor, rfl, hscriptStep⟩ :=
    h.scripts.exists_scriptStep (restful_closing _) (h.sendFails move) hstep
  exact ⟨_, h.of_scriptStep hactor hscriptStep⟩

theorem reaches (h : world.InStep used value position) (hreaches : world.Reaches world') :
    ∃ position', world'.InStep used value position' := by
  induction hreaches generalizing position with
  | refl => exact ⟨position, h⟩
  | step move hstep _ ih =>
      obtain ⟨position', h'⟩ := h.step hstep
      exact ih h'

end InStep

theorem inStep_starting {group : Group} {program : Nat → Program α} {script : Nat → Script}
    (hquiet : group.Quiet used) (hintact : group.Intact)
    (hfollows : ∀ rank, rank < group.size →
      Program.FollowsScript (Program.Ends (Closing (value rank))) true (program rank) (script rank))
    (habsent : ∀ rank, group.size ≤ rank → script rank = [])
    (horderly : ∀ rank, (script rank).Orderly used)
    (hcompatible : ∀ rank, (script rank).Compatible used group.size group.delivery)
    (hfresh : ∀ rank time tag owed payload found,
      .take time tag owed payload found ∈ script rank → found = none)
    (hbalanced : ∀ source dest tag, Script.select dest tag (script source).outgoing =
      Script.select source tag (script dest).incoming) :
    (starting group program).InStep used value (fun rank => ⟨true, script rank⟩) where
  scripts := by
    apply followsScripts_starting hquiet hfollows habsent horderly hfresh
    intro source dest tag
    rw [hbalanced]
  inStep := fun _ => rfl
  compatible := hcompatible
  staffed := by
    unfold starting
    rw [List.length_map, List.length_range]
  absent := habsent
  intact := hintact
  ungathered := by
    intro rank actor hactor epoch
    obtain ⟨_, rfl⟩ := getElem?_starting hactor
    exact fun hpause => by cases hpause
  posts := by
    intro rank actor hactor post hpost
    obtain ⟨_, rfl⟩ := getElem?_starting hactor
    cases hpost
  tracksSends := by
    refine ⟨?_, ?_, ?_⟩
    · intro _ rank actor hactor
      obtain ⟨_, rfl⟩ := getElem?_starting hactor
      rfl
    · intro _ rank actor hactor
      obtain ⟨_, rfl⟩ := getElem?_starting hactor
      exact .idle rfl (fun dest tag hused => hquiet.lane dest rank hused)
    · intro rank other actor actor' post post' ticket _ hactor _ hunconfirmed
      obtain ⟨_, rfl⟩ := getElem?_starting hactor
      cases hunconfirmed

end World

end RankExchange
