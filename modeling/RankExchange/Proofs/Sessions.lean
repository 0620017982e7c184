import RankExchange.Proofs.Progress

/-!
# Work within a session

A rank opens its session, works, waits at the barrier for all others and leaves.
Its work goes on as if nothing else were there: until the barrier opens, the group
is the same as one in which the work is all that the ranks do, and after that
nobody needs the group any more.
-/

namespace RankExchange

namespace Actor

variable {α β : Type} {core core' : Actor α} {close : Except Fault α → Program β}
  {older : List Event} {group group' : Group} {rank : Nat}

/-- A rank that closes its session after its work. -/
def framed (core : Actor α) (close : Except Fault α → Program β) (older : List Event) :
    Actor β where
  program := core.program.attempt.bind close
  pause := core.pause
  posts := core.posts
  ticket := core.ticket
  failure := core.failure
  trail := core.trail ++ older

theorem call_framed (core : Actor α) (close : Except Fault α → Program β) (older : List Event)
    (group : Group) (rank : Nat) (channel : Channel) (request : Request)
    (next : request.Answer → Program α) :
    (core.framed close older).call group rank channel request
        (fun answer => (next answer).attempt.bind close) =
      (core.call group rank channel request next).map
        (fun after => (after.1, after.2.framed close older)) := by
  have hpause : (core.framed close older).pause = core.pause := rfl
  cases request with
  | identify => rfl
  | finalize => rfl
  | leave => rfl
  | init required =>
      simp only [call]
      split
      · rfl
      · split <;> rfl
  | barrier =>
      simp only [call, hpause]
      cases core.pause with
      | none =>
          simp only
          split
          · rfl
          · split <;> rfl
      | sending ticket => rfl
      | gathered epoch =>
          simp only
          split <;> rfl
  | send dest tag payload =>
      simp only [call, hpause]
      cases core.pause with
      | none =>
          simp only
          split <;> rfl
      | sending ticket =>
          simp only [Option.map_map]
          rfl
      | gathered epoch => rfl
  | probe tag =>
      simp only [call]
      split
      · rfl
      · split <;> rfl
  | receive source tag length =>
      simp only [call]
      split
      · rfl
      · split <;> rfl

/-- As long as there is work to do, nothing else is done. -/
theorem advance_framed {action : Action} {next : action.Answer → Program α}
    (hprogram : core.program = .act action next) (close : Except Fault α → Program β)
    (older : List Event) (group : Group) (rank : Nat) (channel : Channel) :
    (core.framed close older).advance group rank channel =
      (core.advance group rank channel).map
        (fun after => (after.1, after.2.framed close older)) := by
  have hframed : (core.framed close older).program =
      .act action (fun answer => (next answer).attempt.bind close) := by
    rw [framed, hprogram]
    rfl
  unfold advance
  rw [hframed, hprogram]
  cases action with
  | call request => exact call_framed core close older group rank channel request next
  | log event => rfl
  | reserve length => rfl
  | spawn posts =>
      change (if core.posts.isEmpty then _ else none) = Option.map _ (if _ then _ else none)
      split <;> rfl
  | join =>
      change (if core.posts.isEmpty then _ else none) = Option.map _ (if _ then _ else none)
      split <;> rfl

theorem help_framed (core : Actor α) (close : Except Fault α → Program β) (older : List Event)
    (group : Group) (rank : Nat) :
    (core.framed close older).help group rank =
      (core.help group rank).map (fun after => (after.1, after.2.framed close older)) := by
  have hposts : (core.framed close older).posts = core.posts := rfl
  have hticket : (core.framed close older).ticket = core.ticket := rfl
  unfold help
  rw [hposts, hticket]
  split
  · rfl
  · split
    · split <;> rfl
    · split <;> rfl

end Actor

/-- What messages leave as it is in a group. -/
structure Group.Undisturbed (group group' : Group) : Prop where
  arrived : group'.arrived = group.arrived
  epoch : group'.epoch = group.epoch
  grants : group'.members.map Member.grant = group.members.map Member.grant

namespace Group

variable {group group' : Group} {rank : Nat} {member : Member}

theorem undisturbed_refl (group : Group) : group.Undisturbed group :=
  ⟨rfl, rfl, rfl⟩

theorem size_of_grants
    (h : group'.members.map Member.grant = group.members.map Member.grant) :
    group'.size = group.size := by
  have hlength := congrArg List.length h
  rw [List.length_map, List.length_map] at hlength
  exact hlength

theorem grants_set {inbox : Inbox} (hmember : group.members[rank]? = some member) :
    (group.members.set rank { member with inbox }).map Member.grant =
      group.members.map Member.grant := by
  have hgrant : (group.members.map Member.grant)[rank]? = some member.grant := by
    rw [List.getElem?_map, hmember]
    rfl
  rw [List.map_set]
  exact set_eq_self hgrant

theorem undisturbed_putInbox (group : Group) (rank : Nat) (inbox : Inbox) :
    group.Undisturbed (group.putInbox rank inbox) := by
  unfold putInbox modify
  split
  · exact undisturbed_refl group
  · next hmember => exact ⟨rfl, rfl, grants_set hmember⟩

theorem undisturbed_enqueue {source dest : Nat} {tag : Tag} {payload : Bytes}
    {ticket : Option Nat} (h : group.enqueue source dest tag payload = .ok (group', ticket)) :
    group.Undisturbed group' := by
  obtain ⟨member, hmember, _, hmembers, _⟩ := enqueue_eq_ok h
  have hbarrier : group'.arrived = group.arrived ∧ group'.epoch = group.epoch := by
    unfold enqueue at h
    split at h
    · cases h
    · split at h
      · cases h
      · split at h
        · cases h
          exact ⟨rfl, rfl⟩
        · cases h
  refine ⟨hbarrier.1, hbarrier.2, ?_⟩
  rw [hmembers]
  exact grants_set hmember

theorem undisturbed_receive (hmember : group.members[rank]? = some member) (wanted : Wanted)
    (message : Message) (length : Nat) :
    group.Undisturbed (group.receive rank wanted message length).2 := by
  have hsettle : ∀ (other : Group) ticket receipt, group.Undisturbed other →
      group.Undisturbed (other.settle ticket receipt) := by
    intro other ticket receipt h
    cases ticket with
    | none => exact h
    | some ticket => exact ⟨h.arrived, h.epoch, h.grants⟩
  have htaken : group.Undisturbed
      (group.modify rank (fun member => { member with inbox := member.inbox.take wanted })) := by
    rw [modify_of_getElem? hmember]
    exact ⟨rfl, rfl, grants_set hmember⟩
  unfold receive
  split
  · exact hsettle _ _ _ htaken
  · exact hsettle _ _ _ htaken

end Group

theorem ScriptStep.undisturbed {α : Type} {Rest : Bool → Program α → Script → Prop}
    {actor actor' : Actor α} {group group' : Group} {rank : Nat} {position position' : Position}
    (h : ScriptStep Rest group rank actor position group' actor' position')
    (hstep : position'.inStep = true) :
    group.Undisturbed group' := by
  cases h with
  | steady => exact Group.undisturbed_refl group
  | sends _ _ _ henqueue => exact Group.undisturbed_enqueue henqueue
  | offers _ _ _ henqueue => exact Group.undisturbed_enqueue henqueue
  | resumes => exact Group.undisturbed_refl group
  | spawns => exact Group.undisturbed_refl group
  | joins => exact Group.undisturbed_refl group
  | parks => exact Group.undisturbed_putInbox _ _ _
  | finds => exact Group.undisturbed_refl group
  | takes _ _ hmember => exact Group.undisturbed_receive hmember _ _ _
  | wanders => cases hstep
  | posts _ _ henqueue => exact Group.undisturbed_enqueue henqueue
  | confirmed => exact Group.undisturbed_refl group

namespace World.InStep

variable {α : Type} {used : Tag → Prop} {value : Nat → α} {position : Nat → Position}
  {world world' : World α}

theorem undisturbed (h : world.InStep used value position) {move : Move}
    (hstep : world.step move = some world') : world.group.Undisturbed world'.group := by
  obtain ⟨actor, group', actor', position', hactor, rfl, hscriptStep⟩ :=
    h.scripts.exists_scriptStep (restful_closing _) (h.sendFails move) hstep
  exact hscriptStep.undisturbed (h.inStep_of_scriptStep hscriptStep)

theorem of_group {group group' : Group} {actors : List (Actor α)}
    (h : InStep used value position ⟨group, actors⟩) (hmembers : group'.members = group.members)
    (hreceipts : group'.receipts = group.receipts) (hdelivery : group'.delivery = group.delivery) :
    InStep used value position ⟨group', actors⟩ := by
  obtain ⟨delivery, members, receipts, arrived, epoch⟩ := group
  obtain ⟨delivery', members', receipts', arrived', epoch'⟩ := group'
  cases hmembers
  cases hreceipts
  cases hdelivery
  exact {
    scripts := ⟨h.scripts.follows, h.scripts.orderly, h.scripts.apart, h.scripts.found,
      h.scripts.lanes⟩
    inStep := h.inStep
    compatible := h.compatible
    staffed := h.staffed
    absent := h.absent
    intact := ⟨h.intact.present, h.intact.running, h.intact.expects⟩
    ungathered := h.ungathered
    posts := h.posts
    tracksSends := ⟨h.tracksSends.buffered, fun hrendezvous rank actor hactor =>
      (h.tracksSends.status hrendezvous rank actor hactor).congr (fun _ _ _ => rfl)
      (fun _ _ _ => rfl),
      h.tracksSends.distinct⟩ }

theorem idle_of_result (h : world.InStep used value position) {rank : Nat} {actor : Actor α}
    {result : Except Fault α} (hactor : world.actors[rank]? = some actor)
    (hprogram : actor.program = .done result) :
    result = .ok (value rank) ∧ actor.posts = [] ∧ actor.pause = .none := by
  have hresult : world.result? rank = some result := by
    unfold World.result? Actor.result?
    rw [hactor, Option.bind_some, hprogram]
  have hfollows := h.scripts.follows rank actor hactor
  refine ⟨h.result hresult, ?_, ?_⟩
  · apply hfollows.posts_eq_nil
    have hscripted := hfollows.program
    rw [hprogram, h.inStep rank] at hscripted
    cases hscripted with
    | rest hrest =>
        obtain ⟨_, _, hclosing⟩ := hrest
        rw [(hclosing rfl).2]
        exact id
  · cases hpause : actor.pause with
    | none => rfl
    | gathered epoch => exact absurd hpause (h.ungathered rank actor hactor epoch)
    | sending ticket =>
        obtain ⟨_, _, _, _, _, hsend, _⟩ := hfollows.paused (by rw [hpause]; rfl)
        rw [hprogram] at hsend
        cases hsend

end World.InStep

end RankExchange
