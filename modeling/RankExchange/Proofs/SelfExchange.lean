import RankExchange.Proofs.Confinement
import RankExchange.Proofs.Confirmations
import RankExchange.Proofs.RoundInProgress
import RankExchange.Proofs.Progress

/-!
# Rounds with oneself

A rank that is its own peer in a round waits for a message that its own helper thread sends.
While somebody else is there it waits for it as for any other.  Once it is alone it gives up
when it finds nothing, so there the helper thread has to be quicker; otherwise the round is
lost, although nothing but the rank's own message is missing.
-/

namespace RankExchange

theorem Program.Confined.leavesLast {α : Type} {program : Program α} {tag : Tag}
    {wanted : Bool → Except Fault α → Prop} {helping : Bool}
    (h : program.Confined (fun request => request.tag? = some tag) wanted helping) :
    program.LeavesLast helping := by
  induction program generalizing helping with
  | done result => trivial
  | act action next ih =>
      obtain ⟨hfits, hnext⟩ := h
      cases action with
      | call request =>
          cases request with
          | leave => cases hfits
          | _ => exact fun answer => ih answer (hnext answer)
      | spawn posts => exact ih () (hnext ())
      | join => exact fun answer => ih answer (hnext answer)
      | log event => exact fun answer => ih answer (hnext answer)
      | reserve size => exact fun answer => ih answer (hnext answer)

namespace Actor

variable {α : Type}

/-- A helper thread that cannot go on waits for a receipt. -/
theorem help_or_awaits {actor : Actor α} (hposts : actor.posts ≠ []) (group : Group) (rank : Nat) :
    (actor.help group rank).isSome = true ∨ ∃ post ∈ actor.posts, ∃ ticket,
      actor.awaiting true = some (post, ticket) ∧ group.confirmation post.peer ticket = none := by
  obtain ⟨post, rest, hcons⟩ := List.exists_cons_of_ne_nil hposts
  cases hticket : actor.ticket with
  | none =>
      left
      unfold help
      simp only [hcons, hticket]
      split <;> rfl
  | some ticket =>
      cases hconfirmation : group.confirmation post.peer ticket with
      | some answer =>
          left
          unfold help
          simp only [hcons, hticket, hconfirmation]
          cases answer <;> rfl
      | none =>
          refine .inr ⟨post, ?_, ticket, ?_, hconfirmation⟩
          · rw [hcons]
            exact List.mem_cons_self
          · simp [awaiting, posting?, hcons, hticket]

namespace InRound

variable {group : Group} {rank : Nat} {tag : Tag} {text : Nat → Bytes} {posts : List Envelope}
  {value : α} {actor : Actor α} {position : Position} {member : Member}
  (h : actor.InRound group rank tag text posts value position)
  (hmember : group.members[rank]? = some member)
  (hspent : member.inbox.Spent (group.isAlone rank))

include h hmember hspent

theorem advance_of_waiting {next : Except Fault Arrival → Program α} {message : Message}
    (hprogram : actor.program = .act (.call (.probe tag)) next)
    (hwaits : message ∈ member.inbox.waiting) (htag : message.tag = tag) :
    ∃ channel, (actor.advance group rank channel).isSome = true := by
  have hfind : (member.inbox.waiting.find? (Wanted.accepts { tag })).isSome = true := by
    rw [List.find?_isSome]
    exact ⟨message, hwaits, Wanted.accepts_of_tag_iff.2 htag⟩
  have hadvance : ∀ channel,
      member.inbox.search { tag } (group.isAlone rank) (group.size = 1) channel ≠ .blocked →
        ∃ channel, (actor.advance group rank channel).isSome = true := by
    intro channel hsearch
    refine ⟨channel, advance_isSome_of_probe hprogram h.running ?_⟩
    unfold Group.search
    rw [hmember]
    exact hsearch
  rcases member.inbox.arrives_waiting.exists_search hspent (.inl hfind) with
    ⟨found, hfound⟩ | ⟨channel, moved, hmoved, -⟩ | hdeserted
  · refine hadvance .remote ?_
    rw [Inbox.search_found_of_parked _ _ _ hfound]
    nofun
  · exact hadvance channel (by rw [hmoved]; nofun)
  · exact hadvance .remote (by rw [hdeserted]; nofun)

/-- A main thread that cannot go on waits for its helper thread, and finds no message of the
rank itself. -/
theorem advance_or_waits :
    (∃ channel, (actor.advance group rank channel).isSome = true) ∨
    actor.result? = some (.ok value) ∨
    (actor.posts ≠ [] ∧
      ∀ message ∈ member.inbox.waiting, message.source = rank → message.tag ≠ tag) := by
  have hprogram := h.follows.program
  have hsingle := h.single
  rw [h.inStep] at hprogram
  generalize hscript : position.script = script at hprogram hsingle
  generalize heq : actor.program = program at hprogram
  cases hprogram with
  | rest hrest =>
      obtain ⟨result, rfl, hclosing⟩ := hrest
      obtain ⟨rfl, -⟩ := hclosing rfl
      refine .inr (.inl ?_)
      unfold result?
      rw [heq]
  | log =>
      refine .inl ⟨.remote, ?_⟩
      unfold advance
      rw [heq]
      rfl
  | reserve =>
      refine .inl ⟨.remote, ?_⟩
      unfold advance
      rw [heq]
      rfl
  | send => exact absurd rfl (hsingle.ne_send _ _ _)
  | spawn =>
      have hidle : actor.posts = [] := by
        apply h.follows.posts_eq_nil
        rw [hscript]
        exact id
      refine .inl ⟨.remote, ?_⟩
      unfold advance
      rw [heq]
      simp [hidle]
  | join =>
      by_cases hposts : actor.posts = []
      · refine .inl ⟨.remote, ?_⟩
        unfold advance
        rw [heq]
        simp [hposts]
      · refine .inr (.inr ⟨hposts, fun message hwaits hsource htag => ?_⟩)
        -- All that was owed has been taken.
        have hlane := h.lanes rank
        rw [hscript] at hlane
        cases hsingle
        have hnil := (List.append_eq_nil_iff.1 hlane).1
        rw [List.map_eq_nil_iff, Group.lane_of_getElem? hmember] at hnil
        have hmem := Inbox.mem_lane_iff.2 ⟨hwaits, hsource, htag⟩
        rw [hnil] at hmem
        cases hmem
  | @probe _ label owed =>
      obtain ⟨rfl, rfl, rfl, rfl, hranks⟩ := hsingle.eq_of_take
      by_cases hany : ∃ message ∈ member.inbox.waiting, message.tag = label
      · obtain ⟨message, hwaits, htag⟩ := hany
        exact .inl (h.advance_of_waiting hmember hspent heq hwaits htag)
      · have hnone : ∀ message ∈ member.inbox.waiting, message.tag ≠ label :=
          fun message hwaits htag => hany ⟨message, hwaits, htag⟩
        refine .inr (.inr ⟨fun hidle => ?_, fun message hwaits _ => hnone message hwaits⟩)
        -- With nothing there and nothing to come, nothing would be owed.
        obtain ⟨source, hsource⟩ := List.exists_mem_of_ne_nil _ hranks
        have hlane := h.lane_of_take hscript source
        have hempty : group.lane rank source label = [] := by
          rw [Group.lane_of_getElem? hmember, List.eq_nil_iff_forall_not_mem]
          intro message hmessage
          obtain ⟨hwaits, -, htag⟩ := Inbox.mem_lane_iff.1 hmessage
          exact hnone message hwaits htag
        rw [hempty, h.ownUnsent_of_take hscript, unposted_of_nil hidle,
          if_pos (RankSet.mem_def.2 hsource)] at hlane
        simp [Script.select] at hlane
  | receive =>
      obtain ⟨-, found, message, hfinder, hfound, -⟩ := h.backed.found _ _ _ _ _ _ h.inStep hscript
      exact .inl ⟨.remote, advance_isSome_of_receive heq h.running hfinder hfound .remote⟩

end InRound

end Actor

namespace World

variable {α : Type} {rank : Nat} {tag : Tag} {text : Nat → Bytes} {posts : List Envelope}
  {value : α} {world : World α} {delivery : Delivery} {grants : List Threading}
  {program : Nat → Program α}

/-- The helper thread of a rank waits for the receipt of a message that another rank has still
to take. -/
def AwaitsAnother (world : World α) (rank : Nat) : Prop :=
  ∃ post ticket, post.peer ≠ rank ∧ world.awaiting rank true = some (post, ticket) ∧
    ⟨rank, post.tag, post.payload, some ticket⟩ ∈ world.group.waitingAt post.peer

/-- A step of a rank that is no hindrance to its round. -/
def Proceeds (rank : Nat) (tag : Tag) (world : World α) : Prop :=
  ∃ thread next, world.Favours rank tag ⟨rank, thread⟩ ∧ world.step ⟨rank, thread⟩ = some next

theorem proceeds_of_advance {actor : Actor α} {channel : Channel}
    (hactor : world.actors[rank]? = some actor)
    (hposting : actor.posting? (.main channel) = none)
    (hadvance : (actor.advance world.group rank channel).isSome = true)
    (hsoon : world.looksTooSoon rank tag = false) : world.Proceeds rank tag := by
  obtain ⟨next, hstep⟩ := exists_step_of_advance hactor hadvance
  refine ⟨_, next, ⟨fun _ => ?_, fun hne => absurd rfl hne, fun _ _ => hsoon⟩, hstep⟩
  simp only [sendFails, hactor, hposting]

/-- What becomes of a helper thread that has something to send, while no message of the rank
itself is there. -/
theorem proceeds_of_posts {actor : Actor α} (hactor : world.actors[rank]? = some actor)
    (hposts : actor.posts ≠ []) (htags : ∀ post ∈ actor.posts, post.tag = tag)
    (hnone : ∀ message ∈ world.group.waitingAt rank, message.source = rank → message.tag ≠ tag)
    (hreaches : (starting (.ofGrants delivery grants) program).Reaches world) :
    world.Proceeds rank tag ∨ world.sendFails ⟨rank, .helper⟩ = true ∨
      delivery = .rendezvous ∧ world.AwaitsAnother rank := by
  rcases Actor.help_or_awaits hposts world.group rank with
    hhelp | ⟨post, hpost, ticket, hawaiting, hconfirmation⟩
  · obtain ⟨next, hstep⟩ := exists_step_of_help hactor hhelp
    cases hfails : world.sendFails ⟨rank, .helper⟩ with
    | true => exact .inr (.inl rfl)
    | false =>
        exact .inl ⟨_, next, ⟨fun _ => hfails, fun hne => absurd rfl hne,
          fun _ hne => absurd rfl hne⟩, hstep⟩
  · have hawaits : world.awaiting rank true = some (post, ticket) := by
      rw [awaiting, hactor, Option.bind_some, hawaiting]
    obtain ⟨hrendezvous, hwaits⟩ := waits_of_awaiting hreaches hawaits hconfirmation
    refine .inr (.inr ⟨hrendezvous, post, ticket, fun hself => ?_, hawaits, hwaits⟩)
    rw [hself] at hwaits
    exact hnone _ hwaits rfl (htags post hpost)

/-- A rank in the midst of a round comes to its end, or goes on without hindrance, unless a
send of it fails or has to wait for another rank. -/
theorem InRound.goes_on (h : world.InRound rank tag text posts value) (hregular : world.Regular)
    (hreaches : (starting (.ofGrants delivery grants) program).Reaches world)
    (htags : ∀ post ∈ posts, post.tag = tag) (hnone : world.result? rank = none) :
    world.Proceeds rank tag ∨ world.sendFails ⟨rank, .helper⟩ = true ∨
      delivery = .rendezvous ∧ world.AwaitsAnother rank := by
  obtain ⟨actor, position, hactor, hround⟩ := h
  obtain ⟨member, hmember⟩ := hregular.exists_member hactor
  have hposting : ∀ post ∈ actor.posts, post.tag = tag :=
    fun post hpost => htags post (hround.posting.subset hpost)
  cases hsoon : world.looksTooSoon rank tag with
  | true =>
      simp only [looksTooSoon, hactor, Option.any_some, Bool.and_eq_true, List.all_eq_true,
        List.any_eq_true, decide_eq_true_eq] at hsoon
      obtain ⟨⟨-, hempty⟩, -, post, hpost, -⟩ := hsoon
      refine proceeds_of_posts hactor (fun hidle => ?_) hposting
        (fun message hwaits _ => hempty message hwaits) hreaches
      rw [Actor.unposted_of_nil hidle] at hpost
      cases hpost
  | false =>
      rcases hround.advance_or_waits hmember (hregular.spent rank member hmember) with
        ⟨channel, hadvance⟩ | hresult | ⟨hposts, hown⟩
      · exact .inl (proceeds_of_advance hactor (hround.posting?_main channel) hadvance hsoon)
      · rw [result?, hactor, Option.bind_some, hresult] at hnone
        cases hnone
      · refine proceeds_of_posts hactor hposts hposting ?_ hreaches
        rw [Group.waitingAt_of_getElem? hmember]
        exact hown

/-- However the threads take their turns without hindrance to a round, it comes to be so. -/
inductive ComesFavouring (rank : Nat) (tag : Tag) (p : World α → Prop) : World α → Prop
  | now {world : World α} (h : p world) : ComesFavouring rank tag p world
  | later {world : World α} (hproceeds : world.Proceeds rank tag)
      (h : ∀ move next, world.Favours rank tag move → world.step move = some next →
        ComesFavouring rank tag p next) : ComesFavouring rank tag p world

theorem InRound.result (h : world.InRound rank tag text posts value)
    {result : Except Fault α} (hresult : world.result? rank = some result) :
    result = .ok value := by
  obtain ⟨actor, position, hactor, hround⟩ := h
  rw [result?, hactor, Option.bind_some] at hresult
  exact hround.result hresult

theorem InRound.comes (h : world.InRound rank tag text posts value) (hregular : world.Regular)
    (hreaches : (starting (.ofGrants delivery grants) program).Reaches world)
    (htags : ∀ post ∈ posts, post.tag = tag) :
    world.ComesFavouring rank tag (fun last => last.result? rank = some (.ok value) ∨
      last.sendFails ⟨rank, .helper⟩ = true ∨
        delivery = .rendezvous ∧ last.AwaitsAnother rank) := by
  have hwf : WellFounded (fun after before : World α => WellFoundedRelation.rel after before) :=
    WellFoundedRelation.wf
  -- No run goes on for ever, so it is enough that the rank can always go on.
  induction world using hwf.induction with
  | _ world ih =>
    cases hresult : world.result? rank with
    | some result =>
        rw [h.result hresult] at hresult
        exact .now (.inl hresult)
    | none =>
        rcases h.goes_on hregular hreaches htags hresult with hproceeds | hheld
        · refine .later hproceeds (fun move next hfavours hstep => ?_)
          exact ih next (rel_of_reaches hstep (.refl _)) (h.step hregular hfavours hstep)
            (hregular.step hstep) (hreaches.trans (.step move hstep (.refl _)))
        · exact .now (.inr hheld)

end World

namespace Endpoint

variable {endpoint : Endpoint} {rank size : Nat} {tag : Tag} {peers : RankSet}
  {outgoing : RankMap Bytes} {text : Nat → Bytes} {group : Group}

def roundPosts (tag : Tag) (outgoing : RankMap Bytes) : List Envelope :=
  outgoing.entries.map (fun (peer, payload) => Envelope.mk peer tag payload)

/-- What a rank sends itself in a round is what it has for itself. -/
theorem select_roundPosts (hown : outgoing.find? rank = some (text rank)) :
    Script.select rank tag ((roundPosts tag outgoing).map (fun post => (0, post))) =
      [(0, text rank)] := by
  have hentries : outgoing.entries = outgoing.keys.ranks.map (fun peer =>
      (peer, (outgoing.find? peer).getD [])) := by
    refine RankMap.entries_eq_map (fun peer payload hpayload => ?_)
    rw [hpayload]
    rfl
  have hkey : rank ∈ outgoing.keys.ranks := RankMap.mem_keys_iff.2 ⟨_, hown⟩
  unfold roundPosts
  rw [hentries, List.map_map, List.map_map]
  refine (Script.select_owed outgoing.keys.nodup 0 rank tag tag _).trans ?_
  rw [if_pos ⟨hkey, rfl⟩, hown]
  rfl

theorem inRound_exchange (hopen : endpoint.standing = .ok ⟨rank, size, .multiple⟩)
    (htag : endpoint.tags.contains tag = true)
    (hranks : ∀ other ∈ peers.ranks ++ outgoing.keys.ranks, other < size)
    (hself : rank ∈ peers) (hown : outgoing.find? rank = some (text rank))
    (hrunning : group.isStopped rank = false)
    (hlanes : ∀ source, (group.lane rank source tag).map Message.payload =
      if source ∈ peers ∧ source ≠ rank then [text source] else [])
    (trail : List Event) :
    Actor.InRound group rank tag text (roundPosts tag outgoing)
      (RankMap.envelopes peers tag text) { program := endpoint.exchange peers tag outgoing, trail }
      ⟨true, .spawn 0 (roundPosts tag outgoing) :: Script.await 0 tag peers text [.join 0]⟩ where
  follows := by
    refine ⟨?_, fun hsending => (by cases hsending), fun hne => absurd rfl hne, fun _ => rfl, rfl⟩
    change Program.FollowsScript _ true (endpoint.exchange peers tag outgoing) _
    rw [exchange_eq hopen htag hranks]
    simp only [if_true]
    refine (followsScript_exchangeBeside htag peers (roundPosts tag outgoing)).bind_ends ?_ ?_
    · intro inStep received script hyields
      cases hyields
      exact .log (.done (fun _ => ⟨rfl, rfl⟩))
    · intro inStep fault script hyields
      cases hyields
      exact .done (fun hstep => by cases hstep)
  inStep := rfl
  single := .whole peers
  posting := List.nil_sublist _
  found := by
    apply Position.Found.of_begun
    intro time label owed payload found script hscript
    cases hscript
  running := hrunning
  lanes := by
    intro source
    have hdue : Script.select source tag (Script.incoming
        (.spawn 0 (roundPosts tag outgoing) :: Script.await 0 tag peers text [.join 0])) =
          if source ∈ peers then [(0, text source)] else [] := by
      refine (Script.select_incoming_await source 0 tag tag peers text [.join 0]).trans ?_
      simp only [and_true]
      exact List.append_nil _
    have hunsent : Actor.ownUnsent ({ program := endpoint.exchange peers tag outgoing, trail } :
        Actor (RankMap Envelope)) rank tag
          (.spawn 0 (roundPosts tag outgoing) :: Script.await 0 tag peers text [.join 0]) =
            [text rank] := by
      unfold Actor.ownUnsent
      rw [Actor.unsent_of_nil rfl, Actor.remaining_of_ready rfl, Script.outgoing_cons,
        Script.outgoing_await]
      change (Script.select rank tag (_ ++ [])).map _ = _
      rw [List.append_nil]
      change (Script.select rank tag ((roundPosts tag outgoing).map (fun post => (0, post)))).map
        _ = _
      rw [select_roundPosts hown]
      rfl
    rw [hlanes source, hdue, hunsent]
    by_cases hsource : source = rank
    · subst hsource
      simp [hself]
    · by_cases hpeer : source ∈ peers <;> simp [hsource, hpeer]

end Endpoint

namespace World

variable {rank size : Nat} {tag : Tag} {peers : RankSet} {outgoing : RankMap Bytes}
  {text : Nat → Bytes} {endpoint : Endpoint}

/-- A rank that is a peer of itself takes part in a round with a helper thread.  All others
have sent what they owe it and send nothing more on the tag; they may leave at any time, if
only no send of the rank fails.  If the rank does not look for a message when it is alone,
none is there and its own is still to be sent, then the round can end with nothing but all
the messages, its own among them.  However the threads take their turns, it does end so,
unless a send fails or has to wait until another rank takes the message. -/
theorem completes_of_favouring {delivery : Delivery} {grants : List Threading}
    {program : Nat → Program (RankMap Envelope)} {first world : World (RankMap Envelope)}
    {trail : List Event} (hleaves : ∀ other, (program other).LeavesLast false)
    (hreaches : (starting (.ofGrants delivery grants) program).Reaches first)
    (hactor : first.actors[rank]? =
      some { program := endpoint.exchange peers tag outgoing, trail })
    (hopen : endpoint.standing = .ok ⟨rank, grants.length, .multiple⟩)
    (hrunning : first.group.isStopped rank = false)
    (htag : endpoint.tags.contains tag = true)
    (hranks : ∀ other ∈ peers.ranks ++ outgoing.keys.ranks, other < grants.length)
    (hself : rank ∈ peers) (hown : outgoing.find? rank = some (text rank))
    (hlanes : ∀ source, (first.group.lane rank source tag).map Message.payload =
      if source ∈ peers ∧ source ≠ rank then [text source] else [])
    (hrun : first.ReachesFavouring rank tag world) :
    (∀ result, world.result? rank = some result →
      result = .ok (RankMap.envelopes peers tag text)) ∧
    world.ComesFavouring rank tag (fun last =>
      last.result? rank = some (.ok (RankMap.envelopes peers tag text)) ∨
      last.sendFails ⟨rank, .helper⟩ = true ∨
        delivery = .rendezvous ∧ last.AwaitsAnother rank) := by
  have hinRound : first.InRound rank tag text (Endpoint.roundPosts tag outgoing)
      (RankMap.envelopes peers tag text) :=
    ⟨_, _, hactor, Endpoint.inRound_exchange hopen htag hranks hself hown hrunning hlanes trail⟩
  obtain ⟨hlast, hregular⟩ :=
    InRound.of_reaches hrun hinRound ((regular_starting hleaves).of_reaches hreaches)
  refine ⟨fun result hresult => hlast.result hresult, ?_⟩
  refine hlast.comes hregular (hreaches.trans hrun.reaches) (fun post hpost => ?_)
  obtain ⟨entry, -, rfl⟩ := List.mem_map.1 hpost
  rfl

/-- The first rank sends a message, waits for one and leaves; the second has a round with it and
with itself. -/
def selfPeerRound : Nat → Program (RankMap Envelope)
  | 0 => do
      Program.send 1 3 [5]
      let _ ← Program.receive 1 3 1
      Program.leave
      return .empty
  | _ => (Endpoint.opened 1 2 .multiple).exchange ⟨[0, 1], by decide⟩ 3
      ⟨[(0, [7]), (1, [8])], by decide⟩

/-- The second rank at the start of its round, when the message of the first has come. -/
def selfPeerWorld : World (RankMap Envelope) where
  group := { Group.ofGrants .buffered [.multiple, .multiple] with
    members := [{}, { inbox.remote := [⟨0, 3, [5], none⟩] }] }
  actors := [
    { program := do
        let _ ← Program.receive 1 3 1
        Program.leave
        return .empty },
    { program := selfPeerRound 1 }]

theorem completes_of_selfPeerRound :
    (starting (.ofGrants .buffered [.multiple, .multiple]) selfPeerRound).Reaches selfPeerWorld ∧
    ∃ world, selfPeerWorld.ReachesFavouring 1 3 world ∧ world.group.isAlone 1 = true ∧
      (world.result? 1).map (Except.map SortedMap.entries) =
        some (.ok [(0, ⟨0, 3, [5]⟩), (1, ⟨1, 3, [8]⟩)]) := by
  let text : Nat → Bytes := fun source => if source = 0 then [5] else [8]
  have hleaves : ∀ rank, (selfPeerRound rank).LeavesLast false := by
    rintro (_ | rank)
    · refine Program.leavesLast_send ?_
      rintro (fault | answer)
      · trivial
      · exact ⟨rfl, _, rfl⟩
    · exact (Endpoint.keepsTo_exchange _ _ _ _).leavesLast
  have hreaches : (starting (.ofGrants .buffered [.multiple, .multiple]) selfPeerRound).Reaches
      selfPeerWorld := reaches_iff_follow.2 ⟨[⟨0, .main .remote⟩], rfl⟩
  let moves : List Move := [⟨1, .main .remote⟩, ⟨1, .helper⟩] ++
    List.replicate 3 ⟨0, .main .remote⟩ ++ [⟨1, .helper⟩] ++ List.replicate 15 ⟨1, .main .remote⟩
  have hmoves : (selfPeerWorld.followFavouring 1 3 moves).map (fun world =>
      (world.group.isAlone 1, (world.result? 1).isSome)) = some (true, true) := by
    decide +kernel
  obtain ⟨world, hworld, hends⟩ := Option.map_eq_some_iff.1 hmoves
  obtain ⟨halone, hsome⟩ := Prod.mk.inj hends
  obtain ⟨result, hresult⟩ := Option.isSome_iff_exists.1 hsome
  have hrun := reachesFavouring_of_follow hworld
  have hlanes : ∀ source, (selfPeerWorld.group.lane 1 source 3).map Message.payload =
      if source ∈ (⟨[0, 1], by decide⟩ : RankSet) ∧ source ≠ 1 then [text source] else [] := by
    rintro (_ | _ | source)
    · rfl
    · rfl
    · rw [if_neg (by simp [RankSet.mem_def])]
      rfl
  let outgoing : RankMap Bytes := ⟨[(0, [7]), (1, [8])], by decide⟩
  have hown : outgoing.find? 1 = some (text 1) := rfl
  obtain ⟨hok, -⟩ := completes_of_favouring hleaves hreaches rfl rfl rfl rfl (by decide)
    (by decide) hown hlanes hrun
  refine ⟨hreaches, world, hrun, halone, ?_⟩
  rw [hresult, hok result hresult]
  rfl

/-- The second rank takes the message of the first and looks for its own before its helper
thread has sent it.  As the first has left by then, the round is lost. -/
theorem deserted_of_selfPeerRound :
    (starting (.ofGrants .buffered [.multiple, .multiple]) selfPeerRound).Reaches selfPeerWorld ∧
    ∃ world, selfPeerWorld.Reaches world ∧
      (world.group.lane 1 1 3).map Message.payload = [[8]] ∧
      world.result? 1 = some (.error (.transport .probe (.deserted 1))) := by
  let moves : List Move := [⟨1, .main .remote⟩, ⟨1, .helper⟩] ++
    List.replicate 3 ⟨0, .main .remote⟩ ++ List.replicate 8 ⟨1, .main .remote⟩ ++
    [⟨1, .helper⟩, ⟨1, .main .remote⟩]
  have hmoves : (selfPeerWorld.follow moves).map (fun world =>
      ((world.group.lane 1 1 3).map Message.payload,
        (world.result? 1).map (Except.map SortedMap.entries))) =
      some ([[8]], some (.error (.transport .probe (.deserted 1)))) := by
    decide +kernel
  obtain ⟨world, hworld, hends⟩ := Option.map_eq_some_iff.1 hmoves
  obtain ⟨hlane, hentries⟩ := Prod.mk.inj hends
  obtain ⟨result, hresult, hfault⟩ := Option.map_eq_some_iff.1 hentries
  refine ⟨reaches_iff_follow.2 ⟨[⟨0, .main .remote⟩], rfl⟩, world,
    reaches_iff_follow.2 ⟨moves, hworld⟩, hlane, ?_⟩
  rw [hresult]
  cases result with
  | ok table => cases hfault
  | error fault =>
      cases hfault
      rfl

end World

end RankExchange
