import RankExchange.Proofs.ScriptPositions

/-!
# Steps along a script

Every step of a thread whose rank follows its script is a `ScriptStep`.  What a
found message says is a premise here; it comes from the accounts of the lanes.
-/

namespace RankExchange

namespace Actor

variable {α : Type} {actor actor' : Actor α} {group group' : Group} {rank : Nat}
  {channel : Channel}

/-- A quiet action has been answered or goes on waiting; the group is touched at
the rank itself at most, and its helper thread not at all. -/
structure Calm (group : Group) (rank : Nat) (actor : Actor α) (action : Action)
    (next : action.Answer → Program α) (group' : Group) (actor' : Actor α) : Prop where
  group : Group.SameBut rank group group'
  posts : actor'.posts = actor.posts
  ticket : actor'.ticket = actor.ticket
  failure : actor'.failure = actor.failure
  pause : actor'.pause.isSending = false
  program : actor'.program = .act action next ∨ ∃ answer, actor'.program = next answer

variable {action : Action} {next : action.Answer → Program α}

theorem Calm.answered (hgroup : Group.SameBut rank group group') (answer : action.Answer) :
    Calm group rank actor action next group' (actor.resume (next answer)) where
  group := hgroup
  posts := rfl
  ticket := rfl
  failure := rfl
  pause := rfl
  program := .inr ⟨answer, rfl⟩

theorem Calm.waiting (hgroup : Group.SameBut rank group group')
    (hprogram : actor.program = .act action next)
    (hpause : actor.pause.isSending = false) :
    Calm group rank actor action next group' actor where
  group := hgroup
  posts := rfl
  ticket := rfl
  failure := rfl
  pause := hpause
  program := .inl hprogram

theorem calm_barrier {next : Except Fault Unit → Program α}
    (hprogram : actor.program = .act (.call .barrier) next)
    (h : actor.call group rank channel .barrier next = some (group', actor')) :
    Calm group rank actor (.call .barrier) next group' actor' := by
  simp only [call] at h
  split at h
  · cases h
  · split at h
    · cases h
    · cases h
      exact .answered (.refl _ _) _
  · split at h
    · cases h
      exact .answered (.refl _ _) _
    · split at h
      · cases h
        exact ⟨Group.sameBut_of_members rfl, rfl, rfl, rfl, rfl, .inl hprogram⟩
      · cases h
        refine .answered ?_ _
        exact Group.sameBut_of_members rfl

theorem calm_call {request : Request} {next : request.Answer → Program α}
    (hprogram : actor.program = .act (.call request) next)
    (hquiet : (Action.call request).isQuiet = true)
    (hpause : actor.pause.isSending = false)
    (h : actor.call group rank channel request next = some (group', actor')) :
    Calm group rank actor (.call request) next group' actor' := by
  cases request with
  | send dest tag payload => cases hquiet
  | barrier => exact calm_barrier hprogram h
  | identify =>
      cases h
      exact .answered (.refl _ _) _
  | finalize =>
      cases h
      exact .answered (Group.sameBut_modify _ _ _) _
  | leave =>
      cases h
      exact .answered (Group.sameBut_leave _ _) _
  | init required =>
      simp only [call] at h
      split at h
      · cases h
      · split at h <;> cases h <;> exact .answered (.refl _ _) _
  | probe tag =>
      simp only [call] at h
      split at h
      · cases h
        exact .answered (.refl _ _) _
      · split at h
        · cases h
          exact .answered (.refl _ _) _
        · cases h
          exact .waiting (Group.sameBut_modify _ _ _) hprogram hpause
        · cases h
          exact .answered (.refl _ _) _
        · cases h
  | receive source tag length =>
      simp only [call] at h
      split at h
      · cases h
        exact .answered (.refl _ _) _
      · split at h
        · cases h
          exact .answered (Group.sameBut_receive _ _ _ _) _
        · cases h
          exact .waiting (Group.sameBut_modify _ _ _) hprogram hpause
        · cases h
          exact .answered (.refl _ _) _
        · cases h

theorem calm_advance (hprogram : actor.program = .act action next)
    (hquiet : action.isQuiet = true) (hpause : actor.pause.isSending = false)
    (h : actor.advance group rank channel = some (group', actor')) :
    Calm group rank actor action next group' actor' := by
  unfold advance at h
  rw [hprogram] at h
  cases action with
  | spawn posts => cases hquiet
  | join => cases hquiet
  | log event =>
      cases h
      exact ⟨.refl _ _, rfl, rfl, rfl, rfl, .inr ⟨(), rfl⟩⟩
  | reserve length =>
      cases h
      exact .answered (.refl _ _) _
  | call request => exact calm_call hprogram hquiet hpause h

end Actor

theorem Group.search_eq_found {group : Group} {rank : Nat} {wanted : Wanted} {own : Bool}
    {channel : Channel} {message : Message}
    (h : group.search rank wanted own channel = .found message) :
    ∃ member, group.members[rank]? = some member ∧
      member.inbox.parked.find? wanted.accepts = some message := by
  unfold search at h
  split at h
  · cases h
  · next member hmember => exact ⟨member, hmember, Inbox.found_of_search h⟩

theorem Group.search_of_parked {group : Group} {rank : Nat} {wanted : Wanted} {member : Member}
    {message : Message} (hmember : group.members[rank]? = some member)
    (h : member.inbox.parked.find? wanted.accepts = some message) (own : Bool)
    (channel : Channel) : group.search rank wanted own channel = .found message := by
  unfold search
  rw [hmember]
  exact Inbox.search_found_of_parked _ own channel h

theorem Group.refuses_of_enqueue {group : Group} {rank : Nat} {post : Envelope} {fault : Fault}
    (h : group.enqueue rank post.peer post.tag post.payload = .error fault) :
    group.refuses rank (post, none) = true := by
  simp only [refuses, h]

theorem Group.refuses_of_confirmation {group : Group} {rank ticket : Nat} {post : Envelope}
    {fault : Fault} (h : group.confirmation post.peer ticket = some (.error fault)) :
    group.refuses rank (post, some ticket) = true := by
  simp only [refuses, h]

theorem find?_source_of_find?_tag {messages : List Message} {tag : Tag} {message : Message}
    (h : messages.find? (Wanted.accepts { tag }) = some message) :
    message.tag = tag ∧
      messages.find? (Wanted.accepts ⟨tag, some message.source⟩) = some message := by
  have htag : message.tag = tag := Wanted.accepts_of_tag_iff.1 (List.find?_some h)
  refine ⟨htag, find?_eq_of_find? h ?_ (Wanted.accepts_of_source_iff.2 ⟨rfl, htag⟩)⟩
  intro other haccepts
  exact Wanted.accepts_of_tag_iff.2 (Wanted.accepts_of_source_iff.1 haccepts).2

/-- The messages that a rank in step has found, or may find, say what its script
says. -/
structure Position.Backed (position : Position) (group : Group) (rank : Nat) : Prop where
  found : ∀ time tag owed payload source script, position.inStep = true →
    position.script = .take time tag owed payload (some source) :: script →
    source ∈ owed ∧ ∃ member message, group.members[rank]? = some member ∧
      member.inbox.parked.find? (Wanted.accepts ⟨tag, some source⟩) = some message ∧
      message.payload = payload source
  due : ∀ time tag owed payload script member message, position.inStep = true →
    position.script = .take time tag owed payload none :: script →
    group.members[rank]? = some member →
    member.inbox.parked.find? (Wanted.accepts ⟨tag, some message.source⟩) = some message →
    message.source ∈ owed → message.payload = payload message.source

namespace Actor

variable {α : Type} {Rest : Bool → Program α → Script → Prop} {actor actor' : Actor α}
  {group group' : Group} {rank : Nat} {channel : Channel} {position : Position}

theorem FollowsScript.resume {inStep : Bool} {script : Script} {program : Program α}
    (hfollows : actor.FollowsScript Rest position) (h : program.FollowsScript Rest inStep script)
    (hhelping : actor.posts ≠ [] → script.Helping) :
    (actor.resume program).FollowsScript Rest ⟨inStep, script⟩ where
  program := h
  paused := fun hsending => by cases hsending
  helping := hhelping
  posts := hfollows.posts
  failure := hfollows.failure

/-- Between a spawn and a join no other helper can be started, and nothing is
sent. -/
theorem FollowsScript.posts_eq_nil (hfollows : actor.FollowsScript Rest position)
    (h : ¬ position.script.Helping) :
    actor.posts = [] := by
  cases hposts : actor.posts with
  | nil => rfl
  | cons post posts => exact absurd (hfollows.helping (by simp [hposts])) h

/-- A main thread waits for a receipt only where its script sends. -/
theorem FollowsScript.ready (hfollows : actor.FollowsScript Rest position)
    (h : ∀ time post script, position.script ≠ .send time post :: script) :
    actor.pause.isSending = false := by
  rw [Bool.eq_false_iff]
  intro hsending
  obtain ⟨time, post, script, _, hscript, _⟩ := hfollows.paused hsending
  exact h time post script hscript

theorem FollowsScript.posts_of_send {time : Nat} {post : Envelope} {script : Script}
    (hfollows : actor.FollowsScript Rest position)
    (hscript : position.script = .send time post :: script) :
    actor.posts = [] := by
  apply hfollows.posts_eq_nil
  rw [hscript]
  exact id

/-- Nor does it while the helper thread is at work. -/
theorem FollowsScript.ready_of_posts (hfollows : actor.FollowsScript Rest position)
    (h : actor.posts ≠ []) :
    actor.pause.isSending = false := by
  apply hfollows.ready
  intro time post script hscript
  exact h (hfollows.posts_of_send hscript)

theorem scriptStep_of_sending {ticket : Nat} (hfollows : actor.FollowsScript Rest position)
    (hpause : actor.pause = .sending ticket)
    (hfails : ∀ posting, actor.posting? (.main channel) = some posting →
      group.refuses rank posting = false)
    (h : actor.advance group rank channel = some (group', actor')) :
    ∃ position', ScriptStep Rest group rank actor position group' actor' position' := by
  obtain ⟨time, post, script, next, hscript, hprogram, hnext⟩ :=
    hfollows.paused (by rw [hpause]; rfl)
  have hposts := hfollows.posts_of_send hscript
  have hposting : actor.posting? (.main channel) = some (post, some ticket) := by
    unfold posting?
    rw [hprogram, hpause]
  have hrefuses := hfails _ hposting
  unfold advance at h
  rw [hprogram] at h
  simp only [call, hpause] at h
  obtain ⟨answer, hanswer, heq⟩ := Option.map_eq_some_iff.1 h
  cases heq
  cases answer with
  | error fault =>
      rw [Group.refuses_of_confirmation hanswer] at hrefuses
      cases hrefuses
  | ok value =>
      exact ⟨_, .resumes hscript hposts hpause hanswer
        (hfollows.resume hnext (fun hne => absurd hposts hne)) hposts rfl⟩

theorem scriptStep_of_send {time : Nat} {post : Envelope} {script : Script}
    {next : (Action.call (.send post.peer post.tag post.payload)).Answer → Program α}
    (hfollows : actor.FollowsScript Rest position) (hready : actor.pause.isSending = false)
    (hscript : position.script = .send time post :: script)
    (hprogram : actor.program = .act (.call (.send post.peer post.tag post.payload)) next)
    (hnext : Program.FollowsScript Rest position.inStep (next (.ok ())) script)
    (hfails : ∀ posting, actor.posting? (.main channel) = some posting →
      group.refuses rank posting = false)
    (h : actor.advance group rank channel = some (group', actor')) :
    ∃ position', ScriptStep Rest group rank actor position group' actor' position' := by
  have hposts := hfollows.posts_of_send hscript
  unfold advance at h
  rw [hprogram] at h
  cases hwait : actor.pause with
  | gathered epoch =>
      simp only [call, hwait] at h
      cases h
  | sending ticket =>
      rw [hwait] at hready
      cases hready
  | none =>
      have hposting : actor.posting? (.main channel) = some (post, none) := by
        unfold posting?
        rw [hprogram, hwait]
      have hrefuses := hfails _ hposting
      simp only [call, hwait] at h
      split at h
      · next henqueue =>
          rw [Group.refuses_of_enqueue henqueue] at hrefuses
          cases hrefuses
      · next henqueue =>
          cases h
          exact ⟨_, .sends hscript hposts hready henqueue
            (hfollows.resume hnext (fun hne => absurd hposts hne)) hposts rfl⟩
      · next henqueue =>
          cases h
          refine ⟨position, .offers hscript hposts hready henqueue ?_ hposts rfl⟩
          exact ⟨hfollows.program, fun _ => ⟨time, post, script, next, hscript, hprogram, hnext⟩,
            hfollows.helping, hfollows.posts, hfollows.failure⟩

theorem scriptStep_of_spawn {time : Nat} {posts : List Envelope} {script : Script}
    {next : (Action.spawn posts).Answer → Program α}
    (hfollows : actor.FollowsScript Rest position)
    (hscript : position.script = .spawn time posts :: script)
    (hprogram : actor.program = .act (.spawn posts) next) (hhelping : script.Helping)
    (hclock : script.clock = time)
    (hnext : Program.FollowsScript Rest position.inStep (next ()) script)
    (h : actor.advance group rank channel = some (group', actor')) :
    ∃ position', ScriptStep Rest group rank actor position group' actor' position' := by
  have hidle : ¬ position.script.Helping := by
    rw [hscript]
    exact id
  have hposts := hfollows.posts_eq_nil hidle
  unfold advance at h
  rw [hprogram] at h
  simp only [hposts, List.isEmpty_nil, if_true] at h
  cases h
  refine ⟨⟨position.inStep, script⟩, .spawns hscript hposts ?_ rfl hclock rfl⟩
  exact ⟨hnext, fun hsending => (by cases hsending), fun _ => hhelping, fun _ => rfl, rfl⟩

theorem scriptStep_of_join {time : Nat} {script : Script} {next : Action.join.Answer → Program α}
    (hfollows : actor.FollowsScript Rest position)
    (hscript : position.script = .join time :: script)
    (hprogram : actor.program = .act .join next)
    (hnext : Program.FollowsScript Rest position.inStep (next (.ok ())) script)
    (h : actor.advance group rank channel = some (group', actor')) :
    ∃ position', ScriptStep Rest group rank actor position group' actor' position' := by
  unfold advance at h
  rw [hprogram] at h
  simp only at h
  split at h
  · next hempty =>
      have hposts : actor.posts = [] := List.isEmpty_iff.1 hempty
      have houtcome : actor.outcome = .ok () := by
        unfold outcome
        rw [hfollows.failure]
      rw [houtcome] at h
      cases h
      refine ⟨⟨position.inStep, script⟩, .joins hscript hposts ?_ hposts rfl⟩
      exact ⟨hnext, fun hsending => (by cases hsending), fun hne => absurd hposts hne,
        hfollows.posts,
        rfl⟩
  · cases h

/-- A rank in step that is told of something else than it waits for. -/
theorem FollowsScript.stray {time : Nat} {tag : Tag} {owed : RankSet} {payload : Nat → Bytes}
    {found : Option Nat} {script : Script} {program : Program α}
    (hfollows : actor.FollowsScript Rest position)
    (hscript : position.script = .take time tag owed payload found :: script)
    (hlost : Lost Rest group rank actor position)
    (hprogram : Program.FollowsScript Rest false program script.outward) :
    ∃ position',
      ScriptStep Rest group rank actor position group (actor.resume program) position' := by
  have houtward : position.script.outward = script.outward := by rw [hscript]; rfl
  have hready : actor.pause.isSending = false := by
    apply hfollows.ready
    simp [hscript]
  have hjoin : actor.posts ≠ [] → ∃ rest, script = .join time :: rest := by
    intro hposts
    have hhelping := hfollows.helping hposts
    rw [hscript] at hhelping
    exact Script.helping_take_iff.1 hhelping
  refine ⟨⟨false, script.outward⟩, .wanders hlost hready rfl (.refl _ _)
    (hfollows.resume hprogram ?_) ?_ ?_ ?_ rfl rfl⟩
  · intro hposts
    obtain ⟨rest, hrest⟩ := hjoin hposts
    rw [hrest]
    trivial
  · rw [← houtward]
    exact List.filter_sublist
  · rw [← houtward, Script.outgoing_outward]
  · intro hposts
    obtain ⟨rest, hrest⟩ := hjoin hposts
    rw [hscript, hrest]
    rfl

theorem scriptStep_of_probe {time : Nat} {tag : Tag} {owed : RankSet} {payload : Nat → Bytes}
    {script : Script} {next : (Action.call (.probe tag)).Answer → Program α}
    (hfollows : actor.FollowsScript Rest position) (hbacked : position.Backed group rank)
    (hstep : position.inStep = true)
    (hscript : position.script = .take time tag owed payload none :: script)
    (hprogram : actor.program = .act (.call (.probe tag)) next)
    (howed : ∀ source, source ∈ owed →
      Program.FollowsScript Rest true (next (.ok ⟨source, tag, (payload source).length⟩))
        (.take time tag owed payload (some source) :: script))
    (hstranger : ∀ source length, ¬ source ∈ owed →
      Program.FollowsScript Rest false (next (.ok ⟨source, tag, length⟩)) script.outward)
    (hfault : ∀ fault, Program.FollowsScript Rest false (next (.error fault)) script.outward)
    (h : actor.advance group rank channel = some (group', actor')) :
    ∃ position', ScriptStep Rest group rank actor position group' actor' position' := by
  unfold advance at h
  rw [hprogram] at h
  simp only [call] at h
  split at h
  · next hstopped =>
      cases h
      exact hfollows.stray hscript (.stopped hstopped) (hfault _)
  · split at h
    · next message hsearch =>
        cases h
        obtain ⟨member, hmember, hfind⟩ := Group.search_eq_found hsearch
        obtain ⟨htag, hsource⟩ := find?_source_of_find?_tag hfind
        by_cases hmem : message.source ∈ owed
        · have hpayload := hbacked.due _ _ _ _ _ _ _ hstep hscript hmember hsource hmem
          have harrival : message.arrival =
              ⟨message.source, tag, (payload message.source).length⟩ := by
            unfold Message.arrival
            rw [htag, hpayload]
          rw [harrival]
          refine ⟨_, .finds hstep hscript hmember hsource hmem hpayload
            (hfollows.resume (howed _ hmem) ?_) rfl rfl rfl⟩
          intro hposts
          have hhelping := hfollows.helping hposts
          rw [hscript] at hhelping
          exact Script.helping_take_iff.2 (Script.helping_take_iff.1 hhelping)
        · have harrival : message.arrival =
              ⟨message.source, tag, message.payload.length⟩ := by
            unfold Message.arrival
            rw [htag]
          rw [harrival]
          exact hfollows.stray hscript (.stranger _ _ _ _ _ _ _ hscript hmember hfind hmem)
            (hstranger _ _ hmem)
    · next hsearch =>
        cases h
        exact ⟨position, .parks hscript hsearch hfollows⟩
    · next hsearch =>
        cases h
        exact hfollows.stray hscript (.deserted _ _ _ _ _ _ _ hscript hprogram hsearch) (hfault _)
    · cases h

theorem scriptStep_of_receive {time : Nat} {tag : Tag} {owed : RankSet} {payload : Nat → Bytes}
    {source length : Nat} {script : Script}
    {next : (Action.call (.receive source tag length)).Answer → Program α}
    (hfollows : actor.FollowsScript Rest position) (hbacked : position.Backed group rank)
    (hstep : position.inStep = true)
    (hscript : position.script = .take time tag owed payload (some source) :: script)
    (hprogram : actor.program = .act (.call (.receive source tag length)) next)
    (hlength : (payload source).length = length)
    (htaken : Program.FollowsScript Rest true (next (.ok ⟨payload source, hlength⟩))
      (Script.await time tag (owed.erase source) payload script))
    (hfault : ∀ fault, Program.FollowsScript Rest false (next (.error fault)) script.outward)
    (h : actor.advance group rank channel = some (group', actor')) :
    ∃ position', ScriptStep Rest group rank actor position group' actor' position' := by
  unfold advance at h
  rw [hprogram] at h
  simp only [call] at h
  split at h
  · next hstopped =>
      cases h
      exact hfollows.stray hscript (.stopped hstopped) (hfault _)
  · obtain ⟨howed, member, message, hmember, hfind, hpayload⟩ :=
      hbacked.found _ _ _ _ _ _ hstep hscript
    rw [Group.search_of_parked hmember hfind] at h
    simp only at h
    have hfits : message.payload.length = length := by
      rw [hpayload]
      exact hlength
    subst hfits
    have hanswer : (group.receive rank ⟨tag, some source⟩ message message.payload.length).1 =
        .ok ⟨payload source, hlength⟩ := by
      unfold Group.receive
      simp only [dif_pos, hpayload]
    rw [hanswer] at h
    cases h
    refine ⟨_, .takes hstep hscript hmember hfind howed (hfollows.resume htaken ?_) rfl rfl rfl⟩
    intro hposts
    have hhelping := hfollows.helping hposts
    rw [hscript] at hhelping
    obtain ⟨rest, hrest⟩ := Script.helping_take_iff.1 hhelping
    unfold Script.await
    split
    · rw [hrest]
      trivial
    · exact Script.helping_take_iff.2 ⟨rest, hrest⟩

theorem scriptStep_of_quiet {action : Action} {next : action.Answer → Program α}
    (hfollows : actor.FollowsScript Rest position) (hlost : Lost Rest group rank actor position)
    (hready : actor.pause.isSending = false)
    (hprogram : actor.program = .act action next) (hquiet : action.isQuiet = true)
    (hsame : Program.FollowsScript Rest false (.act action next) position.script)
    (hanswer : ∀ answer, Program.FollowsScript Rest false (next answer) position.script)
    (h : actor.advance group rank channel = some (group', actor')) :
    ∃ position', ScriptStep Rest group rank actor position group' actor' position' := by
  have hcalm := calm_advance hprogram hquiet hready h
  have hnext : Program.FollowsScript Rest false actor'.program position.script := by
    rcases hcalm.program with hprogram' | ⟨answer, hprogram'⟩
    · rw [hprogram']
      exact hsame
    · rw [hprogram']
      exact hanswer answer
  refine ⟨⟨false, position.script⟩, .wanders hlost hready hcalm.pause hcalm.group
    ⟨hnext, ?_, ?_, ?_, ?_⟩ (List.Sublist.refl _) rfl (fun _ => rfl) hcalm.posts hcalm.ticket⟩
  · rw [hcalm.pause]
    exact fun hsending => by cases hsending
  · rw [hcalm.posts]
    exact hfollows.helping
  · rw [hcalm.posts, hcalm.ticket]
    exact hfollows.posts
  · rw [hcalm.failure]
    exact hfollows.failure

theorem scriptStep_of_advance (hrestful : Restful Rest)
    (hfollows : actor.FollowsScript Rest position)
    (hbacked : position.Backed group rank)
    (hfails : ∀ posting, actor.posting? (.main channel) = some posting →
      group.refuses rank posting = false)
    (h : actor.advance group rank channel = some (group', actor')) :
    ∃ position', ScriptStep Rest group rank actor position group' actor' position' := by
  by_cases hready : actor.pause.isSending = false
  · have hprogram := hfollows.program
    obtain ⟨inStep, script⟩ := position
    simp only at hprogram
    generalize heq : actor.program = program at hprogram
    cases hprogram with
    | rest hrest =>
        cases program with
        | done result =>
            unfold advance at h
            rw [heq] at h
            cases h
        | act action next =>
            refine scriptStep_of_quiet hfollows (.resting action next heq hrest) hready heq
              (hrestful.quiet _ _ _ _ hrest) ?_ ?_ h
            · exact .rest (hrestful.astray _ _ _ hrest)
            · exact fun answer => .rest (hrestful.answer _ _ _ _ hrest answer)
    | log hnext =>
        unfold advance at h
        rw [heq] at h
        cases h
        exact ⟨_, .steady hready ⟨hnext, fun hsending => (by cases hsending), hfollows.helping,
          hfollows.posts, hfollows.failure⟩ rfl rfl rfl⟩
    | reserve hnext =>
        unfold advance at h
        rw [heq] at h
        cases h
        exact ⟨_, .steady hready (hfollows.resume hnext hfollows.helping) rfl rfl rfl⟩
    | send hnext => exact scriptStep_of_send hfollows hready rfl heq hnext hfails h
    | spawn hhelping hclock hnext =>
        exact scriptStep_of_spawn hfollows rfl heq hhelping hclock hnext h
    | join hnext => exact scriptStep_of_join hfollows rfl heq hnext h
    | probe howed hstranger hfault =>
        exact scriptStep_of_probe hfollows hbacked rfl rfl heq howed hstranger hfault h
    | receive hlength htaken hfault =>
        exact scriptStep_of_receive hfollows hbacked rfl rfl heq hlength htaken hfault h
    | wander hquiet hnext =>
        exact scriptStep_of_quiet hfollows (.astray rfl) hready heq hquiet
          (.wander hquiet hnext) hnext h
  · cases hpause : actor.pause with
    | sending ticket => exact scriptStep_of_sending hfollows hpause hfails h
    | none => exact absurd (by rw [hpause]; rfl) hready
    | gathered epoch => exact absurd (by rw [hpause]; rfl) hready

theorem scriptStep_of_help (hfollows : actor.FollowsScript Rest position)
    (hfails : ∀ posting, actor.posting? .helper = some posting →
      group.refuses rank posting = false)
    (h : actor.help group rank = some (group', actor')) :
    ScriptStep Rest group rank actor position group' actor' position := by
  unfold help at h
  split at h
  · cases h
  · next post posts hposts =>
      have hhelping : position.script.Helping := by
        apply hfollows.helping
        rw [hposts]
        exact List.cons_ne_nil post posts
      split at h
      · next hticket =>
          have hposting : actor.posting? .helper = some (post, none) := by
            unfold posting?
            rw [hposts, hticket]
            rfl
          have hrefuses := hfails _ hposting
          split at h
          · next henqueue =>
              rw [Group.refuses_of_enqueue henqueue] at hrefuses
              cases hrefuses
          · next henqueue =>
              cases h
              exact .posts hposts hticket henqueue
                ⟨hfollows.program, hfollows.paused, fun _ => hhelping, fun _ => hticket,
                  hfollows.failure⟩
                rfl hticket rfl
          · next ticket henqueue =>
              cases h
              refine .posts hposts hticket henqueue
                ⟨hfollows.program, hfollows.paused, fun _ => hhelping, ?_, hfollows.failure⟩ rfl rfl
                (by simp [hposts])
              intro hnil
              rw [hposts] at hnil
              cases hnil
      · next ticket hticket =>
          have hposting : actor.posting? .helper = some (post, some ticket) := by
            unfold posting?
            rw [hposts, hticket]
            rfl
          have hrefuses := hfails _ hposting
          split at h
          · cases h
          · next hconfirmation =>
              cases h
              exact .confirmed hposts hticket hconfirmation
                ⟨hfollows.program, hfollows.paused, fun _ => hhelping, fun _ => rfl,
                  hfollows.failure⟩
                rfl rfl rfl
          · next hconfirmation =>
              rw [Group.refuses_of_confirmation hconfirmation] at hrefuses
              cases hrefuses

end Actor

namespace World

variable {α : Type} {world world' : World α} {move : Move}

theorem step_eq_some (h : world.step move = some world') :
    ∃ actor group' actor', world.actors[move.rank]? = some actor ∧
      world' = ⟨group', world.actors.set move.rank actor'⟩ ∧
      ((∃ channel, move.thread = .main channel ∧
          actor.advance world.group move.rank channel = some (group', actor')) ∨
        (move.thread = .helper ∧ actor.help world.group move.rank = some (group', actor'))) := by
  unfold step at h
  split at h
  · cases h
  · next actor hactor =>
      obtain ⟨⟨group', actor'⟩, hnext, heq⟩ := Option.map_eq_some_iff.1 h
      refine ⟨actor, group', actor', hactor, heq.symm, ?_⟩
      split at hnext
      · next channel hthread => exact .inl ⟨channel, hthread, hnext⟩
      · next hthread => exact .inr ⟨hthread, hnext⟩

theorem Reaches.length_actors (h : world.Reaches world') :
    world'.actors.length = world.actors.length := by
  induction h with
  | refl => rfl
  | step move hstep _ ih =>
      obtain ⟨actor, group', actor', _, rfl, _⟩ := step_eq_some hstep
      rw [ih, List.length_set]

/-- A step of a rank that follows its script, if no send fails at it. -/
theorem exists_scriptStep_of_step {Rest : Bool → Program α → Script → Prop} {position : Position}
    (hrestful : Restful Rest)
    (hfollows : ∀ actor, world.actors[move.rank]? = some actor → actor.FollowsScript Rest position)
    (hbacked : position.Backed world.group move.rank) (hfails : world.sendFails move = false)
    (h : world.step move = some world') :
    ∃ actor group' actor' position', world.actors[move.rank]? = some actor ∧
      world' = ⟨group', world.actors.set move.rank actor'⟩ ∧
      ScriptStep Rest world.group move.rank actor position group' actor' position' := by
  obtain ⟨actor, group', actor', hactor, hworld', hthread⟩ := step_eq_some h
  have hrefuses : ∀ posting, actor.posting? move.thread = some posting →
      world.group.refuses move.rank posting = false := by
    intro posting hposting
    unfold sendFails at hfails
    simpa only [hactor, hposting] using hfails
  rcases hthread with ⟨channel, hthread, hadvance⟩ | ⟨hthread, hhelp⟩
  · rw [hthread] at hrefuses
    obtain ⟨position', hscriptStep⟩ :=
      Actor.scriptStep_of_advance hrestful (hfollows actor hactor) hbacked hrefuses hadvance
    exact ⟨actor, group', actor', position', hactor, hworld', hscriptStep⟩
  · rw [hthread] at hrefuses
    exact ⟨actor, group', actor', position, hactor, hworld',
      Actor.scriptStep_of_help (hfollows actor hactor) hrefuses hhelp⟩

end World

end RankExchange
