import Mathlib.Logic.Function.Basic
import RankExchange.Proofs.LaneAccounts
import RankExchange.Proofs.KnownResults

/-!
# Runs that follow scripts

A world follows scripts if every rank follows its own and the accounts of all
lanes are in order.  This lasts as long as no send fails, whatever the
schedule.  Ranks that stop at different points of one long script leave
something over at its end: `spare` is what a source would have sent and
`missing` what a destination would have taken.
-/

namespace RankExchange

namespace World

variable {α : Type}

def unsent (world : World α) (position : Nat → Position) (rank : Nat) : List (Nat × Envelope) :=
  match world.actors[rank]? with
  | none => []
  | some actor => actor.unsent (position rank).script

structure FollowsScripts (used : Tag → Prop) (Rest : Nat → Bool → Program α → Script → Prop)
    (spare missing : Nat → Nat → Tag → List (Nat × Bytes)) (position : Nat → Position)
    (world : World α) : Prop where
  follows : ∀ rank (actor : Actor α), world.actors[rank]? = some actor →
    actor.FollowsScript (Rest rank) (position rank)
  orderly : ∀ rank, (position rank).script.Orderly used
  apart : ∀ rank, (position rank).inStep = true → world.group.Apart used rank
  found : ∀ rank, (position rank).Found world.group rank
  lanes : ∀ source dest tag, used tag → (position dest).inStep = true →
    Accounted (world.group.lane dest source tag)
      (Script.select dest tag (world.unsent position source) ++ spare source dest tag)
      (Script.select source tag (position dest).script.incoming ++ missing source dest tag)
      (position source).script

variable {used : Tag → Prop} {Rest : Nat → Bool → Program α → Script → Prop}
  {spare missing : Nat → Nat → Tag → List (Nat × Bytes)} {position : Nat → Position}
  {world world' : World α}

theorem unsent_of_getElem? {rank : Nat} {actor : Actor α}
    (h : world.actors[rank]? = some actor) :
    world.unsent position rank = actor.unsent (position rank).script := by
  unfold unsent
  rw [h]

theorem unsent_set_self {rank : Nat} {actor actor' : Actor α} {group' : Group}
    {position' : Position} (h : world.actors[rank]? = some actor) :
    unsent ⟨group', world.actors.set rank actor'⟩ (Function.update position rank position') rank =
      actor'.unsent position'.script := by
  have hrank : rank < world.actors.length := (List.getElem?_eq_some_iff.1 h).1
  have hset : (world.actors.set rank actor')[rank]? = some actor' := by simp [hrank]
  rw [unsent_of_getElem? hset, Function.update_self]

theorem unsent_set_of_ne {rank other : Nat} {actor' : Actor α} {group' : Group}
    {position' : Position} (h : other ≠ rank) :
    unsent ⟨group', world.actors.set rank actor'⟩ (Function.update position rank position') other =
      world.unsent position other := by
  unfold unsent
  rw [Function.update_of_ne h, List.getElem?_set_ne (Ne.symm h)]

namespace FollowsScripts

theorem payload_of_found (hscripts : world.FollowsScripts used Rest spare missing position)
    {dest : Nat}
    {time : Nat} {tag : Tag} {owed : RankSet} {payload : Nat → Bytes} {found : Option Nat}
    {script : Script} {member : Member} {source : Nat} {message : Message}
    (hstep : (position dest).inStep = true)
    (hscript : (position dest).script = .take time tag owed payload found :: script)
    (hmember : world.group.members[dest]? = some member)
    (hfound : member.inbox.parked.find? (Wanted.accepts ⟨tag, some source⟩) = some message)
    (howed : source ∈ owed) : message.payload = payload source := by
  have hused : used tag :=
    (hscripts.orderly dest).used time tag owed payload found (Script.mem_of_eq_cons hscript)
  have hlane := hscripts.lanes source dest tag hused hstep
  rw [Group.lane_of_getElem? hmember, Inbox.lane_eq_cons_of_found hfound, hscript,
    Script.select_incoming_take, if_pos ⟨howed, rfl⟩] at hlane
  exact hlane.payload_eq

theorem backed (hscripts : world.FollowsScripts used Rest spare missing position) (rank : Nat) :
    (position rank).Backed world.group rank where
  found := by
    intro time tag owed payload source script hstep hscript
    obtain ⟨howed, member, message, hmember, hfound⟩ :=
      hscripts.found rank time tag owed payload source script hstep hscript
    exact ⟨howed, member, message, hmember, hfound,
      hscripts.payload_of_found hstep hscript hmember hfound howed⟩
  due := by
    intro time tag owed payload script member message hstep hscript hmember hfound howed
    exact hscripts.payload_of_found hstep hscript hmember hfound howed

/-- The accounts of all lanes are in order after a step of one rank. -/
theorem lanes_of_effect (hscripts : world.FollowsScripts used Rest spare missing position)
    {rank : Nat} {actor actor' : Actor α} {group' : Group} {position' : Position}
    (hactor : world.actors[rank]? = some actor)
    (heffect : Effect used world.group rank (actor.unsent (position rank).script)
      (position rank) group' (actor'.unsent position'.script) position')
    (htimes : ∀ duty ∈ position'.script, ∃ duty' ∈ (position rank).script, duty'.time = duty.time)
    (hinStep : position'.inStep = true → (position rank).inStep = true)
    (source dest : Nat) (tag : Tag) (hused : used tag)
    (hstep : (Function.update position rank position' dest).inStep = true) :
    Accounted (group'.lane dest source tag)
      (Script.select dest tag (unsent ⟨group', world.actors.set rank actor'⟩
        (Function.update position rank position') source) ++ spare source dest tag)
      (Script.select source tag (Function.update position rank position' dest).script.incoming ++
        missing source dest tag) (Function.update position rank position' source).script := by
  have hbefore : (position dest).inStep = true := by
    by_cases hdest : dest = rank
    · rw [hdest, Function.update_self] at hstep
      rw [hdest]
      exact hinStep hstep
    · rw [Function.update_of_ne hdest] at hstep
      exact hstep
  have hlane := hscripts.lanes source dest tag hused hbefore
  have htimes' : ∀ duty ∈ (Function.update position rank position' source).script,
      ∃ duty' ∈ (position source).script, duty'.time = duty.time := by
    by_cases hsource : source = rank
    · rw [hsource, Function.update_self]
      exact htimes
    · rw [Function.update_of_ne hsource]
      exact fun duty hduty => ⟨duty, hduty, rfl⟩
  cases heffect with
  | keeps hsame hunsent _ hsettles =>
      have hsent : unsent ⟨group', world.actors.set rank actor'⟩
          (Function.update position rank position') source = world.unsent position source := by
        by_cases hsource : source = rank
        · rw [hsource, unsent_set_self hactor, hunsent, unsent_of_getElem? hactor]
        · exact unsent_set_of_ne hsource
      rw [hsent]
      refine (Accounted.settle (missing source dest tag) ?_ hlane).mono htimes'
      by_cases hdest : dest = rank
      · subst hdest
        rw [Function.update_self] at hstep ⊢
        exact hsettles hstep source tag hused
      · rw [Function.update_of_ne hdest, hsame.lane hdest]
        exact .inl ⟨rfl, rfl⟩
  | queues time post ticket henqueue hunsent htime hincoming =>
      have hdue : (Function.update position rank position' dest).script.incoming =
          (position dest).script.incoming := by
        by_cases hdest : dest = rank
        · rw [hdest, Function.update_self, hincoming]
        · rw [Function.update_of_ne hdest]
      rw [hdue]
      have hlast := hlane.mono htimes'
      by_cases hsource : source = rank
      · subst hsource
        rw [unsent_of_getElem? hactor, hunsent] at hlast
        rw [unsent_set_self hactor]
        apply hlast.queue (hscripts.apart dest hbefore) hused henqueue
        rw [Function.update_self]
        exact htime
      · rw [unsent_set_of_ne hsource, Group.lane_enqueue_of_ne henqueue (fun h => hsource h.2.1)]
        exact hlast

theorem of_scriptStep (hscripts : world.FollowsScripts used Rest spare missing position)
    {rank : Nat} {actor actor' : Actor α} {group' : Group} {position' : Position}
    (hactor : world.actors[rank]? = some actor)
    (hscriptStep : ScriptStep (Rest rank) world.group rank actor (position rank) group' actor'
      position') :
    FollowsScripts used Rest spare missing (Function.update position rank position')
      ⟨group', world.actors.set rank actor'⟩ := by
  have hrank : rank < world.actors.length := (List.getElem?_eq_some_iff.1 hactor).1
  have horderly := hscripts.orderly rank
  have heffect := hscriptStep.effect (hscripts.follows rank actor hactor) horderly
    (hscripts.apart rank)
  have hinStep : position'.inStep = true → (position rank).inStep = true := by
    intro hstep
    rcases hscriptStep.proceeds with ⟨hsame, _⟩ | ⟨hlost, _⟩
    · rw [← hsame]
      exact hstep
    · rw [hlost] at hstep
      cases hstep
  have hactors : ∀ other, other ≠ rank →
      (world.actors.set rank actor')[other]? = world.actors[other]? :=
    fun other hne => List.getElem?_set_ne (Ne.symm hne)
  refine ⟨?_, ?_, ?_, ?_, hscripts.lanes_of_effect hactor heffect hscriptStep.exists_time hinStep⟩
  · apply (Function.forall_update_iff position (fun other position => ∀ actor'' : Actor α,
      (world.actors.set rank actor')[other]? = some actor'' →
        actor''.FollowsScript (Rest other) position)).2
    refine ⟨?_, fun other hne => ?_⟩
    · intro actor'' hself
      have hset : (world.actors.set rank actor')[rank]? = some actor' := by simp [hrank]
      rw [hset] at hself
      cases hself
      exact hscriptStep.follows
    · rw [hactors other hne]
      exact hscripts.follows other
  · apply (Function.forall_update_iff position (fun _ position => position.script.Orderly used)).2
    exact ⟨hscriptStep.orderly horderly, fun other _ => hscripts.orderly other⟩
  · apply (Function.forall_update_iff position (fun other position => position.inStep = true →
      group'.Apart used other)).2
    cases heffect with
    | keeps hsame _ hapart =>
        exact ⟨hapart, fun other hne hstep =>
          (hscripts.apart other hstep).of_members (hsame.member other hne)⟩
    | queues _ _ _ henqueue =>
        exact ⟨fun hstep => Group.apart_enqueue (hscripts.apart rank (hinStep hstep)) henqueue,
          fun other _ hstep => Group.apart_enqueue (hscripts.apart other hstep) henqueue⟩
  · apply (Function.forall_update_iff position
      (fun other position => position.Found group' other)).2
    refine ⟨hscriptStep.found horderly (hscripts.found rank), fun other hne => ?_⟩
    cases heffect with
    | keeps hsame => exact (hscripts.found other).of_members (hsame.member other hne)
    | queues _ _ _ henqueue => exact (hscripts.found other).enqueue henqueue

theorem exists_scriptStep (hscripts : world.FollowsScripts used Rest spare missing position)
    {move : Move} (hrestful : Restful (Rest move.rank)) (hfails : world.sendFails move = false)
    (h : world.step move = some world') :
    ∃ actor group' actor' position', world.actors[move.rank]? = some actor ∧
      world' = ⟨group', world.actors.set move.rank actor'⟩ ∧
      ScriptStep (Rest move.rank) world.group move.rank actor
        (position move.rank) group' actor' position' :=
  exists_scriptStep_of_step hrestful (hscripts.follows move.rank)
    (hscripts.backed move.rank) hfails h

end FollowsScripts

/-- Some sequence of steps at which no send fails leads from one world to
another. -/
inductive ReachesUnfailing : World α → World α → Prop
  | refl (world : World α) : ReachesUnfailing world world
  | step {first second last : World α} (move : Move) (hfails : first.sendFails move = false)
      (h : first.step move = some second) (rest : ReachesUnfailing second last) :
      ReachesUnfailing first last

/-- Takes the steps of a schedule, if each can be taken and no send fails. -/
def followUnfailing (world : World α) : List Move → Option (World α)
  | [] => some world
  | move :: rest =>
      if world.sendFails move then none
      else (world.step move).bind (fun next => next.followUnfailing rest)

theorem reachesUnfailing_of_follow {moves : List Move} :
    ∀ {first last : World α}, first.followUnfailing moves = some last →
      first.ReachesUnfailing last := by
  induction moves with
  | nil =>
      intro first last h
      cases h
      exact .refl first
  | cons move moves ih =>
      intro first last h
      unfold followUnfailing at h
      split at h
      · cases h
      · next hfails =>
          obtain ⟨next, hstep, hrest⟩ := Option.bind_eq_some_iff.1 h
          exact .step move (Bool.not_eq_true _ ▸ hfails) hstep (ih hrest)

theorem FollowsScripts.reaches (hscripts : world.FollowsScripts used Rest spare missing position)
    (hrestful : ∀ rank, Restful (Rest rank)) (h : world.ReachesUnfailing world') :
    ∃ position', world'.FollowsScripts used Rest spare missing position' := by
  induction h generalizing position with
  | refl => exact ⟨position, hscripts⟩
  | step move hfails hstep _ ih =>
      obtain ⟨actor, group', actor', position', hactor, rfl, hscriptStep⟩ :=
        hscripts.exists_scriptStep (hrestful move.rank) hfails hstep
      exact ih (hscripts.of_scriptStep hactor hscriptStep)

theorem restful_settles (good : Except Fault α → Prop) :
    Restful (fun _ program _ => Program.Settles good program) where
  astray := fun _ _ _ h => h
  quiet := fun _ _ _ _ h => h.1
  answer := fun _ _ _ _ h answer => h.2 answer

/-- Every program can still come to an end of which is known what is known of all
its ends. -/
theorem FollowsScripts.exists_takes {good : Nat → Except Fault α → Prop}
    (hscripts : world.FollowsScripts used
      (fun rank _ program _ => program.Settles (good rank)) spare
      missing position) {rank : Nat} {actor : Actor α} (hactor : world.actors[rank]? = some actor) :
    ∃ turns result, actor.program.Takes turns result ∧ good rank result := by
  have hleads : ∀ {inStep program script}, Program.FollowsScript
      (fun _ program _ => Program.Settles (good rank) program) inStep program script →
      ∃ turns result, program.Takes turns result ∧ good rank result := by
    intro inStep program script hfollows
    obtain ⟨turns, last, hleads, _, _, hrest⟩ := hfollows.exists_leads
    obtain ⟨more, result, htakes, hgood⟩ := hrest.exists_takes
    exact ⟨turns ++ more, result, hleads.append htakes, hgood⟩
  exact hleads (hscripts.follows rank actor hactor).program

def starting (group : Group) (program : Nat → Program α) : World α where
  group := group
  actors := (List.range group.size).map (fun rank => { program := program rank })

theorem getElem?_starting {group : Group} {program : Nat → Program α} {rank : Nat}
    {actor : Actor α} (h : (starting group program).actors[rank]? = some actor) :
    rank < group.size ∧ actor = { program := program rank } := by
  unfold starting at h
  rw [List.getElem?_map] at h
  obtain ⟨other, hother, heq⟩ := Option.map_eq_some_iff.1 h
  obtain ⟨hlt, hrank⟩ := List.getElem?_eq_some_iff.1 hother
  rw [List.getElem_range] at hrank
  rw [List.length_range] at hlt
  exact ⟨hlt, by rw [← heq, hrank]⟩

theorem unsent_starting {group : Group} {program : Nat → Program α} {script : Nat → Script}
    (habsent : ∀ rank, group.size ≤ rank → script rank = []) (rank : Nat) :
    (starting group program).unsent (fun rank => ⟨true, script rank⟩) rank =
      (script rank).outgoing := by
  unfold unsent
  cases hactor : (starting group program).actors[rank]? with
  | none =>
      have hle : group.size ≤ rank := by
        have hlength := List.getElem?_eq_none_iff.1 hactor
        unfold starting at hlength
        rwa [List.length_map, List.length_range] at hlength
      rw [habsent rank hle]
      rfl
  | some actor =>
      obtain ⟨_, rfl⟩ := getElem?_starting hactor
      rfl

end World

def Group.Quiet (used : Tag → Prop) (group : Group) : Prop :=
  ∀ (rank : Nat) (member : Member), group.members[rank]? = some member →
    ∀ message ∈ member.inbox.waiting, ¬ used message.tag

namespace Group.Quiet

variable {used : Tag → Prop} {group : Group}

theorem apart (h : group.Quiet used) (rank : Nat) : group.Apart used rank := by
  intro member hmember
  refine ⟨fun message hmessage hused => ?_, fun message hmessage hused => ?_⟩
  · have hwaits : message ∈ member.inbox.waiting :=
      List.mem_append_left _ (List.mem_append_right _ hmessage)
    exact absurd hused (h rank member hmember message hwaits)
  · have hwaits : message ∈ member.inbox.waiting := List.mem_append_right _ hmessage
    exact absurd hused (h rank member hmember message hwaits)

theorem lane (h : group.Quiet used) (dest source : Nat) {tag : Tag} (hused : used tag) :
    group.lane dest source tag = [] := by
  apply List.eq_nil_iff_forall_not_mem.2
  intro message hmessage
  obtain ⟨member, hmember, hlane⟩ := exists_member_of_mem_lane hmessage
  obtain ⟨hwaits, _, htag⟩ := Inbox.mem_lane_iff.1 hlane
  apply h dest member hmember message hwaits
  rw [htag]
  exact hused

end Group.Quiet

namespace World

variable {α : Type} {used : Tag → Prop} {Rest : Nat → Bool → Program α → Script → Prop}
  {spare missing : Nat → Nat → Tag → List (Nat × Bytes)} {group : Group}
  {program : Nat → Program α} {script : Nat → Script}

theorem followsScripts_starting (hquiet : group.Quiet used)
    (hfollows : ∀ rank, rank < group.size →
      Program.FollowsScript (Rest rank) true (program rank) (script rank))
    (habsent : ∀ rank, group.size ≤ rank → script rank = [])
    (horderly : ∀ rank, (script rank).Orderly used)
    (hfresh : ∀ rank time tag owed payload found,
      .take time tag owed payload found ∈ script rank → found = none)
    (hbalanced : ∀ source dest tag,
      Script.select dest tag (script source).outgoing ++ spare source dest tag =
        Script.select source tag (script dest).incoming ++ missing source dest tag) :
    (starting group program).FollowsScripts used Rest spare missing
      (fun rank => ⟨true, script rank⟩) where
  follows := by
    intro rank actor hactor
    obtain ⟨hrank, rfl⟩ := getElem?_starting hactor
    exact ⟨hfollows rank hrank, fun hsending => (by cases hsending), fun hne => absurd rfl hne,
      fun _ => rfl, rfl⟩
  orderly := horderly
  apart := fun rank _ => hquiet.apart rank
  found := by
    intro rank
    apply Position.Found.of_begun
    intro time tag owed payload found rest hscript
    exact hfresh rank time tag owed payload found (Script.mem_of_eq_cons hscript)
  lanes := by
    intro source dest tag hused _
    have hlane : (starting group program).group.lane dest source tag = [] :=
      hquiet.lane dest source hused
    rw [hlane, unsent_starting habsent, hbalanced source dest tag]
    exact ⟨[], rfl, fun entry hentry => (by cases hentry), rfl⟩

end World

end RankExchange
