import RankExchange.Proofs.Sessions

/-!
# Ranks that leave together

A rank opens its session, works, waits at the barrier for all others and leaves.
While the barrier is closed, nothing but its work can hold a rank up, and a world in
step never gets stuck.  The last one at the barrier finds all others there, and
from then on nobody waits for anybody.
-/

namespace RankExchange

namespace Program

variable {β : Type}

/-- A program that comes to an inner one where it is granted all that it may ask
for. -/
inductive Opens (identity : Identity) (inner : Program β) : Program β → Prop
  | ready : Opens identity inner inner
  | log {event : Event} {next : (Action.log event).Answer → Program β}
      (h : Opens identity inner (next ())) : Opens identity inner (.act (.log event) next)
  | init {required : Threading} {next : (Action.call (.init required)).Answer → Program β}
      (h : Opens identity inner (next (.ok .multiple))) :
      Opens identity inner (.act (.call (.init required)) next)
  | identify {next : (Action.call .identify).Answer → Program β}
      (h : Opens identity inner (next identity)) :
      Opens identity inner (.act (.call .identify) next)

/-- A program that comes to its end and needs nobody for it. -/
inductive Departs (value : β) : Program β → Prop
  | done : Departs value (.done (.ok value))
  | log {event : Event} {next : (Action.log event).Answer → Program β}
      (h : Departs value (next ())) : Departs value (.act (.log event) next)
  | finalize {next : (Action.call .finalize).Answer → Program β}
      (h : Departs value (next (.ok ()))) : Departs value (.act (.call .finalize) next)
  | leave {next : (Action.call .leave).Answer → Program β}
      (h : Departs value (next ())) : Departs value (.act (.call .leave) next)

/-- A program that waits once for all others and then departs. -/
inductive Gathers (value : β) : Program β → Prop
  | log {event : Event} {next : (Action.log event).Answer → Program β}
      (h : Gathers value (next ())) : Gathers value (.act (.log event) next)
  | barrier {next : (Action.call .barrier).Answer → Program β}
      (h : Departs value (next (.ok ()))) : Gathers value (.act (.call .barrier) next)

end Program

namespace Actor

variable {α β : Type} {core : Actor α} {actor actor' : Actor β} {group group' : Group}
  {rank epoch : Nat} {channel : Channel} {value : β}

def isGathered (actor : Actor β) : Bool :=
  match actor.pause with
  | .gathered _ => true
  | _ => false

/-- How far a rank is in its session and in its work, while the barrier is closed. -/
inductive Stage (identity : Identity) (close : Except Fault α → Program β) (value : β)
    (epoch : Nat) : Actor α → Actor β → Prop
  | opens {work : Program α} {program : Program β} {older : List Event}
      (h : Program.Opens identity (work.attempt.bind close) program) :
      Stage identity close value epoch { program := work } { program, trail := older }
  | works (core : Actor α) (older : List Event) :
      Stage identity close value epoch core (core.framed close older)
  | gathers {core : Actor α} {actor : Actor β} {outcome : Except Fault α}
      (hcore : core.program = .done outcome) (hidle : core.posts = []) (hposts : actor.posts = [])
      (hpause : actor.pause = .none) (h : actor.program.Gathers value) :
      Stage identity close value epoch core actor
  | waits {core : Actor α} {actor : Actor β} {outcome : Except Fault α}
      {next : (Action.call .barrier).Answer → Program β}
      (hcore : core.program = .done outcome) (hidle : core.posts = []) (hposts : actor.posts = [])
      (hpause : actor.pause = .gathered epoch)
      (hprogram : actor.program = .act (.call .barrier) next)
      (h : (next (.ok ())).Departs value) : Stage identity close value epoch core actor

/-- What a rank does once the barrier has opened. -/
inductive Freed (epoch : Nat) (value : β) (actor : Actor β) : Prop
  | departs (hposts : actor.posts = []) (h : actor.program.Departs value)
  | waited {old : Nat} {next : (Action.call .barrier).Answer → Program β}
      (hposts : actor.posts = []) (hpause : actor.pause = .gathered old) (hne : epoch ≠ old)
      (hprogram : actor.program = .act (.call .barrier) next)
      (h : (next (.ok ())).Departs value)

theorem isGathered_of_none (hpause : actor.pause = .none) : actor.isGathered = false := by
  unfold isGathered
  rw [hpause]

theorem isGathered_of_gathered (hpause : actor.pause = .gathered epoch) :
    actor.isGathered = true := by
  unfold isGathered
  rw [hpause]

theorem help_of_nil (hposts : actor.posts = []) : actor.help group rank = none := by
  unfold help
  rw [hposts]

theorem advance_of_opens {inner program : Program β} {member : Member}
    (h : Program.Opens ⟨rank, group.size⟩ inner program)
    (hmember : group.members[rank]? = some member)
    (hrunning : member.stopped = false) (hgrant : member.grant = .multiple)
    (older : List Event) (channel : Channel) :
    program = inner ∨ ∃ program' older', Program.Opens ⟨rank, group.size⟩ inner program' ∧
      Actor.advance { program, trail := older } group rank channel =
        some (group, { program := program', trail := older' }) := by
  cases h with
  | ready => exact .inl rfl
  | @log event next h => exact .inr ⟨next (), event :: older, h, rfl⟩
  | @identify next h => exact .inr ⟨next ⟨rank, group.size⟩, older, h, rfl⟩
  | @init required next h =>
      refine .inr ⟨next (.ok .multiple), older, h, ?_⟩
      unfold advance
      simp only [call, hmember, hrunning, hgrant, Bool.false_eq_true, if_false]
      rfl

/-- A rank on its way to the barrier comes to it, and then waits there or opens it. -/
theorem advance_of_gathers (h : actor.program.Gathers value) (hpause : actor.pause = .none)
    (hrunning : group.isStopped rank = false) (channel : Channel) :
    (∃ actor' : Actor β, actor.advance group rank channel = some (group, actor') ∧
      actor'.program.Gathers value ∧ actor'.pause = .none ∧ actor'.posts = actor.posts) ∨
    ∃ next : (Action.call .barrier).Answer → Program β,
      actor.program = .act (.call .barrier) next ∧ (next (.ok ())).Departs value ∧
      actor.advance group rank channel =
        if group.arrived + 1 < group.size then
          some ({ group with arrived := group.arrived + 1 },
            { actor with pause := .gathered group.epoch })
        else
          some ({ group with arrived := 0, epoch := group.epoch + 1 },
            actor.resume (next (.ok ()))) := by
  generalize hprogram : actor.program = program at h
  cases h with
  | @log event next h =>
      refine .inl ⟨{ actor.resume (next ()) with trail := event :: actor.trail }, ?_, h, rfl, rfl⟩
      unfold advance
      rw [hprogram]
  | @barrier next h =>
      have hcall : actor.advance group rank channel =
          actor.call group rank channel .barrier next := by
        unfold advance
        rw [hprogram]
      refine .inr ⟨next, rfl, h, ?_⟩
      rw [hcall, ← hprogram]
      simp only [call, hpause, hrunning, Bool.false_eq_true, if_false]

theorem epoch_leave (group : Group) (rank : Nat) : (group.leave rank).epoch = group.epoch := by
  have hfold : ∀ (messages : List Message) (group : Group),
      (messages.foldl (fun group message => group.settle message.ticket .discarded) group).epoch =
        group.epoch := by
    intro messages
    induction messages with
    | nil => exact fun _ => rfl
    | cons message messages ih =>
        intro group
        rw [List.foldl_cons, ih]
        cases message.ticket <;> rfl
  unfold Group.leave
  split
  · rfl
  · rw [hfold]

theorem epoch_finalize (group : Group) (rank : Nat) :
    (group.finalize rank).epoch = group.epoch := by
  unfold Group.finalize Group.modify
  split <;> rfl

/-- Behind the barrier a rank goes on until it has ended, whatever the others do. -/
theorem Freed.advance (h : actor.Freed group.epoch value) (rank : Nat) (channel : Channel) :
    actor.program = .done (.ok value) ∨ ∃ group' actor',
      actor.advance group rank channel = some (group', actor') ∧
      group'.epoch = group.epoch ∧ actor'.Freed group.epoch value := by
  cases h with
  | departs hposts h =>
      generalize hprogram : actor.program = program at h
      unfold Actor.advance
      rw [hprogram]
      cases h with
      | done => exact .inl rfl
      | log h => exact .inr ⟨_, _, rfl, rfl, .departs hposts h⟩
      | finalize h => exact .inr ⟨_, _, rfl, epoch_finalize _ _, .departs hposts h⟩
      | leave h => exact .inr ⟨_, _, rfl, epoch_leave _ _, .departs hposts h⟩
  | @waited old next hposts hpause hne hprogram h =>
      refine .inr ⟨group, actor.resume (next (.ok ())), ?_, rfl, .departs hposts h⟩
      unfold Actor.advance
      rw [hprogram]
      simp only [call, hpause, if_neg hne]

end Actor

namespace World

variable {α β : Type} {used : Tag → Prop} {value : Nat → α}
  {close : Nat → Except Fault α → Program β} {ending : Nat → β} {cores : List (Actor α)}
  {position position' : Nat → Position} {world world' : World β} {rank : Nat} {core core' : Actor α}
  {actor actor' : Actor β}

/-- The barrier is closed, and the ranks are in step in their work. -/
structure BeforeBarrier (used : Tag → Prop) (value : Nat → α)
    (close : Nat → Except Fault α → Program β) (ending : Nat → β) (cores : List (Actor α))
    (position : Nat → Position) (world : World β) : Prop where
  working : InStep used value position ⟨world.group, cores⟩
  staffed : world.actors.length = cores.length
  stages : ∀ (rank : Nat) (core : Actor α) (actor : Actor β), cores[rank]? = some core →
    world.actors[rank]? = some actor →
    Actor.Stage ⟨rank, world.group.size⟩ (close rank) (ending rank) world.group.epoch core actor
  granted : ∀ grant ∈ world.group.members.map Member.grant, grant = .multiple
  arrived : world.group.arrived = world.actors.countP Actor.isGathered
  early : world.group.arrived < world.group.size

def PastBarrier (ending : Nat → β) (world : World β) : Prop :=
  ∀ (rank : Nat) (actor : Actor β), world.actors[rank]? = some actor →
    actor.Freed world.group.epoch (ending rank)

/-- Nobody waits at the barrier in the middle of the work. -/
theorem InStep.not_isGathered {world : World α} (h : world.InStep used value position)
    (hcore : world.actors[rank]? = some core) : core.isGathered = false := by
  unfold Actor.isGathered
  split
  · next epoch hpause => exact absurd hpause (h.ungathered rank core hcore epoch)
  · rfl

namespace BeforeBarrier

theorem exists_core (h : world.BeforeBarrier used value close ending cores position)
    (hactor : world.actors[rank]? = some actor) : ∃ core, cores[rank]? = some core := by
  have hrank : rank < cores.length := by
    rw [← h.staffed]
    exact (List.getElem?_eq_some_iff.1 hactor).1
  exact ⟨_, List.getElem?_eq_getElem hrank⟩

theorem exists_actor (h : world.BeforeBarrier used value close ending cores position)
    (hcore : cores[rank]? = some core) : ∃ actor, world.actors[rank]? = some actor := by
  have hrank : rank < world.actors.length := by
    rw [h.staffed]
    exact (List.getElem?_eq_some_iff.1 hcore).1
  exact ⟨_, List.getElem?_eq_getElem hrank⟩

theorem exists_member (h : world.BeforeBarrier used value close ending cores position)
    (hcore : cores[rank]? = some core) :
    ∃ member, world.group.members[rank]? = some member ∧ member.stopped = false ∧
      member.grant = .multiple := by
  have hrank : rank < world.group.members.length := h.working.lt_size_of_actor hcore
  have hmember := List.getElem?_eq_getElem hrank
  have hgrant := List.mem_map_of_mem (f := Member.grant) (List.mem_of_getElem? hmember)
  exact ⟨_, hmember, h.working.intact.running rank _ hmember, h.granted _ hgrant⟩

theorem countP_set (hactor : world.actors[rank]? = some actor) (actor' : Actor β) :
    (world.actors.set rank actor').countP Actor.isGathered +
        (if actor.isGathered = true then 1 else 0) =
      world.actors.countP Actor.isGathered + (if actor'.isGathered = true then 1 else 0) := by
  obtain ⟨hrank, hget⟩ := List.getElem?_eq_some_iff.1 hactor
  have hpos : (if actor.isGathered = true then 1 else 0) ≤
      world.actors.countP Actor.isGathered := by
    split
    · next hgathered =>
        exact List.countP_pos_iff.2 ⟨actor, List.mem_of_getElem? hactor, hgathered⟩
    · exact Nat.zero_le _
  rw [List.countP_set hrank, hget]
  omega

theorem of_set (h : world.BeforeBarrier used value close ending cores position) {group' : Group}
    (hcore : cores[rank]? = some core) (hactor : world.actors[rank]? = some actor)
    (hworking : InStep used value position' ⟨group', cores.set rank core'⟩)
    (hstage : Actor.Stage ⟨rank, world.group.size⟩ (close rank) (ending rank) world.group.epoch
      core' actor')
    (hepoch : group'.epoch = world.group.epoch)
    (hgrants : group'.members.map Member.grant = world.group.members.map Member.grant)
    (harrived : group'.arrived = (world.actors.set rank actor').countP Actor.isGathered)
    (hearly : group'.arrived < world.group.size) :
    BeforeBarrier used value close ending (cores.set rank core') position'
      ⟨group', world.actors.set rank actor'⟩ := by
  have hsize : group'.size = world.group.size := Group.size_of_grants hgrants
  refine ⟨hworking, ?_, ?_, ?_, harrived, ?_⟩
  · rw [List.length_set, List.length_set]
    exact h.staffed
  · intro other core'' actor'' hcore'' hactor''
    rw [getElem?_of_set hcore] at hcore''
    rw [getElem?_of_set hactor] at hactor''
    change Actor.Stage ⟨other, group'.size⟩ _ _ group'.epoch _ _
    rw [hsize, hepoch]
    by_cases heq : other = rank
    · rw [if_pos heq] at hcore'' hactor''
      cases hcore''
      cases hactor''
      rw [heq]
      exact hstage
    · rw [if_neg heq] at hcore'' hactor''
      exact h.stages other core'' actor'' hcore'' hactor''
  · rw [hgrants]
    exact h.granted
  · rw [hsize]
    exact hearly

theorem of_actor (h : world.BeforeBarrier used value close ending cores position)
    (hcore : cores[rank]? = some core) (hactor : world.actors[rank]? = some actor)
    (hstage : Actor.Stage ⟨rank, world.group.size⟩ (close rank) (ending rank) world.group.epoch
      core actor')
    (hgathered : actor.isGathered = actor'.isGathered) :
    BeforeBarrier used value close ending cores position
      ⟨world.group, world.actors.set rank actor'⟩ := by
  have hsame := set_eq_self hcore
  have hcount := countP_set hactor actor'
  rw [hgathered] at hcount
  rw [← hsame]
  apply h.of_set hcore hactor _ hstage rfl rfl _ h.early
  · rw [hsame]
    exact h.working
  · rw [h.arrived]
    omega

theorem of_work (h : world.BeforeBarrier used value close ending cores position) {move : Move}
    {group' : Group} {older : List Event}
    (hstep : World.step ⟨world.group, cores⟩ move = some ⟨group', cores.set move.rank core'⟩)
    (hcore : cores[move.rank]? = some core)
    (hactor : world.actors[move.rank]? = some (core.framed (close move.rank) older)) :
    ∃ cores' position', BeforeBarrier used value close ending cores' position'
      ⟨group', world.actors.set move.rank (core'.framed (close move.rank) older)⟩ := by
  obtain ⟨position', hworking⟩ := h.working.step hstep
  have hsame : world.group.Undisturbed group' := h.working.undisturbed hstep
  have hrank : move.rank < cores.length := (List.getElem?_eq_some_iff.1 hcore).1
  have hcore' : (cores.set move.rank core')[move.rank]? = some core' :=
    List.getElem?_set_self hrank
  have hnot : (core.framed (close move.rank) older).isGathered = false :=
    h.working.not_isGathered hcore
  have hnot' : (core'.framed (close move.rank) older).isGathered = false :=
    hworking.not_isGathered hcore'
  have hcount := countP_set hactor (core'.framed (close move.rank) older)
  rw [hnot, hnot'] at hcount
  refine ⟨_, position', h.of_set hcore hactor hworking (.works core' older) hsame.epoch hsame.grants
    ?_ ?_⟩
  · rw [hsame.arrived, h.arrived]
    omega
  · rw [hsame.arrived]
    exact h.early

theorem isGathered_of_full (h : world.BeforeBarrier used value close ending cores position)
    (hactor : world.actors[rank]? = some actor) (hnot : actor.isGathered = false)
    (hfull : ¬ world.group.arrived + 1 < world.group.size) {other : Nat} {actor' : Actor β}
    (hother : world.actors[other]? = some actor') (hne : other ≠ rank) :
    actor'.isGathered = true := by
  -- Were this rank there too, all that are counted would be all that there are.
  let present : Actor β := { actor with pause := .gathered 0 }
  have hcount := countP_set hactor present
  have hpresent : present.isGathered = true := rfl
  have hlength : (world.actors.set rank present).length = world.group.size := by
    rw [List.length_set, h.staffed]
    exact h.working.staffed
  have hall : (world.actors.set rank present).countP Actor.isGathered =
      (world.actors.set rank present).length := by
    apply Nat.le_antisymm List.countP_le_length
    have harrived := h.arrived
    simp only [hnot, hpresent, Bool.false_eq_true, if_false, if_true] at hcount
    omega
  apply List.countP_eq_length.1 hall
  apply List.mem_of_getElem? (i := other)
  rw [List.getElem?_set_ne (Ne.symm hne)]
  exact hother

theorem pastBarrier_of_full (h : world.BeforeBarrier used value close ending cores position)
    {group' : Group} (hactor : world.actors[rank]? = some actor) (hnot : actor.isGathered = false)
    (hfull : ¬ world.group.arrived + 1 < world.group.size)
    (hepoch : group'.epoch = world.group.epoch + 1) (hposts : actor'.posts = [])
    (hdeparts : actor'.program.Departs (ending rank)) :
    PastBarrier ending ⟨group', world.actors.set rank actor'⟩ := by
  intro other actor'' hactor''
  rw [getElem?_of_set hactor] at hactor''
  split at hactor''
  · next heq =>
      cases hactor''
      rw [heq]
      exact .departs hposts hdeparts
  · next hne =>
      have hgathered := h.isGathered_of_full hactor hnot hfull hactor'' hne
      obtain ⟨core, hcore⟩ := h.exists_core hactor''
      have hstage := h.stages other core actor'' hcore hactor''
      cases hstage with
      | opens => cases hgathered
      | works =>
          have hwaits : core.isGathered = true := hgathered
          rw [h.working.not_isGathered hcore] at hwaits
          cases hwaits
      | gathers _ _ _ hpause =>
          rw [Actor.isGathered_of_none hpause] at hgathered
          cases hgathered
      | waits _ _ hposts' hpause hprogram hdeparts' =>
          refine .waited hposts' hpause ?_ hprogram hdeparts'
          rw [hepoch]
          exact Nat.succ_ne_self _

theorem of_gathers (h : world.BeforeBarrier used value close ending cores position) {group' : Group}
    {channel : Channel} {outcome : Except Fault α} (hcore : cores[rank]? = some core)
    (hactor : world.actors[rank]? = some actor) (hdone : core.program = .done outcome)
    (hidle : core.posts = []) (hposts : actor.posts = []) (hpause : actor.pause = .none)
    (hgathers : actor.program.Gathers (ending rank))
    (hadvance : actor.advance world.group rank channel = some (group', actor')) :
    (∃ cores' position', BeforeBarrier used value close ending cores' position'
      ⟨group', world.actors.set rank actor'⟩) ∨
      PastBarrier ending ⟨group', world.actors.set rank actor'⟩ := by
  have hrunning := h.working.intact.isStopped rank
  have hnot : actor.isGathered = false := Actor.isGathered_of_none hpause
  rcases Actor.advance_of_gathers hgathers hpause hrunning channel with
    ⟨actor'', hnext, hgathers', hpause', hposts'⟩ | ⟨next, hprogram, hdeparts, hnext⟩
  · rw [hnext] at hadvance
    cases hadvance
    have hnot' : actor'.isGathered = false := Actor.isGathered_of_none hpause'
    refine .inl ⟨cores, position, h.of_actor hcore hactor ?_ (hnot.trans hnot'.symm)⟩
    exact .gathers hdone hidle (hposts'.trans hposts) hpause' hgathers'
  · rw [hnext] at hadvance
    split at hadvance
    · next hearly =>
        cases hadvance
        have hsame := set_eq_self hcore
        have hcount := countP_set hactor { actor with pause := .gathered world.group.epoch }
        have hgathered : Actor.isGathered { actor with pause := .gathered world.group.epoch } =
            true := rfl
        simp only [hnot, hgathered, Bool.false_eq_true, if_false, if_true] at hcount
        refine .inl ⟨cores.set rank core, position, h.of_set hcore hactor ?_
          (.waits hdone hidle hposts rfl hprogram hdeparts) rfl rfl ?_ hearly⟩
        · rw [hsame]
          exact h.working.of_group rfl rfl rfl
        · rw [h.arrived]
          exact hcount.symm
    · next hfull =>
        cases hadvance
        exact .inr (h.pastBarrier_of_full hactor hnot hfull rfl hposts hdeparts)

variable (hclose : ∀ rank, (close rank (.ok (value rank))).Gathers (ending rank))

include hclose in
theorem of_framed (h : world.BeforeBarrier used value close ending cores position) {group' : Group}
    {channel : Channel} {older : List Event} (hcore : cores[rank]? = some core)
    (hactor : world.actors[rank]? = some (core.framed (close rank) older))
    (hadvance : (core.framed (close rank) older).advance world.group rank channel =
      some (group', actor')) :
    (∃ cores' position', BeforeBarrier used value close ending cores' position'
      ⟨group', world.actors.set rank actor'⟩) ∨
      PastBarrier ending ⟨group', world.actors.set rank actor'⟩ := by
  cases hprogram : core.program with
  | done outcome =>
      obtain ⟨rfl, hidle, hpause⟩ := h.working.idle_of_result hcore hprogram
      apply h.of_gathers hcore hactor hprogram hidle hidle hpause _ hadvance
      unfold Actor.framed
      rw [hprogram]
      exact hclose rank
  | act action next =>
      rw [Actor.advance_framed hprogram] at hadvance
      obtain ⟨⟨group'', core'⟩, hnext, heq⟩ := Option.map_eq_some_iff.1 hadvance
      cases heq
      have hstep : World.step ⟨world.group, cores⟩ ⟨rank, .main channel⟩ =
          some ⟨group'', cores.set rank core'⟩ := by
        unfold step
        simp only [hcore, hnext, Option.map_some]
      exact .inl (h.of_work hstep hcore hactor)

include hclose in
theorem of_advance (h : world.BeforeBarrier used value close ending cores position) {group' : Group}
    {channel : Channel} (hactor : world.actors[rank]? = some actor)
    (hadvance : actor.advance world.group rank channel = some (group', actor')) :
    (∃ cores' position', BeforeBarrier used value close ending cores' position'
      ⟨group', world.actors.set rank actor'⟩) ∨
      PastBarrier ending ⟨group', world.actors.set rank actor'⟩ := by
  obtain ⟨core, hcore⟩ := h.exists_core hactor
  have hstage := h.stages rank core actor hcore hactor
  cases hstage with
  | @opens work program older hopens =>
      obtain ⟨member, hmember, hrunning, hgrant⟩ := h.exists_member hcore
      rcases Actor.advance_of_opens hopens hmember hrunning hgrant older channel with
        heq | ⟨program', older', hopens', hnext⟩
      · rw [heq] at hactor hadvance
        exact h.of_framed hclose hcore hactor hadvance
      · rw [hnext] at hadvance
        cases hadvance
        exact .inl ⟨cores, position, h.of_actor hcore hactor (.opens hopens') rfl⟩
  | works => exact h.of_framed hclose hcore hactor hadvance
  | gathers hdone hidle hposts hpause hgathers =>
      exact h.of_gathers hcore hactor hdone hidle hposts hpause hgathers hadvance
  | waits _ _ _ hpause hprogram =>
      unfold Actor.advance at hadvance
      rw [hprogram] at hadvance
      simp only [Actor.call, hpause, if_true] at hadvance
      cases hadvance

theorem of_help (h : world.BeforeBarrier used value close ending cores position) {group' : Group}
    (hactor : world.actors[rank]? = some actor)
    (hhelp : actor.help world.group rank = some (group', actor')) :
    ∃ cores' position', BeforeBarrier used value close ending cores' position'
      ⟨group', world.actors.set rank actor'⟩ := by
  have hposts : actor.posts ≠ [] := by
    intro hnil
    rw [Actor.help_of_nil hnil] at hhelp
    cases hhelp
  obtain ⟨core, hcore⟩ := h.exists_core hactor
  have hstage := h.stages rank core actor hcore hactor
  cases hstage with
  | opens => exact absurd rfl hposts
  | works =>
      rw [Actor.help_framed] at hhelp
      obtain ⟨⟨group'', core'⟩, hnext, heq⟩ := Option.map_eq_some_iff.1 hhelp
      cases heq
      have hstep : World.step ⟨world.group, cores⟩ ⟨rank, .helper⟩ =
          some ⟨group'', cores.set rank core'⟩ := by
        unfold step
        simp only [hcore, hnext, Option.map_some]
      exact h.of_work hstep hcore hactor
  | gathers _ _ hnil => exact absurd hnil hposts
  | waits _ _ hnil => exact absurd hnil hposts

include hclose in
theorem step (h : world.BeforeBarrier used value close ending cores position) {move : Move}
    (hstep : world.step move = some world') :
    (∃ cores' position', world'.BeforeBarrier used value close ending cores' position') ∨
      world'.PastBarrier ending := by
  obtain ⟨actor, group', actor', hactor, rfl, hthread⟩ := step_eq_some hstep
  rcases hthread with ⟨channel, _, hadvance⟩ | ⟨_, hhelp⟩
  · exact h.of_advance hclose hactor hadvance
  · exact .inl (h.of_help hactor hhelp)

theorem moves_of_gathers (h : world.BeforeBarrier used value close ending cores position)
    (hactor : world.actors[rank]? = some actor) (hpause : actor.pause = .none)
    (hgathers : actor.program.Gathers (ending rank)) : world.Moves := by
  have hrunning := h.working.intact.isStopped rank
  have hadvance : (actor.advance world.group rank .remote).isSome = true := by
    rcases Actor.advance_of_gathers hgathers hpause hrunning .remote with
      ⟨_, hnext, _⟩ | ⟨_, _, _, hnext⟩
    · rw [hnext]
      rfl
    · rw [hnext]
      split <;> rfl
  exact moves_of_advance hactor hadvance

include hclose in
theorem moves_of_framed (h : world.BeforeBarrier used value close ending cores position)
    {older : List Event} (hcore : cores[rank]? = some core)
    (hactor : world.actors[rank]? = some (core.framed (close rank) older)) :
    world.Moves ∨ core.result? = none := by
  unfold Actor.result?
  cases hprogram : core.program with
  | act action next => exact .inr rfl
  | done outcome =>
      obtain ⟨rfl, _, hpause⟩ := h.working.idle_of_result hcore hprogram
      have hgathers : (core.framed (close rank) older).program.Gathers (ending rank) := by
        unfold Actor.framed
        rw [hprogram]
        exact hclose rank
      exact .inl (h.moves_of_gathers hactor hpause hgathers)

include hclose in
/-- Only a rank at work or one that waits at the barrier may be held up. -/
theorem moves_or_held (h : world.BeforeBarrier used value close ending cores position)
    (hcore : cores[rank]? = some core) (hactor : world.actors[rank]? = some actor) :
    world.Moves ∨
      (∃ older, actor = core.framed (close rank) older ∧ core.result? = none) ∨
      actor.isGathered = true ∧ core.posts = [] ∧ ∃ outcome, core.program = .done outcome := by
  have hworks : ∀ older, actor = core.framed (close rank) older →
      world.Moves ∨ ∃ older, actor = core.framed (close rank) older ∧ core.result? = none := by
    intro older hframed
    rw [hframed] at hactor
    exact (h.moves_of_framed hclose hcore hactor).imp_right
      (fun hresult => ⟨older, hframed, hresult⟩)
  have hstage := h.stages rank core actor hcore hactor
  cases hstage with
  | @opens work program older hopens =>
      obtain ⟨member, hmember, hrunning, hgrant⟩ := h.exists_member hcore
      rcases Actor.advance_of_opens hopens hmember hrunning hgrant older .remote with
        rfl | ⟨program', older', _, hnext⟩
      · exact (hworks older rfl).imp_right .inl
      · have hadvance : (Actor.advance ⟨program, .none, [], none, none, older⟩ world.group rank
            .remote).isSome = true := by
          rw [hnext]
          rfl
        exact .inl (moves_of_advance hactor hadvance)
  | works core older => exact (hworks older rfl).imp_right .inl
  | gathers _ _ _ hpause hgathers => exact .inl (h.moves_of_gathers hactor hpause hgathers)
  | waits hdone hidle _ hpause =>
      exact .inr (.inr ⟨Actor.isGathered_of_gathered hpause, hidle, _, hdone⟩)

include hclose in
/-- If the work can go on by itself, so it can here. -/
theorem moves_of_core (h : world.BeforeBarrier used value close ending cores position) {move : Move}
    {next : World α} (hstep : World.step ⟨world.group, cores⟩ move = some next) :
    world.Moves := by
  obtain ⟨core, group', core', hcore, _, hthread⟩ := step_eq_some hstep
  obtain ⟨actor, hactor⟩ := h.exists_actor hcore
  rcases h.moves_or_held hclose hcore hactor with
    hmoves | ⟨older, rfl, hresult⟩ | ⟨_, hidle, outcome, hdone⟩
  · exact hmoves
  · rcases hthread with ⟨channel, _, hadvance⟩ | ⟨_, hhelp⟩
    · cases hprogram : core.program with
      | done outcome =>
          unfold Actor.result? at hresult
          rw [hprogram] at hresult
          cases hresult
      | act action next =>
          have hmoves : ((core.framed (close move.rank) older).advance world.group move.rank
              channel).isSome = true := by
            rw [Actor.advance_framed hprogram, hadvance]
            rfl
          exact moves_of_advance hactor hmoves
    · apply moves_of_help hactor
      rw [Actor.help_framed, hhelp]
      rfl
  · rcases hthread with ⟨channel, _, hadvance⟩ | ⟨_, hhelp⟩
    · unfold Actor.advance at hadvance
      rw [hdone] at hadvance
      cases hadvance
    · rw [Actor.help_of_nil hidle] at hhelp
      cases hhelp

include hclose in
/-- Not all ranks wait at a closed barrier, and the others find what they need. -/
theorem moves (h : world.BeforeBarrier used value close ending cores position) : world.Moves := by
  by_cases hall : ∀ actor ∈ world.actors, actor.isGathered = true
  · have hcount := List.countP_eq_length.2 hall
    have hearly := h.early
    rw [h.arrived, hcount, h.staffed] at hearly
    exact absurd h.working.staffed (Nat.ne_of_lt hearly)
  · obtain ⟨actor, hmem, hnot⟩ : ∃ actor ∈ world.actors, ¬ actor.isGathered = true := by
      simpa only [not_forall, exists_prop] using hall
    obtain ⟨rank, hactor⟩ := List.getElem?_of_mem hmem
    obtain ⟨core, hcore⟩ := h.exists_core hactor
    rcases h.moves_or_held hclose hcore hactor with hmoves | ⟨_, _, hresult⟩ | ⟨hgathered, _⟩
    · exact hmoves
    · rcases h.working.isDone_or_moves with hdone | ⟨move, next, hstep⟩
      · unfold isDone at hdone
        rw [List.all_eq_true] at hdone
        have hsome := hdone core (List.mem_of_getElem? hcore)
        rw [hresult] at hsome
        cases hsome
      · exact h.moves_of_core hclose hstep
    · exact absurd hgathered hnot

include hclose in
theorem result_eq_none (h : world.BeforeBarrier used value close ending cores position)
    (rank : Nat) : world.result? rank = none := by
  unfold World.result?
  cases hactor : world.actors[rank]? with
  | none => rfl
  | some actor =>
      rw [Option.bind_some]
      obtain ⟨core, hcore⟩ := h.exists_core hactor
      have hgathers : ∀ {program : Program β}, program.Gathers (ending rank) →
          actor.program = program → actor.result? = none := by
        intro program hgathers hprogram
        unfold Actor.result?
        cases hgathers <;> rw [hprogram]
      have hframed : ∀ {work : Program α}, core.program = work →
          actor.program = work.attempt.bind (close rank) → actor.result? = none := by
        intro work hwork hprogram
        cases work with
        | done outcome =>
            obtain ⟨rfl, _⟩ := h.working.idle_of_result hcore hwork
            exact hgathers (hclose rank) hprogram
        | act action next =>
            unfold Actor.result?
            rw [hprogram]
            rfl
      have hstage := h.stages rank core actor hcore hactor
      cases hstage with
      | opens hopens =>
          cases hopens with
          | ready => exact hframed rfl rfl
          | log => rfl
          | init => rfl
          | identify => rfl
      | works => exact hframed rfl rfl
      | gathers _ _ _ _ hprogram => exact hgathers hprogram rfl
      | waits _ _ _ _ hprogram =>
          unfold Actor.result?
          rw [hprogram]

end BeforeBarrier

namespace PastBarrier

theorem step (h : world.PastBarrier ending) {move : Move} (hstep : world.step move = some world') :
    world'.PastBarrier ending := by
  obtain ⟨actor, group', actor', hactor, rfl, hthread⟩ := step_eq_some hstep
  have hfreed := h move.rank actor hactor
  have hnext : group'.epoch = world.group.epoch ∧
      actor'.Freed world.group.epoch (ending move.rank) := by
    rcases hthread with ⟨channel, _, hadvance⟩ | ⟨_, hhelp⟩
    · rcases hfreed.advance move.rank channel with
        hdone | ⟨_, _, hadvance', hepoch, hfreed'⟩
      · unfold Actor.advance at hadvance
        rw [hdone] at hadvance
        cases hadvance
      · rw [hadvance'] at hadvance
        cases hadvance
        exact ⟨hepoch, hfreed'⟩
    · have hposts : actor.posts = [] := by
        cases hfreed with
        | departs hposts => exact hposts
        | waited hposts => exact hposts
      rw [Actor.help_of_nil hposts] at hhelp
      cases hhelp
  intro other actor'' hactor''
  rw [getElem?_of_set hactor] at hactor''
  change actor''.Freed group'.epoch (ending other)
  rw [hnext.1]
  split at hactor''
  · next heq =>
      cases hactor''
      rw [heq]
      exact hnext.2
  · exact h other actor'' hactor''

theorem isDone_or_moves (h : world.PastBarrier ending) : world.isDone = true ∨ world.Moves := by
  by_cases hmoves : world.Moves
  · exact .inr hmoves
  · left
    unfold isDone
    rw [List.all_eq_true]
    intro actor hmem
    obtain ⟨rank, hactor⟩ := List.getElem?_of_mem hmem
    rcases (h rank actor hactor).advance rank .remote with hdone | ⟨_, _, hadvance, _⟩
    · unfold Actor.result?
      rw [hdone]
      rfl
    · have hsome : (actor.advance world.group rank .remote).isSome = true := by
        rw [hadvance]
        rfl
      exact absurd (moves_of_advance hactor hsome) hmoves

theorem result (h : world.PastBarrier ending) {outcome : Except Fault β}
    (hresult : world.result? rank = some outcome) : outcome = .ok (ending rank) := by
  obtain ⟨actor, hactor, hended⟩ := Option.bind_eq_some_iff.1 hresult
  unfold Actor.result? at hended
  split at hended
  · next hprogram =>
      cases hended
      cases h rank actor hactor with
      | departs _ hdeparts =>
          rw [hprogram] at hdeparts
          cases hdeparts
          rfl
      | waited _ _ _ hact =>
          rw [hprogram] at hact
          cases hact
  · cases hended

end PastBarrier

section Alone

theorem step_of_advance {group' : Group} {channel : Channel}
    (hactor : world.actors[rank]? = some actor)
    (hadvance : actor.advance world.group rank channel = some (group', actor')) :
    world.step ⟨rank, .main channel⟩ = some ⟨group', world.actors.set rank actor'⟩ ∧
      (world.actors.set rank actor')[rank]? = some actor' := by
  constructor
  · unfold step
    simp only [hactor, hadvance, Option.map_some]
  · exact List.getElem?_set_self (List.getElem?_eq_some_iff.1 hactor).1

/-- A rank can open its session while all others stand still. -/
theorem exists_reaches_of_opens {inner program : Program β} {older : List Event}
    {member : Member} (h : Program.Opens ⟨rank, world.group.size⟩ inner program)
    (hmember : world.group.members[rank]? = some member) (hrunning : member.stopped = false)
    (hgrant : member.grant = .multiple)
    (hactor : world.actors[rank]? = some { program, trail := older }) :
    ∃ last older', world.Reaches last ∧
      last.actors[rank]? = some { program := inner, trail := older' } := by
  induction world using Nearer.wf.induction generalizing program older with
  | h world ih =>
      rcases Actor.advance_of_opens h hmember hrunning hgrant older .remote with
        rfl | ⟨program', older', h', hadvance⟩
      · exact ⟨world, older, .refl world, hactor⟩
      · obtain ⟨hstep, hactor'⟩ := step_of_advance hactor hadvance
        obtain ⟨last, older'', hreaches, hlast⟩ :=
          ih _ (nearer_of_step hstep) h' hmember hactor'
        exact ⟨last, older'', .step _ hstep hreaches, hlast⟩

theorem exists_reaches_of_freed {result : β} (h : actor.Freed world.group.epoch result)
    (hactor : world.actors[rank]? = some actor) :
    ∃ last, world.Reaches last ∧ last.result? rank = some (.ok result) := by
  induction world using Nearer.wf.induction generalizing actor with
  | h world ih =>
      rcases h.advance rank .remote with hdone | ⟨group', actor', hadvance, hepoch, h'⟩
      · refine ⟨world, .refl world, ?_⟩
        unfold World.result? Actor.result?
        rw [hactor, Option.bind_some, hdone]
      · obtain ⟨hstep, hactor'⟩ := step_of_advance hactor hadvance
        rw [← hepoch] at h'
        obtain ⟨last, hreaches, hresult⟩ := ih _ (nearer_of_step hstep) h' hactor'
        exact ⟨last, .step _ hstep hreaches, hresult⟩

end Alone

section Runs

variable (hclose : ∀ rank, (close rank (.ok (value rank))).Gathers (ending rank))

include hclose in
/-- Ranks before the barrier stay there until all of them are past it. -/
theorem BeforeBarrier.reaches (h : world.BeforeBarrier used value close ending cores position)
    (hreaches : world.Reaches world') :
    (∃ cores' position', world'.BeforeBarrier used value close ending cores' position') ∨
      world'.PastBarrier ending := by
  have hrun : (∃ cores position, world.BeforeBarrier used value close ending cores position) ∨
      world.PastBarrier ending := .inl ⟨cores, position, h⟩
  clear h
  induction hreaches with
  | refl => exact hrun
  | step move hstep _ ih =>
      apply ih
      rcases hrun with ⟨cores, position, h⟩ | h
      · exact h.step hclose hstep
      · exact .inr (h.step hstep)

include hclose in
theorem BeforeBarrier.finishes (h : world.BeforeBarrier used value close ending cores position)
    (hreaches : world.Reaches world') : world'.Finishes := by
  apply finishes_of_invariant (p := fun world =>
    (∃ cores position, world.BeforeBarrier used value close ending cores position) ∨
      world.PastBarrier ending)
  · intro world hrun
    rcases hrun with ⟨cores, position, h⟩ | h
    · exact .inr (h.moves hclose)
    · exact h.isDone_or_moves
  · intro world move next hrun hstep
    rcases hrun with ⟨cores, position, h⟩ | h
    · exact h.step hclose hstep
    · exact .inr (h.step hstep)
  · exact h.reaches hclose hreaches

include hclose in
theorem BeforeBarrier.result (h : world.BeforeBarrier used value close ending cores position)
    (hreaches : world.Reaches world') {outcome : Except Fault β}
    (hresult : world'.result? rank = some outcome) : outcome = .ok (ending rank) := by
  rcases h.reaches hclose hreaches with ⟨cores', position', h'⟩ | h'
  · rw [h'.result_eq_none hclose rank] at hresult
    cases hresult
  · exact h'.result hresult

end Runs

/-- Ranks that open their sessions come before the barrier, if their work alone is in step. -/
theorem beforeBarrier_starting {group : Group} {work : Nat → Program α} {program : Nat → Program β}
    (hwork : (starting group work).InStep used value position)
    (hopens : ∀ rank, rank < group.size →
      Program.Opens ⟨rank, group.size⟩ ((work rank).attempt.bind (close rank)) (program rank))
    (hgranted : ∀ grant ∈ group.members.map Member.grant, grant = .multiple)
    (harrived : group.arrived = 0) (hsize : 0 < group.size) :
    (starting group program).BeforeBarrier used value close ending (starting group work).actors
      position where
  working := hwork
  staffed := by
    unfold starting
    rw [List.length_map, List.length_map]
  stages := by
    intro rank core actor hcore hactor
    obtain ⟨hrank, rfl⟩ := getElem?_starting hcore
    obtain ⟨_, rfl⟩ := getElem?_starting hactor
    exact .opens (hopens rank hrank)
  granted := hgranted
  arrived := by
    change group.arrived = _
    rw [harrived, eq_comm, List.countP_eq_zero]
    intro actor hmem
    obtain ⟨rank, hactor⟩ := List.getElem?_of_mem hmem
    obtain ⟨_, rfl⟩ := getElem?_starting hactor
    exact Bool.false_ne_true
  early := by
    change group.arrived < group.size
    rw [harrived]
    exact hsize

end World

end RankExchange
