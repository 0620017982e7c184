import RankExchange.Proofs.ParedRuns
import RankExchange.Proofs.Subspaces

/-!
# Tags do not interfere

Where the ranks of a group leave out all that they do on certain tags, nothing else
changes: there is a run of the rest with the same deeds on the other tags, in the same
order, in which everything that is left comes to the same, and the same messages wait.
-/

namespace RankExchange

namespace Group

variable {grants : List Threading} {spared : Tag → Bool}

theorem attended_ofGrants : (ofGrants .buffered grants).Attended where
  buffered := rfl
  member := by
    intro rank member hmember
    obtain ⟨grant, _, rfl⟩ := exists_grant_of_getElem? hmember
    exact ⟨rfl, Inbox.apart_empty, fun _ hmem => (List.not_mem_nil hmem).elim, .inr rfl⟩

theorem restrictsTo_ofGrants :
    (ofGrants .buffered grants).RestrictsTo spared (ofGrants .buffered grants) where
  size := rfl
  setting := rfl
  member := by
    intro rank member member' hmember hmember'
    cases hmember.symm.trans hmember'
    obtain ⟨grant, _, rfl⟩ := exists_grant_of_getElem? hmember
    exact ⟨.refl _, rfl, rfl⟩

end Group

/-- Whether a deed is anything but a message of a rank to itself. -/
def Deed.isForeign : Deed → Bool
  | .queued rank message => decide (message.source ≠ rank)
  | _ => true

namespace World

variable {α β : Type} {spared : Tag → Bool}
  {agree : Nat → Except Fault α → Except Fault β → Prop} {ledger ledger' : List Deed}
  {first world next : World α} {first' world' : World β} {rank : Nat}

/-- A run and what has been done in it, where at no time messages of a rank to itself and
messages of others wait for it on one tag. -/
inductive RecordsUnmixed (first : World α) : List Deed → World α → Prop
  | start (h : first.group.IsUnmixed) : RecordsUnmixed first [] first
  | step {ledger : List Deed} {world next : World α} (move : Move)
      (h : RecordsUnmixed first ledger world) (hstep : world.step move = some next)
      (hunmixed : next.group.IsUnmixed) :
      RecordsUnmixed first (ledger ++ world.deeds move) next

theorem RecordsUnmixed.isUnmixed (h : first.RecordsUnmixed ledger world) :
    world.group.IsUnmixed := by
  cases h with
  | start hunmixed => exact hunmixed
  | step _ _ _ hunmixed => exact hunmixed

/-- Each rank of the second world does a part of what the same rank of the first does. -/
structure Pares (spared : Tag → Bool) (agree : Nat → Except Fault α → Except Fault β → Prop)
    (world : World α) (world' : World β) : Prop where
  attended : world.group.Attended
  attended' : world'.group.Attended
  restricts : world.group.RestrictsTo spared world'.group
  staffed : world.actors.length = world.group.size
  length : world'.actors.length = world.actors.length
  actors : ∀ (rank : Nat) (actor : Actor α) (actor' : Actor β),
    world.actors[rank]? = some actor → world'.actors[rank]? = some actor' →
      ∃ aid, actor.Pares spared (agree rank) aid actor'

theorem pares_starting {grants : List Threading} {program : Nat → Program α}
    {program' : Nat → Program β}
    (h : ∀ rank, (program rank).Pares spared (agree rank) .neither (program' rank)) :
    (starting (.ofGrants .buffered grants) program).Pares spared agree
      (starting (.ofGrants .buffered grants) program') where
  attended := Group.attended_ofGrants
  attended' := Group.attended_ofGrants
  restricts := Group.restrictsTo_ofGrants
  staffed := by simp [starting]
  length := by simp [starting]
  actors := by
    intro rank actor actor' hactor hactor'
    obtain ⟨_, rfl⟩ := getElem?_starting hactor
    obtain ⟨_, rfl⟩ := getElem?_starting hactor'
    exact ⟨.neither, h rank, rfl, fun hpause => absurd rfl hpause, ⟨rfl, rfl⟩, rfl, rfl⟩

namespace Pares

variable (h : world.Pares spared agree world')

include h

theorem exists_actor {actor : Actor α} (hactor : world.actors[rank]? = some actor) :
    ∃ actor' aid, world'.actors[rank]? = some actor' ∧
      actor.Pares spared (agree rank) aid actor' := by
  have hrank : rank < world'.actors.length := by
    rw [h.length]
    exact (List.getElem?_eq_some_iff.1 hactor).1
  have hactor' := List.getElem?_eq_getElem hrank
  obtain ⟨aid, hpares⟩ := h.actors rank actor _ hactor hactor'
  exact ⟨_, aid, hactor', hpares⟩

theorem result?_eq {result : Except Fault α} (hresult : world.result? rank = some result) :
    ∃ result', world'.result? rank = some result' ∧ agree rank result result' := by
  obtain ⟨actor, hactor, hdone⟩ := Option.bind_eq_some_iff.1 hresult
  obtain ⟨actor', aid, hactor', hpares⟩ := h.exists_actor hactor
  have hprogram := hpares.program
  rw [Actor.program_of_result hdone] at hprogram
  generalize hprogram' : actor'.program = program' at hprogram
  cases hprogram with
  | @done _ result' hagree =>
      refine ⟨result', ?_, hagree⟩
      unfold World.result? Actor.result?
      rw [hactor', Option.bind_some, hprogram']

theorem step {move : Move} (hunmixed : world.group.IsUnmixed)
    (hunmixed' : next.group.IsUnmixed) (hstep : world.step move = some next)
    (hrecords : first'.Records ledger' world') :
    ∃ next', first'.Records
        (ledger' ++ (world.deeds move).filter (Deed.isSpared spared)) next' ∧
      next.Pares spared agree next' := by
  have hsize : next.group.size = world.group.size := by
    obtain ⟨_, _, _, _, rfl, heffect⟩ := exists_stepEffect_of_step hstep
    exact heffect.size
  obtain ⟨actor, after, later, hactor, rfl, hdoes⟩ := exists_does_of_step hstep
  obtain ⟨actor', aid, hactor', hpares⟩ := h.exists_actor hactor
  have hrank : move.rank < world.group.size := by
    rw [← h.staffed]
    exact (List.getElem?_eq_some_iff.1 hactor).1
  have hmeets : Meets spared (agree move.rank) aid world.group actor world'.group actor' :=
    ⟨h.attended, h.attended', h.restricts, hpares⟩
  obtain ⟨aid', after', later', hworks, hmeets'⟩ :=
    hmeets.follows hrank hunmixed hunmixed' hdoes
  refine ⟨_, hrecords.works hactor' hworks, hmeets'.attended, hmeets'.attended', hmeets'.restricts,
    ?_, ?_, ?_⟩
  · rw [hsize, List.length_set, h.staffed]
  · simp only [List.length_set, h.length]
  · intro rank worker worker' hworker hworker'
    rw [getElem?_of_set hactor] at hworker
    rw [getElem?_of_set hactor'] at hworker'
    split at hworker
    · next heq =>
        rw [if_pos heq] at hworker'
        cases hworker
        cases hworker'
        rw [heq]
        exact ⟨aid', hmeets'.actors⟩
    · next hne =>
        rw [if_neg hne] at hworker'
        exact h.actors rank worker worker' hworker hworker'

end Pares

/-- What is done in a run is followed, step by step, in a run of the second world. -/
theorem RecordsUnmixed.pares (hrecords : first.RecordsUnmixed ledger world)
    (h : first.Pares spared agree first') :
    ∃ world', first'.Records (ledger.filter (Deed.isSpared spared)) world' ∧
      world.Pares spared agree world' := by
  induction hrecords with
  | start => exact ⟨first', .start, h⟩
  | step move hbefore hstep hunmixed ih =>
      obtain ⟨world', hrecords', hpares⟩ := ih
      rw [List.filter_append]
      exact hpares.step hbefore.isUnmixed hunmixed hstep hrecords'

theorem Records.queued_of_waiting {grants : List Threading} {delivery : Delivery}
    {program : Nat → Program α} {message : Message}
    (h : (starting (.ofGrants delivery grants) program).Records ledger world)
    (hmem : message ∈ world.group.waitingAt rank) : .queued rank message ∈ ledger := by
  have hbalance := h.balance (Group.sorted_ofGrants _ _) rank message.source message.tag
  rw [starting, Group.lane_ofGrants, List.nil_append] at hbalance
  have hlane : message ∈ world.group.lane rank message.source message.tag := by
    rw [Group.lane_eq_filter]
    exact List.mem_filter.2 ⟨hmem, Wanted.accepts_of_source_iff.2 ⟨rfl, rfl⟩⟩
  have hqueued := List.mem_append_right
    (ledger.filterMap (Deed.removed? rank message.source message.tag)) hlane
  rw [hbalance] at hqueued
  obtain ⟨deed, hdeed, heq⟩ := List.mem_filterMap.1 hqueued
  cases deed with
  | queued dest other =>
      simp only [Deed.queued?] at heq
      split at heq
      · next hlane =>
          cases heq
          rw [hlane.1] at hdeed
          exact hdeed
      · cases heq
  | _ => cases heq

/-- No tag is mixed where ranks have one sort of tags for themselves and one for others. -/
theorem Records.unmixed {grants : List Threading} {delivery : Delivery}
    {program : Nat → Program α}
    (h : (starting (.ofGrants delivery grants) program).Records ledger world)
    (hqueued : ∀ rank message other, Deed.queued rank message ∈ ledger →
      .queued rank other ∈ ledger → message.tag = other.tag → message.source = rank →
        other.source = rank) :
    (starting (.ofGrants delivery grants) program).RecordsUnmixed ledger world := by
  have hunmixed : ∀ {ledger world},
      (starting (.ofGrants delivery grants) program).Records ledger world →
        (∀ rank message other, Deed.queued rank message ∈ ledger →
          .queued rank other ∈ ledger → message.tag = other.tag → message.source = rank →
            other.source = rank) → world.group.IsUnmixed :=
    fun h hqueued rank message hmem other hother =>
      hqueued rank message other (h.queued_of_waiting hmem) (h.queued_of_waiting hother)
  induction h with
  | start => exact .start (hunmixed .start hqueued)
  | step move hbefore hstep ih =>
      refine .step move (ih (fun rank message other hmem hother => ?_)) hstep
        (hunmixed (.step move hbefore hstep) hqueued)
      exact hqueued rank message other (List.mem_append_left _ hmem)
        (List.mem_append_left _ hother)

end World

namespace Command

variable {Kind : Type} {Value : Kind → Type}

def tag? : Command Value → Option Tag
  | .serve _ service => some service.tag
  | _ => none

/-- The tags of the endpoint that a command asks for a service. -/
def space? : Command Value → Option TagSpace
  | .serve tags _ => some tags
  | _ => none

theorem Uses.tag?_eq {command : Command Value} {request : Request} (h : command.Uses request) :
    request.tag? = command.tag? := by
  cases command with
  | serve tags service => exact h.1
  | _ => exact h.1

theorem Uses.ne_leave {command : Command Value} {request : Request} (h : command.Uses request) :
    request ≠ .leave := by
  cases command with
  | serve tags service =>
      rintro rfl
      cases h.1
  | _ => exact h.2

end Command

namespace Session

variable {Kind : Type} {Value : Kind → Type}

/-- The ranks of a group, each of which works through its commands with a fresh session. -/
def freshSessions (grants : List Threading) (options : Nat → SessionOptions)
    (commands : Nat → List (Command Value)) : World (List (Record Value)) :=
  World.starting (.ofGrants .buffered grants)
    (fun rank => (Session.mk (options rank) .fresh).perform (commands rank))

/-- There is a run of the commands that are kept, with the same deeds on the spared tags in
the same order, in which every rank that has come to its end has the same records of them;
and at every rank the messages that wait are those that wait on the spared tags, and on
each tag in the same order. -/
def Unaffected (grants : List Threading) (options : Nat → SessionOptions)
    (commands : Nat → List (Command Value)) (kept : Command Value → Bool) (spared : Tag → Bool)
    (ledger : List Deed) (world : World (List (Record Value))) : Prop :=
  ∃ world', (freshSessions grants options (fun rank => (commands rank).filter kept)).Records
      (ledger.filter (fun deed => deed.tag?.all spared)) world' ∧
    ∀ rank,
      (∀ result, world.result? rank = some result → ∃ records, result = .ok records ∧
        records.map Record.command = commands rank ∧
        world'.result? rank = some (.ok (records.filter (fun record => kept record.command)))) ∧
      SameOnTags ((world.group.waitingAt rank).filter (fun message => spared message.tag))
        (world'.group.waitingAt rank)

variable {grants : List Threading} {options : Nat → SessionOptions}
  {commands : Nat → List (Command Value)} {ledger : List Deed}
  {world : World (List (Record Value))}

theorem unaffected_of_dropped {kept : Command Value → Bool} {spared : Tag → Bool}
    (h : (freshSessions grants options commands).RecordsUnmixed ledger world)
    (hkept : ∀ rank, ∀ command ∈ commands rank, kept command = true →
      ∀ request, command.Uses request → request.Spared spared)
    (hdropped : ∀ rank, ∀ command ∈ commands rank, kept command = false →
      (∃ tags service, command = .serve tags service) ∧
        ∀ request, command.Uses request → request.Dropped spared) :
    Unaffected grants options commands kept spared ledger world := by
  obtain ⟨world', hrecords, hpares⟩ := h.pares (World.pares_starting
    (fun rank => pares_perform (Session.mk (options rank) .fresh) (commands rank) (hkept rank)
      (hdropped rank)))
  refine ⟨world', hrecords, fun rank =>
    ⟨fun result hresult => ?_, hpares.restricts.waitingAt rank⟩⟩
  obtain ⟨_, hresult', records, hok, hcommands, rfl⟩ := hpares.result?_eq hresult
  exact ⟨records, hok, hcommands, hresult'⟩

/-- Tags do not interfere.  Where messages of a rank to itself and messages of others never
wait for it on one tag, a run is unaffected if all is left out that is done on the tags
outside a set; and of the services that are asked for with the parts of a space that has
been split, those with one part are unaffected by the others, whatever these come to. -/
theorem unaffected_of_unmixed
    (h : (freshSessions grants options commands).RecordsUnmixed ledger world) :
    (∀ spared : Tag → Bool, Unaffected grants options commands
      (fun command => command.tag?.all spared) spared ledger world) ∧
    ∀ (space : TagSpace) (count : Nat),
      (∀ rank, ∀ command ∈ commands rank, ∀ tags ∈ command.space?, tags ∈ space.split count) →
        ∀ part ∈ space.split count, Unaffected grants options commands
          (fun command => command.space?.all (fun tags => tags = part)) part.contains ledger
          world := by
  constructor
  · intro spared
    refine unaffected_of_dropped h ?_ ?_
    · intro rank command _ hkept request huses
      refine ⟨huses.ne_leave, ?_⟩
      rw [huses.tag?_eq]
      exact hkept
    · intro rank command _ hkept
      cases command with
      | serve tags service =>
          exact ⟨⟨tags, service, rfl⟩, fun request huses => ⟨service.tag, huses.1, hkept⟩⟩
      | _ => cases hkept
  · intro space count hspaces part hpart
    refine unaffected_of_dropped h ?_ ?_
    · intro rank command _ hkept request huses
      refine ⟨huses.ne_leave, ?_⟩
      cases command with
      | serve tags service =>
          obtain ⟨htag, hcontains⟩ := huses
          have htags : tags = part := of_decide_eq_true hkept
          rw [htags] at hcontains
          rw [htag]
          exact hcontains
      | _ =>
          rw [huses.1]
          rfl
    · intro rank command hcommand hkept
      cases command with
      | serve tags service =>
          have hne : tags ≠ part := of_decide_eq_false hkept
          refine ⟨⟨tags, service, rfl⟩, fun request ⟨htag, hcontains⟩ => ⟨service.tag, htag, ?_⟩⟩
          rw [Bool.eq_false_iff]
          intro hboth
          exact hne (TagSpace.eq_of_contains (hspaces rank _ hcommand tags rfl) hpart hcontains
            hboth)
      | _ => cases hkept

/-- Ranks 0 and 1 exchange on both halves of a space; on the lower one rank 2 comes in
between. -/
def exchangesOnHalves : Nat → List (Command (fun _ : Unit => Unit))
  | 0 => [.establish,
      .serve ⟨0, 16384⟩ (.exchange (.ofList [1]) 1 (SortedMap.empty.insert 1 [7])),
      .serve ⟨16384, 32768⟩ (.exchange (.ofList [1]) 20000 (SortedMap.empty.insert 1 [8])), .close]
  | 1 => [.establish,
      .serve ⟨0, 16384⟩ (.exchange (.ofList [0]) 1 (SortedMap.empty.insert 0 [5])),
      .serve ⟨16384, 32768⟩ (.exchange (.ofList [0]) 20000 (SortedMap.empty.insert 0 [6])), .close]
  | _ => [.establish, .serve ⟨0, 16384⟩ (.send 0 1 [9]), .close]

/-- The round of rank 0 on the lower half fails and leaves two messages behind, which is
nothing to the round on the upper half. -/
theorem unaffected_of_exchangesOnHalves : ∃ ledger world,
    (∀ rank < 3, (world.result? rank).isSome) ∧
    (world.group.waitingAt 0).map Message.source = [2, 1] ∧
    Unaffected [.single, .single, .single] (fun _ => { required := .single }) exchangesOnHalves
      (fun command => command.space?.all (fun tags => tags = ⟨16384, 32768⟩))
      (TagSpace.contains ⟨16384, 32768⟩) ledger world := by
  let schedule := (List.replicate 7 2 ++ List.replicate 10 0 ++ List.replicate 23 1 ++
    List.replicate 10 0).map (fun rank => Move.mk rank (.main .remote))
  let first := freshSessions [.single, .single, .single]
    (fun _ => { required := .single }) exchangesOnHalves
  have hfollow : (first.recorded [] schedule).map (fun after =>
      (after.1.all Deed.isForeign, (List.range 3).all (fun rank => (after.2.result? rank).isSome),
        (after.2.group.waitingAt 0).map Message.source)) = some (true, true, [2, 1]) := by
    decide +kernel
  obtain ⟨⟨ledger, world⟩, hrecorded, heq⟩ := Option.map_eq_some_iff.1 hfollow
  obtain ⟨hforeign, heq⟩ := Prod.mk.inj heq
  obtain ⟨hdone, hwaiting⟩ := Prod.mk.inj heq
  have hrecords : first.Records ledger world := World.Records.start.recorded hrecorded
  -- Nobody sends anything to itself.
  have hunmixed : first.RecordsUnmixed ledger world := by
    refine hrecords.unmixed (fun rank message other hmessage _ _ hsource => ?_)
    exact absurd hsource (of_decide_eq_true (List.all_eq_true.1 hforeign _ hmessage))
  have hspaces : ∀ rank, ∀ command ∈ exchangesOnHalves rank, ∀ tags ∈ command.space?,
      tags ∈ TagSpace.standard.split 2 := by
    have hall : ∀ rank, (exchangesOnHalves rank).all (fun command =>
        command.space?.all (fun tags => tags ∈ TagSpace.standard.split 2)) = true := by
      rintro (_ | _ | rank) <;> rfl
    intro rank command hcommand tags htags
    have hspace := List.all_eq_true.1 (hall rank) command hcommand
    rw [Option.mem_def.1 htags] at hspace
    exact of_decide_eq_true hspace
  refine ⟨ledger, world, fun rank hrank => ?_, hwaiting,
    (unaffected_of_unmixed hunmixed).2 .standard 2 hspaces _ (by decide)⟩
  exact List.all_eq_true.1 hdone rank (List.mem_range.2 hrank)

end Session

end RankExchange
