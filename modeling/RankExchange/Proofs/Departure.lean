import RankExchange.Proofs.InboxSearches
import RankExchange.Proofs.RankTurns
import RankExchange.Proofs.MessageReceipts

/-!
# Departures

The members of a buffered group leave, each when its work is done, and one stays.  What
the others sent it before they left is not touched by their leaving, and it only stops
expecting more when it is alone and has seen all of it.
-/

namespace RankExchange

/-- A program after which nothing comes once it has given its member up; no helper
thread is at work then. -/
def Program.LeavesLast {α : Type} : Bool → Program α → Prop
  | _, .done _ => True
  | helping, .act (.call .leave) next => helping = false ∧ ∃ result, next () = .done result
  | _, .act (.spawn _) next => (next ()).LeavesLast true
  | _, .act .join next => ∀ answer, (next answer).LeavesLast false
  | helping, .act _ next => ∀ answer, (next answer).LeavesLast helping

/-- What one step of a rank does to a member of its group. -/
inductive Member.Changes {α : Type} (group : Group) (mover : Nat) (program : Program α)
    (rank : Nat) (member : Member) : Member → Prop
  | same : Changes group mover program rank member member
  | stops {next : Except Fault Unit → Program α}
      (hprogram : program = .act (.call .finalize) next) (heq : rank = mover) :
      Changes group mover program rank member { member with stopped := true }
  | leaves {next : Unit → Program α} (hprogram : program = .act (.call .leave) next)
      (heq : rank = mover) :
      Changes group mover program rank member { member with inbox := {}, present := false }
  | searches {wanted : Wanted} {own : Bool} {channel : Channel} {inbox : Inbox}
      (heq : rank = mover)
      (hsearch : member.inbox.search wanted (group.isAlone rank) own channel = .moved inbox) :
      Changes group mover program rank member { member with inbox }
  | gets (message : Message) (hsource : message.source = mover) :
      Changes group mover program rank member
        { member with inbox := member.inbox.push rank message }
  | gives (wanted : Wanted) (heq : rank = mover) :
      Changes group mover program rank member
        { member with inbox := member.inbox.take wanted }

namespace Group

theorem isAlone_iff {group : Group} {rank : Nat} : group.isAlone rank = true ↔
    ∀ other member, other ≠ rank → group.members[other]? = some member →
      member.present = false := by
  unfold isAlone
  rw [List.all_eq_true]
  constructor
  · intro hall other member hne hmember
    have := hall (member, other) (List.mem_zipIdx_iff_getElem?.2 hmember)
    simpa [hne] using this
  · rintro h ⟨member, other⟩ hmem
    have hmember := List.mem_zipIdx_iff_getElem?.1 hmem
    by_cases heq : other = rank
    · simp [heq]
    · simp [h other member heq hmember]

end Group

namespace StepEffect

variable {α : Type} {group group' : Group} {mover rank : Nat} {actor actor' : Actor α}
  {thread : Thread} {deeds : List Deed} {member : Member}

theorem changes (h : StepEffect group mover actor thread deeds group' actor')
    (hmember : group.members[rank]? = some member) :
    ∃ member', group'.members[rank]? = some member' ∧
      member.Changes group mover actor.program rank member' := by
  have hsame : ∀ {touched : Nat}, Group.SameBut touched group group' → rank ≠ touched →
      ∃ member', group'.members[rank]? = some member' ∧
        member.Changes group mover actor.program rank member' :=
    fun hbut hne => ⟨member, (hbut.member rank hne).trans hmember, .same⟩
  cases h with
  | rests hmembers => exact ⟨member, by rw [hmembers]; exact hmember, .same⟩
  | stops hprogram =>
      by_cases heq : rank = mover
      · subst heq
        exact ⟨_, Group.getElem?_finalize hmember, .stops hprogram rfl⟩
      · exact hsame (Group.sameBut_modify _ _ _) heq
  | parks hsearch =>
      by_cases heq : rank = mover
      · subst heq
        unfold Group.search at hsearch
        rw [hmember] at hsearch
        exact ⟨_, Group.getElem?_members_putInbox hmember _, .searches rfl hsearch⟩
      · exact hsame (Group.sameBut_modify _ _ _) heq
  | @queues post _ _ _ henqueue =>
      by_cases heq : rank = post.peer
      · subst heq
        obtain ⟨receiver, hreceiver, hgot⟩ := Group.getElem?_receiver henqueue
        cases hreceiver.symm.trans hmember
        exact ⟨_, hgot, .gets _ rfl⟩
      · exact hsame (Group.sameBut_enqueue henqueue) heq
  | returns => exact ⟨member, hmember, .same⟩
  | finds => exact ⟨member, hmember, .same⟩
  | misses => exact ⟨member, hmember, .same⟩
  | takes =>
      by_cases heq : rank = mover
      · subst heq
        exact ⟨_, Group.getElem?_taker hmember _ _ _, .gives _ rfl⟩
      · exact hsame (Group.sameBut_receive _ _ _ _) heq
  | fails => exact ⟨member, hmember, .same⟩
  | leaves hprogram =>
      by_cases heq : rank = mover
      · subst heq
        exact ⟨_, Group.getElem?_leave hmember, .leaves hprogram rfl⟩
      · exact hsame (Group.sameBut_leave _ _) heq

end StepEffect

theorem Member.Changes.present {α : Type} {group : Group} {mover rank : Nat}
    {program : Program α} {member member' : Member}
    (h : member.Changes group mover program rank member')
    (hleave : rank = mover → ∀ next, program ≠ .act (.call .leave) next) :
    member'.present = member.present := by
  cases h with
  | leaves hprogram heq => exact absurd hprogram (hleave heq _)
  | same => rfl
  | stops => rfl
  | searches => rfl
  | gets => rfl
  | gives => rfl

theorem StepEffect.isAlone {α : Type} {group group' : Group} {rank : Nat} {actor actor' : Actor α}
    {thread : Thread} {deeds : List Deed}
    (h : StepEffect group rank actor thread deeds group' actor') :
    group'.isAlone rank = group.isAlone rank := by
  have hsize : group'.members.length = group.members.length := h.size
  have hother : ∀ other member, other ≠ rank → group.members[other]? = some member →
      ∃ member', group'.members[other]? = some member' ∧ member'.present = member.present := by
    intro other member hne hmember
    obtain ⟨member', hmember', hchanges⟩ := h.changes hmember
    exact ⟨member', hmember', hchanges.present (fun heq => absurd heq hne)⟩
  rw [Bool.eq_iff_iff, Group.isAlone_iff, Group.isAlone_iff]
  constructor
  · intro hall other member hne hmember
    obtain ⟨member', hmember', hpresent⟩ := hother other member hne hmember
    exact hpresent ▸ hall other member' hne hmember'
  · intro hall other member' hne hmember'
    have hlt : other < group.members.length := hsize ▸ (List.getElem?_eq_some_iff.1 hmember').1
    obtain ⟨same, hsame, hpresent⟩ := hother other _ hne (List.getElem?_eq_getElem hlt)
    cases hsame.symm.trans hmember'
    exact hpresent.trans (hall other _ hne (List.getElem?_eq_getElem hlt))

namespace Actor

variable {α : Type} {actor actor' : Actor α} {group group' : Group} {rank : Nat}
  {thread : Thread} {channel : Channel}

theorem pause_of_help (h : actor.help group rank = some (group', actor')) :
    actor'.pause = actor.pause := by
  unfold help at h
  split at h
  · cases h
  · split at h
    · split at h <;> cases h <;> rfl
    · split at h <;> cases h <;> rfl

/-- A call leaves the helper thread alone, and the main thread where it was or after it. -/
theorem call_eq_some {request : Request} {next : request.Answer → Program α}
    (h : actor.call group rank channel request next = some (group', actor')) :
    actor'.posts = actor.posts ∧
      (actor' = actor ∨ (∃ answer, actor' = actor.resume (next answer)) ∨
        actor'.program = actor.program ∧
          (request = .barrier ∨ group.delivery = .rendezvous)) := by
  cases request with
  | identify =>
      cases h
      exact ⟨rfl, .inr (.inl ⟨_, rfl⟩)⟩
  | finalize =>
      cases h
      exact ⟨rfl, .inr (.inl ⟨_, rfl⟩)⟩
  | leave =>
      cases h
      exact ⟨rfl, .inr (.inl ⟨_, rfl⟩)⟩
  | init required =>
      simp only [call] at h
      split at h
      · cases h
      · split at h
        · cases h
          exact ⟨rfl, .inr (.inl ⟨_, rfl⟩)⟩
        · cases h
          exact ⟨rfl, .inr (.inl ⟨_, rfl⟩)⟩
  | barrier =>
      simp only [call] at h
      split at h
      · cases h
      · split at h
        · cases h
        · cases h
          exact ⟨rfl, .inr (.inl ⟨_, rfl⟩)⟩
      · split at h
        · cases h
          exact ⟨rfl, .inr (.inl ⟨_, rfl⟩)⟩
        · split at h
          · cases h
            exact ⟨rfl, .inr (.inr ⟨rfl, .inl rfl⟩)⟩
          · cases h
            exact ⟨rfl, .inr (.inl ⟨_, rfl⟩)⟩
  | send dest tag payload =>
      simp only [call] at h
      split at h
      · cases h
      · obtain ⟨answer, _, heq⟩ := Option.map_eq_some_iff.1 h
        cases heq
        exact ⟨rfl, .inr (.inl ⟨_, rfl⟩)⟩
      · split at h
        · cases h
          exact ⟨rfl, .inr (.inl ⟨_, rfl⟩)⟩
        · cases h
          exact ⟨rfl, .inr (.inl ⟨_, rfl⟩)⟩
        · next henqueue =>
            cases h
            obtain ⟨_, _, _, _, _, hticket⟩ := Group.enqueue_eq_ok henqueue
            rcases hticket with ⟨_, hnone, _⟩ | ⟨hdelivery, _⟩
            · cases hnone
            · exact ⟨rfl, .inr (.inr ⟨rfl, .inr hdelivery⟩)⟩
  | probe tag =>
      simp only [call] at h
      split at h
      · cases h
        exact ⟨rfl, .inr (.inl ⟨_, rfl⟩)⟩
      · split at h
        · cases h
          exact ⟨rfl, .inr (.inl ⟨_, rfl⟩)⟩
        · cases h
          exact ⟨rfl, .inl rfl⟩
        · cases h
          exact ⟨rfl, .inr (.inl ⟨_, rfl⟩)⟩
        · cases h
  | receive source tag length =>
      simp only [call] at h
      split at h
      · cases h
        exact ⟨rfl, .inr (.inl ⟨_, rfl⟩)⟩
      · split at h
        · cases h
          exact ⟨rfl, .inr (.inl ⟨_, rfl⟩)⟩
        · cases h
          exact ⟨rfl, .inl rfl⟩
        · cases h
          exact ⟨rfl, .inr (.inl ⟨_, rfl⟩)⟩
        · cases h

/-- Only at the barrier does a main thread wait in the midst of a call, where no send
waits for a receipt. -/
def Ready (actor : Actor α) : Prop :=
  actor.pause = .none ∨ ∃ next, actor.program = .act (.call .barrier) next

theorem Ready.turn (h : actor.Ready) (hbuffered : group.delivery = .buffered)
    (hturn : actor.turn group rank thread = some (group', actor')) : actor'.Ready := by
  cases thread with
  | helper =>
      have hprogram := program_of_help hturn
      have hpause : actor'.pause = actor.pause := pause_of_help hturn
      unfold Ready
      rw [hprogram, hpause]
      exact h
  | main channel =>
      change actor.advance group rank channel = _ at hturn
      unfold advance at hturn
      split at hturn
      · cases hturn
      · next request next hprogram =>
          obtain ⟨-, rfl | ⟨answer, rfl⟩ | ⟨hsame, rfl | hdelivery⟩⟩ := call_eq_some hturn
          · exact h
          · exact .inl rfl
          · exact .inr ⟨_, hsame.trans hprogram⟩
          · cases hdelivery.symm.trans hbuffered
      · cases hturn
        exact .inl rfl
      · cases hturn
        exact .inl rfl
      · split at hturn
        · cases hturn
          exact .inl rfl
        · cases hturn
      · split at hturn
        · cases hturn
          exact .inl rfl
        · cases hturn

/-- A member and its rank, of which it is the last thing to leave. -/
inductive Departs (actor : Actor α) (member : Member) : Prop
  | attending {helping : Bool} (hprogram : actor.program.LeavesLast helping)
      (hidle : helping = false → actor.posts = []) (hpresent : member.present = true)
  | gone {result : Except Fault α} (hprogram : actor.program = .done result)
      (hidle : actor.posts = []) (hpresent : member.present = false)

theorem leavesLast_call {request : Request} {next : (Action.call request).Answer → Program α}
    {helping : Bool} (hrequest : request ≠ .leave)
    (h : Program.LeavesLast helping (.act (.call request) next)) (answer : request.Answer) :
    (next answer).LeavesLast helping := by
  cases request with
  | leave => exact absurd rfl hrequest
  | _ => exact h answer

theorem leavesLast_turn {helping : Bool} (h : actor.program.LeavesLast helping)
    (hidle : helping = false → actor.posts = [])
    (hturn : actor.turn group rank thread = some (group', actor')) :
    (∃ next result, actor.program = .act (.call .leave) next ∧ group' = group.leave rank ∧
        actor'.program = .done result ∧ actor'.posts = []) ∨
      (∀ next, actor.program ≠ .act (.call .leave) next) ∧
        ∃ helping, actor'.program.LeavesLast helping ∧ (helping = false → actor'.posts = []) := by
  cases thread with
  | helper =>
      have hposts : actor.posts ≠ [] := by
        intro hnil
        rw [turn_helper hnil] at hturn
        cases hturn
      have hhelping : helping = true := eq_true_of_ne_false (mt hidle hposts)
      subst hhelping
      refine .inr ⟨?_, true, program_of_help hturn ▸ h, nofun⟩
      intro next hprogram
      rw [hprogram] at h
      cases h.1
  | main channel =>
      unfold turn advance at hturn
      cases hprogram : actor.program with
      | done result =>
          rw [hprogram] at hturn
          cases hturn
      | act action next =>
          rw [hprogram] at hturn h
          cases action with
          | call request =>
              by_cases hrequest : request = .leave
              · subst hrequest
                obtain ⟨hhelping, result, hresult⟩ := h
                cases hturn
                exact .inl ⟨next, result, rfl, rfl, hresult, hidle hhelping⟩
              · refine .inr ⟨fun _ heq => hrequest (by cases heq; rfl), helping, ?_⟩
                obtain ⟨hposts, hactor⟩ := call_eq_some hturn
                refine ⟨?_, fun heq => hposts.trans (hidle heq)⟩
                obtain rfl | ⟨answer, rfl⟩ | ⟨hsame, -⟩ := hactor
                · rw [hprogram]
                  exact h
                · exact leavesLast_call hrequest h answer
                · rw [hsame, hprogram]
                  exact h
          | log event =>
              cases hturn
              exact .inr ⟨nofun, helping, h (), hidle⟩
          | reserve length =>
              cases hturn
              exact .inr ⟨nofun, helping, h _, hidle⟩
          | spawn posts =>
              simp only at hturn
              split at hturn
              · cases hturn
                exact .inr ⟨nofun, true, h, nofun⟩
              · cases hturn
          | join =>
              simp only at hturn
              split at hturn
              · next hempty =>
                  cases hturn
                  exact .inr ⟨nofun, false, h _,
                    fun _ => List.isEmpty_iff.1 hempty⟩
              · cases hturn

theorem Departs.of_present {member member' : Member} (h : actor.Departs member)
    (hpresent : member'.present = member.present) : actor.Departs member' := by
  cases h with
  | attending hprogram hidle hthere =>
      exact .attending hprogram hidle (hpresent.trans hthere)
  | gone hprogram hidle haway => exact .gone hprogram hidle (hpresent.trans haway)

theorem Departs.turn {member member' : Member} (h : actor.Departs member)
    (hturn : actor.turn group rank thread = some (group', actor'))
    (hmember : group.members[rank]? = some member)
    (hmember' : group'.members[rank]? = some member')
    (hchanges : member.Changes group rank actor.program rank member') :
    actor'.Departs member' := by
  cases h with
  | attending hprogram hidle hpresent =>
      obtain ⟨next, result, -, rfl, hdone, hposts⟩ | ⟨hnot, helping, hprogram', hidle'⟩ :=
        leavesLast_turn hprogram hidle hturn
      · rw [Group.getElem?_leave hmember] at hmember'
        cases hmember'
        exact .gone hdone hposts rfl
      · exact .attending hprogram' hidle' ((hchanges.present (fun _ => hnot)).trans hpresent)
  | gone hprogram hidle hpresent =>
      cases thread with
      | helper =>
          rw [turn_helper hidle] at hturn
          cases hturn
      | main channel =>
          unfold Actor.turn advance at hturn
          rw [hprogram] at hturn
          cases hturn

theorem stepEffect_of_turn (hturn : actor.turn group rank thread = some (group', actor')) :
    StepEffect group rank actor thread (actor.deeds group rank thread) group' actor' := by
  cases thread with
  | main channel => exact stepEffect_of_advance hturn
  | helper => exact stepEffect_of_help hturn

end Actor

/-- A member and its rank, which stays. -/
structure Actor.Lasts {α : Type} (actor : Actor α) (member : Member) (alone : Bool) : Prop where
  stays : actor.program.Stays
  ready : actor.Ready
  present : member.present = true
  running : member.stopped = false
  spent : member.inbox.Spent alone

theorem Member.Changes.lasts {α : Type} {group : Group} {rank : Nat} {actor actor' : Actor α}
    {member member' : Member}
    (h : member.Changes group rank actor.program rank member')
    (hlasts : actor.Lasts member (group.isAlone rank)) (hstays : actor'.program.Stays)
    (hready : actor'.Ready) (hapart : member.inbox.Apart (fun _ => True) rank) :
    actor'.Lasts member' (group.isAlone rank) := by
  refine ⟨hstays, hready, ?_, ?_, ?_⟩
  · refine (h.present (fun _ next hprogram => ?_)).trans hlasts.present
    have hstays := hlasts.stays
    rw [hprogram] at hstays
    exact hstays.1
  · cases h with
    | stops hprogram =>
        have hstays := hlasts.stays
        rw [hprogram] at hstays
        exact hstays.1.elim
    | same => exact hlasts.running
    | leaves => exact hlasts.running
    | searches => exact hlasts.running
    | gets => exact hlasts.running
    | gives => exact hlasts.running
  · cases h with
    | same => exact hlasts.spent
    | stops => exact hlasts.spent
    | leaves => exact fun hclosed => by cases hclosed
    | searches _ hsearch => exact (Inbox.searchedTo_search hapart hlasts.spent hsearch).2
    | gets message hsource => exact Inbox.spent_push hlasts.spent (fun _ => hsource)
    | gives => exact hlasts.spent

namespace World

variable {α : Type} {first world next : World α} {rank : Nat}

/-- One rank of a buffered group stays, and each of the others leaves last of all, if
it does. -/
structure Parting (world : World α) (rank : Nat) : Prop where
  buffered : world.group.delivery = .buffered
  sorted : world.group.Sorted
  staffed : world.actors.length = world.group.size
  lasts : ∀ actor member, world.actors[rank]? = some actor →
    world.group.members[rank]? = some member →
    actor.Lasts member (world.group.isAlone rank)
  departs : ∀ other actor member, other ≠ rank → world.actors[other]? = some actor →
    world.group.members[other]? = some member → actor.Departs member

namespace Parting

variable (h : world.Parting rank)

include h

theorem exists_member {other : Nat} {actor : Actor α} (hactor : world.actors[other]? = some actor) :
    ∃ member, world.group.members[other]? = some member := by
  have hlt : other < world.group.members.length := by
    have := (List.getElem?_eq_some_iff.1 hactor).1
    rwa [h.staffed] at this
  exact ⟨_, List.getElem?_eq_getElem hlt⟩

theorem gone_of_isAlone (halone : world.group.isAlone rank = true) {other : Nat}
    {actor : Actor α} (hne : other ≠ rank) (hactor : world.actors[other]? = some actor) :
    (∃ result, actor.program = .done result) ∧ actor.posts = [] := by
  obtain ⟨member, hmember⟩ := h.exists_member hactor
  have hgone := Group.isAlone_iff.1 halone other member hne hmember
  cases h.departs other actor member hne hactor hmember with
  | attending _ _ hpresent => cases hgone.symm.trans hpresent
  | gone hprogram hidle => exact ⟨⟨_, hprogram⟩, hidle⟩

theorem rank_of_step (halone : world.group.isAlone rank = true) {move : Move}
    (hstep : world.step move = some next) : move.rank = rank := by
  by_contra hne
  obtain ⟨actor, group', actor', hactor, _, hthread⟩ := step_eq_some hstep
  obtain ⟨⟨result, hprogram⟩, hidle⟩ := h.gone_of_isAlone halone hne hactor
  rcases hthread with ⟨channel, _, hadvance⟩ | ⟨_, hhelp⟩
  · unfold Actor.advance at hadvance
    rw [hprogram] at hadvance
    cases hadvance
  · exact absurd hhelp (by simp [Actor.help, hidle])

end Parting

/-- While another rank takes a step, the one that stays is not alone. -/
theorem Parting.lasts_of_ne (h : world.Parting rank) {move : Move}
    (hstep : world.step move = some next) (hne : rank ≠ move.rank) {program : Program α}
    {actor : Actor α} {member member' : Member} {alone : Bool}
    (hlasts : actor.Lasts member (world.group.isAlone rank))
    (hchanges : member.Changes world.group move.rank program rank member') :
    actor.Lasts member' alone := by
  have halone : world.group.isAlone rank = false :=
    Bool.eq_false_iff.2 (fun halone => hne (h.rank_of_step halone hstep).symm)
  -- A group in which another rank moves is not deserted, so nothing has been given up yet.
  have hexpects : member.inbox.expectsRemote = true := by
    refine eq_true_of_ne_false (fun hclosed => ?_)
    cases halone.symm.trans (hlasts.spent hclosed).1
  have hspent : ∀ inbox : Inbox, inbox.expectsRemote = true → inbox.Spent alone :=
    fun inbox hopen hclosed => by cases hopen.symm.trans hclosed
  cases hchanges with
  | same => exact ⟨hlasts.stays, hlasts.ready, hlasts.present, hlasts.running, hspent _ hexpects⟩
  | gets message =>
      exact ⟨hlasts.stays, hlasts.ready, hlasts.present, hlasts.running,
        hspent _ ((Inbox.expectsRemote_push message).trans hexpects)⟩
  | stops _ heq => exact absurd heq hne
  | leaves _ heq => exact absurd heq hne
  | searches heq => exact absurd heq hne
  | gives _ heq => exact absurd heq hne

theorem Parting.step (h : world.Parting rank) {move : Move} (hstep : world.step move = some next) :
    next.Parting rank := by
  obtain ⟨actor, group', actor', hactor, rfl, hturn, -⟩ := exists_does_of_step hstep
  have heffect := Actor.stepEffect_of_turn hturn
  have hsize : group'.members.length = world.group.members.length := heffect.size
  -- A step reaches other members too, those it sends to.
  have hmembers : ∀ (other : Nat) (member' : Member), group'.members[other]? = some member' →
      ∃ member, world.group.members[other]? = some member ∧
        member.Changes world.group move.rank actor.program other member' := by
    intro other member' hmember'
    have hlt : other < world.group.members.length :=
      hsize ▸ (List.getElem?_eq_some_iff.1 hmember').1
    obtain ⟨same, hsame, hchanges⟩ := heffect.changes (List.getElem?_eq_getElem hlt)
    cases hsame.symm.trans hmember'
    exact ⟨_, List.getElem?_eq_getElem hlt, hchanges⟩
  refine ⟨heffect.delivery.trans h.buffered, heffect.sorted h.sorted, ?_, ?_, ?_⟩
  · rw [List.length_set, h.staffed]
    exact hsize.symm
  · intro last member' hlast hmember'
    obtain ⟨member, hmember, hchanges⟩ := hmembers rank member' hmember'
    rw [getElem?_of_set hactor] at hlast
    split at hlast
    · next heq =>
        cases hlast
        subst heq
        have hlasts := h.lasts actor member hactor hmember
        have halone : group'.isAlone move.rank = world.group.isAlone move.rank := heffect.isAlone
        rw [halone]
        exact hchanges.lasts hlasts (heffect.stays hlasts.stays)
          (hlasts.ready.turn h.buffered hturn)
          (h.sorted _ member hmember)
    · next hne => exact h.lasts_of_ne hstep hne (h.lasts last member hlast hmember) hchanges
  · intro other last member' hne hlast hmember'
    obtain ⟨member, hmember, hchanges⟩ := hmembers other member' hmember'
    rw [getElem?_of_set hactor] at hlast
    split at hlast
    · next heq =>
        cases hlast
        subst heq
        exact (h.departs _ actor member hne hactor hmember).turn hturn hmember hmember' hchanges
    · next hother =>
        exact (h.departs other last member hne hlast hmember).of_present
          (hchanges.present (fun heq => absurd heq hother))

theorem parting_starting {grants : List Threading} {program : Nat → Program α}
    (hstays : (program rank).Stays)
    (hleaves : ∀ other, other ≠ rank → (program other).LeavesLast false) :
    (starting (.ofGrants .buffered grants) program).Parting rank where
  buffered := rfl
  sorted := Group.sorted_ofGrants _ _
  staffed := by simp [starting]
  lasts := by
    intro actor member hactor hmember
    obtain ⟨-, rfl⟩ := getElem?_starting hactor
    obtain ⟨grant, -, rfl⟩ := Group.exists_grant_of_getElem? hmember
    have hspent : ({} : Inbox).Spent
        ((starting (.ofGrants .buffered grants) program).group.isAlone rank) :=
      fun hclosed => by cases hclosed
    exact ⟨hstays, .inl rfl, rfl, rfl, hspent⟩
  departs := by
    intro other actor member hne hactor hmember
    obtain ⟨-, rfl⟩ := getElem?_starting hactor
    obtain ⟨grant, -, rfl⟩ := Group.exists_grant_of_getElem? hmember
    exact .attending (hleaves other hne) (fun _ => rfl) rfl

theorem Records.parting {ledger : List Deed} (h : first.Records ledger world)
    (hfirst : first.Parting rank) : world.Parting rank := by
  induction h with
  | start => exact hfirst
  | step move _ hstep ih => exact ih.step hstep

end World

end RankExchange
