import Mathlib.Data.List.Basic
import RankExchange.Proofs.LaneBalance
import RankExchange.Proofs.ProbedReceives

/-!
# What is handed over is received

A prudent program still finds at its next receive what its last probe has found:
nobody else takes anything out of an inbox, and what comes in comes in behind.
So every receive gets a message that fits, and whatever becomes of the
operations, the payloads that a rank is given and those that still wait for it
are those that were handed over to it, in order.
-/

namespace RankExchange

namespace Deed

variable {dest source : Nat} {tag : Tag}

/-- No message is taken in part, and none is lost with its receiver. -/
def Fits : Deed → Prop
  | .received _ _ _ length (some message) _ => message.payload.length = length
  | .dropped _ _ => False
  | _ => True

end Deed

theorem Action.held_of_isPlain {action : Action} (h : action.isPlain = true)
    (answer : action.Answer) (held : Option Arrival) : action.held answer held = held := by
  cases action with
  | call request =>
      cases request with
      | probe => cases h
      | receive => cases h
      | _ => rfl
  | _ => rfl

theorem Program.Prudent.continues {α : Type} {program program' : Program α}
    {held : Option Arrival} (h : program.Prudent held) (hcontinues : program.Continues program') :
    program'.Prudent held := by
  cases hcontinues with
  | same => exact h
  | next hprogram hplain answer =>
      rw [hprogram] at h
      have hnext := h.2 answer
      rwa [Action.held_of_isPlain hplain] at hnext

/-- Looking for a message may park some behind those that are parked. -/
theorem Inbox.parked_of_search {inbox moved : Inbox} {wanted : Wanted} {alone own : Bool}
    {channel : Channel} (h : inbox.search wanted alone own channel = .moved moved) :
    ∃ more, moved.parked = inbox.parked ++ more := by
  have hpull : ∀ {channel : Channel} {moved : Inbox}, inbox.pull? channel = some moved →
      ∃ more, moved.parked = inbox.parked ++ more := by
    intro channel moved hmoved
    obtain ⟨remote, loopback, parked, expectsRemote⟩ := inbox
    cases channel with
    | remote => cases remote <;> cases hmoved; exact ⟨_, rfl⟩
    | loopback => cases loopback <;> cases hmoved; exact ⟨_, rfl⟩
  unfold search at h
  split at h
  · cases h
  · split at h
    · split at h
      · next hmoved =>
          cases h
          exact hpull hmoved
      · split at h
        · cases h
          exact ⟨[], (List.append_nil _).symm⟩
        · cases h
    · split at h
      · next hmoved =>
          cases h
          exact hpull hmoved
      · split at h <;> cases h

namespace Group

/-- The message that a rank holds is still the first one of its tag. -/
def Holds (group : Group) (rank : Nat) (held : Option Arrival) : Prop :=
  ∀ arrival, held = some arrival → ∃ member message, group.members[rank]? = some member ∧
    member.inbox.parked.find? (Wanted.accepts { tag := arrival.tag }) = some message ∧
    message.arrival = arrival

variable {group group' : Group} {rank : Nat} {held : Option Arrival}

theorem holds_none (group : Group) (rank : Nat) : group.Holds rank none :=
  fun _ h => by cases h

theorem Holds.of_parked (h : group.Holds rank held)
    (hparked : ∀ member, group.members[rank]? = some member → ∃ member' more,
      group'.members[rank]? = some member' ∧
        member'.inbox.parked = member.inbox.parked ++ more) : group'.Holds rank held := by
  intro arrival harrival
  obtain ⟨member, message, hmember, hfound, hmessage⟩ := h arrival harrival
  obtain ⟨member', more, hmember', heq⟩ := hparked member hmember
  refine ⟨member', message, hmember', ?_, hmessage⟩
  rw [heq, List.find?_append, hfound]
  rfl

end Group

namespace StepEffect

variable {α : Type} {group group' : Group} {rank : Nat} {actor actor' : Actor α}
  {thread : Thread} {deeds : List Deed} {held : Option Arrival}

theorem parked_of_ne (h : StepEffect group rank actor thread deeds group' actor') {other : Nat}
    (hne : other ≠ rank) {member : Member} (hmember : group.members[other]? = some member) :
    ∃ member', group'.members[other]? = some member' ∧
      member'.inbox.parked = member.inbox.parked := by
  have hsame : Group.SameBut rank group group' → ∃ member', group'.members[other]? = some member' ∧
      member'.inbox.parked = member.inbox.parked :=
    fun hsame => ⟨member, (hsame.member other hne).trans hmember, rfl⟩
  cases h with
  | rests hmembers => exact hsame (Group.sameBut_of_members hmembers)
  | stops => exact hsame (Group.sameBut_modify _ _ _)
  | parks => exact hsame (Group.sameBut_modify _ _ _)
  | queues henqueue =>
      obtain ⟨receiver, hreceiver, _, hmembers, _⟩ := Group.enqueue_eq_ok henqueue
      rw [hmembers, getElem?_of_set hreceiver]
      split
      · next heq =>
          subst heq
          rw [hreceiver] at hmember
          cases hmember
          exact ⟨_, rfl, Inbox.parked_push _⟩
      · exact ⟨member, hmember, rfl⟩
  | returns => exact hsame (.refl _ _)
  | finds => exact hsame (.refl _ _)
  | misses => exact hsame (.refl _ _)
  | takes => exact hsame (Group.sameBut_receive _ _ _ _)
  | fails => exact hsame (.refl _ _)
  | leaves => exact hsame (Group.sameBut_leave _ _)

theorem prudent (h : StepEffect group rank actor thread deeds group' actor')
    (hprudent : actor.program.Prudent held) (hholds : group.Holds rank held) :
    ∃ held', actor'.program.Prudent held' ∧ group'.Holds rank held' := by
  cases h with
  | rests hmembers _ _ hcontinues =>
      refine ⟨held, hprudent.continues hcontinues, hholds.of_parked (fun member hmember => ?_)⟩
      rw [hmembers]
      exact ⟨member, [], hmember, (List.append_nil _).symm⟩
  | stops hprogram hprogram' =>
      rw [hprogram] at hprudent
      rw [hprogram']
      refine ⟨held, hprudent.2 _, hholds.of_parked (fun member hmember => ?_)⟩
      exact ⟨_, [], Group.getElem?_finalize hmember, (List.append_nil _).symm⟩
  | parks hsearch =>
      refine ⟨held, hprudent, hholds.of_parked (fun member hmember => ?_)⟩
      unfold Group.search at hsearch
      rw [hmember] at hsearch
      obtain ⟨more, hmore⟩ := Inbox.parked_of_search hsearch
      exact ⟨_, more, Group.getElem?_members_putInbox hmember _, hmore⟩
  | queues henqueue hcontinues =>
      refine ⟨held, hprudent.continues hcontinues, hholds.of_parked (fun member hmember => ?_)⟩
      obtain ⟨receiver, hreceiver, _, hmembers, _⟩ := Group.enqueue_eq_ok henqueue
      rw [hmembers, getElem?_of_set hreceiver]
      split
      · next heq =>
          subst heq
          rw [hreceiver] at hmember
          cases hmember
          exact ⟨_, [], rfl, (Inbox.parked_push _).trans (List.append_nil _).symm⟩
      · exact ⟨member, [], hmember, (List.append_nil _).symm⟩
  | returns _ hcontinues => exact ⟨held, hprudent.continues hcontinues, hholds⟩
  | @finds tag message member next _ hprogram hmember hfound hprogram' =>
      rw [hprogram] at hprudent
      rw [hprogram']
      refine ⟨some message.arrival, hprudent.2 (.ok message.arrival), ?_⟩
      rintro arrival ⟨⟩
      have htag : message.tag = tag := Wanted.accepts_of_tag_iff.1 (List.find?_some hfound)
      refine ⟨member, message, hmember, ?_, rfl⟩
      simp only [Message.arrival, htag]
      exact hfound
  | misses hprogram _ hprogram' =>
      rw [hprogram] at hprudent
      rw [hprogram']
      exact ⟨none, hprudent.2 (.error _), Group.holds_none _ _⟩
  | takes hprogram _ _ hprogram' =>
      rw [hprogram] at hprudent
      rw [hprogram']
      exact ⟨none, hprudent.2 _, Group.holds_none _ _⟩
  | fails hprogram _ hprogram' =>
      rw [hprogram] at hprudent
      rw [hprogram']
      exact ⟨none, hprudent.2 _, Group.holds_none _ _⟩
  | leaves hprogram =>
      rw [hprogram] at hprudent
      exact hprudent.1.elim

/-- A prudent program receives just the message that it holds. -/
theorem fits (h : StepEffect group rank actor thread deeds group' actor')
    (hprudent : actor.program.Prudent held) (hholds : group.Holds rank held) :
    ∀ deed ∈ deeds, deed.Fits := by
  cases h with
  | rests => exact fun _ hmem => (List.not_mem_nil hmem).elim
  | stops => exact fun _ hmem => (List.not_mem_nil hmem).elim
  | parks => exact fun _ hmem => (List.not_mem_nil hmem).elim
  | queues => exact List.forall_mem_singleton.2 trivial
  | returns => exact List.forall_mem_singleton.2 trivial
  | finds => exact List.forall_mem_singleton.2 trivial
  | misses => exact List.forall_mem_singleton.2 trivial
  | @takes source tag length message member _ _ hprogram hmember hfound =>
      rw [hprogram] at hprudent
      obtain ⟨member', first, hmember', hfirst, harrival⟩ := hholds _ hprudent.1
      rw [hmember] at hmember'
      cases hmember'
      -- The first message of the tag is also the first of its source and tag.
      obtain ⟨_, hsource⟩ := find?_source_of_find?_tag hfirst
      have horigin : first.source = source := congrArg Arrival.source harrival
      have hlength : first.payload.length = length := congrArg Arrival.length harrival
      rw [horigin, hfound] at hsource
      cases hsource
      exact List.forall_mem_singleton.2 hlength
  | fails => exact List.forall_mem_singleton.2 trivial
  | leaves hprogram =>
      rw [hprogram] at hprudent
      exact hprudent.1.elim

end StepEffect

namespace World

variable {α : Type}

/-- The program of every rank is prudent, and holds what it can hold. -/
def Prudent (world : World α) : Prop :=
  ∀ rank actor, world.actors[rank]? = some actor →
    ∃ held, actor.program.Prudent held ∧ world.group.Holds rank held

theorem Prudent.step {world next : World α} {move : Move} (h : world.Prudent)
    (hstep : world.step move = some next) :
    next.Prudent ∧ ∀ deed ∈ world.deeds move, deed.Fits := by
  obtain ⟨actor, group', actor', hactor, rfl, heffect⟩ := exists_stepEffect_of_step hstep
  obtain ⟨held, hprudent, hholds⟩ := h move.rank actor hactor
  refine ⟨?_, heffect.fits hprudent hholds⟩
  intro rank other hother
  rw [getElem?_of_set hactor] at hother
  split at hother
  · next heq =>
      cases hother
      rw [heq]
      exact heffect.prudent hprudent hholds
  · next hne =>
      obtain ⟨held, hprudent, hholds⟩ := h rank other hother
      refine ⟨held, hprudent, hholds.of_parked (fun member hmember => ?_)⟩
      obtain ⟨member', hmember', hparked⟩ := heffect.parked_of_ne hne hmember
      exact ⟨member', [], hmember', hparked.trans (List.append_nil _).symm⟩

theorem Records.prudent {first world : World α} {ledger : List Deed}
    (h : first.Records ledger world) (hprudent : first.Prudent) :
    world.Prudent ∧ ∀ deed ∈ ledger, deed.Fits := by
  induction h with
  | start => exact ⟨hprudent, fun _ hmem => (List.not_mem_nil hmem).elim⟩
  | step move _ hstep ih =>
      obtain ⟨hprudent', hfits⟩ := ih.1.step hstep
      exact ⟨hprudent', List.forall_mem_append.2 ⟨ih.2, hfits⟩⟩

end World

end RankExchange
