import RankExchange.Proofs.Departure

/-!
# Members at any time

Where each rank leaves last of all, if it leaves, some things hold of every member at any
time, whatever the delivery and whoever has left: its channels carry what they are meant
for, and it only stops expecting messages of others when all of them have left and it has
seen everything that they had sent.
-/

namespace RankExchange

theorem Program.leavesLast_send {α : Type} {helping : Bool} {dest : Nat} {tag : Tag}
    {payload : Bytes} {f : Unit → Program α} (h : (f ()).LeavesLast helping) :
    ((Program.send dest tag payload).bind f).LeavesLast helping := by
  rintro (fault | answer)
  · trivial
  · exact h

namespace World

variable {α : Type} {first world next : World α}

structure Regular (world : World α) : Prop where
  sorted : world.group.Sorted
  staffed : world.actors.length = world.group.size
  departs : ∀ (rank : Nat) (actor : Actor α) (member : Member),
    world.actors[rank]? = some actor → world.group.members[rank]? = some member →
      actor.Departs member
  spent : ∀ (rank : Nat) (member : Member), world.group.members[rank]? = some member →
    member.inbox.Spent (world.group.isAlone rank)

theorem regular_starting {delivery : Delivery} {grants : List Threading}
    {program : Nat → Program α} (hleaves : ∀ rank, (program rank).LeavesLast false) :
    (starting (.ofGrants delivery grants) program).Regular where
  sorted := Group.sorted_ofGrants _ _
  staffed := by simp [starting]
  departs := by
    intro rank actor member hactor hmember
    obtain ⟨-, rfl⟩ := getElem?_starting hactor
    obtain ⟨grant, -, rfl⟩ := Group.exists_grant_of_getElem? hmember
    exact .attending (hleaves rank) (fun _ => rfl) rfl
  spent := by
    intro rank member hmember
    obtain ⟨grant, -, rfl⟩ := Group.exists_grant_of_getElem? hmember
    exact fun hclosed => by cases hclosed

namespace Regular

variable (h : world.Regular)

include h

/-- Whoever can take a step has not left. -/
theorem present_of_step {move : Move} (hstep : world.step move = some next) {member : Member}
    (hmember : world.group.members[move.rank]? = some member) : member.present = true := by
  obtain ⟨actor, group', actor', hactor, -, hturn, -⟩ := exists_does_of_step hstep
  cases h.departs move.rank actor member hactor hmember with
  | attending _ _ hpresent => exact hpresent
  | gone hprogram hidle =>
      cases hthread : move.thread with
      | helper =>
          rw [hthread, Actor.turn_helper hidle] at hturn
          cases hturn
      | main channel =>
          rw [hthread] at hturn
          unfold Actor.turn Actor.advance at hturn
          rw [hprogram] at hturn
          cases hturn

/-- A group in which another rank moves is not deserted, so no member has given up yet. -/
theorem expectsRemote_of_step {move : Move} (hstep : world.step move = some next) {rank : Nat}
    {member : Member} (hne : rank ≠ move.rank)
    (hmember : world.group.members[rank]? = some member) :
    member.inbox.expectsRemote = true := by
  refine eq_true_of_ne_false (fun hclosed => ?_)
  have halone := (h.spent rank member hmember hclosed).1
  obtain ⟨actor, -, -, hactor, -⟩ := exists_does_of_step hstep
  have hlt : move.rank < world.group.members.length := by
    have := (List.getElem?_eq_some_iff.1 hactor).1
    rwa [h.staffed] at this
  have hmover := List.getElem?_eq_getElem hlt
  have hgone := Group.isAlone_iff.1 halone move.rank _ (Ne.symm hne) hmover
  cases (h.present_of_step hstep hmover).symm.trans hgone

theorem step {move : Move} (hstep : world.step move = some next) : next.Regular := by
  have hpatient : ∀ (rank : Nat) (member : Member), rank ≠ move.rank →
      world.group.members[rank]? = some member → member.inbox.expectsRemote = true :=
    fun _ _ => h.expectsRemote_of_step hstep
  obtain ⟨actor, group', actor', hactor, rfl, hturn, -⟩ := exists_does_of_step hstep
  have heffect := Actor.stepEffect_of_turn hturn
  have hsize : group'.members.length = world.group.members.length := heffect.size
  have hmembers : ∀ (rank : Nat) (member' : Member), group'.members[rank]? = some member' →
      ∃ member, world.group.members[rank]? = some member ∧
        member.Changes world.group move.rank actor.program rank member' := by
    intro rank member' hmember'
    have hlt : rank < world.group.members.length :=
      hsize ▸ (List.getElem?_eq_some_iff.1 hmember').1
    obtain ⟨same, hsame, hchanges⟩ := heffect.changes (List.getElem?_eq_getElem hlt)
    cases hsame.symm.trans hmember'
    exact ⟨_, List.getElem?_eq_getElem hlt, hchanges⟩
  refine ⟨heffect.sorted h.sorted, ?_, ?_, ?_⟩
  · rw [List.length_set, h.staffed]
    exact hsize.symm
  · intro rank last member' hlast hmember'
    obtain ⟨member, hmember, hchanges⟩ := hmembers rank member' hmember'
    rw [getElem?_of_set hactor] at hlast
    split at hlast
    · next heq =>
        cases hlast
        subst heq
        exact (h.departs _ actor member hactor hmember).turn hturn hmember hmember' hchanges
    · next hne =>
        exact (h.departs rank last member hlast hmember).of_present
          (hchanges.present (fun heq => absurd heq hne))
  · intro rank member' hmember'
    obtain ⟨member, hmember, hchanges⟩ := hmembers rank member' hmember'
    have hspent := h.spent rank member hmember
    by_cases hmover : rank = move.rank
    · subst hmover
      have halone : group'.isAlone move.rank = world.group.isAlone move.rank := heffect.isAlone
      rw [halone]
      cases hchanges with
      | same => exact hspent
      | stops => exact hspent
      | leaves => exact fun hclosed => by cases hclosed
      | searches _ hsearch => exact (Inbox.searchedTo_search
        (h.sorted _ member hmember) hspent hsearch).2
      | gets message hsource => exact Inbox.spent_push hspent (fun _ => hsource)
      | gives => exact hspent
    · have hexpects := hpatient rank member hmover hmember
      have hopen : ∀ inbox : Inbox, inbox.expectsRemote = true →
          inbox.Spent (group'.isAlone rank) :=
        fun inbox hopen hclosed => by cases hopen.symm.trans hclosed
      cases hchanges with
      | same => exact hopen _ hexpects
      | gets message => exact hopen _ ((Inbox.expectsRemote_push message).trans hexpects)
      | stops _ heq => exact absurd heq hmover
      | leaves _ heq => exact absurd heq hmover
      | searches heq => exact absurd heq hmover
      | gives _ heq => exact absurd heq hmover

theorem of_reaches (hreaches : world.Reaches next) : next.Regular := by
  induction hreaches with
  | refl => exact h
  | step move hstep _ ih => exact ih (h.step hstep)

end Regular

end World

end RankExchange
