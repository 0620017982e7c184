import RankExchange.Proofs.ScriptedRuns
import RankExchange.Proofs.UnconfirmedSends

/-!
# Compatible scripts

In an intact group, ranks with compatible scripts never get out of step.  A
message that arrives too early is no danger: between two takes on one tag a
rank has something to send to whoever owes it a message in the second, so that
one cannot have gone so far ahead; or it takes from nobody else at the first, and
then the messages come in order.
-/

namespace RankExchange

def Duty.isPosting : Duty → Bool
  | .send _ _ => true
  | .spawn _ _ => true
  | _ => false

def Duty.isJoin : Duty → Bool
  | .join _ => true
  | _ => false

/-- A duty may come before another one: it belongs to an earlier time, or it
comes earlier in the same round. -/
def Duty.Precedes (first second : Duty) : Prop :=
  first.time < second.time ∨
    (first.time = second.time ∧ (first.isPosting = true ∨ second.isJoin = true))

namespace Script

/-- What the script of every rank has to be like for all of them to finish. -/
structure Compatible (used : Tag → Prop) (size : Nat) (delivery : Delivery) (script : Script) :
    Prop where
  staged : script.Pairwise Duty.Precedes
  owed : ∀ time tag owed payload found, .take time tag owed payload found ∈ script →
    owed.ranks ≠ [] ∧ ∀ source, source ∈ owed → source < size
  posted : ∀ entry ∈ script.outgoing, used entry.2.tag ∧ entry.2.peer < size
  separated : ∀ time time' tag owed owed' payload payload' found found' source,
    .take time tag owed payload found ∈ script →
    .take time' tag owed' payload' found' ∈ script → time < time' → source ∈ owed' →
    (∀ other, other ∈ owed → other = source) ∨
      ∃ entry ∈ script.outgoing, time < entry.1 ∧ entry.1 < time' ∧ entry.2.peer = source
  /-- Where a send waits for its receiver, the main thread does not both send and
  take in one round. -/
  unhindered : delivery = .rendezvous → ∀ time post tag owed payload found,
    .send time post ∈ script → ¬ .take time tag owed payload found ∈ script

variable {used : Tag → Prop} {size : Nat} {delivery : Delivery} {script script' : Script}

theorem Proceeds.exists_take (h : Proceeds script script') {time : Nat} {tag : Tag}
    {owed : RankSet} {payload : Nat → Bytes} {found : Option Nat}
    (htake : .take time tag owed payload found ∈ script') :
    ∃ owed' found', .take time tag owed' payload found' ∈ script ∧
      (∀ source, source ∈ owed → source ∈ owed') ∧ (owed'.ranks ≠ [] → owed.ranks ≠ []) := by
  cases h with
  | same => exact ⟨owed, found, htake, fun _ h => h, id⟩
  | next duty => exact ⟨owed, found, List.mem_cons_of_mem _ htake, fun _ h => h, id⟩
  | begun time' tag' owed' payload' source rest =>
      rcases List.mem_cons.1 htake with heq | htake
      · cases heq
        exact ⟨owed, none, List.mem_cons_self, fun _ h => h, id⟩
      · exact ⟨owed, found, List.mem_cons_of_mem _ htake, fun _ h => h, id⟩
  | served time' tag' owed' payload' found' source rest =>
      unfold await at htake
      split at htake
      · exact ⟨owed, found, List.mem_cons_of_mem _ htake, fun _ h => h, id⟩
      · next hranks =>
          rcases List.mem_cons.1 htake with heq | htake
          · cases heq
            refine ⟨owed', found', List.mem_cons_self, ?_, fun _ => hranks⟩
            exact fun other hother => (RankSet.mem_erase.1 hother).1
          · exact ⟨owed, found, List.mem_cons_of_mem _ htake, fun _ h => h, id⟩

theorem Proceeds.outgoing (h : Proceeds script script') :
    script'.outgoing = script.outgoing ∨ ∃ duty, script = duty :: script' := by
  cases h with
  | same => exact .inl rfl
  | next duty => exact .inr ⟨duty, rfl⟩
  | begun => exact .inl rfl
  | served => exact .inl (outgoing_await _ _ _ _ _)

theorem Proceeds.subset_outgoing (h : Proceeds script script') :
    ∀ entry ∈ script'.outgoing, entry ∈ script.outgoing := by
  intro entry hentry
  rcases h.outgoing with heq | ⟨duty, rfl⟩
  · rw [← heq]
    exact hentry
  · exact List.mem_append_right _ hentry

theorem Proceeds.staged (h : Proceeds script script')
    (hstaged : script.Pairwise Duty.Precedes) : script'.Pairwise Duty.Precedes := by
  cases h with
  | same => exact hstaged
  | next duty => exact (List.pairwise_cons.1 hstaged).2
  | begun =>
      have hcons := List.pairwise_cons.1 hstaged
      exact List.pairwise_cons.2 ⟨hcons.1, hcons.2⟩
  | served =>
      have hcons := List.pairwise_cons.1 hstaged
      unfold await
      split
      · exact hcons.2
      · exact List.pairwise_cons.2 ⟨hcons.1, hcons.2⟩

theorem Proceeds.send_mem (h : Proceeds script script') {time : Nat} {post : Envelope}
    (hsend : .send time post ∈ script') : .send time post ∈ script := by
  cases h with
  | same => exact hsend
  | next duty => exact List.mem_cons_of_mem _ hsend
  | begun =>
      rcases List.mem_cons.1 hsend with heq | hsend
      · cases heq
      · exact List.mem_cons_of_mem _ hsend
  | served =>
      rcases mem_await hsend with heq | hsend
      · cases heq
      · exact List.mem_cons_of_mem _ hsend

theorem Compatible.proceeds (h : script.Compatible used size delivery)
    (hproceeds : Proceeds script script') : script'.Compatible used size delivery where
  staged := hproceeds.staged h.staged
  owed := by
    intro time tag owed payload found htake
    obtain ⟨owed', found', htake', hsub, hranks⟩ := hproceeds.exists_take htake
    obtain ⟨hne, hsize⟩ := h.owed _ _ _ _ _ htake'
    exact ⟨hranks hne, fun source hsource => hsize source (hsub source hsource)⟩
  posted := fun entry hentry => h.posted entry (hproceeds.subset_outgoing entry hentry)
  separated := by
    intro time time' tag owed owed' payload payload' found found' source htake htake' htime hsource
    obtain ⟨owed₁, found₁, htake₁, hfewer, _⟩ := hproceeds.exists_take htake
    obtain ⟨owed₂, found₂, htake₂, hsub, _⟩ := hproceeds.exists_take htake'
    rcases h.separated _ _ _ _ _ _ _ _ _ _ htake₁ htake₂ htime (hsub source hsource) with
      hsingle | ⟨entry, hentry, hlow, hhigh, hpeer⟩
    · exact .inl (fun other hother => hsingle other (hfewer other hother))
    refine .inr ⟨entry, ?_, hlow, hhigh, hpeer⟩
    rcases hproceeds.outgoing with heq | ⟨duty, rfl⟩
    · rw [heq]
      exact hentry
    · rw [outgoing_cons] at hentry
      rcases List.mem_append.1 hentry with hfirst | hrest
      · -- What the first duty sends belongs to no later time than the takes.
        obtain ⟨post, _, rfl⟩ := List.mem_map.1 hfirst
        have hbefore := (List.pairwise_cons.1 h.staged).1 _ htake
        have hle : duty.time ≤ time := by
          rcases hbefore with hlt | ⟨heq, _⟩
          · exact Nat.le_of_lt hlt
          · exact Nat.le_of_eq heq
        exact absurd hlow (Nat.not_lt.2 hle)
      · exact hrest
  unhindered := by
    intro hdelivery time post tag owed payload found hsend htake
    obtain ⟨_, _, htake', _⟩ := hproceeds.exists_take htake
    exact h.unhindered hdelivery _ _ _ _ _ _ (hproceeds.send_mem hsend) htake'

end Script

theorem Group.not_isAlone_of_present {group : Group} {rank : Nat}
    (hpresent : ∀ (rank : Nat) (member : Member), group.members[rank]? = some member →
      member.present = true)
    (hsize : group.size ≠ 1) (hrank : rank < group.size) : group.isAlone rank = false := by
  rw [Bool.eq_false_iff]
  intro halone
  unfold isAlone at halone
  rw [List.all_eq_true] at halone
  obtain ⟨other, hother, hne⟩ : ∃ other, other < group.size ∧ other ≠ rank := by
    by_cases hzero : rank = 0
    · exact ⟨1, by omega, by omega⟩
    · exact ⟨0, by omega, fun h => hzero h.symm⟩
  have hmember : group.members[other]? = some group.members[other] :=
    List.getElem?_eq_getElem hother
  have hmem : (group.members[other], other) ∈ group.members.zipIdx := by
    rw [List.mem_zipIdx_iff_getElem?]
    exact hmember
  have := halone _ hmem
  simp [hne, hpresent other _ hmember] at this

/-- All members are there, and none has given up on the others. -/
structure Group.Intact (group : Group) : Prop where
  present : ∀ (rank : Nat) (member : Member), group.members[rank]? = some member →
    member.present = true
  running : ∀ (rank : Nat) (member : Member), group.members[rank]? = some member →
    member.stopped = false
  expects : group.size = 1 ∨ ∀ (rank : Nat) (member : Member),
    group.members[rank]? = some member → member.inbox.expectsRemote = true

namespace Group.Intact

variable {group group' : Group} {rank : Nat}

theorem isStopped (h : group.Intact) (rank : Nat) : group.isStopped rank = false := by
  unfold Group.isStopped
  cases hmember : group.members[rank]? with
  | none => rfl
  | some member =>
      rw [Option.any_some]
      exact h.running rank member hmember

theorem not_isAlone (h : group.Intact) (hsize : group.size ≠ 1) (hrank : rank < group.size) :
    group.isAlone rank = false :=
  not_isAlone_of_present h.present hsize hrank

theorem of_set {member : Member} {inbox : Inbox} (h : group.Intact)
    (hmember : group.members[rank]? = some member)
    (hmembers : group'.members = group.members.set rank { member with inbox })
    (hexpects : group.size = 1 ∨ inbox.expectsRemote = member.inbox.expectsRemote) :
    group'.Intact := by
  have hsize : group'.size = group.size := by
    unfold size
    rw [hmembers, List.length_set]
  have hcases : ∀ (other : Nat) (changed : Member), group'.members[other]? = some changed →
      ∃ old, group.members[other]? = some old ∧ changed.present = old.present ∧
        changed.stopped = old.stopped ∧ (group.size = 1 ∨
          changed.inbox.expectsRemote = old.inbox.expectsRemote) := by
    intro other changed hchanged
    rw [hmembers, getElem?_of_set hmember] at hchanged
    split at hchanged
    · next heq =>
        cases hchanged
        rw [heq]
        exact ⟨member, hmember, rfl, rfl, hexpects⟩
    · exact ⟨changed, hchanged, rfl, rfl, .inr rfl⟩
  refine ⟨?_, ?_, ?_⟩
  · intro other changed hchanged
    obtain ⟨old, hold, hpresent, _, _⟩ := hcases other changed hchanged
    rw [hpresent]
    exact h.present other old hold
  · intro other changed hchanged
    obtain ⟨old, hold, _, hstopped, _⟩ := hcases other changed hchanged
    rw [hstopped]
    exact h.running other old hold
  · rw [hsize]
    rcases h.expects with hone | hall
    · exact .inl hone
    · by_cases hone : group.size = 1
      · exact .inl hone
      · refine .inr (fun other changed hchanged => ?_)
        obtain ⟨old, hold, _, _, hexpects'⟩ := hcases other changed hchanged
        rcases hexpects' with hone' | hexpects'
        · exact absurd hone' hone
        · rw [hexpects']
          exact hall other old hold

theorem not_deserted (h : group.Intact) (tag : Tag) (channel : Channel) :
    group.search rank { tag } (group.size = 1) channel ≠ .deserted := by
  intro hsearch
  unfold search at hsearch
  split at hsearch
  · cases hsearch
  · next member hmember =>
      unfold Inbox.search at hsearch
      split at hsearch
      · cases hsearch
      · rcases h.expects with hone | hall
        · simp only [hone, decide_true, if_true] at hsearch
          split at hsearch <;> split at hsearch <;> try split at hsearch
          all_goals cases hsearch
        · rw [if_pos (hall rank member hmember)] at hsearch
          split at hsearch
          · cases hsearch
          · split at hsearch <;> cases hsearch

end Group.Intact

theorem Inbox.expectsRemote_of_search {inbox moved : Inbox} {wanted : Wanted} {own : Bool}
    {channel : Channel} (h : inbox.search wanted false own channel = .moved moved) :
    moved.expectsRemote = inbox.expectsRemote := by
  have hpull : ∀ {channel moved}, inbox.pull? channel = some moved →
      moved.expectsRemote = inbox.expectsRemote := by
    intro channel moved hpull
    obtain ⟨remote, loopback, parked, expectsRemote⟩ := inbox
    cases channel with
    | remote => cases remote <;> cases hpull; rfl
    | loopback => cases loopback <;> cases hpull; rfl
  unfold search at h
  split at h
  · cases h
  · split at h
    · split at h
      · next hmoved =>
          cases h
          exact hpull hmoved
      · simp at h
    · split at h
      · next hmoved =>
          cases h
          exact hpull hmoved
      · split at h <;> cases h

theorem Group.Intact.enqueue {group group' : Group} {source : Nat} {post : Envelope}
    {ticket : Option Nat} (h : group.Intact)
    (henqueue : group.enqueue source post.peer post.tag post.payload = .ok (group', ticket)) :
    group'.Intact := by
  obtain ⟨member, hmember, _, hmembers, _⟩ := enqueue_eq_ok henqueue
  exact h.of_set hmember hmembers (.inr (Inbox.expectsRemote_push _))

theorem ScriptStep.intact {α : Type} {Rest : Bool → Program α → Script → Prop}
    {actor actor' : Actor α} {group group' : Group} {rank : Nat} {position position' : Position}
    (h : ScriptStep Rest group rank actor position group' actor' position')
    (hstep : position'.inStep = true)
    (hintact : group.Intact) : group'.Intact := by
  cases h with
  | steady => exact hintact
  | sends _ _ _ henqueue => exact hintact.enqueue henqueue
  | offers _ _ _ henqueue => exact hintact.enqueue henqueue
  | resumes => exact hintact
  | spawns => exact hintact
  | joins => exact hintact
  | parks _ hsearch =>
      unfold Group.search at hsearch
      split at hsearch
      · cases hsearch
      · next member hmember =>
          apply hintact.of_set hmember (Group.members_putInbox hmember _)
          by_cases hsize : group.size = 1
          · exact .inl hsize
          · have hrank : rank < group.size := (List.getElem?_eq_some_iff.1 hmember).1
            rw [hintact.not_isAlone hsize hrank] at hsearch
            exact .inr (Inbox.expectsRemote_of_search hsearch)
  | finds => exact hintact
  | takes _ _ hmember =>
      exact hintact.of_set hmember (Group.members_receive hmember _ _ _) (.inr rfl)
  | wanders => cases hstep
  | posts _ _ henqueue => exact hintact.enqueue henqueue
  | confirmed => exact hintact

end RankExchange
