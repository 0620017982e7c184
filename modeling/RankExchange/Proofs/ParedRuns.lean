import RankExchange.Proofs.RestrictedGroups
import RankExchange.Proofs.ParedPrograms
import RankExchange.Proofs.RankTurns

/-!
# Runs of pared programs

A rank runs a program in a group, and the same rank of the restricted group runs the
program pared down.  Whatever the first does in one turn, the second follows: it does
nothing if the turn is left out, else it takes a turn of its own, once its search has come
to the end to which the other's has come.
-/

namespace RankExchange

def Deed.isSpared (spared : Tag → Bool) (deed : Deed) : Bool :=
  deed.tag?.all spared

/-- At no rank do messages to itself and messages of others wait on one tag. -/
def Group.IsUnmixed (group : Group) : Prop :=
  ∀ rank, Unmixed rank (group.waitingAt rank)

variable {α β : Type} {spared : Tag → Bool} {agree : Except Fault α → Except Fault β → Prop}
  {aid : Aid} {rank : Nat} {group group' after : Group} {actor later : Actor α}
  {actor' : Actor β} {channel : Channel} {thread : Thread} {deeds : List Deed}

/-- What the helper threads of two ranks have still to do. -/
def Aid.Helps (spared : Tag → Bool) (actor : Actor α) (actor' : Actor β) : Aid → Prop
  | .neither => actor.posts = [] ∧ actor'.posts = []
  | .both => actor'.posts = actor.posts ∧ actor'.failure = actor.failure ∧
      ∀ post ∈ actor.posts, spared post.tag = true
  | .first => actor'.posts = [] ∧ ∀ post ∈ actor.posts, spared post.tag = false

theorem Aid.Helps.of_eq {later' : Actor β} (h : aid.Helps spared actor actor')
    (hposts : later.posts = actor.posts) (hfailure : later.failure = actor.failure)
    (hposts' : later'.posts = actor'.posts) (hfailure' : later'.failure = actor'.failure) :
    aid.Helps spared later later' := by
  cases aid with
  | neither => exact ⟨hposts.trans h.1, hposts'.trans h.2⟩
  | both =>
      refine ⟨(hposts'.trans h.1).trans hposts.symm,
        (hfailure'.trans h.2.1).trans hfailure.symm, ?_⟩
      rw [hposts]
      exact h.2.2
  | first =>
      refine ⟨hposts'.trans h.1, ?_⟩
      rw [hposts]
      exact h.2

/-- Two ranks of which the second does a part of what the first does. -/
structure Actor.Pares (spared : Tag → Bool) (agree : Except Fault α → Except Fault β → Prop)
    (aid : Aid) (actor : Actor α) (actor' : Actor β) : Prop where
  program : actor.program.Pares spared agree aid actor'.program
  pause : actor'.pause = actor.pause
  paused : actor.pause ≠ .none → ∃ next, actor.program = .act (.call .barrier) next
  helps : aid.Helps spared actor actor'
  tickets : actor.ticket = none ∧ actor'.ticket = none

namespace Actor.Pares

variable (h : actor.Pares spared agree aid actor')

include h

theorem pause_eq_none {action : Action} {next : action.Answer → Program α}
    (hprogram : actor.program = .act action next) (haction : action ≠ .call .barrier) :
    actor.pause = .none := by
  by_contra hpause
  obtain ⟨_, hbarrier⟩ := h.paused hpause
  rw [hprogram] at hbarrier
  cases hbarrier
  exact haction rfl

theorem resume {program : Program α} {program' : Program β}
    (hprogram : program.Pares spared agree aid program') :
    (actor.resume program).Pares spared agree aid (actor'.resume program') where
  program := hprogram
  pause := rfl
  paused := fun hpause => absurd rfl hpause
  helps := h.helps.of_eq rfl rfl rfl rfl
  tickets := h.tickets

theorem resume_left {program : Program α} (hpause : actor.pause = .none)
    (hprogram : program.Pares spared agree aid actor'.program) :
    (actor.resume program).Pares spared agree aid actor' where
  program := hprogram
  pause := h.pause.trans hpause
  paused := fun hpause => absurd rfl hpause
  helps := h.helps.of_eq rfl rfl rfl rfl
  tickets := h.tickets

theorem waits {next : Except Fault Unit → Program α}
    (hprogram : actor.program = .act (.call .barrier) next) (pause : Pause) :
    ({ actor with pause } : Actor α).Pares spared agree aid { actor' with pause } where
  program := h.program
  pause := rfl
  paused := fun _ => ⟨next, hprogram⟩
  helps := h.helps.of_eq rfl rfl rfl rfl
  tickets := h.tickets

theorem report (trail trail' : List Event) :
    ({ actor with trail } : Actor α).Pares spared agree aid
      { actor' with trail := trail' } where
  program := h.program
  pause := h.pause
  paused := h.paused
  helps := h.helps.of_eq rfl rfl rfl rfl
  tickets := h.tickets

end Actor.Pares

theorem Actor.Pares.help {posts : List Envelope} {failure failure' : Option Fault}
    (h : actor.Pares spared agree .both actor') (hfailure : failure' = failure)
    (hposts : ∀ post ∈ posts, spared post.tag = true) :
    ({ actor with posts, ticket := none, failure } : Actor α).Pares spared agree .both
      { actor' with posts, ticket := none, failure := failure' } :=
  ⟨h.program, h.pause, h.paused, ⟨rfl, hfailure, hposts⟩, rfl, rfl⟩

theorem Actor.Pares.help_left {posts : List Envelope}
    (h : actor.Pares spared agree .first actor') (failure : Option Fault)
    (hposts : ∀ post ∈ posts, spared post.tag = false) :
    ({ actor with posts, ticket := none, failure } : Actor α).Pares spared agree .first actor' :=
  ⟨h.program, h.pause, h.paused, ⟨h.helps.1, hposts⟩, rfl, h.tickets.2⟩

/-- Two ranks of which the second does a part of what the first does, in a group and its
restriction. -/
structure Meets (spared : Tag → Bool) (agree : Except Fault α → Except Fault β → Prop)
    (aid : Aid) (group : Group) (actor : Actor α) (group' : Group) (actor' : Actor β) :
    Prop where
  attended : group.Attended
  attended' : group'.Attended
  restricts : group.RestrictsTo spared group'
  actors : actor.Pares spared agree aid actor'

/-- The second rank comes to where the first one is after a turn, and has those of its
deeds that are on spared tags. -/
def Follows (spared : Tag → Bool) (agree : Except Fault α → Except Fault β → Prop)
    (rank : Nat) (group' : Group) (actor' : Actor β) (deeds : List Deed) (after : Group)
    (later : Actor α) : Prop :=
  ∃ aid after' later',
    actor'.Works rank group' (deeds.filter (Deed.isSpared spared)) after' later' ∧
      Meets spared agree aid after later after' later'

namespace Follows

variable {after' : Group} {later' : Actor β}

theorem of_rest (hmeets : Meets spared agree aid after later group' actor')
    (hdropped : ∀ deed ∈ deeds, deed.isSpared spared = false) :
    Follows spared agree rank group' actor' deeds after later := by
  refine ⟨aid, group', actor', ?_, hmeets⟩
  rw [List.filter_eq_nil_iff.2 (fun deed hdeed => by simp [hdropped deed hdeed])]
  exact .rest group' actor'

theorem of_turn (hdoes : actor'.Does group' rank thread deeds after' later')
    (hmeets : Meets spared agree aid after later after' later')
    (hspared : ∀ deed ∈ deeds, deed.isSpared spared = true) :
    Follows spared agree rank group' actor' deeds after later := by
  refine ⟨aid, after', later', ?_, hmeets⟩
  rw [List.filter_eq_self.2 hspared, ← List.append_nil deeds]
  exact .turn hdoes (.rest _ _)

/-- A turn without deeds may come first. -/
theorem of_quiet_turn (hdoes : actor'.Does group' rank thread [] after' later')
    (h : Follows spared agree rank after' later' deeds after later) :
    Follows spared agree rank group' actor' deeds after later := by
  obtain ⟨aid, last, final, hworks, hmeets⟩ := h
  exact ⟨aid, last, final, .turn hdoes hworks, hmeets⟩

end Follows

namespace Meets

variable (h : Meets spared agree aid group actor group' actor')

section Answers

variable {program : Program α} {program' : Program β}

include h

theorem follows_of_answer
    (hdoes : actor'.Does group' rank thread deeds group' (actor'.resume program'))
    (hpares : program.Pares spared agree aid program')
    (hspared : ∀ deed ∈ deeds, deed.isSpared spared = true) :
    Follows spared agree rank group' actor' deeds group (actor.resume program) :=
  .of_turn hdoes ⟨h.attended, h.attended', h.restricts, h.actors.resume hpares⟩ hspared

theorem follows_of_dropped_answer (hpause : actor.pause = .none)
    (hpares : program.Pares spared agree aid actor'.program)
    (hdropped : ∀ deed ∈ deeds, deed.isSpared spared = false) :
    Follows spared agree rank group' actor' deeds group (actor.resume program) :=
  .of_rest ⟨h.attended, h.attended', h.restricts, h.actors.resume_left hpause hpares⟩ hdropped

end Answers

section Posts

variable (hrank : rank < group.size) (hunmixed' : after.IsUnmixed)

include h hrank hunmixed'

theorem follows_of_help (hdoes : actor.Does group rank .helper deeds after later) :
    Follows spared agree rank group' actor' deeds after later := by
  obtain ⟨hticket, hticket'⟩ := h.actors.tickets
  cases hposts : actor.posts with
  | nil =>
      rw [Actor.Does, Actor.turn_helper hposts] at hdoes
      cases hdoes.1
  | cons post posts =>
      have hhelps := h.actors.helps
      cases henqueue : group.enqueue rank post.peer post.tag post.payload with
      | error fault =>
          obtain ⟨rfl, rfl, rfl⟩ :=
            (Actor.does_help_of_refused hposts hticket henqueue).unique hdoes
          cases aid with
          | neither => cases hposts.symm.trans hhelps.1
          | both =>
              have hdoes' := Actor.does_help_of_refused (hhelps.1.trans hposts) hticket'
                (h.restricts.enqueue_error h.attended henqueue)
              exact .of_turn hdoes' ⟨h.attended, h.attended', h.restricts,
                h.actors.help rfl (List.forall_mem_nil _)⟩ (List.forall_mem_nil _)
          | first =>
              exact .of_rest ⟨h.attended, h.attended', h.restricts,
                h.actors.help_left _ (List.forall_mem_nil _)⟩ (List.forall_mem_nil _)
      | ok queued =>
          obtain ⟨next, ticket⟩ := queued
          cases h.attended.ticket_eq_none henqueue
          obtain ⟨rfl, rfl, rfl⟩ :=
            (Actor.does_help_of_queued hposts hticket henqueue).unique hdoes
          have hattended := h.attended.enqueue hrank henqueue
          cases aid with
          | neither => cases hposts.symm.trans hhelps.1
          | both =>
              obtain ⟨hposts', hfailure, hspared⟩ := hhelps
              rw [hposts, List.forall_mem_cons] at hspared
              obtain ⟨after', henqueue', hrestricts, hattended'⟩ :=
                h.restricts.exists_enqueue h.attended
                h.attended' hrank hspared.1 henqueue (hunmixed' post.peer)
              have hdoes' :=
                Actor.does_help_of_queued (hposts'.trans hposts) hticket' henqueue'
              exact .of_turn hdoes' ⟨hattended, hattended', hrestricts,
                h.actors.help hfailure hspared.2⟩ (List.forall_mem_singleton.2 hspared.1)
          | first =>
              have hdropped := hhelps.2
              rw [hposts, List.forall_mem_cons] at hdropped
              exact .of_rest ⟨hattended, h.attended',
                h.restricts.enqueue_left h.attended hdropped.1 henqueue (hunmixed' post.peer),
                h.actors.help_left _ hdropped.2⟩ (List.forall_mem_singleton.2 hdropped.1)

section Send

variable {dest : Nat} {tag : Tag} {payload : Bytes} {next : Except Fault Unit → Program α}
  (hprogram : actor.program = .act (.call (.send dest tag payload)) next)
  (hdoes : actor.Does group rank (.main channel) deeds after later)

include hprogram hdoes

theorem follows_of_send {next' : Except Fault Unit → Program β}
    (hprogram' : actor'.program = .act (.call (.send dest tag payload)) next')
    (hspared : spared tag = true)
    (hnext : ∀ answer, (next answer).Pares spared agree aid (next' answer)) :
    Follows spared agree rank group' actor' deeds after later := by
  have hpause := h.actors.pause_eq_none hprogram (by simp)
  have hpause' := h.actors.pause.trans hpause
  cases henqueue : group.enqueue rank dest tag payload with
  | error fault =>
      obtain ⟨rfl, rfl, rfl⟩ :=
        (Actor.does_send_of_refused hprogram hpause channel henqueue).unique hdoes
      have hdoes' := Actor.does_send_of_refused hprogram' hpause' channel
        (h.restricts.enqueue_error h.attended henqueue)
      exact h.follows_of_answer hdoes' (hnext _) (List.forall_mem_nil _)
  | ok queued =>
      obtain ⟨next, ticket⟩ := queued
      cases h.attended.ticket_eq_none henqueue
      obtain ⟨rfl, rfl, rfl⟩ :=
        (Actor.does_send_of_queued hprogram hpause channel henqueue).unique hdoes
      obtain ⟨after', henqueue', hrestricts, hattended'⟩ := h.restricts.exists_enqueue h.attended
        h.attended' hrank hspared henqueue (hunmixed' dest)
      have hdoes' := Actor.does_send_of_queued hprogram' hpause' channel henqueue'
      exact .of_turn hdoes' ⟨h.attended.enqueue hrank henqueue, hattended', hrestricts,
        h.actors.resume (hnext _)⟩ (List.forall_mem_singleton.2 hspared)

theorem follows_of_dropped_send (hdropped : spared tag = false)
    (hnext : ∀ answer, (next answer).Pares spared agree aid actor'.program) :
    Follows spared agree rank group' actor' deeds after later := by
  have hpause := h.actors.pause_eq_none hprogram (by simp)
  cases henqueue : group.enqueue rank dest tag payload with
  | error fault =>
      obtain ⟨rfl, rfl, rfl⟩ :=
        (Actor.does_send_of_refused hprogram hpause channel henqueue).unique hdoes
      exact h.follows_of_dropped_answer hpause (hnext _) (List.forall_mem_nil _)
  | ok queued =>
      obtain ⟨next, ticket⟩ := queued
      cases h.attended.ticket_eq_none henqueue
      obtain ⟨rfl, rfl, rfl⟩ :=
        (Actor.does_send_of_queued hprogram hpause channel henqueue).unique hdoes
      exact .of_rest ⟨h.attended.enqueue hrank henqueue, h.attended',
        h.restricts.enqueue_left h.attended hdropped henqueue (hunmixed' dest),
        h.actors.resume_left hpause (hnext _)⟩ (List.forall_mem_singleton.2 hdropped)

end Send

end Posts

section Looks

variable (hunmixed : group.IsUnmixed)

include h hunmixed

/-- What the first rank parks, it has still not received. -/
theorem follows_of_moved {wanted : Wanted} {own : Bool} {inbox : Inbox}
    (hsearch : group.search rank wanted own channel = .moved inbox) :
    Follows spared agree rank group' actor' [] (group.putInbox rank inbox) actor :=
  .of_rest ⟨h.attended.putInbox (hunmixed rank) hsearch, h.attended',
    h.restricts.putInbox h.attended (hunmixed rank) hsearch, h.actors⟩ (List.forall_mem_nil _)

/-- The second rank goes on looking until its search ends like that of the first one. -/
theorem follows_of_search {wanted : Wanted} {own : Bool} {result : Search}
    (hspared : spared wanted.tag = true)
    (hsearch : group.search rank wanted own channel = result) (hover : result.isOver = true)
    (hparks : ∀ current channel inbox, group.RestrictsTo spared current →
      current.search rank wanted own channel = .moved inbox →
        actor'.Does current rank (.main channel) [] (current.putInbox rank inbox) actor')
    (hends : ∀ current channel, Meets spared agree aid group actor current actor' →
      current.search rank wanted own channel = result →
        Follows spared agree rank current actor' deeds after later) :
    Follows spared agree rank group' actor' deeds after later := by
  induction hbacklog : World.backlog group' using Nat.strong_induction_on generalizing group' with
  | _ backlog ih =>
      obtain ⟨channel', hfree⟩ :=
        h.restricts.exists_search h.attended h.attended' hspared hsearch hover
      cases hresult : group'.search rank wanted own channel' with
      | blocked => exact absurd hresult hfree
      | moved inbox =>
          refine .of_quiet_turn (hparks group' channel' inbox h.restricts hresult) (ih _ ?_ ?_ rfl)
          · rw [← hbacklog]
            exact World.backlog_search hresult
          · exact ⟨h.attended, h.attended'.putInbox (h.restricts.unmixed (hunmixed rank)) hresult,
              h.restricts.putInbox_right h.attended' (hunmixed rank) hresult, h.actors⟩
      | found message =>
          have hsame :=
            h.restricts.search_eq h.attended h.attended' hspared hsearch hover hresult rfl
          exact hends group' channel' h (hresult.trans hsame)
      | deserted =>
          have hsame :=
            h.restricts.search_eq h.attended h.attended' hspared hsearch hover hresult rfl
          exact hends group' channel' h (hresult.trans hsame)

section Probe

variable {tag : Tag} {next : Except Fault Arrival → Program α}
  (hprogram : actor.program = .act (.call (.probe tag)) next)
  (hdoes : actor.Does group rank (.main channel) deeds after later)

include hprogram hdoes

theorem follows_of_probe {next' : Except Fault Arrival → Program β}
    (hprogram' : actor'.program = .act (.call (.probe tag)) next')
    (hspared : spared tag = true)
    (hnext : ∀ answer, (next answer).Pares spared agree aid (next' answer)) :
    Follows spared agree rank group' actor' deeds after later := by
  cases hstopped : group.isStopped rank with
  | true =>
      obtain ⟨rfl, rfl, rfl⟩ :=
        (Actor.does_probe_of_stopped hprogram channel hstopped).unique hdoes
      have hdoes' := Actor.does_probe_of_stopped hprogram' channel
        ((h.restricts.isStopped rank).trans hstopped)
      exact h.follows_of_answer hdoes' (hnext _) (List.forall_mem_singleton.2 hspared)
  | false =>
      have hrunning : ∀ current, group.RestrictsTo spared current →
          current.isStopped rank = false :=
        fun current hrestricts => (hrestricts.isStopped rank).trans hstopped
      have hparks : ∀ current channel inbox, group.RestrictsTo spared current →
          current.search rank { tag } (group.size = 1) channel = .moved inbox →
            actor'.Does current rank (.main channel) [] (current.putInbox rank inbox) actor' := by
        intro current channel inbox hrestricts hmoved
        rw [← hrestricts.size] at hmoved
        exact Actor.does_probe_of_moved hprogram' (hrunning current hrestricts) hmoved
      cases hsearch : group.search rank { tag } (group.size = 1) channel with
      | blocked =>
          exact absurd hdoes (Actor.not_does_probe_of_blocked hprogram hstopped hsearch)
      | moved inbox =>
          obtain ⟨rfl, rfl, rfl⟩ :=
            (Actor.does_probe_of_moved hprogram hstopped hsearch).unique hdoes
          exact h.follows_of_moved hunmixed hsearch
      | found message =>
          obtain ⟨rfl, rfl, rfl⟩ :=
            (Actor.does_probe_of_found hprogram hstopped hsearch).unique hdoes
          refine h.follows_of_search hunmixed hspared hsearch rfl hparks
            (fun current channel hmeets hfound => ?_)
          rw [← hmeets.restricts.size] at hfound
          have hdoes' :=
            Actor.does_probe_of_found hprogram' (hrunning current hmeets.restricts) hfound
          exact hmeets.follows_of_answer hdoes' (hnext _) (List.forall_mem_singleton.2 hspared)
      | deserted =>
          obtain ⟨rfl, rfl, rfl⟩ :=
            (Actor.does_probe_of_deserted hprogram hstopped hsearch).unique hdoes
          refine h.follows_of_search hunmixed hspared hsearch rfl hparks
            (fun current channel hmeets hdeserted => ?_)
          rw [← hmeets.restricts.size] at hdeserted
          have hdoes' :=
            Actor.does_probe_of_deserted hprogram' (hrunning current hmeets.restricts) hdeserted
          exact hmeets.follows_of_answer hdoes' (hnext _) (List.forall_mem_singleton.2 hspared)

theorem follows_of_dropped_probe (hdropped : spared tag = false)
    (hnext : ∀ answer, (next answer).Pares spared agree aid actor'.program) :
    Follows spared agree rank group' actor' deeds after later := by
  have hpause := h.actors.pause_eq_none hprogram (by simp)
  cases hstopped : group.isStopped rank with
  | true =>
      obtain ⟨rfl, rfl, rfl⟩ :=
        (Actor.does_probe_of_stopped hprogram channel hstopped).unique hdoes
      exact h.follows_of_dropped_answer hpause (hnext _) (List.forall_mem_singleton.2 hdropped)
  | false =>
      cases hsearch : group.search rank { tag } (group.size = 1) channel with
      | blocked =>
          exact absurd hdoes (Actor.not_does_probe_of_blocked hprogram hstopped hsearch)
      | moved inbox =>
          obtain ⟨rfl, rfl, rfl⟩ :=
            (Actor.does_probe_of_moved hprogram hstopped hsearch).unique hdoes
          exact h.follows_of_moved hunmixed hsearch
      | found message =>
          obtain ⟨rfl, rfl, rfl⟩ :=
            (Actor.does_probe_of_found hprogram hstopped hsearch).unique hdoes
          exact h.follows_of_dropped_answer hpause (hnext _)
            (List.forall_mem_singleton.2 hdropped)
      | deserted =>
          obtain ⟨rfl, rfl, rfl⟩ :=
            (Actor.does_probe_of_deserted hprogram hstopped hsearch).unique hdoes
          exact h.follows_of_dropped_answer hpause (hnext _)
            (List.forall_mem_singleton.2 hdropped)

end Probe

section Receive

variable {source length : Nat} {tag : Tag} {next : Except Fault (Buffer length) → Program α}
  (hprogram : actor.program = .act (.call (.receive source tag length)) next)
  (hdoes : actor.Does group rank (.main channel) deeds after later)

include hprogram hdoes

theorem follows_of_receive {next' : Except Fault (Buffer length) → Program β}
    (hprogram' : actor'.program = .act (.call (.receive source tag length)) next')
    (hspared : spared tag = true)
    (hnext : ∀ answer, (next answer).Pares spared agree aid (next' answer)) :
    Follows spared agree rank group' actor' deeds after later := by
  cases hstopped : group.isStopped rank with
  | true =>
      obtain ⟨rfl, rfl, rfl⟩ :=
        (Actor.does_receive_of_stopped hprogram channel hstopped).unique hdoes
      have hdoes' := Actor.does_receive_of_stopped hprogram' channel
        ((h.restricts.isStopped rank).trans hstopped)
      exact h.follows_of_answer hdoes' (hnext _) (List.forall_mem_singleton.2 hspared)
  | false =>
      have hrunning : ∀ current, group.RestrictsTo spared current →
          current.isStopped rank = false :=
        fun current hrestricts => (hrestricts.isStopped rank).trans hstopped
      have hparks : ∀ current channel inbox, group.RestrictsTo spared current →
          current.search rank ⟨tag, some source⟩ (source = rank) channel = .moved inbox →
            actor'.Does current rank (.main channel) [] (current.putInbox rank inbox) actor' :=
        fun current channel inbox hrestricts hmoved =>
          Actor.does_receive_of_moved hprogram' (hrunning current hrestricts) hmoved
      cases hsearch : group.search rank ⟨tag, some source⟩ (source = rank) channel with
      | blocked =>
          exact absurd hdoes (Actor.not_does_receive_of_blocked hprogram hstopped hsearch)
      | moved inbox =>
          obtain ⟨rfl, rfl, rfl⟩ :=
            (Actor.does_receive_of_moved hprogram hstopped hsearch).unique hdoes
          exact h.follows_of_moved hunmixed hsearch
      | found message =>
          obtain ⟨rfl, rfl, rfl⟩ :=
            (Actor.does_receive_of_found hprogram hstopped hsearch).unique hdoes
          obtain ⟨member, hmember, hparked⟩ := Group.search_eq_found hsearch
          refine h.follows_of_search hunmixed hspared hsearch rfl hparks
            (fun current channel hmeets hfound => ?_)
          obtain ⟨member', hmember', hparked'⟩ := Group.search_eq_found hfound
          have hdoes' :=
            Actor.does_receive_of_found hprogram' (hrunning current hmeets.restricts) hfound
          rw [Group.receive_fst current group] at hdoes'
          exact .of_turn hdoes' ⟨h.attended.receive hmember message length,
            hmeets.attended'.receive hmember' message length,
            hmeets.restricts.receive hspared hmember hparked hmember' hparked' length,
            h.actors.resume (hnext _)⟩ (List.forall_mem_singleton.2 hspared)
      | deserted =>
          obtain ⟨rfl, rfl, rfl⟩ :=
            (Actor.does_receive_of_deserted hprogram hstopped hsearch).unique hdoes
          refine h.follows_of_search hunmixed hspared hsearch rfl hparks
            (fun current channel hmeets hdeserted => ?_)
          have hdoes' :=
            Actor.does_receive_of_deserted hprogram' (hrunning current hmeets.restricts) hdeserted
          exact hmeets.follows_of_answer hdoes' (hnext _) (List.forall_mem_singleton.2 hspared)

theorem follows_of_dropped_receive (hdropped : spared tag = false)
    (hnext : ∀ answer, (next answer).Pares spared agree aid actor'.program) :
    Follows spared agree rank group' actor' deeds after later := by
  have hpause := h.actors.pause_eq_none hprogram (by simp)
  cases hstopped : group.isStopped rank with
  | true =>
      obtain ⟨rfl, rfl, rfl⟩ :=
        (Actor.does_receive_of_stopped hprogram channel hstopped).unique hdoes
      exact h.follows_of_dropped_answer hpause (hnext _) (List.forall_mem_singleton.2 hdropped)
  | false =>
      cases hsearch : group.search rank ⟨tag, some source⟩ (source = rank) channel with
      | blocked =>
          exact absurd hdoes (Actor.not_does_receive_of_blocked hprogram hstopped hsearch)
      | moved inbox =>
          obtain ⟨rfl, rfl, rfl⟩ :=
            (Actor.does_receive_of_moved hprogram hstopped hsearch).unique hdoes
          exact h.follows_of_moved hunmixed hsearch
      | found message =>
          obtain ⟨rfl, rfl, rfl⟩ :=
            (Actor.does_receive_of_found hprogram hstopped hsearch).unique hdoes
          obtain ⟨member, hmember, hparked⟩ := Group.search_eq_found hsearch
          exact .of_rest ⟨h.attended.receive hmember message length, h.attended',
            h.restricts.receive_left hdropped hmember hparked length,
            h.actors.resume_left hpause (hnext _)⟩ (List.forall_mem_singleton.2 hdropped)
      | deserted =>
          obtain ⟨rfl, rfl, rfl⟩ :=
            (Actor.does_receive_of_deserted hprogram hstopped hsearch).unique hdoes
          exact h.follows_of_dropped_answer hpause (hnext _)
            (List.forall_mem_singleton.2 hdropped)

end Receive

end Looks

include h

theorem follows_of_init {required : Threading} {next : Except Fault Threading → Program α}
    {next' : Except Fault Threading → Program β}
    (hprogram' : actor'.program = .act (.call (.init required)) next')
    (hnext : ∀ answer, (next answer).Pares spared agree aid (next' answer))
    (hcall : actor.call group rank channel (.init required) next = some (after, later)) :
    Follows spared agree rank group' actor' [] after later := by
  have hboth : ∀ answer, actor'.call group' rank channel (.init required) next' =
      some (group', actor'.resume (next' answer)) →
        Follows spared agree rank group' actor' [] group (actor.resume (next answer)) :=
    fun answer hcall' => h.follows_of_answer
      (Actor.does_of_untagged channel hprogram' (by simp) rfl hcall') (hnext answer)
      (List.forall_mem_nil _)
  simp only [Actor.call] at hcall
  split at hcall
  · cases hcall
  · next member hmember =>
      obtain ⟨member', hmember', hrestricts⟩ := h.restricts.exists_member hmember
      split at hcall
      · next hstopped =>
          cases hcall
          refine hboth _ ?_
          simp only [Actor.call, hmember', hrestricts.stopped, hstopped, if_true]
      · next hrunning =>
          cases hcall
          refine hboth _ ?_
          simp only [Actor.call, hmember', hrestricts.stopped, hrunning, hrestricts.grant]
          rfl

theorem follows_of_barrier {next : Except Fault Unit → Program α}
    {next' : Except Fault Unit → Program β} (hprogram : actor.program = .act (.call .barrier) next)
    (hprogram' : actor'.program = .act (.call .barrier) next')
    (hnext : ∀ answer, (next answer).Pares spared agree aid (next' answer))
    (hcall : actor.call group rank channel .barrier next = some (after, later)) :
    Follows spared agree rank group' actor' [] after later := by
  have hpause := h.actors.pause
  have hboth : ∀ {after' later'}, actor'.call group' rank channel .barrier next' =
      some (after', later') → Meets spared agree aid after later after' later' →
        Follows spared agree rank group' actor' [] after later :=
    fun hcall' hmeets => .of_turn
      (Actor.does_of_untagged channel hprogram' (by simp) rfl hcall') hmeets
      (List.forall_mem_nil _)
  simp only [Actor.call] at hcall
  split at hcall
  · cases hcall
  · next epoch hgathered =>
      split at hcall
      · cases hcall
      · next hopen =>
          cases hcall
          refine hboth ?_ ⟨h.attended, h.attended', h.restricts, h.actors.resume (hnext _)⟩
          simp only [Actor.call, hpause, hgathered, h.restricts.epoch, hopen, if_false]
  · next hnone =>
      split at hcall
      · next hstopped =>
          cases hcall
          refine hboth ?_ ⟨h.attended, h.attended', h.restricts, h.actors.resume (hnext _)⟩
          simp only [Actor.call, hpause, hnone, h.restricts.isStopped, hstopped, if_true]
      · next hrunning =>
          split at hcall
          · next hearly =>
              cases hcall
              have hcall' : actor'.call group' rank channel .barrier next' =
                  some ({ group' with arrived := group'.arrived + 1 },
                    { actor' with pause := .gathered group'.epoch }) := by
                simp only [Actor.call, hpause, hnone, h.restricts.isStopped, hrunning,
                  h.restricts.arrived, h.restricts.size, hearly, if_true]
                rfl
              refine hboth hcall' ⟨h.attended.of_members rfl rfl,
                h.attended'.of_members rfl rfl, h.restricts.of_members rfl rfl ?_, ?_⟩
              · simp only [Group.setting, h.restricts.delivery, h.restricts.arrived,
                  h.restricts.epoch]
              · rw [h.restricts.epoch]
                exact h.actors.waits hprogram _
          · next hlast =>
              cases hcall
              have hcall' : actor'.call group' rank channel .barrier next' =
                  some ({ group' with arrived := 0, epoch := group'.epoch + 1 },
                    actor'.resume (next' (.ok ()))) := by
                simp only [Actor.call, hpause, hnone, h.restricts.isStopped, hrunning,
                  h.restricts.arrived, h.restricts.size, hlast, if_false]
                rfl
              refine hboth hcall' ⟨h.attended.of_members rfl rfl,
                h.attended'.of_members rfl rfl, h.restricts.of_members rfl rfl ?_,
                h.actors.resume (hnext _)⟩
              simp only [Group.setting, h.restricts.delivery, h.restricts.epoch]

theorem follows_of_untagged {request : Request} {next : request.Answer → Program α}
    {next' : request.Answer → Program β} (hprogram : actor.program = .act (.call request) next)
    (hdoes : actor.Does group rank (.main channel) deeds after later)
    (hprogram' : actor'.program = .act (.call request) next')
    (hleave : request ≠ .leave) (htag : request.tag? = none)
    (hnext : ∀ answer, (next answer).Pares spared agree aid (next' answer)) :
    Follows spared agree rank group' actor' deeds after later := by
  obtain ⟨hcall, rfl⟩ := hdoes
  rw [Actor.turn_of_call hprogram] at hcall
  rw [Actor.deeds_of_untagged hprogram hleave htag]
  cases request with
  | identify =>
      cases hcall
      have hdoes' : actor'.Does group' rank (.main channel) [] group' _ :=
        Actor.does_of_untagged channel hprogram' hleave htag rfl
      rw [h.restricts.size] at hdoes'
      exact h.follows_of_answer hdoes' (hnext _) (List.forall_mem_nil _)
  | init required => exact h.follows_of_init hprogram' hnext hcall
  | finalize =>
      cases hcall
      exact .of_turn (Actor.does_of_untagged channel hprogram' hleave htag rfl)
        ⟨h.attended.finalize rank, h.attended'.finalize rank, h.restricts.finalize rank,
          h.actors.resume (hnext _)⟩ (List.forall_mem_nil _)
  | barrier => exact h.follows_of_barrier hprogram hprogram' hnext hcall
  | send => cases htag
  | probe => cases htag
  | receive => cases htag
  | leave => exact absurd rfl hleave

section Main

variable (hrank : rank < group.size) (hunmixed : group.IsUnmixed) (hunmixed' : after.IsUnmixed)
  {aid' : Aid} {action : Action} {next : action.Answer → Program α}
  (hprogram : actor.program = .act action next)
  (hdoes : actor.Does group rank (.main channel) deeds after later)

include hrank hunmixed hunmixed' hprogram hdoes

theorem follows_of_keeps {next' : action.Answer → Program β}
    (hprogram' : actor'.program = .act action next') (hkeeps : action.Keeps spared aid aid')
    (hnext : ∀ answer, (next answer).Pares spared agree aid' (next' answer)) :
    Follows spared agree rank group' actor' deeds after later := by
  cases hkeeps with
  | @call request aid hrequest =>
      obtain ⟨hleave, hspared⟩ := hrequest
      cases request with
      | send dest tag payload =>
          exact h.follows_of_send hrank hunmixed' hprogram hdoes hprogram' hspared hnext
      | probe tag => exact h.follows_of_probe hunmixed hprogram hdoes hprogram' hspared hnext
      | receive source tag length =>
          exact h.follows_of_receive hunmixed hprogram hdoes hprogram' hspared hnext
      | leave => exact absurd rfl hleave
      | _ => exact h.follows_of_untagged hprogram hdoes hprogram' hleave rfl hnext
  | log aid event =>
      obtain ⟨rfl, rfl, rfl⟩ := (Actor.does_log channel hprogram).unique hdoes
      exact .of_turn (Actor.does_log channel hprogram') ⟨h.attended, h.attended', h.restricts,
        (h.actors.resume (hnext ())).report _ _⟩ (List.forall_mem_nil _)
  | reserve aid length =>
      obtain ⟨rfl, rfl, rfl⟩ := (Actor.does_reserve channel hprogram).unique hdoes
      exact h.follows_of_answer (Actor.does_reserve channel hprogram') (hnext _)
        (List.forall_mem_nil _)
  | spawn hposts =>
      obtain ⟨hidle, hidle'⟩ := h.actors.helps
      obtain ⟨rfl, rfl, rfl⟩ := (Actor.does_spawn channel hprogram hidle).unique hdoes
      exact .of_turn (Actor.does_spawn channel hprogram' hidle')
        ⟨h.attended, h.attended', h.restricts,
          ⟨hnext (), rfl, fun hpause => absurd rfl hpause, ⟨rfl, rfl, hposts⟩, rfl, rfl⟩⟩
        (List.forall_mem_nil _)
  | join =>
      obtain ⟨hposts, hfailure, _⟩ := h.actors.helps
      have hidle := Actor.posts_of_join hprogram hdoes
      have hidle' := hposts.trans hidle
      obtain ⟨rfl, rfl, rfl⟩ := (Actor.does_join channel hprogram hidle).unique hdoes
      have hdoes' : actor'.Does group' rank (.main channel) [] group' _ :=
        Actor.does_join channel hprogram' hidle'
      have houtcome : actor'.outcome = actor.outcome := by
        unfold Actor.outcome
        rw [hfailure]
      rw [houtcome] at hdoes'
      exact .of_turn hdoes' ⟨h.attended, h.attended', h.restricts,
        ⟨hnext _, rfl, fun hpause => absurd rfl hpause, ⟨hidle, hidle'⟩, h.actors.tickets⟩⟩
        (List.forall_mem_nil _)

theorem follows_of_drops (hdrops : action.Drops spared aid aid')
    (hnext : ∀ answer, (next answer).Pares spared agree aid' actor'.program) :
    Follows spared agree rank group' actor' deeds after later := by
  cases hdrops with
  | @call request aid hrequest =>
      obtain ⟨tag, htag, hdropped⟩ := hrequest
      cases request with
      | send dest tag payload =>
          cases htag
          exact h.follows_of_dropped_send hrank hunmixed' hprogram hdoes hdropped hnext
      | probe tag =>
          cases htag
          exact h.follows_of_dropped_probe hunmixed hprogram hdoes hdropped hnext
      | receive source tag length =>
          cases htag
          exact h.follows_of_dropped_receive hunmixed hprogram hdoes hdropped hnext
      | _ => cases htag
  | log aid event =>
      have hpause := h.actors.pause_eq_none hprogram (by simp)
      obtain ⟨rfl, rfl, rfl⟩ := (Actor.does_log channel hprogram).unique hdoes
      exact .of_rest ⟨h.attended, h.attended', h.restricts,
        (h.actors.resume_left hpause (hnext ())).report _ actor'.trail⟩ (List.forall_mem_nil _)
  | reserve aid length =>
      have hpause := h.actors.pause_eq_none hprogram (by simp)
      obtain ⟨rfl, rfl, rfl⟩ := (Actor.does_reserve channel hprogram).unique hdoes
      exact h.follows_of_dropped_answer hpause (hnext _) (List.forall_mem_nil _)
  | spawn hposts =>
      have hpause := h.actors.pause_eq_none hprogram (by simp)
      obtain ⟨hidle, hidle'⟩ := h.actors.helps
      obtain ⟨rfl, rfl, rfl⟩ := (Actor.does_spawn channel hprogram hidle).unique hdoes
      exact .of_rest ⟨h.attended, h.attended', h.restricts, ⟨hnext (), h.actors.pause.trans hpause,
        fun hpause => absurd rfl hpause, ⟨hidle', hposts⟩, rfl, h.actors.tickets.2⟩⟩
        (List.forall_mem_nil _)
  | join =>
      have hpause := h.actors.pause_eq_none hprogram (by simp)
      have hidle := Actor.posts_of_join hprogram hdoes
      obtain ⟨rfl, rfl, rfl⟩ := (Actor.does_join channel hprogram hidle).unique hdoes
      exact .of_rest ⟨h.attended, h.attended', h.restricts, ⟨hnext _, h.actors.pause.trans hpause,
        fun hpause => absurd rfl hpause, ⟨hidle, h.actors.helps.1⟩, h.actors.tickets⟩⟩
        (List.forall_mem_nil _)

end Main

/-- Whatever a rank does in a turn, the pared one follows. -/
theorem follows (hrank : rank < group.size) (hunmixed : group.IsUnmixed)
    (hunmixed' : after.IsUnmixed) (hdoes : actor.Does group rank thread deeds after later) :
    Follows spared agree rank group' actor' deeds after later := by
  cases thread with
  | helper => exact h.follows_of_help hrank hunmixed' hdoes
  | main channel =>
      have hpares := h.actors.program
      generalize hprogram : actor.program = program at hpares
      generalize hprogram' : actor'.program = program' at hpares
      cases hpares with
      | done hagree =>
          have hturn := hdoes.1
          unfold Actor.turn Actor.advance at hturn
          rw [hprogram] at hturn
          cases hturn
      | keep hkeeps hnext =>
          exact h.follows_of_keeps hrank hunmixed hunmixed' hprogram hdoes hprogram' hkeeps hnext
      | drop hdrops hnext =>
          subst hprogram'
          exact h.follows_of_drops hrank hunmixed hunmixed' hprogram hdoes hdrops hnext

end Meets

end RankExchange
