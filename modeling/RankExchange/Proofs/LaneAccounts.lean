import RankExchange.Proofs.ScriptSteps

/-!
# Accounts

Messages carry no round number, so what keeps rounds apart is counting.  In
every lane, the messages that wait and those that their source has still to
send are together just those that are due, in the same order, and none that
waits belongs to a later time than a duty that its source has left.
-/

namespace RankExchange

namespace Script

/-- The duties come in the order of time, and only the first may have begun. -/
structure Orderly (used : Tag → Prop) (script : Script) : Prop where
  sorted : script.Pairwise (fun first second => first.time ≤ second.time)
  used : ∀ time tag owed payload found, .take time tag owed payload found ∈ script → used tag
  begun : ∀ time tag owed payload found,
    .take time tag owed payload found ∈ script.tail → found = none

/-- What becomes of the script of a rank that stays in step. -/
inductive Proceeds : Script → Script → Prop
  | same (script : Script) : Proceeds script script
  | next (duty : Duty) (script : Script) : Proceeds (duty :: script) script
  | begun (time : Nat) (tag : Tag) (owed : RankSet) (payload : Nat → Bytes) (source : Nat)
      (script : Script) :
      Proceeds (.take time tag owed payload none :: script)
        (.take time tag owed payload (some source) :: script)
  | served (time : Nat) (tag : Tag) (owed : RankSet) (payload : Nat → Bytes)
      (found : Option Nat) (source : Nat) (script : Script) :
      Proceeds (.take time tag owed payload found :: script)
        (await time tag (owed.erase source) payload script)

variable {used : Tag → Prop} {script script' : Script}

theorem mem_await {time : Nat} {tag : Tag} {owed : RankSet} {payload : Nat → Bytes}
    {duty : Duty} (h : duty ∈ await time tag owed payload script) :
    duty = .take time tag owed payload none ∨ duty ∈ script := by
  unfold await at h
  split at h
  · exact .inr h
  · exact List.mem_cons.1 h

theorem Proceeds.exists_time (h : Proceeds script script') :
    ∀ duty ∈ script', ∃ duty' ∈ script, duty'.time = duty.time := by
  intro duty hduty
  cases h with
  | same => exact ⟨duty, hduty, rfl⟩
  | next first => exact ⟨duty, List.mem_cons_of_mem _ hduty, rfl⟩
  | begun time tag owed payload source rest =>
      rcases List.mem_cons.1 hduty with rfl | hduty
      · exact ⟨_, List.mem_cons_self, rfl⟩
      · exact ⟨duty, List.mem_cons_of_mem _ hduty, rfl⟩
  | served time tag owed payload found source rest =>
      rcases mem_await hduty with rfl | hduty
      · exact ⟨_, List.mem_cons_self, rfl⟩
      · exact ⟨duty, List.mem_cons_of_mem _ hduty, rfl⟩

theorem exists_time_of_sublist (h : script'.Sublist script) :
    ∀ duty ∈ script', ∃ duty' ∈ script, duty'.time = duty.time :=
  fun duty hduty => ⟨duty, h.subset hduty, rfl⟩

theorem Orderly.sublist (h : script.Orderly used) (hsub : script'.Sublist script) :
    script'.Orderly used where
  sorted := h.sorted.sublist hsub
  used := fun time tag owed payload found hmem =>
    h.used time tag owed payload found (hsub.subset hmem)
  begun := fun time tag owed payload found hmem =>
    h.begun time tag owed payload found (hsub.tail.subset hmem)

theorem Orderly.retake {time : Nat} {tag : Tag} {owed : RankSet} {payload : Nat → Bytes}
    {found : Option Nat} (h : Orderly used (.take time tag owed payload found :: script))
    (owed' : RankSet) (found' : Option Nat) :
    Orderly used (.take time tag owed' payload found' :: script) where
  sorted := by
    have hsorted := List.pairwise_cons.1 h.sorted
    exact List.pairwise_cons.2 ⟨hsorted.1, hsorted.2⟩
  used := by
    intro time' tag' owed'' payload' found'' hmem
    rcases List.mem_cons.1 hmem with heq | hmem
    · cases heq
      exact h.used _ _ _ _ _ List.mem_cons_self
    · exact h.used _ _ _ _ _ (List.mem_cons_of_mem _ hmem)
  begun := h.begun

theorem Orderly.proceeds (h : script.Orderly used) (hproceeds : Proceeds script script') :
    script'.Orderly used := by
  cases hproceeds with
  | same => exact h
  | next duty => exact h.sublist (List.sublist_cons_self _ _)
  | begun time tag owed payload source rest => exact h.retake owed (some source)
  | served time tag owed payload found source rest =>
      unfold await
      split
      · exact h.sublist (List.sublist_cons_self _ _)
      · exact h.retake (owed.erase source) none

theorem Orderly.clock_le (h : script.Orderly used) : ∀ duty ∈ script, script.clock ≤ duty.time := by
  intro duty hduty
  cases script with
  | nil => cases hduty
  | cons first rest =>
      rcases List.mem_cons.1 hduty with rfl | hduty
      · exact Nat.le_refl _
      · exact (List.pairwise_cons.1 h.sorted).1 duty hduty

theorem clock_await {time : Nat} {tag : Tag} {owed : RankSet} {payload : Nat → Bytes}
    {found : Option Nat} (h : Helping (.take time tag owed payload found :: script))
    (owed' : RankSet) : clock (await time tag owed' payload script) = time := by
  obtain ⟨rest, rfl⟩ := helping_take_iff.1 h
  unfold await
  split <;> rfl

end Script

/-- In one lane, what waits and what is still to be sent is what is due. -/
def Accounted (waiting : List Message) (unsent due : List (Nat × Bytes)) (script : Script) :
    Prop :=
  ∃ dated : List (Nat × Bytes), dated.map Prod.snd = waiting.map Message.payload ∧
    (∀ entry ∈ dated, ∀ duty ∈ script, entry.1 ≤ duty.time) ∧ dated ++ unsent = due

namespace Accounted

variable {waiting : List Message} {unsent due : List (Nat × Bytes)} {script : Script}

theorem mono {script' : Script} (h : Accounted waiting unsent due script)
    (htimes : ∀ duty ∈ script', ∃ duty' ∈ script, duty'.time = duty.time) :
    Accounted waiting unsent due script' := by
  obtain ⟨dated, hpayloads, hdated, hdue⟩ := h
  refine ⟨dated, hpayloads, ?_, hdue⟩
  intro entry hentry duty hduty
  obtain ⟨duty', hduty', htime⟩ := htimes duty hduty
  rw [← htime]
  exact hdated entry hentry duty' hduty'

theorem post {time : Nat} {message : Message} {rest : List (Nat × Bytes)}
    (h : Accounted waiting ((time, message.payload) :: rest) due script)
    (htime : ∀ duty ∈ script, time ≤ duty.time) :
    Accounted (waiting ++ [message]) rest due script := by
  obtain ⟨dated, hpayloads, hdated, hdue⟩ := h
  refine ⟨dated ++ [(time, message.payload)], ?_, ?_, ?_⟩
  · rw [List.map_append, List.map_append, hpayloads]
    rfl
  · intro entry hentry duty hduty
    rcases List.mem_append.1 hentry with hentry | hentry
    · exact hdated entry hentry duty hduty
    · rw [List.mem_singleton.1 hentry]
      exact htime duty hduty
  · rw [List.append_assoc, List.singleton_append]
    exact hdue

/-- The message that waits first is the one that is due first. -/
theorem payload_eq {time : Nat} {payload : Bytes} {message : Message}
    {rest : List (Nat × Bytes)}
    (h : Accounted (message :: waiting) unsent ((time, payload) :: rest) script) :
    message.payload = payload := by
  obtain ⟨dated, hpayloads, _, hdue⟩ := h
  cases dated with
  | nil => cases hpayloads
  | cons entry dated =>
      obtain ⟨hpayload, _⟩ := List.cons.inj hpayloads
      obtain ⟨hentry, _⟩ := List.cons.inj hdue
      rw [← hpayload, hentry]

theorem take {entry : Nat × Bytes} {message : Message} {rest : List (Nat × Bytes)}
    (h : Accounted (message :: waiting) unsent (entry :: rest) script) :
    Accounted waiting unsent rest script := by
  obtain ⟨dated, hpayloads, hdated, hdue⟩ := h
  cases dated with
  | nil => cases hpayloads
  | cons first dated =>
      refine ⟨dated, (List.cons.inj hpayloads).2, ?_, (List.cons.inj hdue).2⟩
      intro other hother
      exact hdated other (List.mem_cons_of_mem _ hother)

end Accounted

/-- A message leaves a lane when it falls due, or neither changes. -/
def Settles (waiting waiting' : List Message) (due due' : List (Nat × Bytes)) : Prop :=
  (waiting' = waiting ∧ due' = due) ∨
    ∃ message entry, waiting = message :: waiting' ∧ due = entry :: due'

theorem Accounted.settle {waiting waiting' : List Message} {unsent due due' : List (Nat × Bytes)}
    {script : Script} (missing : List (Nat × Bytes)) (h : Settles waiting waiting' due due')
    (haccounted : Accounted waiting unsent (due ++ missing) script) :
    Accounted waiting' unsent (due' ++ missing) script := by
  rcases h with ⟨rfl, rfl⟩ | ⟨message, entry, rfl, rfl⟩
  · exact haccounted
  · exact haccounted.take

def Group.Apart (used : Tag → Prop) (group : Group) (rank : Nat) : Prop :=
  ∀ member, group.members[rank]? = some member → member.inbox.Apart used rank

/-- What a step means for the accounts: a message is queued, or only lanes of
the rank itself change. -/
inductive Effect (used : Tag → Prop) (group : Group) (rank : Nat)
    (unsent : List (Nat × Envelope)) (position : Position) (group' : Group)
    (unsent' : List (Nat × Envelope)) (position' : Position) : Prop
  | keeps (hsame : Group.SameBut rank group group') (hunsent : unsent' = unsent)
      (hapart : position'.inStep = true → group'.Apart used rank)
      (hlane : position'.inStep = true → ∀ source tag, used tag →
        Settles (group.lane rank source tag) (group'.lane rank source tag)
          (Script.select source tag position.script.incoming)
          (Script.select source tag position'.script.incoming))
  | queues (time : Nat) (post : Envelope) (ticket : Option Nat)
      (henqueue : group.enqueue rank post.peer post.tag post.payload = .ok (group', ticket))
      (hunsent : unsent = (time, post) :: unsent')
      (htime : ∀ duty ∈ position'.script, time ≤ duty.time)
      (hincoming : position'.script.incoming = position.script.incoming)

theorem Effect.unchanged {used : Tag → Prop} {group : Group} {rank : Nat}
    {position position' : Position} {unsent unsent' : List (Nat × Envelope)}
    (hapart : position'.inStep = true → group.Apart used rank) (hunsent : unsent' = unsent)
    (hincoming : position'.script.incoming = position.script.incoming) :
    Effect used group rank unsent position group unsent' position' := by
  refine .keeps (.refl _ _) hunsent hapart (fun _ source tag _ => ?_)
  rw [hincoming]
  exact .inl ⟨rfl, rfl⟩

namespace Actor

variable {α : Type} {actor actor' : Actor α} {script script' : Script}

theorem unposted_of_idle (h : actor.ticket = none) : actor.unposted = actor.posts := by
  unfold unposted
  rw [h]

theorem unposted_of_ticket {ticket : Nat} (h : actor.ticket = some ticket) :
    actor.unposted = actor.posts.tail := by
  unfold unposted
  rw [h]

/-- Once the first message is queued, it is no longer to be posted, whether or not
its receipt is waited for. -/
theorem unposted_of_posted {post : Envelope} {posts : List Envelope} {ticket : Option Nat}
    (hticket : actor.ticket = ticket)
    (hposts : actor.posts = if ticket = none then posts else post :: posts) :
    actor.unposted = posts := by
  cases ticket with
  | none => rw [unposted_of_idle hticket, hposts, if_pos rfl]
  | some ticket =>
      rw [unposted_of_ticket hticket, hposts, if_neg (Option.some_ne_none ticket)]
      rfl

theorem unposted_of_nil (h : actor.posts = []) : actor.unposted = [] := by
  unfold unposted
  split <;> simp [h]

theorem ready_of_none (h : actor.pause = .none) : actor.pause.isSending = false := by
  rw [h]
  rfl

theorem remaining_of_ready (h : actor.pause.isSending = false) :
    actor.remaining script = script := by
  simp [remaining, h]

theorem remaining_of_sending {ticket : Nat} (h : actor.pause = .sending ticket) :
    actor.remaining script = script.tail := by
  simp [remaining, h, Pause.isSending]

theorem mem_of_mem_remaining {duty : Duty} (h : duty ∈ actor.remaining script) :
    duty ∈ script := by
  unfold remaining at h
  split at h
  · exact List.mem_of_mem_tail h
  · exact h

theorem remaining_congr (h : actor'.pause = actor.pause) :
    actor'.remaining script = actor.remaining script := by
  simp [remaining, h]

theorem unsent_of_nil (h : actor.posts = []) :
    actor.unsent script = (actor.remaining script).outgoing := by
  simp [unsent, unposted_of_nil h]

theorem unposted_congr (hposts : actor'.posts = actor.posts)
    (hticket : actor'.ticket = actor.ticket) : actor'.unposted = actor.unposted := by
  unfold unposted
  rw [hposts, hticket]

theorem unsent_congr (hready : actor.pause.isSending = false)
    (hready' : actor'.pause.isSending = false) (hposts : actor'.posts = actor.posts)
    (hticket : actor'.ticket = actor.ticket) (houtgoing : script'.outgoing = script.outgoing)
    (hclock : actor.posts ≠ [] → script'.clock = script.clock) :
    actor'.unsent script' = actor.unsent script := by
  unfold unsent
  rw [unposted_congr hposts hticket, remaining_of_ready hready, remaining_of_ready hready',
    houtgoing]
  by_cases hnil : actor.posts = []
  · rw [unposted_of_nil hnil]
    rfl
  · rw [hclock hnil]

end Actor

namespace ScriptStep

variable {α : Type} {Rest : Bool → Program α → Script → Prop} {used : Tag → Prop}
  {actor actor' : Actor α} {group group' : Group} {rank : Nat} {position position' : Position}

theorem proceeds (h : ScriptStep Rest group rank actor position group' actor' position') :
    (position'.inStep = position.inStep ∧ position.script.Proceeds position'.script) ∨
      (position'.inStep = false ∧ position'.script.Sublist position.script) := by
  cases h with
  | steady => exact .inl ⟨rfl, .same _⟩
  | sends hscript =>
      rw [hscript]
      exact .inl ⟨rfl, .next _ _⟩
  | offers => exact .inl ⟨rfl, .same _⟩
  | resumes hscript =>
      rw [hscript]
      exact .inl ⟨rfl, .next _ _⟩
  | spawns hscript =>
      rw [hscript]
      exact .inl ⟨rfl, .next _ _⟩
  | joins hscript =>
      rw [hscript]
      exact .inl ⟨rfl, .next _ _⟩
  | parks => exact .inl ⟨rfl, .same _⟩
  | finds hstep hscript =>
      rw [hscript]
      exact .inl ⟨hstep.symm, .begun _ _ _ _ _ _⟩
  | takes hstep hscript =>
      rw [hscript]
      exact .inl ⟨hstep.symm, .served _ _ _ _ _ _ _⟩
  | wanders _ _ _ _ _ hscript => exact .inr ⟨rfl, hscript⟩
  | posts => exact .inl ⟨rfl, .same _⟩
  | confirmed => exact .inl ⟨rfl, .same _⟩

/-- Nothing but getting lost brings a rank out of step. -/
theorem inStep (h : ScriptStep Rest group rank actor position group' actor' position')
    (hstep : position.inStep = true) (hkept : ¬ Lost Rest group rank actor position) :
    position'.inStep = true := by
  cases h with
  | steady => exact hstep
  | sends => exact hstep
  | offers => exact hstep
  | resumes => exact hstep
  | spawns => exact hstep
  | joins => exact hstep
  | parks => exact hstep
  | finds => rfl
  | takes => rfl
  | wanders hlost => exact absurd hlost hkept
  | posts => exact hstep
  | confirmed => exact hstep

theorem exists_time (h : ScriptStep Rest group rank actor position group' actor' position') :
    ∀ duty ∈ position'.script, ∃ duty' ∈ position.script, duty'.time = duty.time := by
  rcases h.proceeds with ⟨_, hproceeds⟩ | ⟨_, hsub⟩
  · exact hproceeds.exists_time
  · exact Script.exists_time_of_sublist hsub

theorem orderly (h : ScriptStep Rest group rank actor position group' actor' position')
    (horderly : position.script.Orderly used) : position'.script.Orderly used := by
  rcases h.proceeds with ⟨_, hproceeds⟩ | ⟨_, hsub⟩
  · exact horderly.proceeds hproceeds
  · exact horderly.sublist hsub

theorem follows (h : ScriptStep Rest group rank actor position group' actor' position') :
    actor'.FollowsScript Rest position' := by
  cases h <;> assumption

theorem size (h : ScriptStep Rest group rank actor position group' actor' position') :
    group'.size = group.size := by
  cases h with
  | steady => rfl
  | sends _ _ _ henqueue => exact (Group.sameBut_enqueue henqueue).size
  | offers _ _ _ henqueue => exact (Group.sameBut_enqueue henqueue).size
  | resumes => rfl
  | spawns => rfl
  | joins => rfl
  | parks => exact (Group.sameBut_modify _ _ _).size
  | finds => rfl
  | takes => exact (Group.sameBut_receive _ _ _ _).size
  | wanders _ _ _ hsame => exact hsame.size
  | posts _ _ henqueue => exact (Group.sameBut_enqueue henqueue).size
  | confirmed => rfl

end ScriptStep

namespace Group

variable {used : Tag → Prop} {group group' : Group} {rank : Nat}

theorem Apart.of_members (h : group.Apart used rank)
    (hmembers : group'.members[rank]? = group.members[rank]?) : group'.Apart used rank := by
  intro member hmember
  rw [hmembers] at hmember
  exact h member hmember

theorem getElem?_members_putInbox {member : Member} (h : group.members[rank]? = some member)
    (inbox : Inbox) : (group.putInbox rank inbox).members[rank]? = some { member with inbox } := by
  rw [members_putInbox h, getElem?_of_set h, if_pos rfl]

theorem apart_of_getElem? {member : Member} (h : group.members[rank]? = some member)
    (hapart : member.inbox.Apart used rank) : group.Apart used rank := by
  intro other hother
  rw [h] at hother
  cases hother
  exact hapart

theorem apart_enqueue {post : Envelope} {source : Nat} {ticket : Option Nat}
    (hapart : group.Apart used rank)
    (h : group.enqueue source post.peer post.tag post.payload = .ok (group', ticket)) :
    group'.Apart used rank := by
  by_cases hrank : rank = post.peer
  · subst hrank
    obtain ⟨member, hmember, hnew⟩ := getElem?_receiver h
    exact apart_of_getElem? hnew ((hapart member hmember).push _)
  · exact hapart.of_members ((sameBut_enqueue h).member rank hrank)

theorem search_moved {wanted : Wanted} {own : Bool} {channel : Channel} {inbox : Inbox}
    (hapart : group.Apart used rank) (h : group.search rank wanted own channel = .moved inbox) :
    (group.putInbox rank inbox).Apart used rank ∧
      ∀ source tag, used tag →
        (group.putInbox rank inbox).lane rank source tag = group.lane rank source tag := by
  unfold search at h
  split at h
  · cases h
  · next member hmember =>
      have hnew := getElem?_members_putInbox hmember inbox
      obtain ⟨hmoved, hlanes⟩ := Inbox.search_moved (hapart member hmember) h
      refine ⟨apart_of_getElem? hnew hmoved, ?_⟩
      intro source tag hused
      rw [lane_of_getElem? hnew, lane_of_getElem? hmember]
      exact hlanes source tag hused

end Group

theorem Accounted.queue {used : Tag → Prop} {group group' : Group} {source dest time : Nat}
    {tag : Tag} {post : Envelope} {ticket : Option Nat} {unsent : List (Nat × Envelope)}
    {spare due : List (Nat × Bytes)} {script : Script}
    (h : Accounted (group.lane dest source tag)
      (Script.select dest tag ((time, post) :: unsent) ++ spare) due script)
    (hapart : group.Apart used dest) (hused : used tag)
    (henqueue : group.enqueue source post.peer post.tag post.payload = .ok (group', ticket))
    (htime : ∀ duty ∈ script, time ≤ duty.time) :
    Accounted (group'.lane dest source tag) (Script.select dest tag unsent ++ spare) due
      script := by
  rw [Script.select_cons] at h
  by_cases hpost : dest = post.peer ∧ tag = post.tag
  · obtain ⟨rfl, rfl⟩ := hpost
    rw [if_pos ⟨rfl, rfl⟩] at h
    rw [Group.lane_enqueue_self hapart hused henqueue]
    exact h.post htime
  · rw [if_neg hpost, List.nil_append] at h
    rw [Group.lane_enqueue_of_ne henqueue (fun h => hpost ⟨h.1, h.2.2⟩)]
    exact h

namespace ScriptStep

variable {α : Type} {Rest : Bool → Program α → Script → Prop} {used : Tag → Prop}
  {actor actor' : Actor α} {group group' : Group} {rank : Nat} {position position' : Position}

theorem settles_take {time : Nat} {tag : Tag} {owed : RankSet} {payload : Nat → Bytes}
    {source : Nat} {script : Script} {member : Member} {message : Message}
    (hmember : group.members[rank]? = some member)
    (hfound : member.inbox.parked.find? (Wanted.accepts ⟨tag, some source⟩) = some message)
    (howed : source ∈ owed) (length other : Nat) (label : Tag) :
    Settles (group.lane rank other label)
      ((group.receive rank ⟨tag, some source⟩ message length).2.lane rank other label)
      (Script.select other label
        (Script.incoming (.take time tag owed payload (some source) :: script)))
      (Script.select other label
        (Script.incoming (Script.await time tag (owed.erase source) payload script))) := by
  rw [Script.select_incoming_take, Script.select_incoming_await]
  by_cases hlane : other = source ∧ label = tag
  · obtain ⟨rfl, rfl⟩ := hlane
    refine .inr ⟨message, (time, payload other), Group.lane_receive_self hmember hfound _, ?_⟩
    rw [if_pos ⟨howed, rfl⟩, if_neg (by simp)]
    rfl
  · refine .inl ⟨Group.lane_receive_of_ne hmember _ (fun h => hlane h.2), ?_⟩
    congr 1
    by_cases hlabel : label = tag
    · have hother : other ≠ source := fun h => hlane ⟨h, hlabel⟩
      simp [hlabel, hother]
    · simp [hlabel]

theorem effect (h : ScriptStep Rest group rank actor position group' actor' position')
    (hfollows : actor.FollowsScript Rest position) (horderly : position.script.Orderly used)
    (hapart : position.inStep = true → group.Apart used rank) :
    Effect used group rank (actor.unsent position.script) position group'
      (actor'.unsent position'.script) position' := by
  have hready : ∀ {duty script}, position.script = duty :: script →
      (∀ time post, duty ≠ .send time post) → actor.pause.isSending = false := by
    intro duty script hscript hsend
    apply hfollows.ready
    intro time post rest hscript'
    rw [hscript] at hscript'
    exact hsend time post (List.cons.inj hscript').1
  cases h with
  | steady hready _ hposts hticket hpause =>
      exact .unchanged hapart
        (Actor.unsent_congr hready (Actor.ready_of_none hpause) hposts hticket rfl (fun _ => rfl))
        rfl
  | @sends time post script _ _ hscript hposts hready henqueue _ hposts' hpause =>
      have hsorted := horderly.sorted
      rw [hscript] at hsorted
      refine .queues time post none henqueue ?_ (List.pairwise_cons.1 hsorted).1 ?_
      · rw [Actor.unsent_of_nil hposts, Actor.unsent_of_nil hposts', hscript,
          Actor.remaining_of_ready hready,
          Actor.remaining_of_ready (Actor.ready_of_none hpause)]
        rfl
      · rw [hscript]
        rfl
  | @offers time post script _ ticket _ hscript hposts hready henqueue _ hposts' hpause =>
      refine .queues time post (some ticket) henqueue ?_ ?_ rfl
      · rw [Actor.unsent_of_nil hposts, Actor.unsent_of_nil hposts', hscript,
          Actor.remaining_of_ready hready, Actor.remaining_of_sending hpause]
        rfl
      · have hclock := horderly.clock_le
        rw [hscript] at hclock ⊢
        exact hclock
  | resumes hscript hposts hsending _ _ hposts' hpause =>
      refine .unchanged hapart ?_ ?_
      · rw [Actor.unsent_of_nil hposts, Actor.unsent_of_nil hposts', hscript,
          Actor.remaining_of_sending hsending,
          Actor.remaining_of_ready (Actor.ready_of_none hpause)]
        rfl
      · rw [hscript]
        rfl
  | spawns hscript hposts _ hticket hclock hpause =>
      have hready := hready hscript (by simp)
      refine .unchanged hapart ?_ ?_
      · rw [Actor.unsent_of_nil hposts, Actor.remaining_of_ready hready, hscript,
          Script.outgoing_cons]
        simp only [Actor.unsent, Actor.unposted_of_idle hticket, hclock, Duty.sent, Duty.time,
          Actor.remaining_of_ready (Actor.ready_of_none hpause)]
      · rw [hscript]
        rfl
  | joins hscript hposts _ hposts' hpause =>
      have hready := hready hscript (by simp)
      refine .unchanged hapart ?_ ?_
      · rw [Actor.unsent_of_nil hposts, Actor.unsent_of_nil hposts', hscript,
          Actor.remaining_of_ready hready, Actor.remaining_of_ready (Actor.ready_of_none hpause)]
        rfl
      · rw [hscript]
        rfl
  | parks _ hsearch =>
      refine .keeps (Group.sameBut_modify _ _ _) rfl ?_ ?_
      · intro hstep
        exact (Group.search_moved (hapart hstep) hsearch).1
      · intro hstep source tag hused
        exact .inl ⟨(Group.search_moved (hapart hstep) hsearch).2 source tag hused, rfl⟩
  | finds hstep hscript _ _ _ _ _ hposts hticket hpause =>
      have hready := hready hscript (by simp)
      refine .unchanged (fun _ => hapart hstep) ?_ ?_
      · apply Actor.unsent_congr hready (Actor.ready_of_none hpause) hposts hticket
        · rw [hscript]
          rfl
        · rw [hscript]
          exact fun _ => rfl
      · rw [hscript]
        rfl
  | takes hstep hscript hmember hfound howed _ hposts hticket hpause =>
      have hready := hready hscript (by simp)
      refine .keeps (Group.sameBut_receive _ _ _ _) ?_ (fun _ => ?_) (fun _ => ?_)
      · apply Actor.unsent_congr hready (Actor.ready_of_none hpause) hposts hticket
        · rw [hscript, Script.outgoing_await]
          rfl
        · intro hne
          have hhelping := hfollows.helping hne
          rw [hscript] at hhelping ⊢
          exact Script.clock_await hhelping _
      · exact Group.apart_of_getElem? (Group.getElem?_taker hmember _ _ _)
          ((hapart hstep _ hmember).take _)
      · intro other label _
        rw [hscript]
        exact settles_take hmember hfound howed _ other label
  | wanders _ hready hready' hgroup _ _ houtgoing hclock hposts hticket =>
      exact .keeps hgroup (Actor.unsent_congr hready hready' hposts hticket houtgoing hclock)
        (fun hstep => by cases hstep) (fun hstep => by cases hstep)
  | @posts post _ _ _ ticket hposts hticket henqueue _ hpause hticket' hposts' =>
      refine .queues position.script.clock post ticket henqueue ?_ horderly.clock_le rfl
      unfold Actor.unsent
      rw [Actor.unposted_of_idle hticket, hposts, Actor.unposted_of_posted hticket' hposts',
        Actor.remaining_congr hpause]
      rfl
  | confirmed hposts hticket _ _ hpause hticket' hposts' =>
      refine .unchanged hapart ?_ rfl
      unfold Actor.unsent
      rw [Actor.unposted_of_ticket hticket, hposts, Actor.unposted_of_idle hticket', hposts',
        Actor.remaining_congr hpause]
      rfl

end ScriptStep

/-- The message that a rank has probed and not yet received is still there. -/
def Position.Found (position : Position) (group : Group) (rank : Nat) : Prop :=
  ∀ time tag owed payload source script, position.inStep = true →
    position.script = .take time tag owed payload (some source) :: script →
    source ∈ owed ∧ ∃ member message, group.members[rank]? = some member ∧
      member.inbox.parked.find? (Wanted.accepts ⟨tag, some source⟩) = some message

namespace Position.Found

variable {used : Tag → Prop} {group group' : Group} {rank : Nat} {position : Position}

theorem of_members (h : position.Found group rank)
    (hmembers : group'.members[rank]? = group.members[rank]?) : position.Found group' rank := by
  intro time tag owed payload source script hstep hscript
  rw [hmembers]
  exact h time tag owed payload source script hstep hscript

theorem enqueue {source : Nat} {post : Envelope} {ticket : Option Nat}
    (h : position.Found group rank)
    (henqueue : group.enqueue source post.peer post.tag post.payload = .ok (group', ticket)) :
    position.Found group' rank := by
  by_cases hrank : rank = post.peer
  · subst hrank
    intro time tag owed payload found script hstep hscript
    obtain ⟨howed, member, message, hmember, hfound⟩ :=
      h time tag owed payload found script hstep hscript
    obtain ⟨receiver, hreceiver, hnew⟩ := Group.getElem?_receiver henqueue
    rw [hreceiver] at hmember
    cases hmember
    rw [← Inbox.parked_push] at hfound
    exact ⟨howed, _, message, hnew, hfound⟩
  · exact h.of_members ((Group.sameBut_enqueue henqueue).member rank hrank)

theorem of_begun (hbegun : ∀ time tag owed payload found script,
    position.script = .take time tag owed payload found :: script → found = none) :
    position.Found group rank := by
  intro time tag owed payload source script _ hscript
  cases hbegun _ _ _ _ _ _ hscript

theorem of_tail {duty : Duty} {script : Script} {inStep : Bool}
    (h : Script.Orderly used (duty :: script)) : Position.Found ⟨inStep, script⟩ group rank := by
  apply of_begun
  intro time tag owed payload found rest hscript
  exact h.begun time tag owed payload found (Script.mem_of_eq_cons hscript)

end Position.Found

theorem ScriptStep.found {α : Type} {Rest : Bool → Program α → Script → Prop} {used : Tag → Prop}
    {actor actor' : Actor α} {group group' : Group} {rank : Nat} {position position' : Position}
    (h : ScriptStep Rest group rank actor position group' actor' position')
    (horderly : position.script.Orderly used) (hfound : position.Found group rank) :
    position'.Found group' rank := by
  cases h with
  | steady => exact hfound
  | sends hscript =>
      rw [hscript] at horderly
      exact .of_tail horderly
  | offers _ _ _ henqueue => exact hfound.enqueue henqueue
  | resumes hscript =>
      rw [hscript] at horderly
      exact .of_tail horderly
  | spawns hscript =>
      rw [hscript] at horderly
      exact .of_tail horderly
  | joins hscript =>
      rw [hscript] at horderly
      exact .of_tail horderly
  | parks hscript =>
      apply Position.Found.of_begun
      intro time tag owed payload found script hscript'
      rw [hscript] at hscript'
      cases hscript'
      rfl
  | finds hstep hscript hmember hmessage howed =>
      intro time tag owed payload source script _ hscript'
      cases hscript'
      exact ⟨howed, _, _, hmember, hmessage⟩
  | takes hstep hscript =>
      rw [hscript] at horderly
      unfold Script.await
      split
      · exact .of_tail horderly
      · apply Position.Found.of_begun
        intro time tag owed payload found script hscript'
        cases hscript'
        rfl
  | wanders =>
      intro time tag owed payload source script hstep
      cases hstep
  | posts _ _ henqueue => exact hfound.enqueue henqueue
  | confirmed => exact hfound

end RankExchange
