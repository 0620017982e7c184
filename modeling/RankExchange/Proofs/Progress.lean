import RankExchange.Proofs.WorldInStep
import RankExchange.World.Schedule

/-!
# Progress

In step no world is stuck before all ranks have finished.  The argument is
about the ranks with the earliest duties: what they wait for has been sent or
is about to be sent by another rank with a duty of that time, and a message of
that time that is under way can be taken where it is.
-/

namespace RankExchange

/-- A message that waits on a wanted lane is found or brings the search on. -/
theorem Inbox.exists_search {inbox : Inbox} {used : Tag → Prop} {rank source : Nat} {tag : Tag}
    {message : Message} (hapart : inbox.Apart used rank) (hused : used tag)
    (hexpects : source = rank ∨ inbox.expectsRemote = true)
    (hmessage : message ∈ inbox.lane source tag) (alone own : Bool) :
    ∃ channel, inbox.search { tag } alone own channel ≠ .blocked := by
  obtain ⟨hwaiting, hsource, htag⟩ := Inbox.mem_lane_iff.1 hmessage
  obtain ⟨remote, loopback, parked, expectsRemote⟩ := inbox
  cases hfind : parked.find? (Wanted.accepts { tag }) with
  | some first =>
      refine ⟨.remote, ?_⟩
      unfold search
      simp [hfind]
  | none =>
      have hparked : ¬ message ∈ parked := by
        intro hmem
        exact List.find?_eq_none.1 hfind message hmem (Wanted.accepts_of_tag_iff.2 htag)
      unfold waiting at hwaiting
      rcases List.mem_append.1 hwaiting with hmem | hmem
      · rcases List.mem_append.1 hmem with hmem | hmem
        · exact absurd hmem hparked
        · have hother := hapart.remote message hmem (by rw [htag]; exact hused)
          have hopen : expectsRemote = true := by
            rcases hexpects with hown | hopen
            · exact absurd (hsource.trans hown) hother
            · exact hopen
          refine ⟨.remote, ?_⟩
          cases remote with
          | nil => cases hmem
          | cons first rest =>
              unfold search
              simp [hfind, hopen, pull?]
      · refine ⟨.loopback, ?_⟩
        cases loopback with
        | nil => cases hmem
        | cons first rest =>
            unfold search
            cases expectsRemote <;> simp [hfind, pull?]

namespace World

variable {α β : Type}

/-- What a rank has so far is the beginning of these items, and when it has
finished it has all of them. -/
structure Approaches (world : World (List β)) (rank : Nat) (items : List β) : Prop where
  soFar : ∀ (actor : Actor (List β)) (known : List β), world.actors[rank]? = some actor →
    actor.program.Knows known → known <+: items
  finished : ∀ result, world.result? rank = some result → result = .ok items

/-- Some thread can take a step. -/
def Moves (world : World α) : Prop :=
  ∃ move next, world.step move = some next

/-- However the threads take their turns, all ranks finish. -/
inductive Finishes : World α → Prop
  | done {world : World α} (h : world.isDone = true) : Finishes world
  | later {world : World α} (hmoves : world.Moves)
      (h : ∀ move next, world.step move = some next → Finishes next) : Finishes world

theorem Finishes.isDone {world : World α} (h : world.Finishes) (hstuck : world.firstStep = none) :
    world.isDone = true := by
  cases h with
  | done h => exact h
  | later hmoves =>
      obtain ⟨move, next, hstep⟩ := hmoves
      rw [firstStep_eq_none_iff.1 hstuck move] at hstep
      cases hstep

/-- Worlds that never get stuck finish, since no world can take steps for ever. -/
theorem finishes_of_invariant {p : World α → Prop}
    (hmoves : ∀ world, p world → world.isDone = true ∨ world.Moves)
    (hstep : ∀ world move next, p world → world.step move = some next → p next)
    {world : World α} (h : p world) : world.Finishes := by
  induction world using Nearer.wf.induction with
  | h world ih =>
      rcases hmoves world h with hdone | hmoves
      · exact .done hdone
      · exact .later hmoves (fun move next hnext =>
          ih next (nearer_of_step hnext) (hstep world move next h hnext))

variable {world : World α}

theorem exists_step_of_advance {rank : Nat} {actor : Actor α} {channel : Channel}
    (hactor : world.actors[rank]? = some actor)
    (h : (actor.advance world.group rank channel).isSome = true) :
    ∃ next, world.step ⟨rank, .main channel⟩ = some next := by
  obtain ⟨next, hnext⟩ := Option.isSome_iff_exists.1 h
  refine ⟨⟨next.1, world.actors.set rank next.2⟩, ?_⟩
  unfold step
  simp only [hactor, hnext, Option.map_some]

theorem exists_step_of_help {rank : Nat} {actor : Actor α}
    (hactor : world.actors[rank]? = some actor)
    (h : (actor.help world.group rank).isSome = true) :
    ∃ next, world.step ⟨rank, .helper⟩ = some next := by
  obtain ⟨next, hnext⟩ := Option.isSome_iff_exists.1 h
  refine ⟨⟨next.1, world.actors.set rank next.2⟩, ?_⟩
  unfold step
  simp only [hactor, hnext, Option.map_some]

theorem moves_of_advance {rank : Nat} {actor : Actor α} {channel : Channel}
    (hactor : world.actors[rank]? = some actor)
    (h : (actor.advance world.group rank channel).isSome = true) : world.Moves :=
  ⟨_, exists_step_of_advance hactor h⟩

theorem moves_of_help {rank : Nat} {actor : Actor α} (hactor : world.actors[rank]? = some actor)
    (h : (actor.help world.group rank).isSome = true) : world.Moves :=
  ⟨_, exists_step_of_help hactor h⟩

end World

namespace Actor

variable {α : Type} {actor : Actor α} {group : Group} {rank : Nat}

/-- Where a main thread in step cannot go on: at its end, at a message that
nobody has taken yet, before the end of its helper thread, or at a message that is
not there. -/
inductive Awaits (used : Tag → Prop) (group : Group) (rank : Nat) (value : α) (actor : Actor α)
    (script : Script) : Prop
  | ended (hresult : actor.result? = some (.ok value)) (hscript : script = [])
  | send (time : Nat) (post : Envelope) (rest : Script)
      (hscript : script = .send time post :: rest) (hrendezvous : group.delivery = .rendezvous)
      (hused : used post.tag) (message : Message)
      (hmessage : message ∈ group.lane post.peer rank post.tag)
  | join (time : Nat) (rest : Script) (hscript : script = .join time :: rest)
      (hposts : actor.posts ≠ [])
  | take (time : Nat) (tag : Tag) (owed : RankSet) (payload : Nat → Bytes) (rest : Script)
      (hscript : script = .take time tag owed payload none :: rest)
      (hblocked : ∀ channel, group.search rank { tag } (group.size = 1) channel = .blocked)

theorem advance_isSome_of_send {post : Envelope}
    {next : (Action.call (.send post.peer post.tag post.payload)).Answer → Program α}
    {group' : Group} {ticket : Option Nat} (hpause : actor.pause = .none)
    (hprogram : actor.program = .act (.call (.send post.peer post.tag post.payload)) next)
    (henqueue : group.enqueue rank post.peer post.tag post.payload = .ok (group', ticket))
    (channel : Channel) : (actor.advance group rank channel).isSome = true := by
  unfold advance
  rw [hprogram]
  simp only [call, hpause, henqueue]
  cases ticket <;> rfl

theorem advance_isSome_of_probe {tag : Tag} {channel : Channel}
    {next : (Action.call (.probe tag)).Answer → Program α}
    (hprogram : actor.program = .act (.call (.probe tag)) next)
    (hrunning : group.isStopped rank = false)
    (hsearch : group.search rank { tag } (group.size = 1) channel ≠ .blocked) :
    (actor.advance group rank channel).isSome = true := by
  unfold advance
  rw [hprogram]
  simp only [call, hrunning, Bool.false_eq_true, if_false]
  split
  · rfl
  · rfl
  · rfl
  · next hblocked => exact absurd hblocked hsearch

theorem advance_isSome_of_receive {tag : Tag} {source length : Nat} {member : Member}
    {message : Message} {next : (Action.call (.receive source tag length)).Answer → Program α}
    (hprogram : actor.program = .act (.call (.receive source tag length)) next)
    (hrunning : group.isStopped rank = false) (hmember : group.members[rank]? = some member)
    (hfound : member.inbox.parked.find? (Wanted.accepts ⟨tag, some source⟩) = some message)
    (channel : Channel) : (actor.advance group rank channel).isSome = true := by
  unfold advance
  rw [hprogram]
  simp only [call, hrunning, Bool.false_eq_true, if_false, Group.search_of_parked hmember hfound]
  rfl

end Actor

namespace World

variable {α β : Type} {used : Tag → Prop} {value : Nat → α} {position : Nat → Position}
  {world : World α}

/-- No rank has a duty of an earlier time left. -/
def Earliest (position : Nat → Position) (now : Nat) : Prop :=
  ∀ rank, ∀ duty ∈ (position rank).script, now ≤ duty.time

namespace InStep

/-- A main thread that waits for a receipt has its message still under way. -/
theorem sending_waits (h : world.InStep used value position) {rank ticket : Nat} {actor : Actor α}
    (hactor : world.actors[rank]? = some actor) (hpause : actor.pause = .sending ticket) :
    world.Moves ∨ actor.Awaits used world.group rank (value rank) (position rank).script := by
  obtain ⟨time, post, script, next, hscript, hprogram, _⟩ :=
    (h.scripts.follows rank actor hactor).paused (by rw [hpause]; rfl)
  have hunconfirmed := Actor.unconfirmed_of_sending hpause hprogram
  rcases h.confirmation hactor hunconfirmed with hok | ⟨_, hused, message, hmessage⟩
  · have hmoves : (actor.advance world.group rank .remote).isSome = true := by
      unfold Actor.advance
      rw [hprogram]
      simp only [Actor.call, hpause, hok]
      rfl
    exact .inl (moves_of_advance hactor hmoves)
  · have hrendezvous : world.group.delivery = .rendezvous := by
      cases hdelivery : world.group.delivery with
      | rendezvous => rfl
      | buffered =>
          have hnone := h.tracksSends.buffered hdelivery rank actor hactor
          rw [hunconfirmed] at hnone
          cases hnone
    exact .inr (.send time post script hscript hrendezvous hused message hmessage)

theorem main_waits (h : world.InStep used value position) {rank : Nat} {actor : Actor α}
    (hactor : world.actors[rank]? = some actor) :
    world.Moves ∨ actor.Awaits used world.group rank (value rank) (position rank).script := by
  have hfollows := h.scripts.follows rank actor hactor
  have hrunning := h.intact.isStopped rank
  cases hpause : actor.pause with
  | sending ticket => exact h.sending_waits hactor hpause
  | gathered epoch => exact absurd hpause (h.ungathered rank actor hactor epoch)
  | none =>
    have hprogram := hfollows.program
    have hadvance : ∀ channel,
        (actor.advance world.group rank channel).isSome = true → world.Moves :=
      fun _ hadvance => moves_of_advance hactor hadvance
    rw [h.inStep rank] at hprogram
    generalize hscript : (position rank).script = script at hprogram
    generalize heq : actor.program = program at hprogram
    cases hprogram with
    | rest hrest =>
        obtain ⟨result, rfl, hclosing⟩ := hrest
        obtain ⟨rfl, rfl⟩ := hclosing rfl
        refine .inr (.ended ?_ rfl)
        unfold Actor.result?
        rw [heq]
    | log =>
        refine .inl (hadvance .remote ?_)
        unfold Actor.advance
        rw [heq]
        rfl
    | reserve =>
        refine .inl (hadvance .remote ?_)
        unfold Actor.advance
        rw [heq]
        rfl
    | send =>
        have hduty := Script.mem_of_eq_cons hscript
        obtain ⟨_, hpeer⟩ := h.posted_of_script hduty rfl (List.mem_singleton.2 rfl)
        obtain ⟨group', ticket, henqueue⟩ := h.exists_enqueue rank hpeer
        exact .inl (hadvance _ (Actor.advance_isSome_of_send hpause heq henqueue .remote))
    | spawn =>
        have hidle : ¬ (position rank).script.Helping := by
          rw [hscript]
          exact id
        refine .inl (hadvance .remote ?_)
        unfold Actor.advance
        rw [heq]
        simp [hfollows.posts_eq_nil hidle]
    | join =>
        by_cases hposts : actor.posts = []
        · refine .inl (hadvance .remote ?_)
          unfold Actor.advance
          rw [heq]
          simp [hposts]
        · exact .inr (.join _ _ rfl hposts)
    | @probe _ tag =>
        by_cases hblocked : ∀ channel, world.group.search rank { tag }
            (world.group.size = 1) channel = .blocked
        · exact .inr (.take _ _ _ _ _ rfl hblocked)
        · obtain ⟨channel, hsearch⟩ := Classical.not_forall.1 hblocked
          exact .inl (hadvance channel (Actor.advance_isSome_of_probe heq hrunning hsearch))
    | receive =>
        obtain ⟨_, member, message, hmember, hfound, _⟩ :=
          (h.scripts.backed rank).found _ _ _ _ _ _ (h.inStep rank) hscript
        exact .inl (hadvance _
          (Actor.advance_isSome_of_receive heq hrunning hmember hfound .remote))

/-- A helper thread waits for nothing but the message that it has under way. -/
theorem helper_waits (h : world.InStep used value position) {rank : Nat} {actor : Actor α}
    (hactor : world.actors[rank]? = some actor) (hposts : actor.posts ≠ []) :
    world.Moves ∨ ∃ (post : Envelope) (message : Message), used post.tag ∧
      message ∈ world.group.lane post.peer rank post.tag := by
  cases hcons : actor.posts with
  | nil => exact absurd hcons hposts
  | cons post posts =>
      cases hticket : actor.ticket with
      | none =>
          have hpost : post ∈ actor.posts := by
            rw [hcons]
            exact List.mem_cons_self
          obtain ⟨group', ticket, henqueue⟩ :=
            h.exists_enqueue rank (h.posts rank actor hactor post hpost).2
          refine .inl (moves_of_help hactor ?_)
          unfold Actor.help
          simp only [hcons, hticket, henqueue]
          cases ticket <;> rfl
      | some ticket =>
          have hready := (h.scripts.follows rank actor hactor).ready_of_posts hposts
          have hunconfirmed : actor.unconfirmed = some (post, ticket) := by
            rw [Actor.unconfirmed_of_ready hready]
            exact Actor.posted_of_cons hticket hcons
          rcases h.confirmation hactor hunconfirmed with hok | ⟨_, hused, message, hmessage⟩
          · refine .inl (moves_of_help hactor ?_)
            unfold Actor.help
            simp only [hcons, hticket, hok]
            rfl
          · exact .inr ⟨post, message, hused, hmessage⟩

/-- Nothing waits on a lane whose destination is blocked at it. -/
theorem lane_of_blocked (h : world.InStep used value position) {rank source : Nat} {tag : Tag}
    (hused : used tag) (hsource : source < world.group.size)
    (hblocked : ∀ channel, world.group.search rank { tag }
      (world.group.size = 1) channel = .blocked) : world.group.lane rank source tag = [] := by
  apply List.eq_nil_iff_forall_not_mem.2
  intro message hmessage
  obtain ⟨member, hmember, hwaits⟩ := Group.exists_member_of_mem_lane hmessage
  have hrank : rank < world.group.size := (List.getElem?_eq_some_iff.1 hmember).1
  have hexpects : source = rank ∨ member.inbox.expectsRemote = true := by
    rcases h.intact.expects with hone | hall
    · exact .inl (by omega)
    · exact .inr (hall rank member hmember)
  obtain ⟨channel, hsearch⟩ := Inbox.exists_search
    (h.scripts.apart rank (h.inStep rank) member hmember) hused hexpects hwaits
    (world.group.isAlone rank) (decide (world.group.size = 1))
  apply hsearch
  have hblocked' := hblocked channel
  unfold Group.search at hblocked'
  rw [hmember] at hblocked'
  exact hblocked'

theorem lt_size_of_mem (h : world.InStep used value position) {rank : Nat} {duty : Duty}
    (hduty : duty ∈ (position rank).script) : rank < world.group.size := by
  apply Nat.lt_of_not_le
  intro hle
  rw [h.absent rank hle] at hduty
  cases hduty

/-- Among duties of one time, one that is first comes before the others. -/
theorem precedes_of_head (h : world.InStep used value position) {rank : Nat}
    {duty other : Duty} {script : Script} (hscript : (position rank).script = duty :: script)
    (hother : other ∈ (position rank).script) (htime : other.time ≤ duty.time) :
    other = duty ∨ duty.isPosting = true ∨ other.isJoin = true := by
  have hstaged := (h.compatible rank).staged
  rw [hscript] at hstaged hother
  rcases List.mem_cons.1 hother with heq | hmem
  · exact .inl heq
  · rcases (List.pairwise_cons.1 hstaged).1 other hmem with hlt | ⟨_, hstage⟩
    · exact absurd hlt (Nat.not_lt.2 htime)
    · exact .inr hstage

/-- Only posting comes before a message of the same time. -/
theorem isPosting_of_head (h : world.InStep used value position) {rank : Nat}
    {first duty : Duty} {script : Script} {post : Envelope}
    (hscript : (position rank).script = first :: script) (hduty : duty ∈ (position rank).script)
    (htime : duty.time ≤ first.time) (hsent : post ∈ duty.sent) : first.isPosting = true := by
  rcases h.precedes_of_head hscript hduty htime with rfl | hposting | hjoin
  · cases duty with
    | send => rfl
    | spawn => rfl
    | take => cases hsent
    | join => cases hsent
  · exact hposting
  · cases duty with
    | send => cases hjoin
    | spawn => cases hjoin
    | take => cases hjoin
    | join => cases hsent

/-- A message of the earliest time can be taken where it is. -/
theorem moves_of_lane (h : world.InStep used value position) {source dest now : Nat} {tag : Tag}
    {message : Message} {duty : Duty} (hused : used tag)
    (hmessage : message ∈ world.group.lane dest source tag)
    (hduty : duty ∈ (position source).script) (hnow : duty.time = now)
    (hearliest : Earliest position now) : world.Moves := by
  obtain ⟨dated, hpayloads, hdated, hdue⟩ := h.lane source dest hused
  cases dated with
  | nil =>
      have hnil := List.map_eq_nil_iff.1 hpayloads.symm
      rw [hnil] at hmessage
      cases hmessage
  | cons entry dated =>
      obtain ⟨time, text⟩ := entry
      have hle : time ≤ now := by
        rw [← hnow]
        exact hdated (time, text) List.mem_cons_self duty hduty
      have hentry : (time, text) ∈ Script.select source tag (position dest).script.incoming := by
        rw [← hdue]
        exact List.mem_cons_self
      obtain ⟨owed, payload, found, htake, howed⟩ := Script.exists_take_of_select hentry
      obtain ⟨actor, hactor⟩ := h.exists_actor (h.lt_size_of_mem htake)
      rcases h.main_waits hactor with hmoves | hawaits
      · exact hmoves
      cases hawaits with
      | ended _ hscript =>
          rw [hscript] at htake
          cases htake
      | send now' post _ hscript hrendezvous =>
          -- A send and a take of one time do not meet on the main thread.
          have hsend := Script.mem_of_eq_cons hscript
          have hfirst : now ≤ now' := hearliest dest _ hsend
          have hclock := (h.scripts.orderly dest).clock_le _ htake
          rw [hscript] at hclock
          have htime : time = now' := Nat.le_antisymm (Nat.le_trans hle hfirst) hclock
          rw [htime] at htake
          exact absurd htake ((h.compatible dest).unhindered hrendezvous _ _ _ _ _ _ hsend)
      | join _ _ hscript =>
          have hfirst := hearliest dest _ (Script.mem_of_eq_cons hscript)
          rcases h.precedes_of_head hscript htake (Nat.le_trans hle hfirst) with
            heq | hpost | hjoin
          · cases heq
          · cases hpost
          · cases hjoin
      | take _ _ _ _ _ hscript hblocked =>
          have hfirst := hearliest dest _ (Script.mem_of_eq_cons hscript)
          rcases h.precedes_of_head hscript htake (Nat.le_trans hle hfirst) with
            heq | hpost | hjoin
          · cases heq
            have hsize := ((h.compatible dest).owed _ _ _ _ _ htake).2 source howed
            rw [h.lane_of_blocked hused hsize hblocked] at hmessage
            cases hmessage
          · cases hpost
          · cases hjoin

theorem moves_of_posts (h : world.InStep used value position) {rank now : Nat} {actor : Actor α}
    (hactor : world.actors[rank]? = some actor) (hposts : actor.posts ≠ [])
    (hclock : (position rank).script.clock = now)
    (hearliest : Earliest position now) : world.Moves := by
  rcases h.helper_waits hactor hposts with hmoves | ⟨post, message, hused, hmessage⟩
  · exact hmoves
  · have hhelping := (h.scripts.follows rank actor hactor).helping hposts
    cases hscript : (position rank).script with
    | nil =>
        rw [hscript] at hhelping
        cases hhelping
    | cons duty script =>
        have hduty := Script.mem_of_eq_cons hscript
        rw [hscript] at hclock
        exact h.moves_of_lane hused hmessage hduty hclock hearliest

/-- A rank that has still to send a message of the earliest time can move. -/
theorem moves_of_unsent (h : world.InStep used value position) {rank now : Nat} {post : Envelope}
    (hpost : (now, post) ∈ world.unsent position rank)
    (hearliest : Earliest position now) : world.Moves := by
  cases hactor : world.actors[rank]? with
  | none =>
      unfold unsent at hpost
      rw [hactor] at hpost
      cases hpost
  | some actor =>
      rw [unsent_of_getElem? hactor] at hpost
      rcases List.mem_append.1 hpost with hunposted | houtgoing
      · obtain ⟨_, hmem, heq⟩ := List.mem_map.1 hunposted
        cases heq
        have hposts : actor.posts ≠ [] := by
          intro hnil
          rw [Actor.unposted_of_nil hnil] at hmem
          cases hmem
        exact h.moves_of_posts hactor hposts rfl hearliest
      · obtain ⟨duty, hremaining, htime, hsent⟩ := Script.mem_outgoing_iff.1 houtgoing
        have hduty := Actor.mem_of_mem_remaining hremaining
        rw [← htime] at hearliest
        have hposting : ∀ {first script}, (position rank).script = first :: script →
            first.isPosting = true := by
          intro first script hscript
          have hfirst := hearliest rank first (Script.mem_of_eq_cons hscript)
          exact h.isPosting_of_head hscript hduty hfirst hsent
        rcases h.main_waits hactor with hmoves | hawaits
        · exact hmoves
        cases hawaits with
        | ended _ hscript =>
            rw [hscript] at hduty
            cases hduty
        | send time post _ hscript _ hused message hmessage =>
            have hsend := Script.mem_of_eq_cons hscript
            have hclock := (h.scripts.orderly rank).clock_le duty hduty
            rw [hscript] at hclock
            exact h.moves_of_lane hused hmessage hsend
              (Nat.le_antisymm hclock (hearliest rank _ hsend)) hearliest
        | join _ _ hscript => cases hposting hscript
        | take _ _ _ _ _ hscript => cases hposting hscript

/-- A rank with a duty of the earliest time finds some thread that can move. -/
theorem moves_of_earliest (h : world.InStep used value position) {rank now : Nat} {duty : Duty}
    {script : Script} (hscript : (position rank).script = duty :: script) (hnow : duty.time = now)
    (hearliest : Earliest position now) : world.Moves := by
  have hduty := Script.mem_of_eq_cons hscript
  obtain ⟨actor, hactor⟩ := h.exists_actor (h.lt_size_of_mem hduty)
  rcases h.main_waits hactor with hmoves | hawaits
  · exact hmoves
  cases hawaits with
  | ended _ hnil =>
      rw [hnil] at hduty
      cases hduty
  | send _ _ _ hsend _ hused message hmessage =>
      rw [hsend] at hscript
      cases hscript
      exact h.moves_of_lane hused hmessage hduty hnow hearliest
  | join _ _ _ hposts =>
      apply h.moves_of_posts hactor hposts _ hearliest
      rw [hscript]
      exact hnow
  | take time tag owed payload rest htake hblocked =>
      rw [htake] at hscript
      cases hscript
      obtain ⟨hranks, hsize⟩ := (h.compatible rank).owed _ _ _ _ _ hduty
      obtain ⟨source, hsource⟩ := List.exists_mem_of_ne_nil _ hranks
      have hused := h.used_of_take hduty
      obtain ⟨dated, hpayloads, _, hdue⟩ := h.lane source rank hused
      rw [h.lane_of_blocked hused (hsize source hsource) hblocked] at hpayloads
      have hnil := List.map_eq_nil_iff.1 hpayloads
      -- Nothing waits, so what is due first has still to be sent.
      have hunsent : (now, payload source) ∈
          Script.select rank tag (world.unsent position source) := by
        rw [hnil, List.nil_append] at hdue
        rw [hdue, htake, Script.select_incoming_take, if_pos ⟨hsource, rfl⟩, ← hnow]
        exact List.mem_cons_self
      exact h.moves_of_unsent (Script.mem_select_iff.1 hunsent) hearliest

/-- If any rank has a duty left, some thread can move. -/
theorem moves_of_mem (h : world.InStep used value position) {rank : Nat} {duty : Duty}
    (hduty : duty ∈ (position rank).script) : world.Moves := by
  generalize htime : duty.time = now
  induction now using Nat.strongRecOn generalizing rank duty with
  | ind now ih =>
      by_cases hearlier : ∃ rank, ∃ duty ∈ (position rank).script, duty.time < now
      · obtain ⟨rank', duty', hduty', hlt⟩ := hearlier
        exact ih duty'.time hlt hduty' rfl
      · have hearliest : Earliest position now :=
          fun rank duty hduty => Nat.le_of_not_lt (fun hlt => hearlier ⟨rank, duty, hduty, hlt⟩)
        cases hscript : (position rank).script with
        | nil =>
            rw [hscript] at hduty
            cases hduty
        | cons first script =>
            have hclock := (h.scripts.orderly rank).clock_le duty hduty
            rw [hscript, htime] at hclock
            have hfirst : now ≤ first.time := hearliest rank first (by rw [hscript]; simp)
            exact h.moves_of_earliest hscript (Nat.le_antisymm hclock hfirst) hearliest

theorem moves_of_cons (h : world.InStep used value position) {rank : Nat} {duty : Duty}
    {script : Script} (hscript : (position rank).script = duty :: script) : world.Moves :=
  h.moves_of_mem (Script.mem_of_eq_cons hscript)

theorem isDone_or_moves (h : world.InStep used value position) :
    world.isDone = true ∨ world.Moves := by
  by_cases hmoves : world.Moves
  · exact .inr hmoves
  · left
    unfold isDone
    rw [List.all_eq_true]
    intro actor hmem
    obtain ⟨rank, hactor⟩ := List.getElem?_of_mem hmem
    rcases h.main_waits hactor with hmoves' | hawaits
    · exact absurd hmoves' hmoves
    cases hawaits with
    | ended hresult =>
        rw [hresult]
        rfl
    | send _ _ _ hscript => exact absurd (h.moves_of_cons hscript) hmoves
    | join _ _ hscript => exact absurd (h.moves_of_cons hscript) hmoves
    | take _ _ _ _ _ hscript => exact absurd (h.moves_of_cons hscript) hmoves

theorem finishes (h : world.InStep used value position) : world.Finishes := by
  apply finishes_of_invariant (p := fun world => ∃ position, world.InStep used value position)
  · exact fun world ⟨position, h⟩ => h.isDone_or_moves
  · exact fun world move next ⟨position, h⟩ hstep => h.step hstep
  · exact ⟨position, h⟩

/-- A program in step can still come to its value. -/
theorem exists_takes (h : world.InStep used value position) {rank : Nat} {actor : Actor α}
    (hactor : world.actors[rank]? = some actor) :
    ∃ turns, actor.program.Takes turns (.ok (value rank)) := by
  have hfollows := (h.scripts.follows rank actor hactor).program
  have howing : (position rank).script.Owing :=
    fun time tag owed payload found htake => ((h.compatible rank).owed _ _ _ _ _ htake).1
  obtain ⟨turns, last, hleads, _, result, rfl, hclosing⟩ :=
    hfollows.exists_leads_inStep (h.inStep rank) howing
  obtain ⟨rfl, _⟩ := hclosing rfl
  exact ⟨turns, hleads⟩

theorem result (h : world.InStep used value position) {rank : Nat} {result : Except Fault α}
    (hresult : world.result? rank = some result) : result = .ok (value rank) := by
  obtain ⟨actor, hactor, hended⟩ := Option.bind_eq_some_iff.1 hresult
  unfold Actor.result? at hended
  split at hended
  · next ending hprogram =>
      cases hended
      obtain ⟨turns, htakes⟩ := h.exists_takes hactor
      rw [hprogram] at htakes
      exact (Program.takes_done_iff.1 htakes).2.symm
  · cases hended

theorem approaches {items : Nat → List β} {world : World (List β)}
    (h : world.InStep used items position) (rank : Nat) :
    world.Approaches rank (items rank) where
  soFar := by
    intro actor known hactor hknown
    obtain ⟨turns, htakes⟩ := h.exists_takes hactor
    exact hknown turns _ htakes
  finished := fun result hresult => h.result hresult

end InStep

end World

end RankExchange
