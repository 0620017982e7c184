import RankExchange.Proofs.Confinement

/-!
# The life of a session

A rank gives its session commands, one after the other, and in the end gives it up;
its transport answers each call as it likes.  `Courses` lists all that one command
can do.  From it follows what a whole life comes to: the phases go one way, every
call is made in the phase that it belongs to, and the transport is finalized once if
it has ever been started, and not before.
-/

namespace RankExchange

namespace Call

def isGrant : Call → Bool
  | ⟨_, .init _, .ok _⟩ => true
  | _ => false

def isFinalize (call : Call) : Bool :=
  call.request = .finalize

/-- Whether a call is one of those that an open session is for. -/
def isTraffic (call : Call) : Bool :=
  call.request.tag?.isSome || call.request = .barrier

end Call

namespace Program.Converses

variable {α : Type} {last : Helper} {calls : List Call} {result : Except Fault α}

theorem done_of_idle {outcome : Except Fault α}
    (h : (Program.done outcome).Converses {} calls result last) :
    result = outcome ∧ calls = [] ∧ last = {} := by
  obtain ⟨hresult, _, hsends⟩ := h.of_done
  exact ⟨hresult, hsends.of_idle rfl⟩

theorem call_of_idle {request : Request} {next : (Action.call request).Answer → Program α}
    (h : (Program.act (.call request) next).Converses {} calls result last) :
    ∃ answer rest, calls = ⟨false, request, answer⟩ :: rest ∧
      (next answer).Converses {} rest result last := by
  cases h with
  | act hsends hserves hrest =>
      obtain ⟨rfl, rfl⟩ := hsends.of_idle rfl
      cases hserves with
      | call => exact ⟨_, _, rfl, hrest⟩

theorem log_of_idle {event : Event} {next : (Action.log event).Answer → Program α}
    (h : (Program.act (.log event) next).Converses {} calls result last) :
    (next ()).Converses {} calls result last := by
  cases h with
  | act hsends hserves hrest =>
      obtain ⟨rfl, rfl⟩ := hsends.of_idle rfl
      cases hserves with
      | log => exact hrest

end Program.Converses

/-- The ways that a session can go. -/
inductive Phase.Moves : Phase → Phase → Prop
  | stays (phase : Phase) : Moves phase phase
  | opens (standing : Standing) : Moves .fresh (.active standing)
  | refuses : Moves .fresh .closed
  | closes (standing : Standing) : Moves (.active standing) .closed

variable {Kind : Type} {Value : Kind → Type}

/-- All that a command can do with a session: its calls, its outcome and the session
after it. -/
inductive Courses (before : Session) :
    (command : Command Value) → List Call → Except Fault command.Reply → Session → Prop
  | repeats {fault : Fault} (hphase : before.phase ≠ .fresh) :
      Courses before .establish [] (.error fault) before
  | fails (hphase : before.phase = .fresh) (fault : Fault) :
      Courses before .establish [⟨false, .init before.options.required, .error fault⟩]
        (.error fault) before
  | downgrades (hphase : before.phase = .fresh) {granted : Threading}
      (hgranted : granted < before.options.required) (answer : Except Fault Unit) :
      Courses before .establish
        [⟨false, .init before.options.required, .ok granted⟩, ⟨false, .finalize, answer⟩]
        (.error (.downgraded before.options.required granted)) { before with phase := .closed }
  | opens (hphase : before.phase = .fresh) {granted : Threading}
      (hgranted : ¬ granted < before.options.required) (identity : Identity) :
      Courses before .establish
        [⟨false, .init before.options.required, .ok granted⟩, ⟨false, .identify, identity⟩]
        (.ok identity)
        { before with phase := .active ⟨identity.rank, identity.size, granted⟩ }
  | closes {standing : Standing} (hphase : before.phase = .active standing)
      (answer : Except Fault Unit) :
      Courses before .close [⟨false, .finalize, answer⟩] answer { before with phase := .closed }
  | unclosed (hphase : before.isOpen = false) :
      Courses before .close [] (.error .notOpen) before
  | meets (hphase : before.isOpen = true) (answer : Except Fault Unit) :
      Courses before .synchronize [⟨false, .barrier, answer⟩] answer before
  | unmet (hphase : before.isOpen = false) :
      Courses before .synchronize [] (.error .notOpen) before
  | inspects : Courses before .inspect [] before.standing before
  | serves {tags : TagSpace} {service : Service Value} {calls : List Call}
      {outcome : Except Fault service.Reply} (hphase : before.isOpen = true)
      (hcalls : ∀ call ∈ calls, call.request.tag? = some service.tag) :
      Courses before (.serve tags service) calls outcome before
  | unserved {tags : TagSpace} {service : Service Value} {outcome : Except Fault service.Reply}
      (hphase : before.isOpen = false) :
      Courses before (.serve tags service) [] outcome before

section Converses

variable {before after : Session} {calls : List Call} {last : Helper}

open Program in
theorem courses_of_establish
    {outcome : Except Fault (Command.Reply (.establish : Command Value))}
    (h : ((.establish : Command Value).run before).Converses {} calls (.ok (outcome, after)) last) :
    Courses before (.establish : Command Value) calls outcome after ∧ last = {} := by
  simp only [Command.run, Session.establish] at h
  split at h
  · next standing hphase =>
      obtain ⟨heq, rfl, hlast⟩ := h.done_of_idle
      cases heq
      exact ⟨.repeats (by simp [hphase]), hlast⟩
  · next hphase =>
      obtain ⟨heq, rfl, hlast⟩ := h.done_of_idle
      cases heq
      exact ⟨.repeats (by simp [hphase]), hlast⟩
  · next hphase =>
      obtain ⟨answer, rest, rfl, hrest⟩ := h.call_of_idle
      cases answer with
      | error fault =>
          obtain ⟨heq, rfl, hlast⟩ := hrest.done_of_idle
          cases heq
          exact ⟨.fails hphase fault, hlast⟩
      | ok granted =>
          simp only [attempt_done, bind_eq, bind_done_ok] at hrest
          split at hrest
          · next hgranted =>
              obtain ⟨answer, rest, rfl, hrest'⟩ := hrest.log_of_idle.call_of_idle
              cases answer with
              | error fault =>
                  obtain ⟨heq, rfl, hlast⟩ := hrest'.log_of_idle.done_of_idle
                  cases heq
                  exact ⟨.downgrades hphase hgranted (.error fault), hlast⟩
              | ok _ =>
                  obtain ⟨heq, rfl, hlast⟩ := hrest'.done_of_idle
                  cases heq
                  exact ⟨.downgrades hphase hgranted (.ok ()), hlast⟩
          · next hgranted =>
              obtain ⟨identity, rest, rfl, hrest'⟩ := hrest.call_of_idle
              obtain ⟨heq, rfl, hlast⟩ := hrest'.log_of_idle.done_of_idle
              cases heq
              exact ⟨.opens hphase hgranted identity, hlast⟩

theorem courses_of_close {outcome : Except Fault (Command.Reply (.close : Command Value))}
    (h : ((.close : Command Value).run before).Converses {} calls (.ok (outcome, after)) last) :
    Courses before (.close : Command Value) calls outcome after ∧ last = {} := by
  simp only [Command.run, Session.close] at h
  split at h
  · next standing hphase =>
      obtain ⟨answer, rest, rfl, hrest⟩ := h.call_of_idle
      cases answer with
      | error fault =>
          obtain ⟨heq, rfl, hlast⟩ := hrest.done_of_idle
          cases heq
          exact ⟨.closes hphase (.error fault), hlast⟩
      | ok _ =>
          obtain ⟨heq, rfl, hlast⟩ := hrest.log_of_idle.done_of_idle
          cases heq
          exact ⟨.closes hphase (.ok ()), hlast⟩
  · next hphase =>
      obtain ⟨heq, rfl, hlast⟩ := h.done_of_idle
      cases heq
      refine ⟨.unclosed ?_, hlast⟩
      unfold Session.isOpen
      split
      · next standing hactive => exact absurd hactive (hphase standing)
      · rfl

theorem courses_of_synchronize
    {outcome : Except Fault (Command.Reply (.synchronize : Command Value))}
    (h : ((.synchronize : Command Value).run before).Converses {} calls (.ok (outcome, after))
      last) : Courses before (.synchronize : Command Value) calls outcome after ∧ last = {} := by
  cases hopen : before.isOpen with
  | true =>
      obtain ⟨standing, hstanding⟩ := Session.isOpen_iff.1 hopen
      simp only [Command.run, Session.synchronize, hstanding] at h
      obtain ⟨answer, rest, rfl, hrest⟩ := h.log_of_idle.call_of_idle
      obtain ⟨heq, rfl, hlast⟩ := hrest.done_of_idle
      cases heq
      exact ⟨.meets hopen _, hlast⟩
  | false =>
      simp only [Command.run, Session.synchronize, Session.standing_of_not_isOpen hopen] at h
      obtain ⟨heq, rfl, hlast⟩ := h.done_of_idle
      cases heq
      exact ⟨.unmet hopen, hlast⟩

theorem courses_of_serve {tags : TagSpace} {service : Service Value}
    {outcome : Except Fault (Command.Reply (.serve tags service))}
    (h : ((Command.serve tags service).run before).Converses {} calls (.ok (outcome, after))
      last) : Courses before (.serve tags service) calls outcome after ∧ last = {} := by
  obtain ⟨hcalls, aided, ⟨haided, outcome', heq⟩, hlast⟩ :=
    (Command.confined_serve before tags service).converses h (by simp) (fun _ => rfl)
  cases heq
  refine ⟨?_, hlast haided⟩
  cases hopen : before.isOpen with
  | true => exact .serves hopen (fun call hcall => (hcalls call hcall).1)
  | false =>
      have hraise : Endpoint.provide ⟨before, tags⟩ service = _ :=
        Endpoint.raises_of_not_isOpen hopen service
      simp only [Command.run, hraise] at h
      obtain ⟨_, rfl, _⟩ := h.done_of_idle
      exact .unserved hopen

/-- A command takes one of its courses, and leaves no helper thread behind. -/
theorem courses_of_converses {command : Command Value} {outcome : Except Fault command.Reply}
    (h : (command.run before).Converses {} calls (.ok (outcome, after)) last) :
    Courses before command calls outcome after ∧ last = {} := by
  cases command with
  | establish => exact courses_of_establish h
  | close => exact courses_of_close h
  | synchronize => exact courses_of_synchronize h
  | inspect =>
      obtain ⟨heq, rfl, hlast⟩ := h.done_of_idle
      cases heq
      exact ⟨.inspects, hlast⟩
  | serve tags service => exact courses_of_serve h

end Converses

/-- What a command has done in the life of a session. -/
structure Episode {Kind : Type} (Value : Kind → Type) where
  before : Session
  command : Command Value
  calls : List Call
  outcome : Except Fault command.Reply
  after : Session

def Episode.Opens (episode : Episode Value) (standing : Standing) : Prop :=
  episode.command = .establish ∧ ∃ identity : Identity,
    standing = ⟨identity.rank, identity.size, standing.granted⟩ ∧
    episode.calls = [⟨false, .init episode.before.options.required, .ok standing.granted⟩,
      ⟨false, .identify, identity⟩]

def callsOf (episodes : List (Episode Value)) : List Call :=
  episodes.flatMap Episode.calls

/-- How often the transport has been started by the time that a session is in some phase. -/
def Phase.grants : Phase → Nat
  | .fresh => 0
  | _ => 1

def Phase.finals : Phase → Nat
  | .closed => 1
  | _ => 0

structure Phase.Accounts (phase : Phase) (calls : List Call) : Prop where
  grants : calls.countP Call.isGrant = phase.grants
  finals : calls.countP Call.isFinalize = phase.finals

/-- The transport is finalized only after it has been started. -/
def StartedFirst (calls : List Call) : Prop :=
  ∀ front call back, calls = front ++ call :: back → call.isFinalize = true →
    0 < front.countP Call.isGrant

theorem StartedFirst.append {calls more : List Call} (h : StartedFirst calls)
    (hmore : ∀ front call back, more = front ++ call :: back → call.isFinalize = true →
      0 < (calls ++ front).countP Call.isGrant) : StartedFirst (calls ++ more) := by
  intro front call back heq hcall
  rcases List.append_eq_append_iff.1 heq with ⟨rest, rfl, hrest⟩ | ⟨rest, hcalls, hrest⟩
  · exact hmore rest call back hrest hcall
  · cases rest with
    | nil =>
        rw [List.append_nil] at hcalls
        rw [List.nil_append] at hrest
        rw [← hcalls]
        simpa using hmore [] call back hrest.symm hcall
    | cons first rest =>
        obtain ⟨rfl, _⟩ := List.cons.inj hrest
        exact h front call rest hcalls hcall

section Traffic

variable {tag : Tag} {call : Call} (h : call.request.tag? = some tag)

include h

theorem Call.not_isGrant_of_tag? : call.isGrant = false := by
  obtain ⟨helping, request, answer⟩ := call
  cases request with
  | init => cases h
  | _ => rfl

theorem Call.not_isFinalize_of_tag? : call.isFinalize = false := by
  obtain ⟨helping, request, answer⟩ := call
  cases request with
  | finalize => cases h
  | _ => rfl

end Traffic

namespace Courses

variable {before after : Session} {command : Command Value} {own : List Call}
  {outcome : Except Fault command.Reply}

theorem moves (h : Courses before command own outcome after) :
    before.phase.Moves after.phase := by
  cases h with
  | downgrades hphase =>
      rw [hphase]
      exact .refuses
  | opens hphase _ identity =>
      rw [hphase]
      exact .opens _
  | closes hphase =>
      rw [hphase]
      exact .closes _
  | _ => exact .stays _

theorem traffic (h : Courses before command own outcome after) {call : Call} (hmem : call ∈ own)
    (hcall : call.isTraffic = true) : before.isOpen = true := by
  cases h with
  | meets hphase => exact hphase
  | serves hphase => exact hphase
  | fails =>
      rw [List.mem_singleton.1 hmem] at hcall
      cases hcall
  | closes =>
      rw [List.mem_singleton.1 hmem] at hcall
      cases hcall
  | downgrades =>
      simp only [List.mem_cons, List.not_mem_nil, or_false] at hmem
      rcases hmem with rfl | rfl <;> cases hcall
  | opens =>
      simp only [List.mem_cons, List.not_mem_nil, or_false] at hmem
      rcases hmem with rfl | rfl <;> cases hcall
  | _ => cases hmem

/-- What a command adds to the accounts. -/
theorem counts (h : Courses before command own outcome after) :
    before.phase.grants + own.countP Call.isGrant = after.phase.grants ∧
      before.phase.finals + own.countP Call.isFinalize = after.phase.finals := by
  cases h with
  | downgrades hphase =>
      rw [hphase]
      exact ⟨rfl, rfl⟩
  | opens hphase =>
      rw [hphase]
      exact ⟨rfl, rfl⟩
  | closes hphase =>
      rw [hphase]
      exact ⟨rfl, rfl⟩
  | serves _ hcalls =>
      have hgrants : own.countP Call.isGrant = 0 := by
        refine List.countP_eq_zero.2 fun call hcall => ?_
        simp [Call.not_isGrant_of_tag? (hcalls call hcall)]
      have hfinals : own.countP Call.isFinalize = 0 := by
        refine List.countP_eq_zero.2 fun call hcall => ?_
        simp [Call.not_isFinalize_of_tag? (hcalls call hcall)]
      rw [hgrants, hfinals]
      exact ⟨rfl, rfl⟩
  | _ => exact ⟨rfl, rfl⟩

theorem accounts (h : Courses before command own outcome after) {calls : List Call}
    (hbefore : before.phase.Accounts calls) : after.phase.Accounts (calls ++ own) := by
  obtain ⟨hgrants, hfinals⟩ := h.counts
  constructor
  · rw [List.countP_append, hbefore.grants, hgrants]
  · rw [List.countP_append, hbefore.finals, hfinals]

theorem startedFirst (h : Courses before command own outcome after) {calls : List Call}
    (hbefore : before.phase.Accounts calls) (hstarted : StartedFirst calls) :
    StartedFirst (calls ++ own) := by
  refine hstarted.append (fun front call back heq hcall => ?_)
  rw [List.countP_append, hbefore.grants]
  have hnone : own.countP Call.isFinalize ≠ 0 :=
    fun hnone => List.countP_eq_zero.1 hnone call (by simp [heq]) hcall
  cases h with
  | closes hphase =>
      rw [hphase]
      exact Nat.lt_add_right _ Nat.one_pos
  | downgrades =>
      cases front with
      | nil =>
          cases heq
          cases hcall
      | cons first front =>
          obtain ⟨rfl, _⟩ := List.cons.inj heq
          exact Nat.lt_add_left _ (List.countP_pos_iff.2 ⟨_, List.mem_cons_self, rfl⟩)
  | serves _ hcalls =>
      have hquiet := Call.not_isFinalize_of_tag? (hcalls call (by simp [heq]))
      rw [hquiet] at hcall
      cases hcall
  | _ => exact absurd rfl hnone

theorem captured (h : Courses before command own outcome after) {standing : Standing}
    (hafter : after.phase = .active standing) :
    before.phase = .active standing ∨
      (Episode.mk before command own outcome after).Opens standing := by
  cases h with
  | downgrades => cases hafter
  | closes => cases hafter
  | opens hphase hgranted identity =>
      cases hafter
      exact .inr ⟨rfl, identity, rfl, rfl⟩
  | _ => exact .inl hafter

end Courses

/-- What has been the case in a life so far. -/
structure Session.Upholds (session : Session) (episodes : List (Episode Value))
    (helper : Helper) : Prop where
  idle : helper = {}
  courses : ∀ episode ∈ episodes,
    Courses episode.before episode.command episode.calls episode.outcome episode.after
  accounts : session.phase.Accounts (callsOf episodes)
  startedFirst : StartedFirst (callsOf episodes)
  captured : ∀ standing, session.phase = .active standing →
    ∃ opening ∈ episodes, opening.Opens standing
  captures : ∀ front episode back, episodes = front ++ episode :: back →
    ∀ standing, episode.before.phase = .active standing →
      ∃ opening ∈ front, opening.Opens standing

namespace Session

variable {first session : Session} {episodes : List (Episode Value)} {helper : Helper}

theorem callsOf_snoc (episodes : List (Episode Value)) (episode : Episode Value) :
    callsOf (episodes ++ [episode]) = callsOf episodes ++ episode.calls := by
  simp [callsOf, List.flatMap_append]

theorem Upholds.step (h : session.Upholds episodes helper) {after : Session}
    {command : Command Value} {calls : List Call} {outcome : Except Fault command.Reply}
    {last : Helper}
    (hcommand : (command.run session).Converses helper calls (.ok (outcome, after)) last) :
    after.Upholds (episodes ++ [⟨session, command, calls, outcome, after⟩]) last := by
  rw [h.idle] at hcommand
  obtain ⟨hcourses, hlast⟩ := courses_of_converses hcommand
  refine ⟨hlast, ?_, ?_, ?_, ?_, ?_⟩
  · intro episode hmem
    rcases List.mem_append.1 hmem with hmem | hmem
    · exact h.courses episode hmem
    · rw [List.mem_singleton.1 hmem]
      exact hcourses
  · rw [callsOf_snoc]
    exact hcourses.accounts h.accounts
  · rw [callsOf_snoc]
    exact hcourses.startedFirst h.accounts h.startedFirst
  · intro standing hstanding
    rcases hcourses.captured hstanding with hbefore | hopens
    · obtain ⟨opening, hmem, hopening⟩ := h.captured standing hbefore
      exact ⟨opening, List.mem_append_left _ hmem, hopening⟩
    · exact ⟨_, List.mem_append_right _ List.mem_cons_self, hopens⟩
  · intro front episode back heq standing hstanding
    rcases List.eq_nil_or_concat back with rfl | ⟨back, other, rfl⟩
    · obtain ⟨rfl, hepisode⟩ := List.append_inj' heq rfl
      rw [← List.singleton_inj.1 hepisode] at hstanding
      exact h.captured standing hstanding
    · rw [List.concat_eq_append, ← List.cons_append, ← List.append_assoc] at heq
      obtain ⟨heq, _⟩ := List.append_inj' heq rfl
      exact h.captures front episode back heq standing hstanding

section Farewell

variable (h : session.Upholds episodes helper) {farewell : List Call}
  {result : Except Fault Unit} {last : Helper}
  (hfarewell : session.abandon.Converses helper farewell result last)

include h hfarewell

end Farewell

end Session

end RankExchange
