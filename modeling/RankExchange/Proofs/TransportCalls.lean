import RankExchange.Proofs.ScriptedPrograms
import RankExchange.Transport.Basic
import RankExchange.Trace

/-!
# The calls of a program

A program converses with its transport by the calls of its main thread and of its
helper thread, in the order in which they are made, each with its answer.  The
transport answers what it likes, and the helper thread takes its turns whenever it
likes.
-/

namespace RankExchange

/-- A call of a transport and the answer to it. -/
structure Call where
  helping : Bool
  request : Request
  answer : request.Answer

def Envelope.request (post : Envelope) : Request :=
  .send post.peer post.tag post.payload

def mainCalls (calls : List Call) : List Call :=
  calls.filter (fun call => !call.helping)

def helperCalls (calls : List Call) : List Call :=
  calls.filter (fun call => call.helping)

/-- What a helper thread has still to send, and why it has stopped early. -/
structure Helper where
  posts : List Envelope := []
  failure : Option Fault := none

namespace Helper

def outcome (helper : Helper) : Except Fault Unit :=
  match helper.failure with
  | none => .ok ()
  | some fault => .error fault

/-- The helper thread sends some of its messages. -/
inductive Sends : Helper → List Call → Helper → Prop
  | refl (helper : Helper) : Sends helper [] helper
  | sent {post : Envelope} {posts : List Envelope} {failure : Option Fault} {calls : List Call}
      {last : Helper} (h : Sends ⟨posts, failure⟩ calls last) :
      Sends ⟨post :: posts, failure⟩ (⟨true, post.request, .ok ()⟩ :: calls) last
  | failed {post : Envelope} {posts : List Envelope} {failure : Option Fault} {calls : List Call}
      {last : Helper} (fault : Fault) (h : Sends ⟨[], some fault⟩ calls last) :
      Sends ⟨post :: posts, failure⟩ (⟨true, post.request, .error fault⟩ :: calls) last

/-- One action of the main thread. -/
inductive Serves : Helper → (action : Action) → action.Answer → List Call → Helper → Prop
  | call {helper : Helper} {request : Request} (answer : request.Answer) :
      Serves helper (.call request) answer [⟨false, request, answer⟩] helper
  | log {helper : Helper} {event : Event} : Serves helper (.log event) () [] helper
  | reserve {helper : Helper} {length : Nat} :
      Serves helper (.reserve length) (if Memory.admits length then .ok () else .error .noRoom) []
        helper
  | spawn {helper : Helper} {posts : List Envelope} (h : helper.posts = []) :
      Serves helper (.spawn posts) () [] { posts }
  | join {helper : Helper} (h : helper.posts = []) :
      Serves helper .join helper.outcome [] {}

end Helper

/-- A program can make these calls, get these answers and come to this result. -/
inductive Program.Converses {α : Type} :
    Program α → Helper → List Call → Except Fault α → Helper → Prop
  | done {result : Except Fault α} {helper last : Helper} {calls : List Call}
      (hsends : helper.Sends calls last) : Converses (.done result) helper calls result last
  | act {action : Action} {next : action.Answer → Program α} {answer : action.Answer}
      {helper before after last : Helper} {sent own rest : List Call} {result : Except Fault α}
      (hsends : helper.Sends sent before) (hserves : before.Serves action answer own after)
      (hrest : Converses (next answer) after rest result last) :
      Converses (.act action next) helper (sent ++ own ++ rest) result last

theorem mainCalls_append (first last : List Call) :
    mainCalls (first ++ last) = mainCalls first ++ mainCalls last :=
  List.filter_append first last

theorem helperCalls_append (first last : List Call) :
    helperCalls (first ++ last) = helperCalls first ++ helperCalls last :=
  List.filter_append first last

namespace Helper.Sends

variable {helper middle last : Helper} {calls more : List Call}

theorem append (h : helper.Sends calls middle) (h' : middle.Sends more last) :
    helper.Sends (calls ++ more) last := by
  induction h with
  | refl => exact h'
  | sent _ ih => exact .sent (ih h')
  | failed fault _ ih => exact .failed fault (ih h')

theorem helping (h : helper.Sends calls last) : ∀ call ∈ calls, call.helping = true := by
  induction h with
  | refl => simp
  | sent _ ih => simpa using ih
  | failed _ _ ih => simpa using ih

theorem mainCalls_eq (h : helper.Sends calls last) : mainCalls calls = [] := by
  rw [mainCalls, List.filter_eq_nil_iff]
  intro call hcall
  simp [h.helping call hcall]

theorem helperCalls_eq (h : helper.Sends calls last) : helperCalls calls = calls := by
  rw [helperCalls, List.filter_eq_self]
  exact h.helping

end Helper.Sends

namespace Program.Converses

variable {α β : Type} {program : Program α} {helper last : Helper} {calls : List Call}

theorem of_bind {f : α → Program β} {result : Except Fault β}
    (h : (program.bind f).Converses helper calls result last) :
    (∃ fault, result = .error fault ∧ program.Converses helper calls (.error fault) last) ∨
      ∃ value front back middle, calls = front ++ back ∧
        program.Converses helper front (.ok value) middle ∧
        (f value).Converses middle back result last := by
  induction program generalizing helper calls with
  | done outcome =>
      cases outcome with
      | ok value => exact .inr ⟨value, [], calls, helper, rfl, .done (.refl _), h⟩
      | error fault =>
          cases h with
          | done hsends => exact .inl ⟨fault, rfl, .done hsends⟩
  | act action next ih =>
      cases h with
      | act hsends hserves hrest =>
          rcases ih _ hrest with ⟨fault, rfl, hfault⟩ |
            ⟨value, front, back, middle, rfl, hfront, hback⟩
          · exact .inl ⟨fault, rfl, .act hsends hserves hfault⟩
          · refine .inr ⟨value, _, back, middle, ?_, .act hsends hserves hfront, hback⟩
            simp only [List.append_assoc]

theorem of_attempt {result : Except Fault (Except Fault α)}
    (h : program.attempt.Converses helper calls result last) :
    ∃ outcome, result = .ok outcome ∧ program.Converses helper calls outcome last := by
  induction program generalizing helper calls with
  | done outcome =>
      cases h with
      | done hsends => exact ⟨outcome, rfl, .done hsends⟩
  | act action next ih =>
      cases h with
      | act hsends hserves hrest =>
          obtain ⟨outcome, heq, houtcome⟩ := ih _ hrest
          exact ⟨outcome, heq, .act hsends hserves houtcome⟩

theorem of_done {outcome result : Except Fault α}
    (h : (Program.done outcome).Converses helper calls result last) :
    result = outcome ∧ mainCalls calls = [] ∧ helper.Sends calls last := by
  cases h with
  | done hsends => exact ⟨rfl, hsends.mainCalls_eq, hsends⟩

theorem of_call {request : Request} {next : (Action.call request).Answer → Program α}
    {result : Except Fault α}
    (h : (Program.act (.call request) next).Converses helper calls result last) :
    ∃ answer middle rest, mainCalls calls = ⟨false, request, answer⟩ :: mainCalls rest ∧
      (next answer).Converses middle rest result last := by
  cases h with
  | act hsends hserves hrest =>
      cases hserves with
      | call =>
          refine ⟨_, _, _, ?_, hrest⟩
          rw [mainCalls_append, mainCalls_append, hsends.mainCalls_eq]
          rfl

theorem of_log {event : Event} {next : (Action.log event).Answer → Program α}
    {result : Except Fault α}
    (h : (Program.act (.log event) next).Converses helper calls result last) :
    ∃ middle rest, mainCalls calls = mainCalls rest ∧
      (next ()).Converses middle rest result last := by
  cases h with
  | act hsends hserves hrest =>
      cases hserves with
      | log =>
          refine ⟨_, _, ?_, hrest⟩
          simp [mainCalls_append, hsends.mainCalls_eq]

theorem of_reserve {length : Nat} {next : (Action.reserve length).Answer → Program α}
    {result : Except Fault α}
    (h : (Program.act (.reserve length) next).Converses helper calls result last) :
    ∃ middle rest, mainCalls calls = mainCalls rest ∧
      (next (if Memory.admits length then .ok () else .error .noRoom)).Converses middle rest result
        last := by
  cases h with
  | act hsends hserves hrest =>
      cases hserves with
      | reserve =>
          refine ⟨_, _, ?_, hrest⟩
          simp [mainCalls_append, hsends.mainCalls_eq]

/-- The main thread waits until its helper thread has come to an end. -/
theorem of_join {next : Action.join.Answer → Program α} {result : Except Fault α}
    (h : (Program.act .join next).Converses helper calls result last) :
    ∃ sent rest middle, calls = sent ++ rest ∧ helper.Sends sent middle ∧ middle.posts = [] ∧
      (next middle.outcome).Converses {} rest result last := by
  cases h with
  | act hsends hserves hrest =>
      cases hserves with
      | join hposts =>
          refine ⟨_, _, _, ?_, hsends, hposts, hrest⟩
          rw [List.append_nil]

/-- While the main thread neither starts nor awaits it, a helper thread is left to
itself. -/
theorem sends_of_settles {good : Except Fault α → Prop} {result : Except Fault α}
    (hsettles : program.Settles good) (h : program.Converses helper calls result last) :
    helper.Sends (helperCalls calls) last := by
  induction h with
  | done hsends =>
      rw [hsends.helperCalls_eq]
      exact hsends
  | act hsends hserves _ ih =>
      have hrest := ih (hsettles.2 _)
      have hquiet := hsettles.1
      rw [helperCalls_append, helperCalls_append, hsends.helperCalls_eq]
      cases hserves with
      | call => simpa [helperCalls] using hsends.append hrest
      | log => simpa [helperCalls] using hsends.append hrest
      | reserve => simpa [helperCalls] using hsends.append hrest
      | spawn => cases hquiet
      | join => cases hquiet

end Program.Converses

def Program.Unaided {α : Type} : Program α → Prop
  | .done _ => True
  | .act action next => (∀ posts, action ≠ .spawn posts) ∧ ∀ answer, (next answer).Unaided

theorem Helper.Sends.of_idle {helper last : Helper} {calls : List Call}
    (h : helper.Sends calls last) (hposts : helper.posts = []) : calls = [] ∧ last = helper := by
  cases h with
  | refl => exact ⟨rfl, rfl⟩
  | sent => cases hposts
  | failed => cases hposts

namespace Program

variable {α β : Type} {program : Program α}

theorem Unaided.bind {f : α → Program β} (h : program.Unaided) (hf : ∀ value, (f value).Unaided) :
    (program.bind f).Unaided := by
  induction program with
  | done result =>
      cases result with
      | ok value => exact hf value
      | error fault => trivial
  | act action next ih => exact ⟨h.1, fun answer => ih answer (h.2 answer)⟩

theorem Settles.unaided {good : Except Fault α → Prop} (h : program.Settles good) :
    program.Unaided := by
  induction program with
  | done result => trivial
  | act action next ih =>
      refine ⟨fun posts heq => ?_, fun answer => ih answer (h.2 answer)⟩
      have hquiet := h.1
      rw [heq] at hquiet
      cases hquiet

theorem Unaided.helping_eq_false {helper last : Helper} {calls : List Call}
    {result : Except Fault α} (hunaided : program.Unaided) (hposts : helper.posts = [])
    (h : program.Converses helper calls result last) : ∀ call ∈ calls, call.helping = false := by
  induction h with
  | done hsends =>
      obtain ⟨rfl, _⟩ := hsends.of_idle hposts
      simp
  | act hsends hserves _ ih =>
      obtain ⟨rfl, rfl⟩ := hsends.of_idle hposts
      cases hserves with
      | call => simpa using ih (hunaided.2 _) hposts
      | log => simpa using ih (hunaided.2 _) hposts
      | reserve => simpa using ih (hunaided.2 _) hposts
      | join => simpa using ih (hunaided.2 _) rfl
      | spawn => exact absurd rfl (hunaided.1 _)

end Program

/-- The helper thread may take its turns first. -/
theorem Program.Converses.after {α : Type} {program : Program α} {helper middle last : Helper}
    {calls more : List Call} {result : Except Fault α} (hsends : helper.Sends calls middle)
    (h : program.Converses middle more result last) :
    program.Converses helper (calls ++ more) result last := by
  cases h with
  | done hmore => exact .done (hsends.append hmore)
  | act hmore hserves hrest =>
      simp only [← List.append_assoc]
      exact .act (hsends.append hmore) hserves hrest

namespace Program.Converses

variable {α : Type} {program : Program α} {helper middle last : Helper} {calls more : List Call}

/-- The helper thread may take its turns last. -/
theorem before {result : Except Fault α} (h : program.Converses helper calls result middle)
    (hsends : middle.Sends more last) : program.Converses helper (calls ++ more) result last := by
  induction h with
  | done hfirst => exact .done (hfirst.append hsends)
  | act hfirst hserves _ ih =>
      rw [List.append_assoc]
      exact .act hfirst hserves (ih hsends)

theorem of_reported {event : α → Event} {result : Except Fault α}
    (h : (program.bind (fun value => (log (event value)).bind (fun _ => pure value))).Converses
      helper calls result last) : program.Converses helper calls result last := by
  rcases of_bind h with ⟨fault, rfl, hfault⟩ | ⟨value, front, back, middle, rfl, hvalue, hclosing⟩
  · exact hfault
  · cases hclosing with
    | act hsends hserves hrest =>
        cases hserves with
        | log =>
            cases hrest with
            | done hmore =>
                rw [List.append_nil]
                exact hvalue.before (hsends.append hmore)

end Program.Converses

namespace Transport

variable {σ α : Type}

theorem exists_sends_postAll (transport : Transport σ) (posts : List Envelope) (state : σ) :
    ∃ calls last, Helper.Sends { posts } calls last ∧ last.posts = [] ∧
      last.outcome = (transport.postAll posts state).1 ∧
      calls.map Call.request = (transport.postAll posts state).2.1 := by
  induction posts generalizing state with
  | nil => exact ⟨[], _, .refl _, rfl, rfl, rfl⟩
  | cons post posts ih =>
      generalize hanswer :
        transport.answer (.send post.peer post.tag post.payload) state = answer
      obtain ⟨answer, state'⟩ := answer
      simp only [postAll, hanswer]
      cases answer with
      | error fault =>
          exact ⟨[⟨true, post.request, .error fault⟩], _, .failed fault (.refl _), rfl, rfl, rfl⟩
      | ok value =>
          obtain ⟨calls, last, hsends, hposts, houtcome, hcalls⟩ := ih state'
          refine ⟨⟨true, post.request, .ok ()⟩ :: calls, last, .sent hsends, hposts, houtcome, ?_⟩
          rw [List.map_cons, hcalls]
          rfl

/-- A run is one way in which its program can converse. -/
theorem exists_converses_run (transport : Transport σ) (program : Program α) {helper : Helper}
    {transcript : Transcript σ} (hposts : helper.posts = [])
    (houtcome : helper.outcome = transcript.posted) :
    ∃ calls last, program.Converses helper calls (transport.run program transcript).1 last ∧
      (transport.run program transcript).2.calls =
        transcript.calls ++ (mainCalls calls).map Call.request ∧
      (transport.run program transcript).2.helperCalls =
        transcript.helperCalls ++ (helperCalls calls).map Call.request := by
  induction program generalizing helper transcript with
  | done result => exact ⟨[], helper, .done (.refl _), by simp [mainCalls], by simp [helperCalls]⟩
  | act action next ih =>
      cases action with
      | call request =>
          obtain ⟨calls, last, hrest, hmain, hhelper⟩ := @ih
            (transport.answer request transcript.state).1 helper
            { transcript with
              state := (transport.answer request transcript.state).2
              calls := transcript.calls ++ [request] } hposts houtcome
          refine ⟨_, last, .act (.refl _) (.call _) hrest, hmain.trans ?_, hhelper.trans ?_⟩
          · simp [mainCalls]
          · simp [helperCalls]
      | log event =>
          obtain ⟨calls, last, hrest, hmain, hhelper⟩ := @ih () helper
            { transcript with events := transcript.events ++ [event] } hposts houtcome
          exact ⟨_, last, .act (.refl _) .log hrest, hmain, hhelper⟩
      | reserve length =>
          obtain ⟨calls, last, hrest, hmain, hhelper⟩ := @ih
            (if Memory.admits length then .ok () else .error .noRoom) helper transcript hposts
            houtcome
          exact ⟨_, last, .act (.refl _) .reserve hrest, hmain, hhelper⟩
      | spawn posts =>
          obtain ⟨sent, middle, hsends, hmiddle, hposted, hrequests⟩ :=
            transport.exists_sends_postAll posts transcript.state
          obtain ⟨calls, last, hrest, hmain, hhelper⟩ := @ih () middle
            { transcript with
              state := (transport.postAll posts transcript.state).2.2
              posted := (transport.postAll posts transcript.state).1
              helperCalls :=
                transcript.helperCalls ++ (transport.postAll posts transcript.state).2.1 }
            hmiddle hposted
          refine ⟨_, last, .act (.refl _) (.spawn hposts) (hrest.after hsends), hmain.trans ?_,
            hhelper.trans ?_⟩
          · simp [mainCalls_append, hsends.mainCalls_eq]
          · simp [helperCalls_append, hsends.helperCalls_eq, hrequests]
      | join =>
          obtain ⟨calls, last, hrest, hmain, hhelper⟩ := @ih transcript.posted {}
            { transcript with posted := .ok () } rfl rfl
          have hserves : helper.Serves .join transcript.posted [] {} := by
            rw [← houtcome]
            exact .join hposts
          exact ⟨_, last, .act (.refl _) hserves hrest, hmain, hhelper⟩

end Transport

end RankExchange
