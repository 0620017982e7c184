import RankExchange.Proofs.Script

/-!
# Programs that follow a script

`Program.FollowsScript` relates what is left of a program to what is left of its
script, one rule for each action.  It is closed under the ways in which
programs are put together, so that the exchanges and collectives are followed
through their definitions.
-/

namespace RankExchange

/-- Whether an action sends nothing and has nothing to do with a helper
thread. -/
def Action.isQuiet : Action → Bool
  | .call (.send _ _ _) => false
  | .spawn _ => false
  | .join => false
  | _ => true

namespace Program

variable {α β : Type}

/-- Runs another program at the end, whose outcome does not matter. -/
def followedBy (program : Program α) (tail : Program Unit) : Program α := do
  let value ← program
  let _ ← tail.attempt
  return value

/-- A program that sends nothing, whatever it is answered, and ends well. -/
def Settles (good : Except Fault α → Prop) : Program α → Prop
  | .done result => good result
  | .act action next => action.isQuiet = true ∧ ∀ answer, (next answer).Settles good

abbrev Silent (program : Program α) : Prop :=
  program.Settles (fun _ => True)

/-- What is left of a program follows what is left of a script, up to a point
where `Rest` holds.  The flag says whether the rank is in step. -/
inductive FollowsScript (Rest : Bool → Program α → Script → Prop) : Bool → Program α → Script → Prop
  | rest {inStep : Bool} {program : Program α} {script : Script}
      (h : Rest inStep program script) : FollowsScript Rest inStep program script
  | log {inStep : Bool} {event : Event} {next : (Action.log event).Answer → Program α}
      {script : Script} (h : FollowsScript Rest inStep (next ()) script) :
      FollowsScript Rest inStep (.act (.log event) next) script
  | reserve {inStep : Bool} {length : Nat} {next : (Action.reserve length).Answer → Program α}
      {script : Script} (h : FollowsScript Rest inStep (next (.ok ())) script) :
      FollowsScript Rest inStep (.act (.reserve length) next) script
  | send {inStep : Bool} {time : Nat} {post : Envelope}
      {next : (Action.call (.send post.peer post.tag post.payload)).Answer → Program α}
      {script : Script} (h : FollowsScript Rest inStep (next (.ok ())) script) :
      FollowsScript Rest inStep (.act (.call (.send post.peer post.tag post.payload)) next)
        (.send time post :: script)
  | spawn {inStep : Bool} {time : Nat} {posts : List Envelope}
      {next : (Action.spawn posts).Answer → Program α} {script : Script}
      (hhelping : script.Helping) (hclock : script.clock = time)
      (h : FollowsScript Rest inStep (next ()) script) :
      FollowsScript Rest inStep (.act (.spawn posts) next) (.spawn time posts :: script)
  | join {inStep : Bool} {time : Nat} {next : Action.join.Answer → Program α} {script : Script}
      (h : FollowsScript Rest inStep (next (.ok ())) script) :
      FollowsScript Rest inStep (.act .join next) (.join time :: script)
  | probe {time : Nat} {tag : Tag} {owed : RankSet} {payload : Nat → Bytes}
      {next : (Action.call (.probe tag)).Answer → Program α} {script : Script}
      (howed : ∀ source, source ∈ owed →
        FollowsScript Rest true (next (.ok ⟨source, tag, (payload source).length⟩))
          (.take time tag owed payload (some source) :: script))
      (hstranger : ∀ source length, ¬ source ∈ owed →
        FollowsScript Rest false (next (.ok ⟨source, tag, length⟩)) script.outward)
      (hfault : ∀ fault, FollowsScript Rest false (next (.error fault)) script.outward) :
      FollowsScript Rest true (.act (.call (.probe tag)) next)
        (.take time tag owed payload none :: script)
  | receive {time : Nat} {tag : Tag} {owed : RankSet} {payload : Nat → Bytes}
      {source length : Nat}
      {next : (Action.call (.receive source tag length)).Answer → Program α} {script : Script}
      (hlength : (payload source).length = length)
      (htaken : FollowsScript Rest true (next (.ok ⟨payload source, hlength⟩))
        (Script.await time tag (owed.erase source) payload script))
      (hfault : ∀ fault, FollowsScript Rest false (next (.error fault)) script.outward) :
      FollowsScript Rest true (.act (.call (.receive source tag length)) next)
        (.take time tag owed payload (some source) :: script)
  | wander {request : Request} {next : (Action.call request).Answer → Program α}
      {script : Script} (hquiet : (Action.call request).isQuiet = true)
      (h : ∀ answer, FollowsScript Rest false (next answer) script) :
      FollowsScript Rest false (.act (.call request) next) script

/-- A program that has ended, of whose result something is known. -/
def Ends (good : Bool → Except Fault α → Script → Prop) :
    Bool → Program α → Script → Prop :=
  fun inStep program script => ∃ result, program = .done result ∧ good inStep result script

namespace FollowsScript

variable {Rest : Bool → Program α → Script → Prop} {Rest' : Bool → Program β → Script → Prop}
  {good : Bool → Except Fault α → Script → Prop} {inStep : Bool} {program : Program α}
  {script : Script}

theorem done {result : Except Fault α} (h : good inStep result script) :
    FollowsScript (Ends good) inStep (.done result) script :=
  .rest ⟨result, rfl, h⟩

/-- Wrapped in a context that passes actions on, a program follows the same script. -/
theorem through {f : Program α → Program β} (h : FollowsScript Rest inStep program script)
    (hact : ∀ action next, f (.act action next) = .act action (fun answer => f (next answer)))
    (hrest : ∀ inStep program script, Rest inStep program script →
      FollowsScript Rest' inStep (f program) script) :
    FollowsScript Rest' inStep (f program) script := by
  induction h with
  | rest h => exact hrest _ _ _ h
  | log _ ih =>
      rw [hact]
      exact .log ih
  | reserve _ ih =>
      rw [hact]
      exact .reserve ih
  | send _ ih =>
      rw [hact]
      exact .send ih
  | spawn hhelping hclock _ ih =>
      rw [hact]
      exact .spawn hhelping hclock ih
  | join _ ih =>
      rw [hact]
      exact .join ih
  | probe _ _ _ howed hstranger hfault =>
      rw [hact]
      exact .probe howed hstranger hfault
  | receive hlength _ _ htaken hfault =>
      rw [hact]
      exact .receive hlength htaken hfault
  | wander hquiet _ ih =>
      rw [hact]
      exact .wander hquiet ih

theorem bind {f : α → Program β} (h : FollowsScript Rest inStep program script)
    (hrest : ∀ inStep program script, Rest inStep program script →
      FollowsScript Rest' inStep (program.bind f) script) :
    FollowsScript Rest' inStep (program.bind f) script :=
  h.through (fun _ _ => rfl) hrest

theorem bind_ends {f : α → Program β} (h : FollowsScript (Ends good) inStep program script)
    (hok : ∀ inStep value script, good inStep (.ok value) script →
      FollowsScript Rest' inStep (f value) script)
    (herror : ∀ inStep fault script, good inStep (.error fault) script →
      FollowsScript Rest' inStep (.done (.error fault)) script) :
    FollowsScript Rest' inStep (program.bind f) script := by
  apply h.bind
  rintro inStep program script ⟨result, rfl, hgood⟩
  cases result with
  | ok value => exact hok inStep value script hgood
  | error fault => exact herror inStep fault script hgood

theorem bind_attempt {f : Except Fault α → Program β}
    (h : FollowsScript (Ends good) inStep program script)
    (hresult : ∀ inStep result script, good inStep result script →
      FollowsScript Rest' inStep (f result) script) :
    FollowsScript Rest' inStep (program.attempt.bind f) script := by
  apply h.through (fun _ _ => rfl)
  rintro inStep program script ⟨result, rfl, hgood⟩
  exact hresult inStep result script hgood

theorem mono {Rest'' : Bool → Program α → Script → Prop}
    (h : FollowsScript Rest inStep program script)
    (hrest : ∀ inStep program script, Rest inStep program script →
      Rest'' inStep program script) :
    FollowsScript Rest'' inStep program script := by
  apply h.through (f := fun program => program) (fun _ _ => rfl)
  intro inStep program script hprogram
  exact .rest (hrest inStep program script hprogram)

end FollowsScript

namespace Settles

variable {good : Except Fault α → Prop}

theorem bind {good' : Except Fault β → Prop} {program : Program α} {f : α → Program β}
    (h : program.Settles good) (hok : ∀ value, good (.ok value) → (f value).Settles good')
    (herror : ∀ fault, good (.error fault) → good' (.error fault)) :
    (program.bind f).Settles good' := by
  induction program with
  | done result =>
      cases result with
      | ok value => exact hok value h
      | error fault => exact herror fault h
  | act action next ih => exact ⟨h.1, fun answer => ih answer (h.2 answer)⟩

theorem attempt {program : Program α} (h : program.Settles good) :
    program.attempt.Settles (fun result => ∃ outcome, result = .ok outcome ∧ good outcome) := by
  induction program with
  | done result => exact ⟨result, rfl, h⟩
  | act action next ih => exact ⟨h.1, fun answer => ih answer (h.2 answer)⟩

/-- Out of step, a program that sends nothing leaves the script as it is. -/
theorem followsScript {program : Program α} (h : program.Settles good) (script : Script) :
    FollowsScript (Ends (fun inStep result rest => inStep = false ∧ rest = script ∧ good result))
      false
      program script := by
  induction program with
  | done result => exact .done ⟨rfl, rfl, h⟩
  | act action next ih =>
      cases action with
      | call request => exact .wander h.1 (fun answer => ih answer (h.2 answer))
      | log event => exact .log (ih () (h.2 ()))
      | reserve length => exact .reserve (ih (.ok ()) (h.2 (.ok ())))
      | spawn posts => cases h.1
      | join => cases h.1

end Settles

theorem Silent.bind {program : Program α} {f : α → Program β} (h : program.Silent)
    (hf : ∀ value, (f value).Silent) : (program.bind f).Silent :=
  Settles.bind h (fun value _ => hf value) (fun _ _ => trivial)

end Program

end RankExchange
