import RankExchange.Proofs.Confinement

/-!
# Programs pared down

A program is pared down where it makes only some of the calls of another one: those
that are about no tag or about a spared one.  What is left out is all that is done on
the other tags, with the helper threads that do it.
-/

namespace RankExchange

/-- Who has a helper thread, of two ranks of which the second does a part of what the
first does. -/
inductive Aid
  | neither
  | both
  | first

/-- Of two ranks that do the same, either both have a helper thread or neither has. -/
def Aid.alike (aided : Bool) : Aid :=
  bif aided then both else neither

/-- Of two ranks of which the second does nothing, only the first can have one. -/
def Aid.apart (aided : Bool) : Aid :=
  bif aided then first else neither

/-- A request that is about no tag, or about a spared one, and gives nothing up. -/
def Request.Spared (spared : Tag → Bool) (request : Request) : Prop :=
  request ≠ .leave ∧ request.tag?.all spared = true

def Request.Dropped (spared : Tag → Bool) (request : Request) : Prop :=
  ∃ tag, request.tag? = some tag ∧ spared tag = false

namespace Action

/-- An action that both ranks take. -/
inductive Keeps (spared : Tag → Bool) : Aid → Action → Aid → Prop
  | call {request : Request} (aid : Aid) (h : request.Spared spared) :
      Keeps spared aid (.call request) aid
  | log (aid : Aid) (event : Event) : Keeps spared aid (.log event) aid
  | reserve (aid : Aid) (length : Nat) : Keeps spared aid (.reserve length) aid
  | spawn {posts : List Envelope} (h : ∀ post ∈ posts, spared post.tag = true) :
      Keeps spared .neither (.spawn posts) .both
  | join : Keeps spared .both .join .neither

/-- An action that only the first rank takes. -/
inductive Drops (spared : Tag → Bool) : Aid → Action → Aid → Prop
  | call {request : Request} (aid : Aid) (h : request.Dropped spared) :
      Drops spared aid (.call request) aid
  | log (aid : Aid) (event : Event) : Drops spared aid (.log event) aid
  | reserve (aid : Aid) (length : Nat) : Drops spared aid (.reserve length) aid
  | spawn {posts : List Envelope} (h : ∀ post ∈ posts, spared post.tag = false) :
      Drops spared .neither (.spawn posts) .first
  | join : Drops spared .first .join .neither

variable {spared : Tag → Bool} {good : Request → Prop} {aided : Bool} {action : Action}

theorem Fits.keeps (h : action.Fits good aided)
    (hgood : ∀ request, good request → request.Spared spared) :
    action.Keeps spared (.alike aided) (.alike (action.aids aided)) := by
  cases action with
  | call request => exact .call _ (hgood request h)
  | log event => exact .log _ event
  | reserve length => exact .reserve _ length
  | spawn posts =>
      obtain ⟨rfl, hposts⟩ := h
      refine .spawn (fun post hpost => ?_)
      have hspared := (hgood _ (hposts post hpost)).2
      simpa [Envelope.request, Request.tag?] using hspared
  | join =>
      have haided : aided = true := h
      rw [haided]
      exact .join

theorem Fits.drops (h : action.Fits good aided)
    (hgood : ∀ request, good request → request.Dropped spared) :
    action.Drops spared (.apart aided) (.apart (action.aids aided)) := by
  cases action with
  | call request => exact .call _ (hgood request h)
  | log event => exact .log _ event
  | reserve length => exact .reserve _ length
  | spawn posts =>
      obtain ⟨rfl, hposts⟩ := h
      refine .spawn (fun post hpost => ?_)
      obtain ⟨tag, htag, hdropped⟩ := hgood _ (hposts post hpost)
      cases htag
      exact hdropped
  | join =>
      have haided : aided = true := h
      rw [haided]
      exact .join

end Action

namespace Program

variable {α β γ δ : Type} {spared : Tag → Bool} {aid : Aid}

/-- The second program does what the first one does, or leaves it out; in the end the
results of both go together. -/
inductive Pares (spared : Tag → Bool) (agree : Except Fault α → Except Fault β → Prop) :
    Aid → Program α → Program β → Prop
  | done {result : Except Fault α} {result' : Except Fault β} (h : agree result result') :
      Pares spared agree .neither (.done result) (.done result')
  | keep {aid after : Aid} {action : Action} {next : action.Answer → Program α}
      {next' : action.Answer → Program β} (hkeeps : action.Keeps spared aid after)
      (h : ∀ answer, Pares spared agree after (next answer) (next' answer)) :
      Pares spared agree aid (.act action next) (.act action next')
  | drop {aid after : Aid} {action : Action} {next : action.Answer → Program α}
      {program' : Program β} (hdrops : action.Drops spared aid after)
      (h : ∀ answer, Pares spared agree after (next answer) program') :
      Pares spared agree aid (.act action next) program'

theorem Pares.map {agree : Except Fault α → Except Fault β → Prop}
    {agree' : Except Fault γ → Except Fault δ → Prop} {program : Program α}
    {program' : Program β} {f : α → γ} {f' : β → δ} (h : program.Pares spared agree aid program')
    (hagree : ∀ result result', agree result result' → agree' (result.map f) (result'.map f')) :
    (program.bind (fun value => pure (f value))).Pares spared agree' aid
      (program'.bind (fun value => pure (f' value))) := by
  induction h with
  | @done result result' h =>
      have hboth := hagree result result' h
      cases result <;> cases result' <;> exact .done hboth
  | keep hkeeps _ ih => exact .keep hkeeps ih
  | drop hdrops _ ih => exact .drop hdrops ih

theorem Pares.map_left {agree : Except Fault α → Except Fault β → Prop}
    {agree' : Except Fault γ → Except Fault β → Prop} {program : Program α}
    {program' : Program β} {f : α → γ} (h : program.Pares spared agree aid program')
    (hagree : ∀ result result', agree result result' → agree' (result.map f) result') :
    (program.bind (fun value => pure (f value))).Pares spared agree' aid program' := by
  induction h with
  | @done result result' h =>
      have hboth := hagree result result' h
      cases result <;> exact .done hboth
  | keep hkeeps _ ih => exact .keep hkeeps ih
  | drop hdrops _ ih => exact .drop hdrops ih

section Confined

variable {good : Request → Prop} {middle : Bool → Except Fault α → Prop} {aided : Bool}
  {agree : Except Fault β → Except Fault γ → Prop} {program : Program α}
  {f : α → Program β} (hconfined : program.Confined good middle aided)
  (hmiddle : ∀ aided fault, ¬ middle aided (.error fault))

include hconfined hmiddle

/-- Both programs begin with the same calls. -/
theorem Confined.pares_bind {f' : α → Program γ}
    (hgood : ∀ request, good request → request.Spared spared)
    (hnext : ∀ aided value, middle aided (.ok value) →
      (f value).Pares spared agree (.alike aided) (f' value)) :
    (program.bind f).Pares spared agree (.alike aided) (program.bind f') := by
  induction program generalizing aided with
  | done result =>
      cases result with
      | ok value => exact hnext aided value hconfined
      | error fault => exact (hmiddle aided fault hconfined).elim
  | act action next ih =>
      exact .keep (hconfined.1.keeps hgood) (fun answer => ih answer (hconfined.2 answer))

/-- The second program does without the first calls of the other. -/
theorem Confined.pares_bind_left {program' : Program γ}
    (hgood : ∀ request, good request → request.Dropped spared)
    (hnext : ∀ aided value, middle aided (.ok value) →
      (f value).Pares spared agree (.apart aided) program') :
    (program.bind f).Pares spared agree (.apart aided) program' := by
  induction program generalizing aided with
  | done result =>
      cases result with
      | ok value => exact hnext aided value hconfined
      | error fault => exact (hmiddle aided fault hconfined).elim
  | act action next ih =>
      exact .drop (hconfined.1.drops hgood) (fun answer => ih answer (hconfined.2 answer))

end Confined

end Program

namespace Session

open Program

variable {Kind : Type} {Value : Kind → Type} {spared : Tag → Bool}

/-- What two ranks come to, of which the second has left out some commands of the
first: it has the same records of the others. -/
def Agrees (kept : Command Value → Bool) (commands : List (Command Value))
    (result result' : Except Fault (List (Record Value))) : Prop :=
  ∃ records, result = .ok records ∧ records.map Record.command = commands ∧
    result' = .ok (records.filter (fun record => kept record.command))

section

variable {kept : Command Value → Bool} {command : Command Value} {commands : List (Command Value)}
  {result result' : Except Fault (List (Record Value))}

theorem Agrees.cons (h : Agrees kept commands result result') (hcommand : kept command = true)
    (outcome : Except Fault command.Reply) :
    Agrees kept (command :: commands) (result.map (fun records => ⟨command, outcome⟩ :: records))
      (result'.map (fun records => ⟨command, outcome⟩ :: records)) := by
  obtain ⟨records, rfl, rfl, rfl⟩ := h
  exact ⟨⟨command, outcome⟩ :: records, rfl, rfl, by simp [Except.map, hcommand]⟩

theorem Agrees.cons_left (h : Agrees kept commands result result')
    (hcommand : kept command = false) (outcome : Except Fault command.Reply) :
    Agrees kept (command :: commands) (result.map (fun records => ⟨command, outcome⟩ :: records))
      result' := by
  obtain ⟨records, rfl, rfl, rfl⟩ := h
  exact ⟨⟨command, outcome⟩ :: records, rfl, rfl, by simp [hcommand]⟩

end

theorem pares_perform {kept : Command Value → Bool} (session : Session)
    (commands : List (Command Value))
    (hkept : ∀ command ∈ commands, kept command = true →
      ∀ request, command.Uses request → request.Spared spared)
    (hdropped : ∀ command ∈ commands, kept command = false →
      (∃ tags service, command = .serve tags service) ∧
        ∀ request, command.Uses request → request.Dropped spared) :
    (session.perform commands).Pares spared (Agrees kept commands) .neither
      (session.perform (commands.filter kept)) := by
  induction commands generalizing session with
  | nil => exact .done ⟨[], rfl, rfl, rfl⟩
  | cons command rest ih =>
      have hrest := fun session => ih session
        (fun other hother => hkept other (List.mem_cons_of_mem _ hother))
        (fun other hother => hdropped other (List.mem_cons_of_mem _ hother))
      cases hcommand : kept command with
      | true =>
          rw [List.filter_cons_of_pos hcommand]
          refine (Command.confined_run session command).pares_bind ?_
            (hkept command List.mem_cons_self hcommand) ?_
          · rintro aided fault ⟨_, reply, hreply⟩
            cases hreply
          · rintro _ ⟨outcome, session⟩ ⟨rfl, _⟩
            exact (hrest session).map (fun _ _ hagrees => hagrees.cons hcommand outcome)
      | false =>
          rw [List.filter_cons_of_neg (by simp [hcommand])]
          obtain ⟨⟨tags, service, rfl⟩, hgood⟩ := hdropped command List.mem_cons_self hcommand
          refine (Command.confined_serve session tags service).pares_bind_left ?_ hgood ?_
          · rintro aided fault ⟨_, outcome, houtcome⟩
            cases houtcome
          · -- The session is as it was before.
            rintro _ ⟨outcome, after⟩ ⟨rfl, _, hafter⟩
            obtain ⟨_, rfl⟩ := Prod.mk.inj (Except.ok.inj hafter)
            exact (hrest after).map_left (fun _ _ hagrees => hagrees.cons_left hcommand outcome)

end Session

end RankExchange
