import RankExchange.World.Basic

/-!
# Schedules

Every step brings a world closer to an end: a program is a step further, or
else a thread that was ready waits, or else a message has been parked.  So no
schedule goes on for ever.  The one that runs here gives every rank in turn all
the steps that it can take, and goes round until no thread can move.
-/

namespace RankExchange

section Order

variable {α β : Type}

/-- Lists of one length that differ in one place, where the first is smaller. -/
inductive SmallerAt (r : α → α → Prop) : List α → List α → Prop
  | head {a b : α} (rest : List α) (h : r a b) : SmallerAt r (a :: rest) (b :: rest)
  | tail (a : α) {l m : List α} (h : SmallerAt r l m) : SmallerAt r (a :: l) (a :: m)

theorem SmallerAt.acc_cons {r : α → α → Prop} {a : α} (ha : Acc r a) {l : List α}
    (hl : Acc (SmallerAt r) l) : Acc (SmallerAt r) (a :: l) := by
  induction ha generalizing l with
  | intro a _ iha =>
      induction hl with
      | intro l hl ihl =>
          constructor
          intro m hm
          cases hm with
          | head _ h => exact iha _ h ⟨l, hl⟩
          | tail _ h => exact ihl _ h

theorem SmallerAt.wf {r : α → α → Prop} (hr : WellFounded r) : WellFounded (SmallerAt r) := by
  constructor
  intro l
  induction l with
  | nil =>
      constructor
      intro m hm
      cases hm
  | cons a l ih => exact acc_cons (hr.apply a) ih

theorem SmallerAt.set {r : α → α → Prop} {l : List α} {i : Nat} {a b : α}
    (hi : l[i]? = some b) (h : r a b) : SmallerAt r (l.set i a) l := by
  induction l generalizing i with
  | nil => simp at hi
  | cons first rest ih =>
      cases i with
      | zero =>
          simp only [List.getElem?_cons_zero, Option.some.injEq] at hi
          subst hi
          exact .head rest h
      | succ i =>
          simp only [List.getElem?_cons_succ] at hi
          exact .tail first (ih hi)

theorem set_eq_self {l : List α} {i : Nat} {a : α} (hi : l[i]? = some a) : l.set i a = l := by
  obtain ⟨_, rfl⟩ := List.getElem?_eq_some_iff.1 hi
  simp

def total (f : α → Nat) : List α → Nat
  | [] => 0
  | a :: l => f a + total f l

theorem total_set {f : α → Nat} {l : List α} {i : Nat} {a b : α} (hi : l[i]? = some b) :
    total f (l.set i a) + f b = total f l + f a := by
  induction l generalizing i with
  | nil => simp at hi
  | cons first rest ih =>
      cases i with
      | zero =>
          simp only [List.getElem?_cons_zero, Option.some.injEq] at hi
          subst hi
          simp only [List.set_cons_zero, total]
          omega
      | succ i =>
          simp only [List.getElem?_cons_succ] at hi
          have := ih hi
          simp only [List.set_cons_succ, total]
          omega

end Order

namespace Program

variable {α : Type}

/-- What an action leaves of a program. -/
inductive After : Program α → Program α → Prop
  | next (action : Action) (next : action.Answer → Program α) (answer : action.Answer) :
      After (next answer) (.act action next)

theorem After.wf : WellFounded (After (α := α)) := by
  constructor
  intro program
  induction program with
  | done result =>
      constructor
      intro program h
      cases h
  | act action next ih =>
      constructor
      intro program h
      cases h
      exact ih _

end Program

namespace Actor

variable {α : Type}

/-- The steps that a rank's threads can take before its program goes on. -/
def tokens (actor : Actor α) : Nat :=
  (if actor.pause = .none then 1 else 0) + 2 * actor.posts.length +
    if actor.ticket = none then 1 else 0

end Actor

namespace World

variable {α : Type}

def backlog (group : Group) : Nat :=
  total (fun member => member.inbox.backlog) group.members

/-- A rank after a step is closer to its end than before. -/
inductive Closer (group group' : Group) (actor actor' : Actor α) : Prop
  | program (h : Program.After actor'.program actor.program)
  | tokens (hprogram : actor'.program = actor.program) (h : actor'.tokens < actor.tokens)
  | backlog (hprogram : actor'.program = actor.program) (htokens : actor'.tokens = actor.tokens)
      (h : backlog group' < backlog group)

def measure (world : World α) : List (Program α) × Nat × Nat :=
  (world.actors.map Actor.program, total Actor.tokens world.actors, backlog world.group)

/-- A world in which one rank is closer to its end than in the other. -/
def Nearer : World α → World α → Prop :=
  InvImage (Prod.Lex (SmallerAt Program.After) (Prod.Lex (· < ·) (· < ·))) measure

theorem Nearer.wf : WellFounded (Nearer (α := α)) :=
  InvImage.wf _
    (Prod.lex ⟨_, SmallerAt.wf Program.After.wf⟩ (Prod.lex Nat.lt_wfRel Nat.lt_wfRel)).wf

instance : WellFoundedRelation (World α) where
  rel := Relation.TransGen Nearer
  wf := Nearer.wf.transGen

theorem nearer_of_closer {world : World α} {rank : Nat} {group : Group} {actor actor' : Actor α}
    (hactor : world.actors[rank]? = some actor)
    (h : Closer world.group group actor actor') :
    Nearer (World.mk group (world.actors.set rank actor')) world := by
  have hprogram : (world.actors.map Actor.program)[rank]? = some actor.program := by
    simp [hactor]
  have hsum := total_set (f := Actor.tokens) (a := actor') hactor
  change Prod.Lex _ _ (measure _) (measure _)
  simp only [measure, List.map_set]
  cases h with
  | program h => exact .left _ _ (SmallerAt.set hprogram h)
  | tokens heq h =>
      rw [heq, set_eq_self hprogram]
      exact .right _ (.left _ _ (by omega))
  | backlog heq htokens h =>
      rw [heq, set_eq_self hprogram]
      have hsame : total Actor.tokens (world.actors.set rank actor') =
          total Actor.tokens world.actors := by omega
      rw [hsame]
      exact .right _ (.right _ h)

theorem backlog_putInbox {group : Group} {rank : Nat} {member : Member} {inbox : Inbox}
    (hmember : group.members[rank]? = some member) (h : inbox.backlog < member.inbox.backlog) :
    backlog (group.putInbox rank inbox) < backlog group := by
  have hsum := total_set (f := fun member : Member => member.inbox.backlog)
    (a := { member with inbox }) hmember
  rw [Group.putInbox, Group.modify_of_getElem? hmember]
  simp only [backlog] at hsum ⊢
  omega

theorem backlog_search {group : Group} {rank : Nat} {wanted : Wanted} {own : Bool}
    {channel : Channel} {inbox : Inbox}
    (h : group.search rank wanted own channel = .moved inbox) :
    backlog (group.putInbox rank inbox) < backlog group := by
  unfold Group.search at h
  split at h
  · cases h
  · next hmember => exact backlog_putInbox hmember (Inbox.backlog_search h)

theorem Closer.goesOn {actor : Actor α} {group group' : Group} {action : Action}
    {next : action.Answer → Program α} (hprogram : actor.program = .act action next)
    (answer : action.Answer) {actor' : Actor α} (h : actor'.program = next answer) :
    Closer group group' actor actor' := by
  refine .program ?_
  rw [hprogram, h]
  exact .next action next answer

theorem Closer.waits {actor : Actor α} {group group' : Group} {pause : Pause}
    (hpause : actor.pause = .none) (hne : pause ≠ .none) :
    Closer group group' actor { actor with pause } := by
  refine .tokens rfl ?_
  simp [Actor.tokens, hpause, hne]

theorem Closer.parks {actor : Actor α} {group : Group} {rank : Nat} {wanted : Wanted}
    {own : Bool} {channel : Channel} {inbox : Inbox}
    (h : group.search rank wanted own channel = .moved inbox) :
    Closer group (group.putInbox rank inbox) actor actor :=
  .backlog rfl rfl (backlog_search h)

theorem closer_of_call {actor actor' : Actor α} {group group' : Group} {rank : Nat}
    {channel : Channel} {request : Request} {next : request.Answer → Program α}
    (hprogram : actor.program = .act (.call request) next)
    (h : actor.call group rank channel request next = some (group', actor')) :
    Closer group group' actor actor' := by
  cases request with
  | identify =>
      cases h
      exact .goesOn hprogram _ rfl
  | init required =>
      simp only [Actor.call] at h
      split at h
      · cases h
      · split at h <;> cases h <;> exact .goesOn hprogram _ rfl
  | finalize =>
      cases h
      exact .goesOn hprogram _ rfl
  | barrier =>
      simp only [Actor.call] at h
      split at h
      · cases h
      · split at h <;> cases h
        exact .goesOn hprogram _ rfl
      · next hpause =>
          split at h
          · cases h
            exact .goesOn hprogram _ rfl
          · split at h <;> cases h
            · exact .waits hpause (by simp)
            · exact .goesOn hprogram _ rfl
  | send dest tag payload =>
      simp only [Actor.call] at h
      split at h
      · cases h
      · obtain ⟨answer, _, hanswer⟩ := Option.map_eq_some_iff.1 h
        cases hanswer
        exact .goesOn hprogram _ rfl
      · next hpause =>
          split at h <;> cases h
          · exact .goesOn hprogram _ rfl
          · exact .goesOn hprogram _ rfl
          · exact .waits hpause (by simp)
  | probe tag =>
      simp only [Actor.call] at h
      split at h
      · cases h
        exact .goesOn hprogram _ rfl
      · split at h
        · cases h
          exact .goesOn hprogram _ rfl
        · next hsearch =>
            cases h
            exact .parks hsearch
        · cases h
          exact .goesOn hprogram _ rfl
        · cases h
  | receive source tag length =>
      simp only [Actor.call] at h
      split at h
      · cases h
        exact .goesOn hprogram _ rfl
      · split at h
        · cases h
          exact .goesOn hprogram _ rfl
        · next hsearch =>
            cases h
            exact .parks hsearch
        · cases h
          exact .goesOn hprogram _ rfl
        · cases h
  | leave =>
      cases h
      exact .goesOn hprogram _ rfl

theorem closer_of_advance {actor actor' : Actor α} {group group' : Group} {rank : Nat}
    {channel : Channel} (h : actor.advance group rank channel = some (group', actor')) :
    Closer group group' actor actor' := by
  unfold Actor.advance at h
  split at h
  · cases h
  · next hprogram => exact closer_of_call hprogram h
  · next hprogram =>
      cases h
      exact .goesOn hprogram () rfl
  · next hprogram =>
      cases h
      exact .goesOn hprogram _ rfl
  · next hprogram =>
      split at h <;> cases h
      exact .goesOn hprogram () rfl
  · next hprogram =>
      split at h <;> cases h
      exact .goesOn hprogram _ rfl

theorem closer_of_help {actor actor' : Actor α} {group group' : Group} {rank : Nat}
    (h : actor.help group rank = some (group', actor')) :
    Closer group group' actor actor' := by
  unfold Actor.help at h
  split at h
  · cases h
  · next hposts =>
      split at h
      · next hticket =>
          split at h <;> cases h
          all_goals
            refine .tokens rfl ?_
            simp [Actor.tokens, hposts, hticket]
          all_goals omega
      · next hticket =>
          split at h <;> cases h
          all_goals
            refine .tokens rfl ?_
            simp [Actor.tokens, hposts, hticket]
          all_goals omega

/-- No world can take steps for ever. -/
theorem nearer_of_step {world world' : World α} {move : Move}
    (h : world.step move = some world') : Nearer world' world := by
  unfold step at h
  split at h
  · cases h
  · next hactor =>
      obtain ⟨⟨group, actor⟩, hnext, heq⟩ := Option.map_eq_some_iff.1 h
      cases heq
      split at hnext
      · exact nearer_of_closer hactor (closer_of_advance hnext)
      · exact nearer_of_closer hactor (closer_of_help hnext)

theorem rel_of_reaches {first second last : World α} {move : Move}
    (h : first.step move = some second) (rest : Reaches second last) :
    WellFoundedRelation.rel last first := by
  induction rest generalizing first move with
  | refl => exact .single (nearer_of_step h)
  | step _ hstep _ ih => exact .tail (ih hstep) (nearer_of_step h)

/-- The moves of a rank; its helper comes after the thread that has started it. -/
def movesOf (rank : Nat) : List Move :=
  [⟨rank, .main .remote⟩, ⟨rank, .main .loopback⟩, ⟨rank, .helper⟩]

def stepOf (rank : Nat) (world : World α) : Option (World α) :=
  (movesOf rank).findSome? world.step

theorem exists_step_of_stepOf {world next : World α} {rank : Nat}
    (h : world.stepOf rank = some next) : ∃ move, world.step move = some next := by
  obtain ⟨move, _, hstep⟩ := List.exists_of_findSome?_eq_some h
  exact ⟨move, hstep⟩

/-- Lets a rank take all the steps that it can. -/
def exhaust (rank : Nat) (world : World α) : World α :=
  match _h : world.stepOf rank with
  | none => world
  | some next => next.exhaust rank
termination_by world
decreasing_by
  obtain ⟨_, hstep⟩ := exists_step_of_stepOf _h
  exact rel_of_reaches hstep (.refl _)

theorem reaches_exhaust (rank : Nat) (world : World α) : Reaches world (world.exhaust rank) := by
  fun_induction exhaust rank world with
  | case1 => exact .refl _
  | case2 _ _ h ih =>
      obtain ⟨move, hstep⟩ := exists_step_of_stepOf h
      exact .step move hstep ih

def sweep (world : World α) : World α :=
  (List.range world.actors.length).foldl (fun world rank => world.exhaust rank) world

theorem reaches_sweep (world : World α) : Reaches world world.sweep := by
  unfold sweep
  generalize List.range world.actors.length = ranks
  induction ranks generalizing world with
  | nil => exact .refl _
  | cons rank ranks ih => exact (reaches_exhaust rank world).trans (ih _)

def firstStep (world : World α) : Option (World α) :=
  (List.range world.actors.length).findSome? world.stepOf

theorem exists_step_of_firstStep {world next : World α} (h : world.firstStep = some next) :
    ∃ move, world.step move = some next := by
  obtain ⟨_, _, hstep⟩ := List.exists_of_findSome?_eq_some h
  exact exists_step_of_stepOf hstep

theorem firstStep_eq_none_iff {world : World α} :
    world.firstStep = none ↔ ∀ move, world.step move = none := by
  simp only [firstStep, stepOf, List.findSome?_eq_none_iff, List.mem_range]
  constructor
  · intro h move
    by_cases hrank : move.rank < world.actors.length
    · refine h move.rank hrank move ?_
      obtain ⟨rank, thread⟩ := move
      rcases thread with ⟨_ | _⟩ | _ <;> simp [movesOf]
    · simp [step, List.getElem?_eq_none (Nat.le_of_not_lt hrank)]
  · exact fun h _ _ move _ => h move

/-- Runs a world until no thread can move. -/
def run (world : World α) : World α :=
  match _h : world.firstStep with
  | none => world
  | some next => next.sweep.run
termination_by world
decreasing_by
  obtain ⟨_, hstep⟩ := exists_step_of_firstStep _h
  exact rel_of_reaches hstep (reaches_sweep next)

@[simp] theorem firstStep_run (world : World α) : world.run.firstStep = none := by
  fun_induction run world with
  | case1 _ h => exact h
  | case2 _ _ _ ih => exact ih

theorem reaches_run (world : World α) : Reaches world world.run := by
  fun_induction run world with
  | case1 => exact .refl _
  | case2 _ next h ih =>
      obtain ⟨move, hstep⟩ := exists_step_of_firstStep h
      exact .step move hstep ((reaches_sweep next).trans ih)

end World

end RankExchange
