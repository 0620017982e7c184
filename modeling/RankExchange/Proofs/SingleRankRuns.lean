import RankExchange.Proofs.Progress

/-!
# One rank at work

Where the others have nothing to do, a world takes the steps of one rank.  What
these keep holds of all that can be reached, and what that rank comes to is a
matter of its own program and of the group.
-/

namespace RankExchange

namespace Actor

variable {α : Type} {actor actor' : Actor α} {group group' : Group} {rank : Nat}

def turn (actor : Actor α) (group : Group) (rank : Nat) : Thread → Option (Group × Actor α)
  | .main channel => actor.advance group rank channel
  | .helper => actor.help group rank

theorem turn_idle (thread : Thread) : (idle : Actor α).turn group rank thread = none := by
  cases thread <;> rfl

theorem turn_helper (h : actor.posts = []) : actor.turn group rank .helper = none := by
  unfold turn help
  rw [h]

theorem program_of_result {result : Except Fault α} (h : actor.result? = some result) :
    actor.program = .done result := by
  unfold result? at h
  split at h
  · next hprogram =>
      cases h
      exact hprogram
  · cases h

theorem advance_of_result {channel : Channel} {result : Except Fault α}
    (h : actor.result? = some result) : actor.advance group rank channel = none := by
  unfold advance
  rw [program_of_result h]

theorem result?_of_advance {channel : Channel} {after : Group × Actor α}
    (h : actor.advance group rank channel = some after) : actor.result? = none := by
  cases hresult : actor.result? with
  | none => rfl
  | some result => cases (advance_of_result hresult).symm.trans h

theorem program_of_help (h : actor.help group rank = some (group', actor')) :
    actor'.program = actor.program := by
  unfold help at h
  split at h
  · cases h
  · split at h <;> split at h <;> cases h <;> rfl

end Actor

namespace World

variable {α : Type} {world next last : World α} {rank : Nat}

/-- Some run leads to this result of a rank, with the group as given. -/
def Concludes (world : World α) (rank : Nat) (result : Except Fault α) (after : Group) : Prop :=
  ∃ last, world.Reaches last ∧ last.result? rank = some result ∧ last.group = after

theorem step_of_turn (world : World α) (move : Move) {actor actor' : Actor α} {group' : Group}
    (hactor : world.actors[move.rank]? = some actor)
    (h : actor.turn world.group move.rank move.thread = some (group', actor')) :
    world.step move = some ⟨group', world.actors.set move.rank actor'⟩ := by
  obtain ⟨rank, thread⟩ := move
  unfold step
  cases thread with
  | main channel =>
      have hadvance : actor.advance world.group rank channel = some (group', actor') := h
      simp only [hactor, hadvance, Option.map_some]
  | helper =>
      have hhelp : actor.help world.group rank = some (group', actor') := h
      simp only [hactor, hhelp, Option.map_some]

theorem isDone_of_step {move : Move} (hdone : world.isDone = true)
    (h : world.step move = some next) : next.isDone = true := by
  obtain ⟨actor, group, actor', hactor, rfl, hthread⟩ := step_eq_some h
  have hall := List.all_eq_true.1 hdone
  have hresult := hall actor (List.mem_of_getElem? hactor)
  obtain ⟨result, hresult⟩ := Option.isSome_iff_exists.1 hresult
  have hprogram : actor'.program = actor.program := by
    rcases hthread with ⟨channel, _, hadvance⟩ | ⟨_, hhelp⟩
    · rw [Actor.advance_of_result hresult] at hadvance
      cases hadvance
    · exact Actor.program_of_help hhelp
  refine List.all_eq_true.2 (fun other hother => ?_)
  rcases List.mem_or_eq_of_mem_set hother with hother | rfl
  · exact hall other hother
  · unfold Actor.result? at hresult ⊢
    rw [hprogram, hresult]
    rfl

theorem Finishes.of_reaches (h : world.Finishes) (hreaches : world.Reaches last) :
    last.Finishes := by
  induction hreaches with
  | refl => exact h
  | step move hstep _ ih =>
      apply ih
      cases h with
      | done hdone => exact .done (isDone_of_step hdone hstep)
      | later _ hnext => exact hnext move _ hstep

/-- A world finishes if nothing that it can reach is stuck. -/
theorem finishes_of_reaches (h : ∀ last, world.Reaches last → last.isDone = true ∨ last.Moves) :
    world.Finishes :=
  finishes_of_invariant h
    (fun _ move _ hreaches hstep => hreaches.trans (.step move hstep (.refl _))) (.refl world)

/-- Whether a world finishes within so many steps, whoever takes them. -/
def finishesWithin : Nat → World α → Bool
  | 0, world => world.isDone
  | steps + 1, world =>
      world.isDone || world.firstStep.isSome &&
        ((List.range world.actors.length).flatMap movesOf).all (fun move =>
          (world.step move).all (finishesWithin steps))

theorem mem_movesOf (move : Move) : move ∈ movesOf move.rank := by
  obtain ⟨rank, thread⟩ := move
  rcases thread with ⟨_ | _⟩ | _ <;> simp [movesOf]

theorem finishes_of_finishesWithin (steps : Nat) (h : world.finishesWithin steps = true) :
    world.Finishes := by
  induction steps generalizing world with
  | zero => exact .done h
  | succ steps ih =>
      rcases Bool.or_eq_true_iff.1 h with hdone | hsteps
      · exact .done hdone
      · obtain ⟨hfirst, hall⟩ := Bool.and_eq_true_iff.1 hsteps
        obtain ⟨first, hfirst⟩ := Option.isSome_iff_exists.1 hfirst
        obtain ⟨move, hmove⟩ := exists_step_of_firstStep hfirst
        refine .later ⟨move, first, hmove⟩ (fun move next hstep => ih ?_)
        obtain ⟨_, _, _, hactor, _⟩ := step_eq_some hstep
        have hmem : move ∈ (List.range world.actors.length).flatMap movesOf :=
          List.mem_flatMap.2 ⟨move.rank, List.mem_range.2 (List.getElem?_eq_some_iff.1 hactor).1,
            mem_movesOf move⟩
        have hnext := List.all_eq_true.1 hall move hmem
        rw [hstep] at hnext
        exact hnext

/-- The second world is what the first one inevitably comes to. -/
structure LeadsTo (first second : World α) (rank : Nat) : Prop where
  concludes : ∀ result after,
    first.Concludes rank result after ↔ second.Concludes rank result after
  finishes : second.Finishes → first.Finishes

theorem LeadsTo.refl (world : World α) (rank : Nat) : world.LeadsTo world rank :=
  ⟨fun _ _ => Iff.rfl, id⟩

theorem LeadsTo.trans (h : world.LeadsTo next rank) (h' : next.LeadsTo last rank) :
    world.LeadsTo last rank :=
  ⟨fun result after => (h.concludes result after).trans (h'.concludes result after),
    fun hfinishes => h.finishes (h'.finishes hfinishes)⟩

/-- A world of so many ranks in which one is at work. -/
def solo (size : Nat) (group : Group) (rank : Nat) (actor : Actor α) : World α :=
  ⟨group, (List.replicate size .idle).set rank actor⟩

theorem assign_singleton (group : Group) (rank : Nat) (program : Program α) :
    assign group [(rank, program)] = solo group.size group rank { program } := by
  unfold assign solo
  congr 1
  refine List.ext_getElem? (fun other => ?_)
  by_cases hother : other < group.size
  · by_cases heq : rank = other
    · subst heq
      simp [hother]
    · have hne : (other == rank) = false := by simpa using Ne.symm heq
      simp [hother, heq, hne, List.lookup_cons]
  · have hle := Nat.le_of_not_lt hother
    rw [List.getElem?_eq_none (by simpa using hle), List.getElem?_eq_none (by simpa using hle)]

section Solo

variable {size : Nat} {group group' : Group} {actor actor' : Actor α} {thread : Thread}

theorem getElem?_solo (hrank : rank < size) :
    (solo size group rank actor).actors[rank]? = some actor := by
  simp [solo, hrank]

theorem idle_of_getElem?_solo {other : Nat} (hne : other ≠ rank)
    (h : (solo size group rank actor).actors[other]? = some actor') : actor' = .idle := by
  rw [solo, List.getElem?_set_ne (Ne.symm hne)] at h
  exact List.eq_of_mem_replicate (List.mem_of_getElem? h)

theorem solo_inj (hrank : rank < size)
    (h : solo size group rank actor = solo size group' rank actor') :
    group = group' ∧ actor = actor' := by
  have hactor : (solo size group rank actor).actors[rank]? = some actor := getElem?_solo hrank
  rw [h, getElem?_solo hrank] at hactor
  exact ⟨congrArg World.group h, (Option.some.inj hactor).symm⟩

theorem result?_solo (hrank : rank < size) :
    (solo size group rank actor).result? rank = actor.result? := by
  unfold result?
  rw [getElem?_solo hrank, Option.bind_some]

theorem isDone_solo (hrank : rank < size) :
    (solo size group rank actor).isDone = true ↔ actor.result?.isSome = true := by
  constructor
  · exact fun h => List.all_eq_true.1 h actor (List.mem_of_getElem? (getElem?_solo hrank))
  · intro h
    refine List.all_eq_true.2 (fun other hother => ?_)
    rcases List.mem_or_eq_of_mem_set hother with hother | rfl
    · rw [List.eq_of_mem_replicate hother]
      rfl
    · exact h

theorem step_solo (hrank : rank < size)
    (h : actor.turn group rank thread = some (group', actor')) :
    (solo size group rank actor).step ⟨rank, thread⟩ = some (solo size group' rank actor') := by
  have hstep := step_of_turn (solo size group rank actor) ⟨rank, thread⟩ (getElem?_solo hrank) h
  rw [hstep]
  exact congrArg (fun actors => some (World.mk group' actors)) (List.set_set _)

theorem exists_turn_of_step {move : Move} (hrank : rank < size)
    (h : (solo size group rank actor).step move = some next) :
    ∃ group' actor', actor.turn group rank move.thread = some (group', actor') ∧
      next = solo size group' rank actor' := by
  obtain ⟨worker, group', actor', hworker, rfl, hthread⟩ := step_eq_some h
  have hturn : worker.turn group move.rank move.thread = some (group', actor') := by
    rcases hthread with ⟨channel, hthread, hadvance⟩ | ⟨hthread, hhelp⟩
    · rw [hthread]
      exact hadvance
    · rw [hthread]
      exact hhelp
  by_cases hmove : move.rank = rank
  · rw [hmove, getElem?_solo hrank] at hworker
    cases hworker
    rw [hmove] at hturn
    refine ⟨group', actor', hturn, ?_⟩
    rw [hmove]
    exact congrArg (World.mk group') (List.set_set _)
  · rw [idle_of_getElem?_solo hmove hworker, Actor.turn_idle] at hturn
    cases hturn

theorem Reaches.turn (hrank : rank < size) (h : world.Reaches (solo size group rank actor))
    (hturn : actor.turn group rank thread = some (group', actor')) :
    world.Reaches (solo size group' rank actor') :=
  h.trans (.step _ (step_solo hrank hturn) (.refl _))

theorem moves_of_turn (hrank : rank < size) (h : (actor.turn group rank thread).isSome = true) :
    (solo size group rank actor).Moves := by
  obtain ⟨after, hturn⟩ := Option.isSome_iff_exists.1 h
  exact ⟨_, _, step_solo hrank hturn⟩

/-- What the rank at work keeps holds of every world that it can reach. -/
theorem exists_solo_of_reaches {p : Group → Actor α → Prop} (hrank : rank < size)
    (hturn : ∀ group actor thread group' actor', p group actor →
      actor.turn group rank thread = some (group', actor') → p group' actor')
    (hstart : p group actor) (h : (solo size group rank actor).Reaches last) :
    ∃ group' actor', last = solo size group' rank actor' ∧ p group' actor' := by
  generalize hfirst : solo size group rank actor = first at h
  induction h generalizing group actor with
  | refl => exact ⟨group, actor, hfirst.symm, hstart⟩
  | step move hstep _ ih =>
      subst hfirst
      obtain ⟨group', actor', hafter, rfl⟩ := exists_turn_of_step hrank hstep
      exact ih (hturn _ _ _ _ _ hstart hafter) rfl

/-- A step of the main thread is inevitable if no channel gives another one and no
helper is at work. -/
theorem leadsTo_of_advance (hrank : rank < size) (hposts : actor.posts = [])
    (h : ∀ channel, actor.advance group rank channel = some (group', actor')) :
    (solo size group rank actor).LeadsTo (solo size group' rank actor') rank := by
  have hstep : ∀ move next, (solo size group rank actor).step move = some next →
      next = solo size group' rank actor' := by
    intro move next hstep
    obtain ⟨_, _, hturn, rfl⟩ := exists_turn_of_step hrank hstep
    cases hthread : move.thread with
    | main channel =>
        rw [hthread] at hturn
        cases (h channel).symm.trans hturn
        rfl
    | helper =>
        rw [hthread, Actor.turn_helper hposts] at hturn
        cases hturn
  have hfirst : (solo size group rank actor).step ⟨rank, .main .remote⟩ =
      some (solo size group' rank actor') := step_solo hrank (h .remote)
  have hresult : actor.result? = none := Actor.result?_of_advance (h .remote)
  constructor
  · intro result after
    constructor
    · rintro ⟨last, hreaches, hlast, hafter⟩
      cases hreaches with
      | refl =>
          rw [result?_solo hrank, hresult] at hlast
          cases hlast
      | step move hmove hrest => exact ⟨last, hstep _ _ hmove ▸ hrest, hlast, hafter⟩
    · rintro ⟨last, hreaches, hlast, hafter⟩
      exact ⟨last, .step _ hfirst hreaches, hlast, hafter⟩
  · intro hfinishes
    exact .later ⟨_, _, hfirst⟩ (fun move next hmove => (hstep move next hmove).symm ▸ hfinishes)

end Solo

end World

end RankExchange
