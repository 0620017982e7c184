import Mathlib.Data.List.Induction
import RankExchange.Worker

/-!
# Moves of a worker

Jobs are submitted, the thread takes its steps, and completions are waited on, looked at
and given up, one thing at a time and in any order.  A completion is held until it is
given up or has given its answer, and a thread that has ended stays so.
-/

namespace RankExchange

variable {ε α : Type}

namespace Worker

/-- What can happen to a worker and to its completions, one thing at a time. -/
inductive Move (ε α : Type)
  | submit (job : Job ε α)
  | release (ticket : Nat)
  | work
  | wait (ticket : Nat)
  | tryWait (ticket : Nat)
  | forget (ticket : Nat)
  | close
  | join
  deriving DecidableEq, Repr

inductive Reply (ε α : Type)
  | quiet
  | reports (events : List WorkerEvent)
  | outcome (answer : Except Fault (Outcome ε α))
  | pending

/-- What a move gives and the worker it leaves, where it can be made.  A wait cannot while
the job is unfinished, and only completions that are held can be waited on or given up. -/
def perform (worker : Worker ε α) : Move ε α → Option (Reply ε α × Worker ε α)
  | .submit job =>
      if worker.accepting then
        some (.reports (worker.submit job).2, (worker.submit job).1)
      else none
  | .release ticket => some (.quiet, worker.release ticket)
  | .work => worker.step.map (Prod.mk .quiet)
  | .wait ticket =>
      if worker.isHeld ticket then (worker.collect? ticket).map (Prod.map .outcome id)
      else none
  | .tryWait ticket =>
      if worker.isHeld ticket then
        some (((worker.collect? ticket).map (Prod.map .outcome id)).getD (.pending, worker))
      else none
  | .forget ticket =>
      if worker.isHeld ticket then some (.quiet, worker.forget ticket) else none
  | .close => if worker.accepting then some (.quiet, worker.close) else none
  | .join =>
      if !worker.accepting && worker.hasEnded then some (.reports worker.ending, worker)
      else none

/-- The worker that some moves leave, one after the other. -/
def follow (worker : Worker ε α) (moves : List (Move ε α)) : Option (Worker ε α) :=
  moves.foldlM (fun worker move => (worker.perform move).map Prod.snd) worker

@[simp] theorem follow_nil (worker : Worker ε α) : worker.follow [] = some worker := rfl

theorem follow_cons_of_perform {worker next : Worker ε α} {move : Move ε α} {reply : Reply ε α}
    (h : worker.perform move = some (reply, next)) (moves : List (Move ε α)) :
    worker.follow (move :: moves) = next.follow moves := by
  simp [follow, h]

theorem follow_append_of_follow {worker next : Worker ε α} {moves : List (Move ε α)}
    (h : worker.follow moves = some next) (others : List (Move ε α)) :
    worker.follow (moves ++ others) = next.follow others := by
  unfold follow at h ⊢
  simp [h]

theorem follow_concat_eq_some_iff {first last : Worker ε α} {moves : List (Move ε α)}
    {move : Move ε α} :
    first.follow (moves ++ [move]) = some last ↔
      ∃ worker reply, first.follow moves = some worker ∧
        worker.perform move = some (reply, last) := by
  simp only [follow, List.foldlM_append, List.foldlM_cons, List.foldlM_nil, bind_pure]
  simp [Option.bind_eq_some_iff]

def Move.job? : Move ε α → Option (Job ε α)
  | .submit job => some job
  | _ => none

def Move.dropped? : Move ε α → Option Nat
  | .forget ticket => some ticket
  | _ => none

def jobs (moves : List (Move ε α)) : List (Job ε α) :=
  moves.filterMap Move.job?

def dropped (moves : List (Move ε α)) : List Nat :=
  moves.filterMap Move.dropped?

theorem mem_dropped {moves : List (Move ε α)} {ticket : Nat} :
    ticket ∈ dropped moves ↔ .forget ticket ∈ moves := by
  rw [dropped, List.mem_filterMap]
  constructor
  · rintro ⟨move, hmem, hdropped⟩
    cases move <;> simp_all [Move.dropped?]
  · intro hmem
    exact ⟨.forget ticket, hmem, rfl⟩

/-! ### Completions -/

theorem isHeld_iff {worker : Worker ε α} {ticket : Nat} :
    worker.isHeld ticket = true ↔
      ∃ completion, worker.completions[ticket]? = some completion ∧ completion.held = true := by
  simp [isHeld, Option.any_eq_true]

theorem getElem?_setSlot (completions : List (Completion ε α)) (ticket number : Nat)
    (slot : Slot ε α) :
    (setSlot completions ticket slot)[number]? =
      completions[number]?.map (fun completion =>
        if ticket = number then { completion with slot } else completion) := by
  simp [setSlot, List.getElem?_modify]

@[simp] theorem length_setSlot (completions : List (Completion ε α)) (ticket : Nat)
    (slot : Slot ε α) : (setSlot completions ticket slot).length = completions.length := by
  simp [setSlot]

def voidAll (completions : List (Completion ε α)) (entries : List (Nat × Job ε α)) :
    List (Completion ε α) :=
  entries.foldl (fun completions entry => setSlot completions entry.1 .void) completions

@[simp] theorem length_voidAll (completions : List (Completion ε α))
    (entries : List (Nat × Job ε α)) :
    (voidAll completions entries).length = completions.length := by
  induction entries generalizing completions with
  | nil => rfl
  | cons entry entries ih =>
      exact (ih _).trans (length_setSlot ..)

theorem getElem?_voidAll (completions : List (Completion ε α)) (entries : List (Nat × Job ε α))
    (number : Nat) :
    (voidAll completions entries)[number]? =
      completions[number]?.map (fun completion =>
        if number ∈ entries.map Prod.fst then { completion with slot := .void }
        else completion) := by
  induction entries generalizing completions with
  | nil => simp [voidAll]
  | cons entry entries ih =>
      have hrest : voidAll completions (entry :: entries) =
          voidAll (setSlot completions entry.1 .void) entries := rfl
      rw [hrest, ih, getElem?_setSlot, Option.map_map]
      congr 1
      funext completion
      by_cases hentry : entry.1 = number <;>
        by_cases hmem : number ∈ entries.map Prod.fst <;>
        simp_all [eq_comm]

def useUp (worker : Worker ε α) (ticket : Nat) : Worker ε α :=
  { worker with
    completions := worker.completions.modify ticket (fun _ => { slot := .void, held := false }) }

theorem eq_useUp_of_collect {worker : Worker ε α} {ticket : Nat}
    {answer : Except Fault (Outcome ε α)} {later : Worker ε α}
    (h : worker.collect? ticket = some (answer, later)) :
    worker.completions[ticket]?.map Completion.slot ≠ some .pending ∧
      later = worker.useUp ticket := by
  unfold collect? at h
  split at h
  · cases h
  · next hslot =>
      cases h
      exact ⟨by simp [hslot], rfl⟩
  · next hpending _ =>
      cases h
      exact ⟨hpending, rfl⟩

/-- All that a move can do. -/
inductive Makes (worker : Worker ε α) : Move ε α → Reply ε α → Worker ε α → Prop
  | submit (job : Job ε α) (haccepts : worker.accepting = true) :
      Makes worker (.submit job) (.reports (worker.submit job).2) (worker.submit job).1
  | release (ticket : Nat) : Makes worker (.release ticket) .quiet (worker.release ticket)
  | work {later : Worker ε α} (hstep : worker.step = some later) :
      Makes worker .work .quiet later
  | answer {move : Move ε α} {ticket : Nat} {answer : Except Fault (Outcome ε α)}
      (hasks : move = .wait ticket ∨ move = .tryWait ticket)
      (hslot : worker.completions[ticket]?.map Completion.slot ≠ some .pending) :
      Makes worker move (.outcome answer) (worker.useUp ticket)
  | handBack (ticket : Nat) : Makes worker (.tryWait ticket) .pending worker
  | forget (ticket : Nat) : Makes worker (.forget ticket) .quiet (worker.forget ticket)
  | close (haccepts : worker.accepting = true) : Makes worker .close .quiet worker.close
  | join (hclosed : worker.accepting = false) (hended : worker.hasEnded = true) :
      Makes worker .join (.reports worker.ending) worker

theorem makes_of_perform {worker later : Worker ε α} {move : Move ε α} {reply : Reply ε α}
    (h : worker.perform move = some (reply, later)) : worker.Makes move reply later := by
  cases move with
  | submit job =>
      simp only [perform, Option.ite_none_right_eq_some] at h
      obtain ⟨haccepts, hsame⟩ := h
      cases hsame
      exact .submit job haccepts
  | release ticket =>
      cases h
      exact .release ticket
  | work =>
      simp only [perform, Option.map_eq_some_iff] at h
      obtain ⟨next, hstep, hsame⟩ := h
      cases hsame
      exact .work hstep
  | wait ticket =>
      simp only [perform, Option.ite_none_right_eq_some, Option.map_eq_some_iff] at h
      obtain ⟨-, ⟨answer, next⟩, hcollect, hsame⟩ := h
      cases hsame
      obtain ⟨hslot, rfl⟩ := eq_useUp_of_collect hcollect
      exact .answer (.inl rfl) hslot
  | tryWait ticket =>
      simp only [perform, Option.ite_none_right_eq_some, Option.some.injEq] at h
      obtain ⟨-, hsame⟩ := h
      cases hcollect : worker.collect? ticket with
      | none =>
          rw [hcollect] at hsame
          cases hsame
          exact .handBack ticket
      | some found =>
          rw [hcollect] at hsame
          cases hsame
          obtain ⟨hslot, hnext⟩ := eq_useUp_of_collect hcollect
          rw [id, hnext]
          exact .answer (.inr rfl) hslot
  | forget ticket =>
      simp only [perform, Option.ite_none_right_eq_some] at h
      obtain ⟨-, hsame⟩ := h
      cases hsame
      exact .forget ticket
  | close =>
      simp only [perform, Option.ite_none_right_eq_some] at h
      obtain ⟨haccepts, hsame⟩ := h
      cases hsame
      exact .close haccepts
  | join =>
      simp only [perform, Option.ite_none_right_eq_some, Bool.and_eq_true,
        Bool.not_eq_true'] at h
      obtain ⟨⟨hclosed, hended⟩, hsame⟩ := h
      cases hsame
      exact .join hclosed hended

/-! ### The jobs before the thread -/

def Stage.entries : Stage ε α → List (Nat × Job ε α)
  | .idle => []
  | .taken ticket job => [(ticket, job)]
  | .finished ticket job => [(ticket, job)]

/-- The job at hand and those behind it. -/
def agenda (worker : Worker ε α) : List (Nat × Job ε α) :=
  worker.stage.entries ++ worker.queue

theorem tickets_agenda_ungate (worker : Worker ε α) (opens : Nat → Bool) :
    (worker.ungate opens).agenda.map Prod.fst = worker.agenda.map Prod.fst := by
  have hstage : (worker.stage.ungate opens).entries.map Prod.fst =
      worker.stage.entries.map Prod.fst := by
    cases worker.stage with
    | idle => rfl
    | taken ticket job =>
        simp only [Stage.ungate]
        split <;> rfl
    | finished ticket job => rfl
  simp [agenda, ungate, hstage, Function.comp_def]

/-! ### From one move to the next -/

section Steps

variable {worker later : Worker ε α}

theorem isHeld_of_held_eq {worker later : Worker ε α} {ticket : Nat}
    (h : later.completions[ticket]?.map Completion.held =
      worker.completions[ticket]?.map Completion.held) :
    later.isHeld ticket = worker.isHeld ticket := by
  have hany : ∀ completion : Option (Completion ε α),
      completion.any Completion.held = (completion.map Completion.held).any id := by
    intro completion
    cases completion <;> rfl
  rw [isHeld, isHeld, hany, hany, h]

theorem isHeld_handOver (worker : Worker ε α) (finished : Nat) (job : Job ε α) (ticket : Nat) :
    (worker.handOver finished job).isHeld ticket = worker.isHeld ticket := by
  refine isHeld_of_held_eq ?_
  unfold handOver
  split
  · rw [getElem?_setSlot, Option.map_map]
    congr 1
    funext completion
    simp only [Function.comp_apply]
    split <;> rfl
  · split
    · change (voidAll worker.completions worker.queue)[ticket]?.map _ = _
      rw [getElem?_voidAll, Option.map_map]
      congr 1
      funext completion
      simp only [Function.comp_apply]
      split <;> rfl
    · rfl

theorem isHeld_of_step (h : worker.step = some later) (ticket : Nat) :
    later.isHeld ticket = worker.isHeld ticket := by
  cases advances_of_step h with
  | take halive hidle hqueue => rfl
  | run halive htaken hopen => rfl
  | handOver halive hfinished => exact isHeld_handOver ..

theorem completions_submit (worker : Worker ε α) (job : Job ε α) :
    ∃ slot, (worker.submit job).1.completions =
      worker.completions ++ [({ slot := slot } : Completion ε α)] := by
  unfold submit
  split
  · exact ⟨.pending, rfl⟩
  · exact ⟨.void, rfl⟩

theorem isHeld_submit (worker : Worker ε α) (job : Job ε α) :
    (worker.submit job).1.isHeld worker.completions.length = true := by
  obtain ⟨slot, hcompletions⟩ := completions_submit worker job
  simp [isHeld, hcompletions]

theorem isHeld_submit_of_isHeld {ticket : Nat} (h : worker.isHeld ticket = true) (job : Job ε α) :
    (worker.submit job).1.isHeld ticket = true := by
  obtain ⟨slot, hcompletions⟩ := completions_submit worker job
  obtain ⟨completion, hget, hheld⟩ := isHeld_iff.1 h
  refine isHeld_iff.2 ⟨completion, ?_, hheld⟩
  rw [hcompletions, List.getElem?_append_left (List.getElem?_eq_some_iff.1 hget).1]
  exact hget

theorem isHeld_of_ne {ticket number : Nat} {change : Completion ε α → Completion ε α}
    (hne : ticket ≠ number) (h : worker.isHeld number = true) :
    isHeld { worker with completions := worker.completions.modify ticket change } number =
      true := by
  rw [← h]
  refine isHeld_of_held_eq ?_
  simp [hne]

theorem isHeld_of_perform {move : Move ε α} {reply : Reply ε α}
    (hmove : worker.perform move = some (reply, later)) {ticket : Nat}
    (hheld : worker.isHeld ticket = true) :
    later.isHeld ticket = true ∨ move = .forget ticket ∨
      ((move = .wait ticket ∨ move = .tryWait ticket) ∧ ∃ answer, reply = .outcome answer) := by
  cases makes_of_perform hmove with
  | submit job haccepts => exact .inl (isHeld_submit_of_isHeld hheld job)
  | release number => exact .inl hheld
  | work hstep => exact .inl ((isHeld_of_step hstep ticket).trans hheld)
  | @answer _ number answer hasks hslot =>
      by_cases heq : number = ticket
      · exact .inr (.inr ⟨heq ▸ hasks, answer, rfl⟩)
      · exact .inl (isHeld_of_ne heq hheld)
  | handBack number => exact .inl hheld
  | forget number =>
      by_cases heq : number = ticket
      · exact .inr (.inl (heq ▸ rfl))
      · exact .inl (isHeld_of_ne heq hheld)
  | close haccepts => exact .inl hheld
  | join hclosed hended => exact .inl hheld

/-- A thread that has ended after the worker was closed has nothing before it any more. -/
def Rests (worker : Worker ε α) : Prop :=
  worker.accepting = false ∧ (worker.alive = false ∨ worker.agenda = [])

theorem rests_iff : worker.Rests ↔ worker.accepting = false ∧ worker.hasEnded = true := by
  unfold Rests hasEnded agenda
  cases worker.accepting <;> cases worker.alive <;> cases worker.stage <;>
    simp [Stage.entries]

theorem step_of_rests (h : worker.Rests) : worker.step = none := by
  obtain ⟨-, hdead | hnil⟩ := h
  · simp [step, hdead]
  · obtain ⟨hentries, hqueue⟩ := List.append_eq_nil_iff.1 hnil
    cases hstage : worker.stage with
    | idle => simp [step, hstage, hqueue]
    | taken ticket job => simp [hstage, Stage.entries] at hentries
    | finished ticket job => simp [hstage, Stage.entries] at hentries

theorem rests_of_perform {move : Move ε α} {reply : Reply ε α}
    (hmove : worker.perform move = some (reply, later)) (h : worker.Rests) : later.Rests := by
  cases makes_of_perform hmove with
  | submit job haccepts => cases h.1.symm.trans haccepts
  | release ticket =>
      refine ⟨h.1, h.2.imp id ?_⟩
      intro hnil
      have htickets := tickets_agenda_ungate worker (fun number => number = ticket)
      rw [hnil] at htickets
      exact List.map_eq_nil_iff.1 htickets
  | work hstep => cases (step_of_rests h).symm.trans hstep
  | answer hasks hslot => exact h
  | handBack ticket => exact h
  | forget ticket => exact h
  | close haccepts => cases h.1.symm.trans haccepts
  | join hclosed hended => exact h

end Steps

theorem rests_of_follow {moves : List (Move ε α)} {first worker : Worker ε α}
    (h : first.follow moves = some worker) (hjoin : .join ∈ moves) : worker.Rests := by
  induction moves using List.reverseRecOn generalizing worker with
  | nil => cases hjoin
  | append_singleton moves move ih =>
      obtain ⟨before, reply, hbefore, hmove⟩ := follow_concat_eq_some_iff.1 h
      rcases List.mem_append.1 hjoin with hearlier | hlast
      · exact rests_of_perform hmove (ih hbefore hearlier)
      · cases List.mem_singleton.1 hlast
        cases makes_of_perform hmove with
        | answer hasks hslot => simp at hasks
        | join hclosed hended => exact rests_iff.2 ⟨hclosed, hended⟩

/-! ### Dropping a worker -/

section Drop

variable {worker later : Worker ε α}

theorem Stage.ungate_ungate (stage : Stage ε α) (opens others : Nat → Bool) :
    (stage.ungate opens).ungate others =
      stage.ungate (fun ticket => opens ticket || others ticket) := by
  cases stage with
  | idle => rfl
  | taken ticket job =>
      cases hopens : opens ticket <;> cases hothers : others ticket <;>
        simp [Stage.ungate, hopens, hothers, Job.ungate]
  | finished ticket job => rfl

theorem ungate_ungate (worker : Worker ε α) (opens others : Nat → Bool) :
    (worker.ungate opens).ungate others =
      worker.ungate (fun ticket => opens ticket || others ticket) := by
  have hentry : ∀ entry : Nat × Job ε α,
      (if others entry.1 then
        (if opens entry.1 then entry.2.ungate else entry.2).ungate
      else if opens entry.1 then entry.2.ungate else entry.2) =
        if opens entry.1 || others entry.1 then entry.2.ungate else entry.2 := by
    intro entry
    cases opens entry.1 <;> cases others entry.1 <;> rfl
  simp [ungate, Stage.ungate_ungate, hentry, Function.comp_def]

theorem ungate_congr {opens others : Nat → Bool}
    (h : ∀ ticket ∈ worker.agenda.map Prod.fst, opens ticket = others ticket) :
    worker.ungate opens = worker.ungate others := by
  have hstage : worker.stage.ungate opens = worker.stage.ungate others := by
    cases hcase : worker.stage with
    | idle => rfl
    | taken ticket job =>
        simp [Stage.ungate, h ticket (by simp [agenda, hcase, Stage.entries])]
    | finished ticket job => rfl
  have hqueue : worker.queue.map (fun entry =>
      (entry.1, if opens entry.1 then entry.2.ungate else entry.2)) =
        worker.queue.map (fun entry =>
          (entry.1, if others entry.1 then entry.2.ungate else entry.2)) := by
    refine List.map_congr_left ?_
    intro entry hmem
    rw [h entry.1 (List.mem_map_of_mem (List.mem_append_right _ hmem))]
  rw [ungate, ungate, hstage, hqueue]

theorem follow_release (worker : Worker ε α) (tickets : List Nat) (opens : Nat → Bool) :
    (worker.ungate opens).follow (tickets.map .release) =
      some (worker.ungate (fun ticket => opens ticket || tickets.contains ticket)) := by
  induction tickets generalizing opens with
  | nil => simp
  | cons ticket tickets ih =>
      have hnext : (worker.ungate opens).release ticket =
          worker.ungate (fun number => opens number || decide (number = ticket)) :=
        ungate_ungate worker opens _
      rw [List.map_cons, follow_cons_of_perform rfl, hnext, ih]
      simp [Bool.or_assoc]

@[simp] theorem ungate_none (worker : Worker ε α) : worker.ungate (fun _ => false) = worker := by
  obtain ⟨queue, stage, completions, ran, alive, accepting⟩ := worker
  cases stage <;> simp [ungate, Stage.ungate]

theorem exists_follow_releaseAll (worker : Worker ε α) :
    ∃ moves, worker.follow moves = some worker.releaseAll := by
  refine ⟨(worker.agenda.map Prod.fst).map .release, ?_⟩
  have hrelease := follow_release worker (worker.agenda.map Prod.fst) (fun _ => false)
  rw [ungate_none] at hrelease
  rw [hrelease, releaseAll]
  refine congrArg some (ungate_congr ?_)
  intro ticket hmem
  simpa using hmem

theorem settle_of_step_eq_none (h : worker.step = none) : worker.settle = worker := by
  rw [settle, h]

theorem settle_of_step_eq_some (h : worker.step = some later) :
    worker.settle = later.settle := by
  rw [settle, h]

/-- What every step keeps holds when the thread can take none any more. -/
theorem settle_induction {P : Worker ε α → Prop}
    (hkeeps : ∀ before later, P before → before.step = some later → P later) (h : P worker) :
    P worker.settle ∧ worker.settle.step = none := by
  induction worker using settle.induct with
  | case1 worker hnone =>
      rw [settle_of_step_eq_none hnone]
      exact ⟨h, hnone⟩
  | case2 worker next hstep ih =>
      rw [settle_of_step_eq_some hstep]
      exact ih (hkeeps worker next h hstep)

theorem exists_follow_settle (worker : Worker ε α) :
    ∃ moves, worker.follow moves = some worker.settle := by
  refine (settle_induction (P := fun later => ∃ moves, worker.follow moves = some later) ?_
    ⟨[], rfl⟩).1
  rintro before later ⟨moves, hmoves⟩ hstep
  refine ⟨moves ++ [.work], follow_concat_eq_some_iff.2 ⟨before, .quiet, hmoves, ?_⟩⟩
  simp [perform, hstep]

/-- The worker takes no more jobs, and no closed gate is in the way of its thread. -/
structure ShuttingDown (worker : Worker ε α) : Prop where
  closed : worker.accepting = false
  queue : ∀ entry ∈ worker.queue, entry.2.gated = false
  stage : ∀ ticket job, worker.stage = .taken ticket job → job.gated = false

theorem shuttingDown_releaseAll (h : worker.accepting = false) :
    worker.releaseAll.ShuttingDown where
  closed := h
  queue := by
    intro entry hmem
    obtain ⟨before, -, rfl⟩ := List.mem_map.1 hmem
    rfl
  stage := by
    intro ticket job hstage
    cases hcase : worker.stage with
    | idle => simp [releaseAll, ungate, Stage.ungate, hcase] at hstage
    | taken other before =>
        simp only [releaseAll, ungate, Stage.ungate, hcase, if_true, Stage.taken.injEq] at hstage
        exact hstage.2 ▸ rfl
    | finished other before => simp [releaseAll, ungate, Stage.ungate, hcase] at hstage

theorem handOver_clears (worker : Worker ε α) (ticket : Nat) (job : Job ε α) :
    (worker.handOver ticket job).accepting = worker.accepting ∧
      (worker.handOver ticket job).stage = .idle ∧
      (worker.handOver ticket job).queue ⊆ worker.queue := by
  unfold handOver
  split
  · exact ⟨rfl, rfl, List.Subset.refl _⟩
  · split
    · exact ⟨rfl, rfl, List.nil_subset _⟩
    · exact ⟨rfl, rfl, List.Subset.refl _⟩

theorem shuttingDown_of_step (h : worker.ShuttingDown) (hstep : worker.step = some later) :
    later.ShuttingDown := by
  cases advances_of_step hstep with
  | take halive hidle hqueue =>
      refine ⟨h.closed, ?_, ?_⟩
      · intro entry hmem
        exact h.queue entry (hqueue ▸ List.mem_cons_of_mem _ hmem)
      · rintro ticket job ⟨⟩
        exact h.queue _ (hqueue ▸ List.mem_cons_self)
  | run halive htaken hopen =>
      exact ⟨h.closed, h.queue, fun ticket job hstage => by cases hstage⟩
  | @handOver ticket job halive hfinished =>
      obtain ⟨hclosed, hstage, hsubset⟩ := handOver_clears worker ticket job
      refine ⟨hclosed.trans h.closed, fun entry hmem => h.queue entry (hsubset hmem), ?_⟩
      intro other before htaken
      cases hstage.symm.trans htaken

theorem hasEnded_of_shuttingDown (h : worker.ShuttingDown) (hnone : worker.step = none) :
    worker.hasEnded = true := by
  refine (rests_iff.1 ⟨h.closed, ?_⟩).2
  cases halive : worker.alive with
  | false => exact .inl rfl
  | true =>
      right
      cases hstage : worker.stage with
      | idle =>
          cases hqueue : worker.queue with
          | nil => simp [agenda, hstage, hqueue, Stage.entries]
          | cons entry queue => simp [step, halive, hstage, hqueue] at hnone
      | taken ticket job => simp [step, halive, hstage, h.stage ticket job hstage] at hnone
      | finished ticket job => simp [step, halive, hstage] at hnone

/-- Dropping a worker comes to an end once all gates are open. -/
theorem exists_follow_shutDown (h : worker.accepting = true) :
    ∃ moves, .join ∈ moves ∧ worker.follow moves = some worker.shutDown.1 := by
  obtain ⟨releases, hreleases⟩ := exists_follow_releaseAll worker.close
  obtain ⟨steps, hsteps⟩ := exists_follow_settle worker.close.releaseAll
  have hclosed : worker.close.accepting = false := rfl
  obtain ⟨hshutting, hnone⟩ := settle_induction (fun _ _ => shuttingDown_of_step)
    (shuttingDown_releaseAll hclosed)
  have hlast : worker.shutDown.1 = worker.close.releaseAll.settle := by
    simp [shutDown, h]
  have hclose : worker.perform .close = some (.quiet, worker.close) := by
    simp [perform, h]
  have hended := hasEnded_of_shuttingDown hshutting hnone
  have hjoin : worker.shutDown.1.perform .join =
      some (.reports worker.shutDown.1.ending, worker.shutDown.1) := by
    simp [perform, hlast, hshutting.closed, hended]
  refine ⟨.close :: (releases ++ (steps ++ [.join])), by simp, ?_⟩
  rw [follow_cons_of_perform hclose, follow_append_of_follow hreleases,
    follow_append_of_follow hsteps, ← hlast, follow_cons_of_perform hjoin, follow_nil]

end Drop

end Worker

end RankExchange
