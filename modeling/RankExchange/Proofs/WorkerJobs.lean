import RankExchange.Proofs.WorkerMoves

/-!
# What becomes of the jobs of a worker

Jobs run in the order of their tickets, and a completion that is held gets its own job's
outcome.  Only a job whose outcome cannot be thrown away and whose completion has been
given up can stop the thread.
-/

namespace RankExchange

namespace Worker

variable {ε α : Type}

/-- The tickets of jobs that have run and whose outcome is still with the thread. -/
def Stage.unleft : Stage ε α → List Nat
  | .finished ticket _ => [ticket]
  | _ => []

theorem agenda_of_taken {worker : Worker ε α} {ticket : Nat} {job : Job ε α}
    (htaken : worker.stage = .taken ticket job) :
    worker.agenda = (ticket, job) :: worker.queue := by
  simp [agenda, htaken, Stage.entries]

theorem agenda_of_finished {worker : Worker ε α} {ticket : Nat} {job : Job ε α}
    (hfinished : worker.stage = .finished ticket job) :
    worker.agenda = (ticket, job) :: worker.queue := by
  simp [agenda, hfinished, Stage.entries]

def HasFinished (worker : Worker ε α) (ticket : Nat) : Prop :=
  ticket ∈ worker.ran ∧ ticket ∉ worker.stage.unleft

theorem unleft_ungate (stage : Stage ε α) (opens : Nat → Bool) :
    (stage.ungate opens).unleft = stage.unleft := by
  cases stage with
  | idle => rfl
  | taken ticket job =>
      simp only [Stage.ungate]
      split <;> rfl
  | finished ticket job => rfl

/-- A job that is still to be done has the outcome of the one submitted under its ticket. -/
def Answers (jobs : List (Job ε α)) (entry : Nat × Job ε α) : Prop :=
  ∃ job, jobs[entry.1]? = some job ∧
    entry.2.outcome = job.outcome ∧ entry.2.fatal = job.fatal

theorem Answers.ungate {jobs : List (Job ε α)} {ticket : Nat} {job : Job ε α}
    (h : Answers jobs (ticket, job)) : Answers jobs (ticket, job.ungate) := h

theorem Answers.concat {jobs : List (Job ε α)} {entry : Nat × Job ε α} (h : Answers jobs entry)
    (job : Job ε α) : Answers (jobs ++ [job]) entry := by
  obtain ⟨submitted, hget, hsame⟩ := h
  exact ⟨submitted, by
    rw [List.getElem?_append_left (List.getElem?_eq_some_iff.1 hget).1]; exact hget, hsame⟩

theorem answers_of_mem_ungate {jobs : List (Job ε α)} {worker : Worker ε α} {opens : Nat → Bool}
    (h : ∀ entry ∈ worker.agenda, Answers jobs entry) :
    ∀ entry ∈ (worker.ungate opens).agenda, Answers jobs entry := by
  have hopened : ∀ ticket job, Answers jobs (ticket, job) →
      Answers jobs (ticket, if opens ticket then job.ungate else job) := by
    intro ticket job hanswers
    split
    · exact hanswers.ungate
    · exact hanswers
  intro entry hmem
  rcases List.mem_append.1 hmem with hstage | hqueue
  · cases hcase : worker.stage with
    | idle => simp [ungate, hcase, Stage.ungate, Stage.entries] at hstage
    | taken ticket job =>
        have hold := hopened ticket job
          (h (ticket, job) (List.mem_append_left _ (by simp [hcase, Stage.entries])))
        simp only [ungate, hcase, Stage.ungate] at hstage
        split at hstage
        · next hopen =>
            simp only [Stage.entries, List.mem_singleton] at hstage
            subst hstage
            simpa [hopen] using hold
        · next hopen =>
            simp only [Stage.entries, List.mem_singleton] at hstage
            subst hstage
            simpa [hopen] using hold
    | finished ticket job =>
        simp only [ungate, hcase, Stage.ungate, Stage.entries, List.mem_singleton] at hstage
        subst hstage
        exact h _ (List.mem_append_left _ (by simp [hcase, Stage.entries]))
  · obtain ⟨⟨ticket, job⟩, hold, rfl⟩ := List.mem_map.1 hqueue
    exact hopened ticket job (h _ (List.mem_append_right _ hold))

/-! ### What a worker keeps account of -/

/-- Where the completion of a job stands when the thread is through with some jobs. -/
def slotOf (count : Nat) (alive : Bool) (ticket : Nat) (job : Job ε α) : Slot ε α :=
  if ticket < count then .ready job.outcome else if alive then .pending else .void

/-- The thread is through with the first `count` jobs. -/
structure Accounts (jobs : List (Job ε α)) (dropped : List Nat) (count : Nat)
    (worker : Worker ε α) : Prop where
  within : count ≤ jobs.length
  issued : worker.completions.length = jobs.length
  due : worker.agenda.map Prod.fst =
    if worker.alive then List.range' count (jobs.length - count) else []
  known : ∀ entry ∈ worker.agenda, Answers jobs entry
  ran : worker.ran = List.range count ++ worker.stage.unleft
  slots : ∀ ticket completion job, worker.completions[ticket]? = some completion →
    jobs[ticket]? = some job → completion.held = true →
    completion.slot = slotOf count worker.alive ticket job
  /-- Before its job is done a completion can only be lost by giving it up. -/
  lost : worker.alive = true → ∀ ticket completion, count ≤ ticket →
    worker.completions[ticket]? = some completion → completion.held = false →
    ticket ∈ dropped
  broken : worker.alive = false → ∃ ticket job, count = ticket + 1 ∧
    jobs[ticket]? = some job ∧ job.fatal = true ∧ ticket ∈ dropped

namespace Accounts

variable {jobs : List (Job ε α)} {dropped : List Nat} {count : Nat} {worker : Worker ε α}

theorem start : Accounts ([] : List (Job ε α)) [] 0 {} where
  within := Nat.le_refl _
  issued := rfl
  due := rfl
  known := by simp [agenda, Stage.entries]
  ran := rfl
  slots := by simp
  lost := by simp
  broken := by simp

theorem agenda_eq_nil (h : Accounts jobs dropped count worker) (hdead : worker.alive = false) :
    worker.agenda = [] := by
  simpa [hdead] using h.due

theorem ticket_eq (h : Accounts jobs dropped count worker) {ticket : Nat} {job : Job ε α}
    {rest : List (Nat × Job ε α)} (hagenda : worker.agenda = (ticket, job) :: rest) :
    worker.alive = true ∧ ticket = count ∧ count < jobs.length ∧
      rest.map Prod.fst = List.range' (count + 1) (jobs.length - (count + 1)) := by
  have hdue := h.due
  rw [hagenda] at hdue
  cases halive : worker.alive with
  | false => simp [halive] at hdue
  | true =>
      obtain hzero | hpos := Nat.eq_zero_or_pos (jobs.length - count)
      · simp [halive, hzero] at hdue
      · obtain ⟨left, hleft⟩ := Nat.exists_eq_add_of_lt hpos
        have hsucc : jobs.length - count = left + 1 := by omega
        rw [hsucc] at hdue
        simp only [halive, List.map_cons, List.range'_succ, if_true, List.cons.injEq] at hdue
        have hrest : jobs.length - (count + 1) = left := by omega
        exact ⟨rfl, hdue.1, by omega, hrest ▸ hdue.2⟩

theorem hasFinished_iff (h : Accounts jobs dropped count worker) {ticket : Nat} :
    worker.HasFinished ticket ↔ ticket < count := by
  have hunleft : ∀ number ∈ worker.stage.unleft, number = count := by
    intro number hmem
    cases hstage : worker.stage with
    | idle => simp [hstage, Stage.unleft] at hmem
    | taken other job => simp [hstage, Stage.unleft] at hmem
    | finished other job =>
        simp only [hstage, Stage.unleft, List.mem_singleton] at hmem
        exact hmem.trans (h.ticket_eq (agenda_of_finished hstage)).2.1
  constructor
  · rintro ⟨hran, hnot⟩
    rw [h.ran] at hran
    rcases List.mem_append.1 hran with hrange | hmem
    · exact List.mem_range.1 hrange
    · exact absurd hmem hnot
  · intro hlt
    refine ⟨?_, ?_⟩
    · rw [h.ran]
      exact List.mem_append_left _ (List.mem_range.2 hlt)
    · intro hmem
      have := hunleft ticket hmem
      omega

theorem exists_job (h : Accounts jobs dropped count worker) {ticket : Nat}
    {completion : Completion ε α} (hget : worker.completions[ticket]? = some completion) :
    ∃ job, jobs[ticket]? = some job := by
  have hlt : ticket < jobs.length := h.issued ▸ (List.getElem?_eq_some_iff.1 hget).1
  exact ⟨jobs[ticket], List.getElem?_eq_getElem hlt⟩

/-- Moves that touch neither the completions nor the order of the jobs. -/
theorem frame (h : Accounts jobs dropped count worker) {later : Worker ε α}
    (hcompletions : later.completions = worker.completions)
    (halive : later.alive = worker.alive)
    (htickets : later.agenda.map Prod.fst = worker.agenda.map Prod.fst)
    (hknown : ∀ entry ∈ later.agenda, Answers jobs entry)
    (hran : later.ran = worker.ran) (hunleft : later.stage.unleft = worker.stage.unleft) :
    Accounts jobs dropped count later where
  within := h.within
  issued := hcompletions ▸ h.issued
  due := by rw [htickets, halive]; exact h.due
  known := hknown
  ran := by rw [hran, hunleft]; exact h.ran
  slots := by rw [hcompletions, halive]; exact h.slots
  lost := by rw [hcompletions, halive]; exact h.lost
  broken := by rw [halive]; exact h.broken

theorem ungate (h : Accounts jobs dropped count worker) (opens : Nat → Bool) :
    Accounts jobs dropped count (worker.ungate opens) :=
  h.frame rfl rfl (tickets_agenda_ungate worker opens) (answers_of_mem_ungate h.known) rfl
    (unleft_ungate worker.stage opens)

theorem release (h : Accounts jobs dropped count worker) (ticket : Nat) :
    Accounts jobs dropped count (worker.release ticket) :=
  h.ungate _

theorem close (h : Accounts jobs dropped count worker) :
    Accounts jobs dropped count worker.close :=
  h.frame rfl rfl rfl h.known rfl rfl

theorem slots_concat (h : Accounts jobs dropped count worker) {slot : Slot ε α} {job : Job ε α}
    (hslot : slot = slotOf count worker.alive jobs.length job) :
    ∀ ticket completion other,
      (worker.completions ++ [({ slot := slot } : Completion ε α)])[ticket]? = some completion →
      (jobs ++ [job])[ticket]? = some other → completion.held = true →
      completion.slot = slotOf count worker.alive ticket other := by
  intro ticket completion other hget hjob hheld
  obtain hlt | heq | hgt := Nat.lt_trichotomy ticket jobs.length
  · rw [List.getElem?_append_left (h.issued ▸ hlt)] at hget
    rw [List.getElem?_append_left hlt] at hjob
    exact h.slots ticket completion other hget hjob hheld
  · subst heq
    rw [← h.issued, List.getElem?_concat_length] at hget
    rw [List.getElem?_concat_length] at hjob
    cases hget
    cases hjob
    exact hslot
  · rw [List.getElem?_eq_none (by simp; omega)] at hjob
    cases hjob

theorem lost_concat (h : Accounts jobs dropped count worker) (slot : Slot ε α) :
    worker.alive = true → ∀ ticket completion, count ≤ ticket →
      (worker.completions ++ [({ slot := slot } : Completion ε α)])[ticket]? = some completion →
      completion.held = false → ticket ∈ dropped := by
  intro halive ticket completion hle hget hheld
  obtain hlt | hge := Nat.lt_or_ge ticket worker.completions.length
  · rw [List.getElem?_append_left hlt] at hget
    exact h.lost halive ticket completion hle hget hheld
  · rw [List.getElem?_append_right hge] at hget
    have hmem := List.mem_of_getElem? hget
    rw [List.mem_singleton] at hmem
    simp [hmem] at hheld

theorem submit (h : Accounts jobs dropped count worker) (haccepts : worker.accepting = true)
    (job : Job ε α) : Accounts (jobs ++ [job]) dropped count (worker.submit job).1 := by
  have hbroken : worker.alive = false → ∃ ticket other, count = ticket + 1 ∧
      (jobs ++ [job])[ticket]? = some other ∧ other.fatal = true ∧ ticket ∈ dropped := by
    intro hdead
    obtain ⟨ticket, other, hcount, hget, hfatal, hdropped⟩ := h.broken hdead
    refine ⟨ticket, other, hcount, ?_, hfatal, hdropped⟩
    rw [List.getElem?_append_left (List.getElem?_eq_some_iff.1 hget).1]
    exact hget
  have hwithin : count ≤ (jobs ++ [job]).length := by
    have := h.within
    simp
    omega
  cases halive : worker.alive with
  | true =>
      have hsame : (worker.submit job).1 =
          { worker with
            queue := worker.queue ++ [(jobs.length, job)]
            completions := worker.completions ++ [{ slot := .pending }] } := by
        simp [Worker.submit, halive, haccepts, h.issued]
      have hle := h.within
      rw [hsame]
      refine ⟨hwithin, by simp [h.issued], ?_, ?_, h.ran, ?_, h.lost_concat .pending, hbroken⟩
      · have hdue := h.due
        have hlength : (jobs ++ [job]).length - count = jobs.length - count + 1 := by
          simp
          omega
        have hlast : count + 1 * (jobs.length - count) = jobs.length := by omega
        simp only [halive, if_true] at hdue ⊢
        rw [hlength, List.range'_concat, hlast, ← hdue]
        simp [agenda]
      · intro entry hmem
        rw [agenda, ← List.append_assoc] at hmem
        rcases List.mem_append.1 hmem with hold | hnew
        · exact (h.known entry hold).concat job
        · rw [List.mem_singleton.1 hnew]
          exact ⟨job, by simp, rfl, rfl⟩
      · exact h.slots_concat (by simp [slotOf, halive, Nat.not_lt.2 hle])
  | false =>
      have hsame : (worker.submit job).1 =
          { worker with completions := worker.completions ++ [{ slot := .void }] } := by
        simp [Worker.submit, halive]
      rw [hsame]
      refine ⟨hwithin, by simp [h.issued], ?_, ?_, h.ran, ?_, ?_, hbroken⟩
      · have hnil := h.agenda_eq_nil halive
        simpa [halive, agenda] using hnil
      · intro entry hmem
        exact (h.known entry hmem).concat job
      · exact h.slots_concat (by simp [slotOf, halive, Nat.not_lt.2 h.within])
      · exact h.lost_concat .void

theorem take (h : Accounts jobs dropped count worker) {ticket : Nat} {job : Job ε α}
    {queue : List (Nat × Job ε α)} (hidle : worker.stage = .idle)
    (hqueue : worker.queue = (ticket, job) :: queue) :
    Accounts jobs dropped count { worker with queue, stage := .taken ticket job } := by
  have hagenda : ({ worker with queue, stage := .taken ticket job } : Worker ε α).agenda =
      worker.agenda := by
    simp [agenda, hidle, hqueue, Stage.entries]
  exact h.frame rfl rfl (by rw [hagenda]) (hagenda ▸ h.known) rfl (by rw [hidle]; rfl)

theorem run (h : Accounts jobs dropped count worker) {ticket : Nat} {job : Job ε α}
    (htaken : worker.stage = .taken ticket job) :
    Accounts jobs dropped count
      { worker with stage := .finished ticket job, ran := worker.ran ++ [ticket] } := by
  have hagenda : ({ worker with stage := .finished ticket job, ran := worker.ran ++ [ticket] }
      : Worker ε α).agenda = worker.agenda := by
    simp [agenda, htaken, Stage.entries]
  refine ⟨h.within, h.issued, hagenda ▸ h.due, hagenda ▸ h.known, ?_, h.slots, h.lost, h.broken⟩
  have hran := h.ran
  rw [htaken] at hran
  simpa [Stage.unleft] using hran

theorem slotOf_succ_of_ne {count ticket : Nat} (hne : ticket ≠ count) (alive : Bool)
    (job : Job ε α) : slotOf (count + 1) alive ticket job = slotOf count alive ticket job := by
  have hiff : ticket < count + 1 ↔ ticket < count := by omega
  simp [slotOf, hiff]

theorem slots_succ (h : Accounts jobs dropped count worker) {ticket : Nat}
    {completion : Completion ε α} {job : Job ε α} (hne : ticket ≠ count)
    (hget : worker.completions[ticket]? = some completion) (hjob : jobs[ticket]? = some job)
    (hheld : completion.held = true) :
    completion.slot = slotOf (count + 1) worker.alive ticket job :=
  (h.slots ticket completion job hget hjob hheld).trans
    (slotOf_succ_of_ne hne worker.alive job).symm

theorem ran_of_finished (h : Accounts jobs dropped count worker) {ticket : Nat} {job : Job ε α}
    (hfinished : worker.stage = .finished ticket job) :
    worker.ran = List.range (count + 1) := by
  have hran := h.ran
  rw [hfinished, (h.ticket_eq (agenda_of_finished hfinished)).2.1] at hran
  rw [hran, List.range_succ]
  rfl

theorem leave (h : Accounts jobs dropped count worker) {ticket : Nat} {job : Job ε α}
    (hfinished : worker.stage = .finished ticket job) {completions : List (Completion ε α)}
    (hlength : completions.length = worker.completions.length)
    (hothers : ∀ number, number ≠ ticket → completions[number]? = worker.completions[number]?)
    (hown : ∀ completion, completions[ticket]? = some completion → completion.held = true →
      completion.slot = .ready job.outcome) :
    Accounts jobs dropped (count + 1) { worker with stage := .idle, completions } := by
  have hagenda := agenda_of_finished hfinished
  obtain ⟨halive, hcount, hlt, hrest⟩ := h.ticket_eq hagenda
  subst hcount
  refine ⟨hlt, hlength.trans h.issued, ?_, ?_, ?_, ?_, ?_, ?_⟩
  · simpa [agenda, Stage.entries, halive] using hrest
  · intro entry hmem
    exact h.known entry (by rw [hagenda]; exact List.mem_cons_of_mem _ hmem)
  · simpa [Stage.unleft] using h.ran_of_finished hfinished
  · intro number completion other hget hother hheld
    by_cases heq : number = ticket
    · subst heq
      obtain ⟨submitted, hsubmitted, houtcome, -⟩ := h.known (number, job) (by simp [hagenda])
      cases hsubmitted.symm.trans hother
      rw [hown completion hget hheld]
      simpa [slotOf] using houtcome
    · exact h.slots_succ heq (hothers number heq ▸ hget) hother hheld
  · intro _ number completion hle hget hheld
    have hne : number ≠ ticket := by omega
    exact h.lost halive number completion (Nat.le_of_succ_le hle) (hothers number hne ▸ hget)
      hheld
  · intro hdead
    rw [halive] at hdead
    cases hdead

theorem die (h : Accounts jobs dropped count worker) {ticket : Nat} {job : Job ε α}
    (hfinished : worker.stage = .finished ticket job) (hfatal : job.fatal = true)
    (hgone : worker.isHeld ticket = false) :
    Accounts jobs dropped (count + 1)
      { worker with
        queue := [], stage := .idle, alive := false
        completions := voidAll worker.completions worker.queue } := by
  have hagenda := agenda_of_finished hfinished
  obtain ⟨halive, hcount, hlt, hrest⟩ := h.ticket_eq hagenda
  subst hcount
  -- The jobs behind it go with the thread, and no others are without an outcome.
  have hbehind : ∀ number, number ∈ worker.queue.map Prod.fst ↔
      ticket < number ∧ number < jobs.length := by
    intro number
    rw [hrest, List.mem_range'_1]
    omega
  refine ⟨hlt, (length_voidAll ..).trans h.issued, rfl, ?_, ?_, ?_, ?_, ?_⟩
  · intro entry hmem
    cases hmem
  · simpa [Stage.unleft] using h.ran_of_finished hfinished
  · intro number completion other hget hother hheld
    have hlength := (List.getElem?_eq_some_iff.1 hother).1
    rw [getElem?_voidAll, Option.map_eq_some_iff] at hget
    obtain ⟨before, hbefore, rfl⟩ := hget
    by_cases hmem : number ∈ worker.queue.map Prod.fst
    · have hlater := (hbehind number).1 hmem
      rw [if_pos hmem]
      simp [slotOf, show ¬ number < ticket + 1 by omega]
    · rw [if_neg hmem] at hheld ⊢
      have hne : number ≠ ticket := by
        rintro rfl
        rw [isHeld_iff.2 ⟨before, hbefore, hheld⟩] at hgone
        cases hgone
      have hearlier : number < ticket := by
        have := mt (hbehind number).2 hmem
        omega
      have hslot := h.slots_succ hne hbefore hother hheld
      simpa [slotOf, Nat.lt_succ_of_lt hearlier] using hslot
  · intro halive
    cases halive
  · intro _
    obtain ⟨submitted, hsubmitted, -, hsame⟩ := h.known (ticket, job) (by simp [hagenda])
    obtain ⟨completion, hget⟩ : ∃ completion, worker.completions[ticket]? = some completion :=
      ⟨_, List.getElem?_eq_getElem (h.issued ▸ hlt)⟩
    have hheld : completion.held = false := by
      rw [Bool.eq_false_iff]
      intro hheld
      rw [isHeld_iff.2 ⟨completion, hget, hheld⟩] at hgone
      cases hgone
    exact ⟨ticket, submitted, rfl, hsubmitted, hsame ▸ hfatal,
      h.lost halive ticket completion (Nat.le_refl _) hget hheld⟩

theorem handOver (h : Accounts jobs dropped count worker) {ticket : Nat} {job : Job ε α}
    (hfinished : worker.stage = .finished ticket job) :
    Accounts jobs dropped (count + 1) (worker.handOver ticket job) := by
  unfold Worker.handOver
  split
  · next hheld =>
      refine h.leave hfinished (length_setSlot ..) ?_ ?_
      · intro number hne
        rw [getElem?_setSlot]
        simp [Ne.symm hne]
      · intro completion hget _
        rw [getElem?_setSlot, Option.map_eq_some_iff] at hget
        obtain ⟨before, -, rfl⟩ := hget
        simp
  · next hgone =>
      split
      · next hfatal => exact h.die hfinished hfatal (Bool.eq_false_iff.2 hgone)
      · refine h.leave hfinished rfl ?_ ?_
        · intro number _
          rfl
        · intro completion hget hheld
          exact absurd (isHeld_iff.2 ⟨completion, hget, hheld⟩) hgone

theorem step (h : Accounts jobs dropped count worker) {later : Worker ε α}
    (hstep : worker.step = some later) : ∃ count, Accounts jobs dropped count later := by
  cases advances_of_step hstep with
  | take halive hidle hqueue => exact ⟨count, h.take hidle hqueue⟩
  | run halive htaken hopen => exact ⟨count, h.run htaken⟩
  | handOver halive hfinished => exact ⟨count + 1, h.handOver hfinished⟩

theorem letGo (h : Accounts jobs dropped count worker) {others : List Nat}
    (hsubset : dropped ⊆ others) {ticket : Nat} {change : Completion ε α → Completion ε α}
    (hchange : ∀ completion, (change completion).held = false)
    (hlost : ∀ completion, worker.alive = true → count ≤ ticket →
      worker.completions[ticket]? = some completion → completion.held = true →
      ticket ∈ others) :
    Accounts jobs others count
      { worker with completions := worker.completions.modify ticket change } := by
  have hget : ∀ number completion,
      (worker.completions.modify ticket change)[number]? = some completion →
      ∃ before, worker.completions[number]? = some before ∧
        completion = if ticket = number then change before else before := by
    intro number completion hget
    rw [List.getElem?_modify, Option.map_eq_map, Option.map_eq_some_iff] at hget
    obtain ⟨before, hbefore, rfl⟩ := hget
    exact ⟨before, hbefore, rfl⟩
  refine ⟨h.within, by simp [h.issued], h.due, h.known, h.ran, ?_, ?_, ?_⟩
  · intro number completion job hgot hjob hheld
    obtain ⟨before, hbefore, rfl⟩ := hget number completion hgot
    by_cases heq : ticket = number
    · simp [heq, hchange] at hheld
    · rw [if_neg heq] at hheld ⊢
      exact h.slots number before job hbefore hjob hheld
  · intro halive number completion hle hgot hheld
    obtain ⟨before, hbefore, rfl⟩ := hget number completion hgot
    by_cases hbeforeHeld : before.held = true
    · by_cases heq : ticket = number
      · subst heq
        exact hlost before halive hle hbefore hbeforeHeld
      · rw [if_neg heq, hbeforeHeld] at hheld
        cases hheld
    · exact hsubset (h.lost halive number before hle hbefore (Bool.eq_false_iff.2 hbeforeHeld))
  · intro hdead
    obtain ⟨number, job, hcount, hjob, hfatal, hmem⟩ := h.broken hdead
    exact ⟨number, job, hcount, hjob, hfatal, hsubset hmem⟩

theorem slot_of_isHeld (h : Accounts jobs dropped count worker) {ticket : Nat}
    (hheld : worker.isHeld ticket = true) :
    ∃ job, jobs[ticket]? = some job ∧
      worker.completions[ticket]?.map Completion.slot =
        some (slotOf count worker.alive ticket job) := by
  obtain ⟨completion, hget, hheld⟩ := isHeld_iff.1 hheld
  obtain ⟨job, hjob⟩ := h.exists_job hget
  refine ⟨job, hjob, ?_⟩
  rw [hget, Option.map_some, h.slots ticket completion job hget hjob hheld]

theorem useUp (h : Accounts jobs dropped count worker) {ticket : Nat}
    (hslot : worker.completions[ticket]?.map Completion.slot ≠ some .pending) :
    Accounts jobs dropped count (worker.useUp ticket) := by
  refine h.letGo (List.Subset.refl _) (fun _ => rfl) ?_
  intro completion halive hle hget hheld
  obtain ⟨job, -, hpending⟩ := h.slot_of_isHeld (isHeld_iff.2 ⟨completion, hget, hheld⟩)
  exact absurd hpending (by simpa [slotOf, halive, Nat.not_lt.2 hle] using hslot)

theorem forget (h : Accounts jobs dropped count worker) (ticket : Nat) :
    Accounts jobs (dropped ++ [ticket]) count (worker.forget ticket) :=
  h.letGo (List.subset_append_left ..) (fun _ => rfl) (by simp)

theorem perform (h : Accounts jobs dropped count worker) {move : Move ε α} {reply : Reply ε α}
    {later : Worker ε α} (hmove : worker.perform move = some (reply, later)) :
    ∃ count, Accounts (jobs ++ move.job?.toList) (dropped ++ move.dropped?.toList) count
      later := by
  have hquiet : ∀ {count later}, Accounts jobs dropped count later → move.job? = none →
      move.dropped? = none → ∃ count,
        Accounts (jobs ++ move.job?.toList) (dropped ++ move.dropped?.toList) count later := by
    intro count later haccounts hjob hdropped
    exact ⟨count, by simpa [hjob, hdropped] using haccounts⟩
  cases makes_of_perform hmove with
  | submit job haccepts =>
      exact ⟨count, by simpa [Move.job?, Move.dropped?] using h.submit haccepts job⟩
  | release ticket => exact hquiet (h.release ticket) rfl rfl
  | work hstep =>
      obtain ⟨next, hnext⟩ := h.step hstep
      exact hquiet hnext rfl rfl
  | answer hasks hslot =>
      obtain rfl | rfl := hasks
      · exact hquiet (h.useUp hslot) rfl rfl
      · exact hquiet (h.useUp hslot) rfl rfl
  | handBack ticket => exact hquiet h rfl rfl
  | forget ticket =>
      exact ⟨count, by simpa [Move.job?, Move.dropped?] using h.forget ticket⟩
  | close haccepts => exact hquiet h.close rfl rfl
  | join hclosed hended => exact hquiet h rfl rfl

end Accounts

theorem exists_accounts_of_follow {moves : List (Move ε α)} {worker : Worker ε α}
    (h : follow {} moves = some worker) :
    ∃ count, Accounts (jobs moves) (dropped moves) count worker := by
  induction moves using List.reverseRecOn generalizing worker with
  | nil =>
      cases h
      exact ⟨0, Accounts.start⟩
  | append_singleton moves move ih =>
      obtain ⟨before, reply, hbefore, hmove⟩ := follow_concat_eq_some_iff.1 h
      obtain ⟨count, haccounts⟩ := ih hbefore
      -- The count grows with a step of the thread only, the lists with the move itself.
      have hjobs : jobs (moves ++ [move]) = jobs moves ++ move.job?.toList := by
        cases hjob : move.job? <;> simp [jobs, List.filterMap_append, hjob]
      have hdropped : dropped (moves ++ [move]) = dropped moves ++ move.dropped?.toList := by
        cases hdrop : move.dropped? <;> simp [dropped, List.filterMap_append, hdrop]
      rw [hjobs, hdropped]
      exact haccounts.perform hmove

/-! ### What jobs and completions can rely on -/

/-- What holds of a worker after some moves. -/
structure Faithful (moves : List (Move ε α)) (worker : Worker ε α) : Prop where
  inOrder : worker.ran <+: List.range (jobs moves).length
  delivers : ∀ ticket job, (jobs moves)[ticket]? = some job → worker.isHeld ticket = true →
    worker.HasFinished ticket →
    ∃ later, worker.perform (.wait ticket) = some (.outcome (.ok job.outcome), later) ∧
      worker.perform (.tryWait ticket) = some (.outcome (.ok job.outcome), later)
  waits : ∀ ticket, worker.isHeld ticket = true → worker.alive = true →
    ¬ worker.HasFinished ticket →
    worker.perform (.wait ticket) = none ∧
      worker.perform (.tryWait ticket) = some (.pending, worker)
  keeps : ∀ move reply later, worker.perform move = some (reply, later) →
    ∀ ticket, worker.isHeld ticket = true →
    later.isHeld ticket = true ∨ move = .forget ticket ∨
      ((move = .wait ticket ∨ move = .tryWait ticket) ∧ ∃ answer, reply = .outcome answer)
  issues : ∀ job reply later, worker.perform (.submit job) = some (reply, later) →
    later.isHeld (jobs moves).length = true
  /-- A job is only held up by its own gate or by that of an earlier one. -/
  proceeds : worker.alive = true → ∀ ticket, ticket < (jobs moves).length →
    ¬ worker.HasFinished ticket → worker.step.isSome = true ∨
      ∃ first job, worker.stage = .taken first job ∧ first ≤ ticket ∧ job.gated = true
  /-- When dropping the worker has returned, nothing is left to be done. -/
  ended : .join ∈ moves → worker.alive = true → ∀ ticket, ticket < (jobs moves).length →
    worker.HasFinished ticket
  closes : worker.accepting = true → ∃ others, .join ∈ others ∧
    follow {} (moves ++ others) = some worker.shutDown.1
  /-- The thread only dies of an outcome that nobody is there to take, with that job. -/
  breaks : worker.alive = false → ∃ ticket job, (jobs moves)[ticket]? = some job ∧
    job.fatal = true ∧ .forget ticket ∈ moves ∧
    ∀ number, worker.HasFinished number ↔ number ≤ ticket
  stops : ∀ ticket, worker.isHeld ticket = true → worker.alive = false →
    ¬ worker.HasFinished ticket →
    ∃ later, worker.perform (.wait ticket) = some (.outcome (.error .workerStopped), later) ∧
      worker.perform (.tryWait ticket) = some (.outcome (.error .workerStopped), later)

theorem answer_of_isHeld {worker : Worker ε α} {ticket : Nat}
    (hheld : worker.isHeld ticket = true) {answer : Except Fault (Outcome ε α)}
    (hanswer : worker.collect? ticket = some (answer, worker.useUp ticket)) :
    ∃ later, worker.perform (.wait ticket) = some (.outcome answer, later) ∧
      worker.perform (.tryWait ticket) = some (.outcome answer, later) := by
  refine ⟨worker.useUp ticket, ?_, ?_⟩
  · simp [perform, hheld, hanswer]
  · simp [perform, hheld, hanswer]

namespace Accounts

variable {jobs : List (Job ε α)} {dropped : List Nat} {count : Nat} {worker : Worker ε α}

theorem ran_isPrefix (h : Accounts jobs dropped count worker) :
    worker.ran <+: List.range jobs.length := by
  have hprefix : ∀ {begun}, begun ≤ jobs.length →
      List.range begun <+: List.range jobs.length := by
    intro begun hle
    have htake := List.take_prefix begun (List.range jobs.length)
    rwa [List.take_range, Nat.min_eq_left hle] at htake
  cases hstage : worker.stage with
  | idle => simpa [h.ran, hstage, Stage.unleft] using hprefix h.within
  | taken ticket job => simpa [h.ran, hstage, Stage.unleft] using hprefix h.within
  | finished ticket job =>
      rw [h.ran_of_finished hstage]
      exact hprefix (h.ticket_eq (agenda_of_finished hstage)).2.2.1

theorem step_isSome_or_gated (h : Accounts jobs dropped count worker)
    (halive : worker.alive = true) (hlt : count < jobs.length) :
    worker.step.isSome = true ∨
      ∃ first job, worker.stage = .taken first job ∧ first = count ∧ job.gated = true := by
  cases hstage : worker.stage with
  | idle =>
      cases hqueue : worker.queue with
      | nil =>
          have hdue := h.due
          have hlength : jobs.length - count = 0 := by
            simpa [agenda, hstage, hqueue, Stage.entries, halive] using
              (congrArg List.length hdue).symm
          omega
      | cons entry queue => simp [Worker.step, halive, hstage, hqueue]
  | taken ticket job =>
      cases hgated : job.gated with
      | true =>
          exact .inr ⟨ticket, job, rfl, (h.ticket_eq (agenda_of_taken hstage)).2.1, hgated⟩
      | false => simp [Worker.step, halive, hstage, hgated]
  | finished ticket job => simp [Worker.step, halive, hstage]

end Accounts

theorem faithful_of_follow {moves : List (Move ε α)} {worker : Worker ε α}
    (h : follow {} moves = some worker) : Faithful moves worker := by
  obtain ⟨count, haccounts⟩ := exists_accounts_of_follow h
  have hfinished : ∀ ticket, worker.HasFinished ticket ↔ ticket < count := by
    intro ticket
    exact haccounts.hasFinished_iff
  refine ⟨haccounts.ran_isPrefix, ?_, ?_, ?_, ?_, ?_, ?_, ?_, ?_, ?_⟩
  · intro ticket job hjob hheld hdone
    obtain ⟨submitted, hsubmitted, hslot⟩ := haccounts.slot_of_isHeld hheld
    cases hsubmitted.symm.trans hjob
    refine answer_of_isHeld hheld ?_
    simp [collect?, useUp, hslot, slotOf, (hfinished ticket).1 hdone]
  · intro ticket hheld halive hdone
    obtain ⟨job, -, hslot⟩ := haccounts.slot_of_isHeld hheld
    rw [hfinished] at hdone
    have hpending : worker.collect? ticket = none := by
      simp [collect?, hslot, slotOf, hdone, halive]
    exact ⟨by simp [perform, hpending], by simp [perform, hheld, hpending]⟩
  · intro move reply later hmove ticket hheld
    exact isHeld_of_perform hmove hheld
  · intro job reply later hmove
    cases makes_of_perform hmove with
    | submit job haccepts => exact haccounts.issued ▸ isHeld_submit worker job
    | answer hasks hslot => simp at hasks
  · intro halive ticket hlt hdone
    rw [hfinished] at hdone
    obtain hstep | ⟨first, job, hstage, rfl, hgated⟩ :=
      haccounts.step_isSome_or_gated halive (by omega)
    · exact .inl hstep
    · exact .inr ⟨first, job, hstage, by omega, hgated⟩
  · intro hjoin halive ticket hlt
    obtain ⟨-, hdead | hnil⟩ := rests_of_follow h hjoin
    · cases halive.symm.trans hdead
    · have hdue := haccounts.due
      have hlength : (jobs moves).length - count = 0 := by
        simpa [hnil, halive] using (congrArg List.length hdue).symm
      rw [hfinished]
      omega
  · intro haccepts
    obtain ⟨others, hjoin, hothers⟩ := exists_follow_shutDown haccepts
    exact ⟨others, hjoin, (follow_append_of_follow h others).trans hothers⟩
  · intro hdead
    obtain ⟨ticket, job, hcount, hjob, hfatal, hmem⟩ := haccounts.broken hdead
    refine ⟨ticket, job, hjob, hfatal, mem_dropped.1 hmem, ?_⟩
    intro number
    rw [hfinished, hcount]
    exact Nat.lt_succ_iff
  · intro ticket hheld hdead hdone
    obtain ⟨job, -, hslot⟩ := haccounts.slot_of_isHeld hheld
    rw [hfinished] at hdone
    refine answer_of_isHeld hheld ?_
    simp [collect?, useUp, hslot, slotOf, hdone, hdead]

/-- The first job waits for its gate while the others are submitted, one of them breaks
off, and another has an outcome that only its completion may throw away. -/
def gatedFirstJob : List (Move String Nat) :=
  [.submit { outcome := .value 4, gated := true }, .work,
    .submit { outcome := .panicked "boom" }, .forget 0,
    .submit { outcome := .value 6, fatal := true }, .tryWait 2, .close, .release 0, .work, .work,
    .work, .work, .work, .wait 1, .work, .work, .work, .join]

theorem faithful_of_gatedFirstJob :
    ∃ worker, follow {} gatedFirstJob = some worker ∧ worker.isHeld 2 = true ∧
      (worker.perform (.wait 2)).map Prod.fst = some (.outcome (.ok (.value 6))) ∧
      Faithful gatedFirstJob worker :=
  ⟨_, rfl, rfl, rfl, faithful_of_follow rfl⟩

/-- A job is submitted behind one whose outcome the thread dies of. -/
def fatalFirstJob : List (Move String Nat) :=
  [.submit { outcome := .value 0, gated := true, fatal := true }, .forget 0,
    .submit { outcome := .value 1 }, .release 0, .work, .work, .work, .close, .join]

/-- Dropping the worker has returned, and the second job has not run. -/
theorem stopped_of_fatalFirstJob :
    ∃ worker, follow {} fatalFirstJob = some worker ∧ .join ∈ fatalFirstJob ∧
      worker.isHeld 1 = true ∧ 1 ∉ worker.ran ∧
      (worker.perform (.wait 1)).map Prod.fst =
        some (.outcome (.error .workerStopped)) :=
  ⟨_, rfl, by decide, rfl, by decide, rfl⟩

end Worker

end RankExchange
