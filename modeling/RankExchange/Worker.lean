import RankExchange.Fault

/-!
# Workers

A worker runs jobs one at a time in the order in which they were submitted.
Each job has a ticket for its completion, which gets the job's own outcome: a
value, or the payload that the job panicked with.  A job whose gate is closed holds
the worker up until it is released.
-/

namespace RankExchange

structure WorkerOptions where
  core : Option Nat := none

inductive Outcome (ε α : Type)
  | value (value : α)
  | panicked (payload : ε)
  deriving DecidableEq, Repr

structure Job (ε α : Type) where
  outcome : Outcome ε α
  gated : Bool := false
  /-- Whether the worker's thread dies if it has to throw the outcome away. -/
  fatal : Bool := false
  deriving DecidableEq, Repr

def Job.ungate {ε α : Type} (job : Job ε α) : Job ε α :=
  { job with gated := false }

/-- Where the outcome of a job is left for its completion. -/
inductive Slot (ε α : Type)
  | pending
  | ready (outcome : Outcome ε α)
  | void
  deriving DecidableEq, Repr

structure Completion (ε α : Type) where
  slot : Slot ε α
  held : Bool := true
  deriving DecidableEq, Repr

inductive WorkerEvent
  | jobDropped
  | threadPanicked
  deriving DecidableEq, Repr

def WorkerEvent.render : WorkerEvent → String
  | .jobDropped => "ERROR worker thread has exited, job dropped"
  | .threadPanicked => "ERROR worker thread panicked"

/-- How far a worker's thread is with a job. -/
inductive Worker.Stage (ε α : Type)
  | idle
  | taken (ticket : Nat) (job : Job ε α)
  | finished (ticket : Nat) (job : Job ε α)
  deriving DecidableEq, Repr

structure Worker (ε α : Type) where
  queue : List (Nat × Job ε α) := []
  stage : Worker.Stage ε α := .idle
  completions : List (Completion ε α) := []
  ran : List Nat := []
  alive : Bool := true
  accepting : Bool := true
  deriving DecidableEq, Repr

namespace Worker

variable {ε α : Type}

def Stage.ungate (stage : Stage ε α) (opens : Nat → Bool) : Stage ε α :=
  match stage with
  | .taken ticket job => if opens ticket then .taken ticket job.ungate else stage
  | _ => stage

/-- Queues a job under the next ticket; without a thread to run it, it is
dropped. -/
def submit (worker : Worker ε α) (job : Job ε α) : Worker ε α × List WorkerEvent :=
  if worker.alive ∧ worker.accepting then
    ({ worker with
        queue := worker.queue ++ [(worker.completions.length, job)]
        completions := worker.completions ++ [{ slot := .pending }] }, [])
  else
    ({ worker with completions := worker.completions ++ [{ slot := .void }] }, [.jobDropped])

def ungate (worker : Worker ε α) (opens : Nat → Bool) : Worker ε α :=
  { worker with
    queue := worker.queue.map (fun entry =>
      (entry.1, if opens entry.1 then entry.2.ungate else entry.2))
    stage := worker.stage.ungate opens }

def release (worker : Worker ε α) (ticket : Nat) : Worker ε α :=
  worker.ungate (fun number => number = ticket)

def releaseAll (worker : Worker ε α) : Worker ε α :=
  worker.ungate (fun _ => true)

def setSlot (completions : List (Completion ε α)) (ticket : Nat) (slot : Slot ε α) :
    List (Completion ε α) :=
  completions.modify ticket (fun completion => { completion with slot })

def isHeld (worker : Worker ε α) (ticket : Nat) : Bool :=
  worker.completions[ticket]?.any Completion.held

/-- Leaves an outcome for its completion.  One that nobody holds a completion for is
thrown away, and with a thread that dies of this go all jobs in the queue. -/
def handOver (worker : Worker ε α) (ticket : Nat) (job : Job ε α) : Worker ε α :=
  if worker.isHeld ticket then
    { worker with
      stage := .idle, completions := setSlot worker.completions ticket (.ready job.outcome) }
  else if job.fatal then
    { worker with
      queue := [], stage := .idle, alive := false
      completions := worker.queue.foldl (fun completions entry =>
        setSlot completions entry.1 .void) worker.completions }
  else { worker with stage := .idle }

/-- One step of the thread: it takes the first job off the queue, runs it, or hands
its outcome over. -/
def step (worker : Worker ε α) : Option (Worker ε α) :=
  if worker.alive then
    match worker.stage with
    | .idle =>
        match worker.queue with
        | [] => none
        | (ticket, job) :: queue => some { worker with queue, stage := .taken ticket job }
    | .taken ticket job =>
        if job.gated then none
        else some { worker with stage := .finished ticket job, ran := worker.ran ++ [ticket] }
    | .finished ticket job => some (worker.handOver ticket job)
  else none

/-- All that a step of the thread can do. -/
inductive Advances (worker : Worker ε α) : Worker ε α → Prop
  | take {ticket : Nat} {job : Job ε α} {queue : List (Nat × Job ε α)}
      (halive : worker.alive = true) (hidle : worker.stage = .idle)
      (hqueue : worker.queue = (ticket, job) :: queue) :
      Advances worker { worker with queue, stage := .taken ticket job }
  | run {ticket : Nat} {job : Job ε α} (halive : worker.alive = true)
      (htaken : worker.stage = .taken ticket job) (hopen : job.gated = false) :
      Advances worker
        { worker with stage := .finished ticket job, ran := worker.ran ++ [ticket] }
  | handOver {ticket : Nat} {job : Job ε α} (halive : worker.alive = true)
      (hfinished : worker.stage = .finished ticket job) :
      Advances worker (worker.handOver ticket job)

theorem advances_of_step {worker next : Worker ε α} (h : worker.step = some next) :
    worker.Advances next := by
  unfold step at h
  split at h
  · next halive =>
      split at h
      · next hidle =>
          split at h
          · cases h
          · next hqueue =>
              cases h
              exact .take halive hidle hqueue
      · next htaken =>
          split at h
          · cases h
          · next hopen =>
              cases h
              exact .run halive htaken (Bool.eq_false_iff.2 hopen)
      · next hfinished =>
          cases h
          exact .handOver halive hfinished
  · cases h

def workload (worker : Worker ε α) : Nat :=
  3 * worker.queue.length +
    match worker.stage with
    | .idle => 0
    | .taken _ _ => 2
    | .finished _ _ => 1

theorem workload_handOver (worker : Worker ε α) (ticket : Nat) (job : Job ε α) :
    (worker.handOver ticket job).workload ≤ 3 * worker.queue.length := by
  unfold handOver
  split
  · exact Nat.le_refl _
  · split
    · exact Nat.zero_le _
    · exact Nat.le_refl _

theorem workload_step {worker next : Worker ε α} (h : worker.step = some next) :
    next.workload < worker.workload := by
  cases advances_of_step h with
  | take halive hidle hqueue =>
      simp only [workload, hidle, hqueue, List.length_cons]
      omega
  | run halive htaken hopen =>
      simp only [workload, htaken]
      omega
  | @handOver ticket job halive hfinished =>
      have hle := workload_handOver worker ticket job
      simp only [workload, hfinished] at hle ⊢
      omega

/-- Runs jobs until the queue is empty or a closed gate is in the way. -/
def settle (worker : Worker ε α) : Worker ε α :=
  match _h : worker.step with
  | none => worker
  | some next => next.settle
termination_by worker.workload
decreasing_by exact workload_step _h

/-- Uses a completion up for the outcome of its job, if that has been decided. -/
def collect? (worker : Worker ε α) (ticket : Nat) :
    Option (Except Fault (Outcome ε α) × Worker ε α) :=
  let used : Worker ε α :=
    { worker with
      completions := worker.completions.modify ticket (fun _ => { slot := .void, held := false }) }
  match worker.completions[ticket]?.map Completion.slot with
  | some .pending => none
  | some (.ready outcome) => some (.ok outcome, used)
  | _ => some (.error .workerStopped, used)

/-- Takes the outcome out of a completion and keeps the completion. -/
def takeOutcome? (worker : Worker ε α) (ticket : Nat) :
    Option (Option (Outcome ε α) × Worker ε α) :=
  match worker.completions[ticket]?.map Completion.slot with
  | some .pending => none
  | some (.ready outcome) =>
      some (some outcome,
        { worker with completions := setSlot worker.completions ticket .void })
  | _ => some (none, worker)

def forget (worker : Worker ε α) (ticket : Nat) : Worker ε α :=
  { worker with
    completions := worker.completions.modify ticket
      (fun completion => { completion with held := false }) }

def close (worker : Worker ε α) : Worker ε α :=
  { worker with accepting := false }

/-- Whether the thread has come to its end: it has died, or there is nothing left to do
and nothing can come any more. -/
def hasEnded (worker : Worker ε α) : Bool :=
  !worker.alive || !worker.accepting && worker.queue.isEmpty &&
    match worker.stage with
    | .idle => true
    | _ => false

def ending (worker : Worker ε α) : List WorkerEvent :=
  if worker.alive then [] else [.threadPanicked]

/-- Runs all jobs that are queued and lets the thread end; how it has ended is
seen only once. -/
def shutDown (worker : Worker ε α) : Worker ε α × List WorkerEvent :=
  if worker.accepting then
    let last := worker.close.releaseAll.settle
    (last, last.ending)
  else (worker, [])

end Worker

end RankExchange
