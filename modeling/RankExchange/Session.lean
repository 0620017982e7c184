import RankExchange.Program

/-!
# Sessions

The window in which a rank may use its member of the group.  A session starts
fresh, is active once the transport has granted the required threading level,
and is closed for good afterwards.  Its identity is taken when it is opened and
does not change.
-/

namespace RankExchange

structure Standing where
  rank : Nat
  size : Nat
  granted : Threading
  deriving DecidableEq, Repr

inductive Phase
  | fresh
  | active (standing : Standing)
  | closed
  deriving DecidableEq, Repr

structure SessionOptions where
  required : Threading := .multiple

structure Session where
  options : SessionOptions := {}
  phase : Phase := .fresh

namespace Session

def isOpen (session : Session) : Bool :=
  match session.phase with
  | .active _ => true
  | _ => false

/-- The standing of an active session; every use of a session goes through it. -/
def standing (session : Session) : Except Fault Standing :=
  match session.phase with
  | .active standing => .ok standing
  | _ => .error .notOpen

/-- Finalizes a transport that granted too little; that this may fail in turn
is only reported. -/
def refuse (required granted : Threading) : Program Unit := do
  Program.log (.downgraded required granted)
  match ← Program.finalize.attempt with
  | .ok _ => pure ()
  | .error fault => Program.log (.finalizeFailed fault)

/-- Opens a fresh session.  If the transport does not start, the session stays
fresh; if it grants less than required, the session is closed. -/
def establish (session : Session) : Program (Except Fault Identity × Session) :=
  match session.phase with
  | .active _ => return (.error .alreadyOpen, session)
  | .closed => return (.error .notOpen, session)
  | .fresh => do
      let required := session.options.required
      match ← (Program.init required).attempt with
      | .error fault => return (.error fault, session)
      | .ok granted =>
          if granted < required then
            refuse required granted
            return (.error (.downgraded required granted), { session with phase := .closed })
          else
            let identity ← Program.identify
            Program.log (.opened identity.rank identity.size granted)
            return (.ok identity,
              { session with phase := .active ⟨identity.rank, identity.size, granted⟩ })

/-- Closes an active session, also when its transport fails to finalize. -/
def close (session : Session) : Program (Except Fault Unit × Session) :=
  match session.phase with
  | .active standing => do
      match ← Program.finalize.attempt with
      | .error fault => return (.error fault, { session with phase := .closed })
      | .ok _ =>
          Program.log (.closed standing.rank)
          return (.ok (), { session with phase := .closed })
  | _ => return (.error .notOpen, session)

/-- Gives a session up: one that is still active is closed, and the member
leaves its group. -/
def abandon (session : Session) : Program Unit := do
  if session.isOpen then
    Program.log .abandoned
    match ← session.close with
    | (.error fault, _) => Program.log (.finalizeFailed fault)
    | (.ok _, _) => pure ()
  Program.leave

def synchronize (session : Session) : Program Unit := do
  let _ ← session.standing
  Program.log .enteringBarrier
  Program.barrier

theorem isOpen_iff {session : Session} :
    session.isOpen = true ↔ ∃ standing, session.standing = .ok standing := by
  cases h : session.phase <;> simp [isOpen, standing, h]

theorem standing_of_not_isOpen {session : Session} (h : session.isOpen = false) :
    session.standing = .error .notOpen := by
  cases hphase : session.phase <;> simp_all [isOpen, standing]

end Session

end RankExchange
