import RankExchange.Diffusion.Strip
import RankExchange.Decimal.Fixed
import RankExchange.Endpoint.Collective
import RankExchange.Lattice.Basic
import RankExchange.World.Schedule

/-!
# Diffusion on a ring of ranks

In every step each rank trades the edges of its strip with its neighbours in
one exchange round and lets its heat spread; at the end the heat of all ranks
is reduced to rank 0.  Rounds and reduction have tags of their own.
-/

namespace RankExchange

structure Settings where
  ranks : Nat := 4
  cells : Nat := 100
  steps : Nat := 1000
  delivery : Delivery := .buffered
  deriving DecidableEq, Repr

namespace Ring

/-- Why a rank could not go on. -/
inductive Breakdown
  | fault (fault : Fault)
  | arithmetic (fault : ArithmeticFault)
  | missingEdge

/-- What a rank has to report in the end: its cells after the last step and, on
rank 0, the total. -/
structure Report where
  cells : List Cell := []
  total : Option Cell := none
  breakdown : Option Breakdown := none

abbrev Attempt := ExceptT Breakdown Program

def calculate {α : Type} (result : Except ArithmeticFault α) : Attempt α :=
  ExceptT.mk (pure (result.mapError Breakdown.arithmetic))

structure Neighbors where
  left : Nat
  right : Nat
  both : RankSet

def neighbors (rank size : Nat) : Except ArithmeticFault Neighbors := do
  let ring ← Lattice.balanced size 1 true
  let left ← ring.shift rank 0 (-1)
  let right ← ring.shift rank 0 1
  let both ← ring.neighbors rank
  return ⟨left.getD rank, right.getD rank, both⟩

def tags : List TagSpace := TagSpace.standard.split 2
def roundTags : TagSpace := tags.headD .standard
def totalTags : TagSpace := tags[1]?.getD .standard

/-- One round of edges and one step of diffusion. -/
def advance (arith : Arithmetic) (endpoint : Endpoint) (neighbors : Neighbors) (round : Nat)
    (strip : Strip) : Attempt Strip := do
  let received ← endpoint.exchange neighbors.both (roundTags.roundTag round)
    (RankMap.const neighbors.both strip.edges)
  let guarded := do
    let fromLeft ← received.find? neighbors.left
    let fromRight ← received.find? neighbors.right
    strip.guarded? fromLeft.payload fromRight.payload
  match guarded with
  | some strip => return strip.step arith
  | none => throw .missingEdge

def rounds (arith : Arithmetic) (endpoint : Endpoint) (neighbors : Neighbors) :
    Nat → Nat → Strip → Attempt Strip
  | 0, _, strip => return strip
  | count + 1, round, strip => do
      let strip ← advance arith endpoint neighbors round strip
      rounds arith endpoint neighbors count (round + 1) strip

def simulate (arith : Arithmetic) (settings : Settings) (endpoint : Endpoint)
    (identity : Identity) : Attempt Report := do
  let neighbors ← calculate (neighbors identity.rank identity.size)
  let strip ← calculate (Strip.initial arith identity.rank identity.size settings.cells)
  let strip ← rounds arith endpoint neighbors settings.steps 0 strip
  let total ← endpoint.reduce 0 totalTags.lower Cell.coder (strip.heat arith) arith.add
  return { cells := strip.cells, total }

/-- Gives the session of a rank up and reports. -/
def breakOff (endpoint : Endpoint) (report : Report) : Program Report := do
  endpoint.session.abandon
  return report

def conclude (endpoint : Endpoint) (report : Report) : Program Report := do
  match ← endpoint.session.synchronize.attempt with
  | .error fault => breakOff endpoint { report with breakdown := some (.fault fault) }
  | .ok _ =>
      match ← endpoint.close with
      | (.error fault, endpoint) =>
          breakOff endpoint { report with breakdown := some (.fault fault) }
      | (.ok _, endpoint) => breakOff endpoint report

/-- All that a rank does.  Whatever happens, it gives its session up at the
end. -/
def rankProgram (arith : Arithmetic) (settings : Settings) : Program Report := do
  let (opened, endpoint) ← Endpoint.establish {}
  match opened with
  | .error fault => breakOff endpoint { breakdown := some (.fault fault) }
  | .ok identity =>
      match ← (simulate arith settings endpoint identity).run.attempt with
      | .error fault => breakOff endpoint { breakdown := some (.fault fault) }
      | .ok (.error breakdown) => breakOff endpoint { breakdown := some breakdown }
      | .ok (.ok report) => conclude endpoint report

def world (arith : Arithmetic) (settings : Settings) : World Report where
  group := .ofGrants settings.delivery (List.replicate settings.ranks .multiple)
  actors := List.replicate settings.ranks { program := rankProgram arith settings }

def reports (arith : Arithmetic) (settings : Settings) : List Report :=
  (world arith settings).run.actors.filterMap (fun actor => actor.result?.bind Except.toOption)

def line (settings : Settings) (total : Cell) : String :=
  s!"total heat after {settings.steps} steps: {Decimal.fixed 12 total}"

def output (arith : Arithmetic) (settings : Settings) : List String :=
  (reports arith settings).filterMap (fun report => report.total.map (line settings))

end Ring

end RankExchange
