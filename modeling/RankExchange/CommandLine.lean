import RankExchange.Diffusion.Ring

/-!
# Command line

The options of the diffusion program.  An option with a value is written
`-n 4`, `-n4`, `-n=4`, `--ranks 4` or `--ranks=4`, and each option may be given
once.  A last argument `--` ends the options.
-/

namespace RankExchange.CommandLine

inductive UsageError
  | unknown (argument : String)
  | missingValue (option : String)
  | badValue (option value : String)
  | repeated (option : String)
  deriving DecidableEq, Repr

def UsageError.message : UsageError → String
  | .unknown argument => s!"unexpected argument {argument}"
  | .missingValue option => s!"a value is required for {option}"
  | .badValue option value => s!"invalid value {value} for {option}"
  | .repeated option => s!"{option} cannot be used multiple times"

structure Given where
  ranks : Option Nat := none
  cells : Option Nat := none
  steps : Option Nat := none
  rendezvous : Bool := false

inductive ValueOption
  | ranks
  | cells
  | steps
  deriving DecidableEq, Repr

namespace ValueOption

def name : ValueOption → String
  | .ranks => "--ranks"
  | .cells => "--cells"
  | .steps => "--steps"

def letter : ValueOption → Char
  | .ranks => 'n'
  | .cells => 'c'
  | .steps => 's'

def all : List ValueOption := [.ranks, .cells, .steps]

def get (option : ValueOption) (given : Given) : Option Nat :=
  match option with
  | .ranks => given.ranks
  | .cells => given.cells
  | .steps => given.steps

def put (option : ValueOption) (given : Given) (value : Nat) : Given :=
  match option with
  | .ranks => { given with ranks := some value }
  | .cells => { given with cells := some value }
  | .steps => { given with steps := some value }

end ValueOption

/-- A number of at most 64 bits: digits, perhaps after a plus sign. -/
def number? (text : List Char) : Option Nat :=
  let digits := match text with
    | '+' :: rest => rest
    | text => text
  if digits.isEmpty ∨ !digits.all Char.isDigit then none
  else
    let value := digits.foldl (fun high digit => 10 * high + (digit.toNat - '0'.toNat)) 0
    if value < UInt64.size then some value else none

def set (given : Given) (option : ValueOption) (text : List Char) : Except UsageError Given :=
  if (option.get given).isSome then .error (.repeated option.name)
  else
    match number? text with
    | some value => .ok (option.put given value)
    | none => .error (.badValue option.name (String.ofList text))

def option? (argument : List Char) : Option (ValueOption × Option (List Char)) :=
  match argument with
  | '-' :: '-' :: _ =>
      let name := argument.takeWhile (· ≠ '=')
      let value := match argument.dropWhile (· ≠ '=') with
        | [] => none
        | _ :: value => some value
      (ValueOption.all.find? (fun option => option.name.toList = name)).map (·, value)
  | '-' :: letter :: rest =>
      let value := match rest with
        | [] => none
        | '=' :: value => some value
        | value => some value
      (ValueOption.all.find? (fun option => option.letter = letter)).map (·, value)
  | _ => none

def isDashed : List Char → Bool
  | '-' :: _ :: _ => true
  | _ => false

/-- Reads the arguments from left to right.  The argument `--` ends the options,
and there is nothing else that may follow. -/
def read : List String → Given → Except UsageError Given
  | [], given => .ok given
  | ["--"], given => .ok given
  | argument :: rest, given =>
      if argument = "--rendezvous" then
        if given.rendezvous then .error (.repeated argument)
        else read rest { given with rendezvous := true }
      else
        match option? argument.toList with
        | none => .error (.unknown argument)
        | some (option, some value) => do read rest (← set given option value)
        | some (option, none) =>
            match rest with
            | [] => .error (.missingValue option.name)
            | value :: rest =>
                if isDashed value.toList then .error (.missingValue option.name)
                else do read rest (← set given option value.toList)

def settings? (arguments : List String) : Except UsageError Settings := do
  let given ← read arguments {}
  let defaults : Settings := {}
  return {
    ranks := given.ranks.getD defaults.ranks
    cells := given.cells.getD defaults.cells
    steps := given.steps.getD defaults.steps
    delivery := if given.rendezvous then .rendezvous else .buffered }

structure Printed where
  lines : List String := []
  complaint : Option String := none
  status : Nat := 0

def run (arith : Arithmetic) (arguments : List String) : Printed :=
  match settings? arguments with
  | .ok settings => { lines := Ring.output arith settings }
  | .error error => { complaint := some error.message, status := 2 }

end RankExchange.CommandLine
