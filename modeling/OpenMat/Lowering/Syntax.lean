import OpenMat.Bytecode.Basic

/-!
This module contains function bodies over abstract leaves and conditions, and their structured
execution.
-/

namespace OpenMat
namespace Lowering

open Bytecode

/-- A condition expression: its instructions, and the test of the value they leave. -/
structure Condition (L C : Type) where
  operations : List L
  test : C
  deriving DecidableEq, Repr

/--
Where `catch` puts the error: nowhere, in a local of the function, or in a scratch local from which
the prologue publishes it.
-/
inductive CatchBinding (L : Type) (locals : Nat) where
  | plain
  | direct (slot : Fin locals)
  | indirect (prologue : List L)
  deriving DecidableEq, Repr

/-- Statements of a function with `locals` locals. -/
inductive Stmt (L C : Type) (locals : Nat) where
  | leaf (operations : List L)
  | ifElse (branches : List (Condition L C × List (Stmt L C locals)))
      (elseBody : List (Stmt L C locals))
  | switch (selector : List L) (cases : List (Condition L C × List (Stmt L C locals)))
      (otherwise : List (Stmt L C locals))
  | whileLoop (condition : Condition L C) (body : List (Stmt L C locals))
  | forLoop (iterable : List L) (value : L) (store : List L) (body : List (Stmt L C locals))
  | tryCatch (body : List (Stmt L C locals))
      (handler : Option (CatchBinding L locals × List (Stmt L C locals)))
  | breakLoop
  | continueLoop
  | returnValues

/--
What a function does around its body: the instructions before it, the validation of its outputs, if
they are declared, the loads of its outputs, and the last of them if it is variadic.
-/
structure Frame (L : Type) where
  prologue : List L
  validations : Option (List L)
  outputs : List L
  variadic : Option L
  deriving DecidableEq, Repr

/-- An explicit return is `guarded` if it left the body of a `try`. -/
inductive Outcome where
  | normal
  | broke
  | continued
  | returned (guarded : Bool)
  | raised
  | exhausted
  deriving DecidableEq, Repr

/--
What an execution did: whether it caught an error on the way, and whether a `for` loop began another
iteration after its body had caught one.
-/
structure Result (S : Type) where
  state : S
  outcome : Outcome
  caught : Bool
  resumed : Bool
  deriving DecidableEq, Repr

namespace Result

variable {S : Type}

def of (state : S) (outcome : Outcome) : Result S where
  state := state
  outcome := outcome
  caught := false
  resumed := false

def andThen (r : Result S) (next : S → Result S) : Result S where
  state := (next r.state).state
  outcome := (next r.state).outcome
  caught := r.caught || (next r.state).caught
  resumed := r.resumed || (next r.state).resumed

/-- Go on with the next statement if the first one completes. -/
def sequence (r : Result S) (next : S → Result S) : Result S :=
  match r.outcome with
  | .normal => r.andThen next
  | _ => r

/-- The body of a `try`, whose errors go to the handler. -/
def guard (r : Result S) (handler : S → Result S) : Result S :=
  match r.outcome with
  | .raised => { r with caught := true }.andThen handler
  | .returned _ => { r with outcome := .returned true }
  | _ => r

/-- The body of a loop that goes on; a `for` loop counts its iterations. -/
def goOn (counted : Bool) (r : Result S) : Result S :=
  { r with resumed := r.resumed || counted && r.caught }

end Result

variable {L C V S : Type} {locals : Nat} (I : Interpretation L C V S)

/-- Run leaves up to the first one that raises. -/
def runLeaves : List L → S → S × Bool
  | [], s => (s, true)
  | operation :: operations, s =>
    match I.leaf operation s with
    | (s', true) => runLeaves operations s'
    | (s', false) => (s', false)

def runLoads : List L → S → S
  | [], s => s
  | binding :: bindings, s => runLoads bindings (I.load binding s)

def runCondition (condition : Condition L C) (s : S) : S × Option Bool :=
  match runLeaves I condition.operations s with
  | (s', true) => I.test condition.test s'
  | (s', false) => (s', none)

/-- At most `fuel` iterations, from the given one on. -/
def loop (counted : Bool) (test : Nat → S → S × Option Bool) (body : S → Result S)
    : Nat → Nat → S → Result S
  | 0, _, s => .of s .exhausted
  | fuel + 1, iteration, s =>
    match test iteration s with
    | (s', none) => .of s' .raised
    | (s', some false) => .of s' .normal
    | (s', some true) =>
      match (body s').outcome with
      | .normal => ((body s').goOn counted).andThen (loop counted test body fuel (iteration + 1))
      | .continued => ((body s').goOn counted).andThen (loop counted test body fuel (iteration + 1))
      | .broke => { body s' with outcome := .normal }
      | _ => body s'

/-- Leaves followed by the rest unless one of them raises. -/
def afterLeaves (operations : List L) (rest : S → Result S) (s : S) : Result S :=
  match runLeaves I operations s with
  | (s', true) => rest s'
  | (s', false) => .of s' .raised

def afterEvaluate (operation : L) (rest : V → S → Result S) (s : S) : Result S :=
  match I.evaluate operation s with
  | (s', some value) => rest value s'
  | (s', none) => .of s' .raised

mutual

/-- A statement, where each loop may take at most `fuel` iterations. -/
def exec (fuel : Nat) : Stmt L C locals → S → Result S
  | .leaf operations, s => afterLeaves I operations (fun s' => .of s' .normal) s
  | .ifElse branches elseBody, s => execBranches fuel branches (execBody fuel elseBody) s
  | .switch selector cases otherwise, s =>
    afterLeaves I selector (execBranches fuel cases (execBody fuel otherwise)) s
  | .whileLoop condition body, s =>
    loop false (fun _ => runCondition I condition) (execBody fuel body) fuel 0 s
  | .forLoop iterable value store body, s =>
    afterLeaves I iterable
      (afterEvaluate I value fun v =>
        loop true (I.iterate v) (afterLeaves I store (execBody fuel body)) fuel 0) s
  | .tryCatch body handler, s =>
    (execBody fuel body s).guard fun s' => execHandler fuel handler (I.caught s')
  | .breakLoop, s => .of s .broke
  | .continueLoop, s => .of s .continued
  | .returnValues, s => .of s (.returned false)

def execBody (fuel : Nat) : List (Stmt L C locals) → S → Result S
  | [], s => .of s .normal
  | stmt :: body, s => (exec fuel stmt s).sequence (execBody fuel body)

/-- The first branch whose condition holds. -/
def execBranches (fuel : Nat)
    : List (Condition L C × List (Stmt L C locals)) → (S → Result S) → S → Result S
  | [], otherwise, s => otherwise s
  | (condition, body) :: branches, otherwise, s =>
    match runCondition I condition s with
    | (s', none) => .of s' .raised
    | (s', some true) => execBody fuel body s'
    | (s', some false) => execBranches fuel branches otherwise s'

def execHandler (fuel : Nat)
    : Option (CatchBinding L locals × List (Stmt L C locals)) → S → Result S
  | none, s => .of s .normal
  | some (.indirect prologue, body), s => afterLeaves I prologue (execBody fuel body) s
  | some (_, body), s => execBody fuel body s

end

inductive Ending where
  | fellOff
  | returned
  | raised
  | exhausted
  deriving DecidableEq, Repr

def Frame.accepts (frame : Frame L) (s : S) : Bool := frame.variadic.all fun variadic => I.accepts variadic s

/-- What follows the body of a function that completes. -/
def finish (frame : Frame L) (ending : Ending) (s : S) : S × Ending :=
  match runLeaves I (frame.validations.getD []) s with
  | (s', true) =>
    (runLoads I frame.outputs s',
      if frame.accepts I (runLoads I frame.outputs s') then ending else .raised)
  | (s', false) => (s', .raised)

/--
What a function did. It is `refused` if the outputs of an explicit return in the body of a `try` raised,
in a function without validated outputs.
-/
structure Execution (S : Type) where
  state : S
  ending : Ending
  resumed : Bool
  refused : Bool
  deriving DecidableEq, Repr

def execFunction (fuel : Nat) (frame : Frame L) (body : List (Stmt L C locals)) (s : S) : Execution S :=
  let r := afterLeaves I frame.prologue (execBody I fuel body) s
  match r.outcome with
  | .raised => { state := r.state, ending := .raised, resumed := r.resumed, refused := false }
  | .exhausted => { state := r.state, ending := .exhausted, resumed := r.resumed, refused := false }
  | .returned guarded => {
      state := (finish I frame .returned r.state).1
      ending := (finish I frame .returned r.state).2
      resumed := r.resumed
      refused := guarded && frame.validations.isNone
        && !frame.accepts I (runLoads I frame.outputs r.state)
    }
  | _ => {
      state := (finish I frame .fellOff r.state).1
      ending := (finish I frame .fellOff r.state).2
      resumed := r.resumed
      refused := false
    }

end Lowering
end OpenMat
