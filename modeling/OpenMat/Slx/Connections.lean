import OpenMat.Fallible.Basic
import Std.Data.TreeMap.Lemmas

/-!
This module contains how the drawn lines of a block hierarchy become connections between the blocks that are
executed. Of a block and its node only what this reads is part of the model.
-/

namespace OpenMat
namespace Slx

open Std

structure Block where
  sid : String
  part : String
  deriving DecidableEq, Repr

/-- Lines, and their branches. -/
inductive Line where
  | mk (properties : List (String × String)) (branches : List Line) (extraElements : List String)

namespace Line

def properties : Line → List (String × String)
  | mk properties _ _ => properties

def branches : Line → List Line
  | mk _ branches _ => branches

end Line

structure System where
  parentBlock : Option String
  blocks : List Block
  lines : List Line

structure Document where
  systems : List System

inductive Kind where
  | subsystem
  | inport (number : Nat)
  | outport (number : Nat)
  | terminator
  /-- Every kind that is executed. -/
  | executed
  deriving DecidableEq, Repr

structure Node where
  source : Block
  kind : Kind
  inputs : Nat
  outputs : Nat
  deriving DecidableEq, Repr

def Node.executable (node : Node) : Bool :=
  match node.kind with
  | .subsystem | .inport _ | .outport _ | .terminator => false
  | .executed => true

structure Issue where
  code : String
  message : String
  block : Option String
  part : Option String
  parameter : Option String
  deriving DecidableEq, Repr

namespace Issue

def new (code message : String) : Issue := ⟨code, message, none, none, none⟩

def located (issue : Issue) (block : Block) (parameter : Option String) : Issue :=
  { issue with
    block := some block.sid
    part := some block.part
    parameter := parameter.or issue.parameter }

end Issue

/-- An index that is out of range panics. -/
inductive Failure where
  | issue (issue : Issue)
  | panic
  deriving DecidableEq, Repr

structure Pin where
  block : Nat
  port : Nat
  deriving DecidableEq, Repr

abbrev Pin.order : Pin → Pin → Ordering := compareLex (compareOn block) (compareOn port)

instance : LawfulEqCmp Pin.order where
  eq_of_compare {a b} h := by
    cases a
    cases b
    simpa [Pin.order, compareLex, compareOn, Ordering.then_eq_eq] using h

structure Edge where
  source : Pin
  destination : Pin
  deriving DecidableEq, Repr

abbrev Ids := TreeMap String Nat

abbrev Drivers := TreeMap Pin Pin Pin.order

def nodeAt (nodes : List Node) (index : Nat) : Except Failure Node := okOr nodes[index]? .panic

/-! The texts of the ends of a line. -/

/-- What stands before and after the first occurrence of a character. -/
def splitOnce (separator : Char) (text : String) : Option (String × String) :=
  match text.toList.dropWhile (· ≠ separator) with
  | [] => none
  | _ :: after => some (String.ofList (text.toList.takeWhile (· ≠ separator)), String.ofList after)

def parseUsize (text : String) : Option Nat :=
  let digits := if text.toList.head? = some '+' then text.toList.tail else text.toList
  if digits ≠ [] ∧ digits.all Char.isDigit then
    tryFrom 64 (digits.foldl (fun n c => 10 * n + (c.toNat - '0'.toNat)) 0)
  else
    none

def invalidEndpoint : Issue := .new "endpoint" "invalid or cross-system line endpoint"

def endpoint (text : String) (output : Bool) (locals : List String) (ids : Ids) (nodes : List Node)
    : Except Failure Pin := do
  let (sid, port) ← okOr (splitOnce '#' text) (.issue invalidEndpoint)
  ensure (sid ∈ locals) (.issue invalidEndpoint)
  let block ← okOr ids[sid]? (.issue invalidEndpoint)
  let (direction, number) ← okOr (splitOnce ':' port) (.issue invalidEndpoint)
  let number ← okOr (parseUsize number) (.issue invalidEndpoint)
  let node ← nodeAt nodes block
  let count := if output then node.outputs else node.inputs
  ensure (direction = (if output then "out" else "in") ∧ number ≠ 0 ∧ number ≤ count)
    (.issue (invalidEndpoint.located node.source (some port)))
  return ⟨block, number - 1⟩

/-! The lines. -/

def lineProperties : List String := ["Src", "Dst", "Name", "ZOrder", "Points", "Labels"]

/-- The source of a line or of a branch. -/
def Line.source (inherited : Option String) (line : Line) : Option String :=
  (line.properties.lookup "Src").or inherited

def connect (nodes : List Node) (destination source : Pin) (drivers : Drivers) : Except Failure Drivers := do
  ensure (drivers.size < 640000) (.issue (.new "connection_limit" "too many connections"))
  if drivers.contains destination then
    let node ← nodeAt nodes destination.block
    .error (.issue ((Issue.new "multiple_drivers" "input has multiple connections").located node.source
      (some ("in:" ++ toString (destination.port + 1)))))
  else
    return drivers.insert destination source

/-- The destination of a line itself. -/
def collectDestination (locals : List String) (ids : Ids) (nodes : List Node) (line : Line) (driver : Pin)
    (drivers : Drivers) : Except Failure Drivers :=
  match line.properties.lookup "Dst" with
  | some dst => do
    let destination ← endpoint dst false locals ids nodes
    connect nodes destination driver drivers
  | none => do
    ensure (line.branches.isEmpty = false) (.issue (.new "line_destination" "line has no destination"))
    return drivers

mutual

def collectLine (locals : List String) (ids : Ids) (nodes : List Node)
    : Option String → Line → Drivers → Except Failure Drivers
  | inherited, .mk properties branches extraElements, drivers => do
    ensure (extraElements = [] ∧ ∀ property ∈ properties, property.1 ∈ lineProperties)
      (.issue (.new "line_feature" "line has unsupported execution properties"))
    ensure (inherited = none ∨ properties.lookup "Src" = none)
      (.issue (.new "line_source" "a branch cannot override its source"))
    let source ← okOr ((properties.lookup "Src").or inherited) (.issue (.new "line_source" "missing line source"))
    let driver ← endpoint source true locals ids nodes
    let drivers ← collectDestination locals ids nodes (.mk properties branches extraElements) driver drivers
    collectBranches locals ids nodes source branches drivers

def collectBranches (locals : List String) (ids : Ids) (nodes : List Node) (source : String)
    : List Line → Drivers → Except Failure Drivers
  | [], drivers => .ok drivers
  | branch :: branches, drivers => do
    let drivers ← collectLine locals ids nodes (some source) branch drivers
    collectBranches locals ids nodes source branches drivers

end

/-! The tables of the hierarchy. -/

structure Tables where
  parents : TreeMap Nat Nat
  outputs : TreeMap Pin Nat Pin.order
  drivers : Drivers

def collectBlock (ids : Ids) (nodes : List Node) (parentBlock : Option String) (tables : Tables) (block : Block)
    : Except Failure Tables := do
  let index ← okOr ids[block.sid]? .panic
  match parentBlock with
  | none => return tables
  | some parent => do
    let parent ← okOr ids[parent]? .panic
    let node ← nodeAt nodes index
    let parents := tables.parents.insert index parent
    match node.kind with
    | .outport 0 => .error .panic
    | .outport (port + 1) => return { tables with parents, outputs := tables.outputs.insert ⟨parent, port⟩ index }
    | _ => return { tables with parents }

def collectSystem (ids : Ids) (nodes : List Node) (tables : Tables) (system : System) : Except Failure Tables := do
  let tables ← system.blocks.foldlM (collectBlock ids nodes system.parentBlock) tables
  let drivers ← system.lines.foldlM (fun drivers line =>
    collectLine (system.blocks.map (·.sid)) ids nodes none line drivers) tables.drivers
  return { tables with drivers }

/-! Following a line across the boundaries of subsystems. -/

/-- The input on the other side of a boundary. -/
def boundary (nodes : List Node) (tables : Tables) (pin : Pin) : Except Failure (Option Pin) := do
  let node ← nodeAt nodes pin.block
  match node.kind with
  | .inport number => do
    let parent ← okOr tables.parents[pin.block]? (.issue (.new "subsystem_port" "Inport is missing its parent"))
    match number with
    | 0 => .error .panic
    | port + 1 => return some ⟨parent, port⟩
  | .subsystem => do
    let outport ← okOr tables.outputs[pin]?
      (.issue (.new "subsystem_port" "subsystem output has no matching Outport"))
    return some ⟨outport, 0⟩
  | _ => return none

/-- What drives the input on the other side. -/
def advance (nodes : List Node) (tables : Tables) (pin : Pin) : Except Failure (Option Pin) := do
  match ← boundary nodes tables pin with
  | none => return none
  | some target =>
    match tables.drivers[target]? with
    | some driver => return some driver
    | none => do
      let node ← nodeAt nodes target.block
      .error (.issue ((Issue.new "missing_input" "virtual boundary is not connected").located node.source none))

def boundaryCycle (node : Node) : Failure :=
  .issue ((Issue.new "subsystem_cycle" "cyclic or excessively deep virtual boundary connection").located
    node.source none)

def boundaryLimit : Nat := 128

/-- The pins that were visited are distinct. -/
def resolve (nodes : List Node) (tables : Tables) (visited : List Pin) (pin : Pin) : Except Failure Pin :=
  if pin ∈ visited ∨ boundaryLimit < visited.length + 1 then do
    let node ← nodeAt nodes pin.block
    .error (boundaryCycle node)
  else do
    match ← advance nodes tables pin with
    | none => return pin
    | some next => resolve nodes tables (pin :: visited) next
termination_by boundaryLimit - visited.length
decreasing_by
  rw [not_or, List.length_cons] at *
  omega

def missingInput (node : Node) (port : Nat) : Failure :=
  .issue ((Issue.new "missing_input" "required input is not connected").located node.source
    (some ("in:" ++ toString (port + 1))))

/-- Every input has a driver. -/
def checkInputs (drivers : Drivers) (nodes : List Node) : Except Failure Unit :=
  nodes.zipIdx.forM fun (node, index) =>
    (List.range node.inputs).forM fun port => ensure (drivers.contains ⟨index, port⟩) (missingInput node port)

/-- The connections of the inputs that are executed, or end the signal. -/
def resolveAll (nodes : List Node) (tables : Tables) : List (Pin × Pin) → Except Failure (List Edge)
  | [] => .ok []
  | (destination, driver) :: drivers => do
    let node ← nodeAt nodes destination.block
    if node.executable || node.kind = .terminator then
      let source ← resolve nodes tables [] driver
      let edges ← resolveAll nodes tables drivers
      return ⟨source, destination⟩ :: edges
    else
      resolveAll nodes tables drivers

def indexBySid (nodes : List Node) : Ids :=
  TreeMap.ofList (nodes.zipIdx.map fun (node, index) => (node.source.sid, index))

def connections (document : Document) (nodes : List Node) : Except Failure (List Edge) := do
  let tables ← document.systems.foldlM (collectSystem (indexBySid nodes) nodes) ⟨∅, ∅, ∅⟩
  checkInputs tables.drivers nodes
  resolveAll nodes tables tables.drivers.toList

end Slx
end OpenMat
