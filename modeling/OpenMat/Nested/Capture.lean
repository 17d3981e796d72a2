import OpenMat.Fallible.Basic
import OpenMat.Nested.Names
import Std.Data.TreeMap.Lemmas
import Std.Data.TreeSet.Lemmas

/-!
This module contains the binding analysis of functions and of the functions nested in them, and the shared
storage that the emitted closures give to their names.
-/

namespace OpenMat
namespace Nested

open Std

inductive BindingStorage where
  | localSlot (slot : Nat)
  | captured
  | workspaceGlobal (declared : Bool)
  | persistent (slot : Nat)
  deriving DecidableEq, Repr

abbrev Bindings := TreeMap String BindingStorage

/-- The names that bind a variable. -/
def isUsable (name : String) : Bool :=
  !name.isEmpty && name ≠ "~"

section Discovery

structure DiscoveredFunction where
  name : String
  definition : FunctionDef
  parent : Option Nat

mutual

/-- The functions among some statements, each followed by the functions nested in it. The first one of
each name counts. -/
def discoverFunctions (parent : Option Nat) (names : List String)
    : List Stmt → List DiscoveredFunction → List DiscoveredFunction
  | [], functions => functions
  | .function definition :: statements, functions =>
    match definition.name with
    | none => discoverFunctions parent names statements functions
    | some name =>
      if name.isEmpty || names.contains name then
        discoverFunctions parent names statements functions
      else
        discoverFunctions parent (name :: names) statements
          (discoverNestedFunctions functions.length definition
            (functions ++ [{ name := name, definition := definition, parent := parent }]))
  | _ :: statements, functions => discoverFunctions parent names statements functions

def discoverNestedFunctions (parent : Nat)
    : FunctionDef → List DiscoveredFunction → List DiscoveredFunction
  | .mk _ _ _ body, functions => discoverFunctions (some parent) [] body functions

end

def discover (file : List Stmt) : List DiscoveredFunction :=
  discoverFunctions none [] file []

/-- The functions that are nested directly in a function, in the order of their discovery. -/
def children (functions : List DiscoveredFunction) (index : Nat) : List Nat :=
  (List.range functions.length).filter fun child =>
    functions[child]?.any fun function => function.parent = some index

end Discovery

section Locals

structure Slots where
  bindings : Bindings
  nextLocal : Nat

def allocateLocal (nextLocal : Nat) : Option Nat × Nat :=
  if nextLocal < u32Max then (some nextLocal, nextLocal + 1) else (none, nextLocal)

/-- Allocate a slot without a name. -/
def Slots.reserve (slots : Slots) : Slots :=
  { slots with nextLocal := (allocateLocal slots.nextLocal).2 }

/-- Allocate a slot for a name that has no binding yet. -/
def Slots.bind (slots : Slots) (name : String) : Slots :=
  match allocateLocal slots.nextLocal with
  | (none, nextLocal) => { slots with nextLocal := nextLocal }
  | (some slot, nextLocal) => {
      bindings := slots.bindings.insert name (.localSlot slot)
      nextLocal := nextLocal
    }

def Slots.bindInput (slots : Slots) (name : String) : Slots :=
  if isUsable name && !slots.bindings.contains name then slots.bind name else slots.reserve

def Slots.bindOutput (slots : Slots) (name : String) : Slots :=
  if !isUsable name then
    slots.reserve
  else if slots.bindings.contains name then
    slots
  else
    slots.bind name

def Slots.bindAssigned (slots : Slots) (name : String) : Slots :=
  if !isUsable name || slots.bindings.contains name then slots else slots.bind name

structure DeclarationCollector where
  bindings : Bindings
  persistentDeclarations : List String
  nextPersistentSlot : Nat

def scanGlobalName (collector : DeclarationCollector) (name : String) : DeclarationCollector :=
  match collector.bindings[name]? with
  | some (BindingStorage.persistent _) => collector
  | _ => { collector with bindings := collector.bindings.insert name (BindingStorage.workspaceGlobal true) }

def scanPersistentName (collector : DeclarationCollector) (name : String) : DeclarationCollector :=
  if collector.persistentDeclarations.contains name then
    collector
  else
    let collector := { collector with
      persistentDeclarations := name :: collector.persistentDeclarations }
    match collector.bindings[name]? with
    | some (BindingStorage.workspaceGlobal _) => collector
    | _ =>
      if collector.nextPersistentSlot < u32Max then
        { collector with
          bindings :=
            collector.bindings.insert name (BindingStorage.persistent collector.nextPersistentSlot)
          nextPersistentSlot := collector.nextPersistentSlot + 1 }
      else
        collector

def scanDeclaration (collector : DeclarationCollector) (declaration : DeclarationStatement)
    : DeclarationCollector :=
  if declaration.form = .identifierList ∧ declaration.context = .function then
    (declaration.names.filter isUsable).foldl
      (match declaration.kind with
        | .global => scanGlobalName
        | .persistent => scanPersistentName)
      collector
  else
    collector

/-- The bindings of the names that a function declares as global or persistent. -/
def analyseDeclarations (statements : List Stmt) : Bindings :=
  ((declarations statements).foldl scanDeclaration {
    bindings := ∅
    persistentDeclarations := []
    nextPersistentSlot := 0
  }).bindings

/-- The bindings of a function without regard to the functions around it. -/
def analyseLocals (function : FunctionDef) : Slots :=
  let inputs := function.inputs.foldl Slots.bindInput { bindings := ∅, nextLocal := 0 }
  let declared := { inputs with bindings := inputs.bindings ∪ analyseDeclarations function.body }
  (collectAssignedNames function.body).foldl Slots.bindAssigned
    (function.outputs.foldl Slots.bindOutput declared)

end Locals

section Captures

structure LocalAnalysis where
  bindings : Bindings
  sharedCaptures : TreeSet String
  nestedFunctionSlots : TreeMap Nat Nat
  localCount : Nat

/-- Whether a binding of an enclosing function can be shared. -/
def BindingStorage.isShareable : BindingStorage → Bool
  | .localSlot _ => true
  | .captured => true
  | _ => false

/-- Bind a name to the enclosing function, if that binds it. -/
def captureName (function : FunctionDef) (outer : Bindings) (analysis : LocalAnalysis) (name : String)
    : LocalAnalysis :=
  if name = "ans" ∨ name ∈ function.inputs ++ function.outputs then
    analysis
  else if !outer[name]?.any BindingStorage.isShareable then
    analysis
  else if analysis.bindings[name]?.all BindingStorage.isShareable then
    { analysis with
      bindings := analysis.bindings.insert name .captured
      sharedCaptures := analysis.sharedCaptures.insert name }
  else
    analysis

/-- Give a slot to a nested function, or take the one that its name has. -/
def bindChild (functions : List DiscoveredFunction) (analysis : LocalAnalysis) (child : Nat)
    : LocalAnalysis :=
  match functions[child]? with
  | none => analysis
  | some function =>
    match analysis.bindings[function.name]? with
    | some (.localSlot slot) =>
      { analysis with nestedFunctionSlots := analysis.nestedFunctionSlots.insert child slot }
    | some _ => analysis
    | none =>
      match allocateLocal analysis.localCount with
      | (none, _) => analysis
      | (some slot, localCount) =>
        { analysis with
          bindings := analysis.bindings.insert function.name (.localSlot slot)
          nestedFunctionSlots := analysis.nestedFunctionSlots.insert child slot
          localCount := localCount }

def lexicalNames (function : FunctionDef) : List String :=
  (TreeSet.ofList (collectLexicalNames function.body)).toList

/-- The analysis of a function, from the ones of the functions before it. -/
def analyseFunction (functions : List DiscoveredFunction) (completed : List LocalAnalysis)
    (discovered : DiscoveredFunction) : LocalAnalysis :=
  let slots := analyseLocals discovered.definition
  let current : LocalAnalysis := {
    bindings := slots.bindings
    sharedCaptures := ∅
    nestedFunctionSlots := ∅
    localCount := slots.nextLocal
  }
  let captured :=
    match discovered.parent with
    | none => current
    | some parent =>
      let outer := (completed[parent]?.map LocalAnalysis.bindings).getD ∅
      (lexicalNames discovered.definition).foldl (captureName discovered.definition outer) current
  (children functions completed.length).foldl (bindChild functions) captured

def analyseDiscoveredFunctions (functions : List DiscoveredFunction) : List LocalAnalysis :=
  functions.foldl (fun completed discovered =>
    completed ++ [analyseFunction functions completed discovered]) []

end Captures

section Storage

inductive SharedCaptureSource where
  | localSlot (slot : Nat)
  | enclosing
  deriving DecidableEq, Repr

/-- What the closure of a nested function gets for a name from the frame that creates it. -/
def captureSource (plan child : LocalAnalysis) (name : String) : Option SharedCaptureSource :=
  if child.sharedCaptures.contains name then
    match plan.bindings[name]? with
    | some (.localSlot slot) => some (.localSlot slot)
    | some .captured => some .enclosing
    | _ => none
  else
    none

/--
The place of a variable: a slot in the frame of a function, the cell that the closures which a function
creates share for one of its slots, a variable of the workspace, or a persistent slot of a function.
-/
inductive Storage where
  | frame (owner slot : Nat)
  | cell (owner slot : Nat)
  | workspace (name : String)
  | persistent (owner slot : Nat)
  deriving DecidableEq, Repr

/-- Whether one of the closures that a function creates shares a slot of its frame. -/
def isShared (functions : List DiscoveredFunction) (plans : List LocalAnalysis) (index slot : Nat)
    : Bool :=
  plans[index]?.any fun plan =>
    (children functions index).any fun child =>
      plan.nestedFunctionSlots.contains child &&
        plans[child]?.any fun nested =>
          nested.sharedCaptures.toList.any fun name =>
            captureSource plan nested name = some (.localSlot slot)

/-- Where loads, stores and clears of a local find it: a shared one is no longer in the frame. -/
def localStorage (functions : List DiscoveredFunction) (plans : List LocalAnalysis) (index slot : Nat)
    : Storage :=
  if isShared functions plans index slot then .cell index slot else .frame index slot

/-- The storage of a name in a function, through at most `depth` enclosing functions. -/
def resolve (functions : List DiscoveredFunction) (plans : List LocalAnalysis)
    : Nat → Nat → String → Option Storage
  | depth, index, name => do
    let plan ← plans[index]?
    match ← plan.bindings[name]? with
    | .localSlot slot => return localStorage functions plans index slot
    | .workspaceGlobal _ => return .workspace name
    | .persistent slot => return .persistent index slot
    | .captured =>
      let parent ← (← functions[index]?).parent
      let outer ← plans[parent]?
      guard (outer.nestedFunctionSlots.contains index)
      match ← captureSource outer plan name with
      | .localSlot slot => return .cell parent slot
      | .enclosing =>
        match depth with
        | 0 => none
        | depth + 1 => resolve functions plans depth parent name

/-- The storage of a name in a function of a file. -/
def storage (file : List Stmt) (index : Nat) (name : String) : Option Storage :=
  resolve (discover file) (analyseDiscoveredFunctions (discover file)) index index name

end Storage

end Nested
end OpenMat
