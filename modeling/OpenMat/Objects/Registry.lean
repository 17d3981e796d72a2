import Std.Data.TreeMap.Lemmas
import OpenMat.Chain.Climb
import OpenMat.Objects.Descriptor
import OpenMat.Table.Selection
import OpenMat.Traversal.DepthFirst

/-!
This module contains the registry of classes: how batches of definitions are registered and how members
are looked up in the superclasses of a class.
-/

namespace OpenMat
namespace Objects

open Std

variable {S : Type}

structure ClassRegistry (S : Type) where
  classes : TreeMap Nat (ClassDescriptor S)
  names : TreeMap String Nat
  nextId : Nat

namespace ClassRegistry

def new : ClassRegistry S where
  classes := ∅
  names := ∅
  nextId := 1

def getClass (r : ClassRegistry S) (id : Nat) : Except ObjectError (ClassDescriptor S) :=
  match r.classes[id]? with
  | some c => .ok c
  | none => .error (.unknownClass id)

def classId (r : ClassRegistry S) (name : String) : Except ObjectError Nat :=
  match r.names[name]? with
  | some id => .ok id
  | none => .error (.unknownClassName name)

def classNamed (r : ClassRegistry S) (name : String) : Except ObjectError (ClassDescriptor S) := do
  r.getClass (← r.classId name)

def semantics (r : ClassRegistry S) (id : Nat) : Except ObjectError ClassSemantics := do
  return (← r.getClass id).effectiveSemantics

def ensureInstantiable (r : ClassRegistry S) (id : Nat) : Except ObjectError Unit := do
  let c ← r.getClass id
  if c.isEnumeration then
    throw (.enumerationDirectConstruction c.name)
  else if c.effectiveAbstract then
    throw (.abstractClassInstantiation c.name)

end ClassRegistry

section Batch

/-- The definitions of a batch that have an identity already. -/
structure Numbering (S : Type) where
  numbered : List (Nat × ClassDefinition S)
  nextId : Nat

def number (r : ClassRegistry S) (n : Numbering S) (d : ClassDefinition S)
    : Except ObjectError (Numbering S) := do
  validateDefinition d
  if r.names.contains d.name ∨ n.numbered.any (fun entry => entry.2.name = d.name) then
    throw (.duplicateClass d.name)
  if n.nextId = u64Max then
    throw (.idExhausted "class")
  return { numbered := n.numbered ++ [(n.nextId, d)], nextId := n.nextId + 1 }

def resolveSuperclass (r : ClassRegistry S) (numbered : List (Nat × ClassDefinition S))
    : Option Superclass → Except ObjectError (Option Nat)
  | none => .ok none
  | some (.id id) =>
    if r.classes.contains id ∨ numbered.any (fun entry => entry.1 = id) then
      .ok (some id)
    else
      .error (.unknownClass id)
  | some (.name name) =>
    match r.names[name]?.or ((numbered.find? fun entry => entry.2.name = name).map Prod.fst) with
    | some id => .ok (some id)
    | none => .error (.unknownClassName name)

def addSuperclass (r : ClassRegistry S) (d : ClassDefinition S) (superclass : Option Nat)
    (additional : List Nat) (id : Nat) : Except ObjectError (List Nat) :=
  if ¬r.classes.contains id then
    .error (.unknownClass id)
  else if superclass = some id ∨ id ∈ additional then
    .error (.duplicateSuperclass d.name id)
  else
    .ok (additional ++ [id])

/-- A definition of a batch with its identity and its superclasses. -/
structure Draft (S : Type) where
  id : Nat
  definition : ClassDefinition S
  superclass : Option Nat
  additionalSuperclasses : List Nat

def resolve (r : ClassRegistry S) (numbered : List (Nat × ClassDefinition S))
    (entry : Nat × ClassDefinition S) : Except ObjectError (Draft S) := do
  let superclass ← resolveSuperclass r numbered entry.2.superclass
  let additional ← entry.2.additionalSuperclasses.foldlM (addSuperclass r entry.2 superclass) []
  return {
    id := entry.1
    definition := entry.2
    superclass := superclass
    additionalSuperclasses := additional
  }

def checkEnumerationBase (d : Draft S) : Except ObjectError Unit :=
  if d.definition.isEnumeration ∧ d.superclass.isSome then
    .error (.invalidEnumerationDefinition d.definition.name
      "enumeration base metadata cannot be a linked user superclass")
  else
    .ok ()

variable (r : ClassRegistry S) (drafts : List (Draft S))

def draft? (id : Nat) : Option (Draft S) :=
  drafts.find? fun d => d.id = id

def combinedClassSealed (id : Nat) : Except ObjectError Bool :=
  match draft? drafts id with
  | some d => .ok (d.definition.isSealed || d.definition.isEnumeration)
  | none => do
    let c ← r.getClass id
    return c.isSealed || c.isEnumeration

def validateSealedSuperclass (d : Draft S) (superclass : Nat) : Except ObjectError Unit := do
  if ← combinedClassSealed r drafts superclass then
    throw (.sealedSuperclass d.definition.name superclass)

def combinedSuperclass (id : Nat) : Except ObjectError (Option Nat) :=
  match draft? drafts id with
  | some d => .ok d.superclass
  | none => do return (← r.getClass id).superclass

/-- How many classes a chain of superclasses may have. -/
def chainLimit : Nat :=
  r.classes.size + drafts.length + 1

def checkCombinedCycle (d : Draft S) : Except ObjectError Unit :=
  Chain.checkCycle (combinedSuperclass r drafts) .inheritanceCycle (chainLimit r drafts) [] (some d.id)

def declaresHandle (id : Nat) : Except ObjectError (Option ClassSemantics) :=
  match draft? drafts id with
  | some d => .ok (if d.definition.declaredSemantics = .handle then some .handle else none)
  | none => do return if (← r.getClass id).effectiveSemantics = .handle then some .handle else none

def inheritedSemantics (superclass : Option Nat) : Except ObjectError ClassSemantics := do
  let found ← Chain.search (combinedSuperclass r drafts) .inheritanceCycle (declaresHandle r drafts)
    (chainLimit r drafts) superclass
  return found.getD .value

def isHandle (id : Nat) : Bool :=
  match r.semantics id with
  | .ok .handle => true
  | _ => false

def effectiveSemantics (d : Draft S) : Except ObjectError ClassSemantics :=
  if d.definition.declaredSemantics = .handle ∨ d.additionalSuperclasses.any (isHandle r) then
    .ok .handle
  else
    inheritedSemantics r drafts d.superclass

/-- The members that a class declares itself. -/
structure Members (S : Type) where
  name : String
  properties : List (PropertyDescriptor S)
  methods : List MethodDescriptor

def combinedMembers (id : Nat) : Except ObjectError (Members S) :=
  match draft? drafts id with
  | some d =>
    .ok {
      name := d.definition.name
      properties := d.definition.properties
      methods := d.definition.methods
    }
  | none => do
    let c ← r.getClass id
    return { name := c.name, properties := c.properties, methods := c.methods }

/-- What the completion of abstract members needs to know of a kind of members. -/
structure SlotKind (S α β : Type) where
  members : Members S → List α
  name : α → String
  access : α → β
  isAbstract : α → Bool
  mismatch : String → α → β → ObjectError

def methodSlots : SlotKind S MethodDescriptor Access where
  members := Members.methods
  name := MethodDescriptor.name
  access := MethodDescriptor.access
  isAbstract := MethodDescriptor.isAbstract
  mismatch := fun className m inherited =>
    .abstractOverrideAccessMismatch className m.name inherited m.access

def propertySlots : SlotKind S (PropertyDescriptor S) (Option Access × Option Access) where
  members := Members.properties
  name := PropertyDescriptor.name
  access := fun p => (p.getAccess, p.setAccess)
  isAbstract := PropertyDescriptor.isAbstract
  mismatch := fun className p _ => .abstractPropertyOverrideAccessMismatch className p.name

section AbstractSlots

variable {α β : Type} [DecidableEq β] (kind : SlotKind S α β)

/-- A declaration opens an abstract slot or completes the inherited one. -/
def declareSlot (className : String) (unresolved : TreeMap String β) (a : α)
    : Except ObjectError (TreeMap String β) :=
  match unresolved[kind.name a]? with
  | some inherited =>
    if inherited ≠ kind.access a then
      .error (kind.mismatch className a inherited)
    else if kind.isAbstract a then
      .ok (unresolved.insert (kind.name a) (kind.access a))
    else
      .ok (unresolved.erase (kind.name a))
  | none =>
    if kind.isAbstract a then
      .ok (unresolved.insert (kind.name a) (kind.access a))
    else
      .ok (unresolved.erase (kind.name a))

def declareSlots (unresolved : TreeMap String β) (members : Members S)
    : Except ObjectError (TreeMap String β) :=
  (kind.members members).foldlM (declareSlot kind members.name) unresolved

def combinedAbstractSlots (id : Nat) : Except ObjectError (TreeMap String β) := do
  let ancestry ← Chain.climb (combinedSuperclass r drafts) .inheritanceCycle (chainLimit r drafts)
    (some id)
  ancestry.reverse.foldlM (fun unresolved id => do
    declareSlots kind unresolved (← combinedMembers r drafts id)) ∅

end AbstractSlots

def combinedAbstractMethods (id : Nat) : Except ObjectError (TreeMap String Access) :=
  combinedAbstractSlots r drafts methodSlots id

def combinedAbstractProperties (id : Nat)
    : Except ObjectError (TreeMap String (Option Access × Option Access)) :=
  combinedAbstractSlots r drafts propertySlots id

def effectiveAbstractness (d : Draft S) : Except ObjectError Bool := do
  let unresolved ← combinedAbstractMethods r drafts d.id
  let unresolvedProperties ← combinedAbstractProperties r drafts d.id
  if d.definition.declaredAbstract = some false ∧
      (¬unresolved.isEmpty ∨ ¬unresolvedProperties.isEmpty) then
    throw (.explicitConcreteWithAbstractMethods d.definition.name
      ((unresolved.keys ++ unresolvedProperties.keys).mergeSort fun a b => a ≤ b))
  return d.definition.declaredAbstract = some true || !unresolved.isEmpty ||
    !unresolvedProperties.isEmpty

def checkEvents (c : ClassDescriptor S) : Except ObjectError Unit :=
  if c.events ≠ [] ∧ c.effectiveSemantics ≠ .handle then
    .error (.invalidPropertyDefinition c.name "<events>" "events require handle-class semantics")
  else
    .ok ()

def findCombinedProperty (name : String)
    : Option Nat → Except ObjectError (Option (Nat × PropertyDescriptor S)) :=
  Chain.search (combinedSuperclass r drafts) .inheritanceCycle
    (fun id => do
      let members ← combinedMembers r drafts id
      return (members.properties.find? fun p => p.name = name).map fun p => (id, p))
    (chainLimit r drafts)

def findCombinedMethod (name : String)
    : Option Nat → Except ObjectError (Option (Nat × MethodDescriptor)) :=
  Chain.search (combinedSuperclass r drafts) .inheritanceCycle
    (fun id => do
      let members ← combinedMembers r drafts id
      return (members.methods.find? fun m => m.name = name).map fun m => (id, m))
    (chainLimit r drafts)

def checkConstructor (d : ClassDefinition S) : Except ObjectError Unit :=
  match d.methods.find? fun m => m.name = d.name with
  | some m => if m.kind ≠ .instanceMethod then .error (.invalidConstructorKind d.name) else .ok ()
  | none => .ok ()

def checkProperty (d : Draft S) (p : PropertyDescriptor S) : Except ObjectError Unit := do
  match ← findCombinedProperty r drafts p.name d.superclass with
  | none => return
  | some (inheritedFrom, inherited) =>
    if inherited.isAbstract then
      if inherited.getAccess ≠ p.getAccess ∨ inherited.setAccess ≠ p.setAccess then
        throw (.abstractPropertyOverrideAccessMismatch d.definition.name p.name)
    else
      throw (.inheritedPropertyConflict d.definition.name p.name inheritedFrom)

def checkMethod (d : Draft S) (m : MethodDescriptor) : Except ObjectError Unit := do
  match ← findCombinedMethod r drafts m.name d.superclass with
  | none => return
  | some (_, inherited) =>
    if inherited.isSealed then
      throw (.sealedMethodOverride d.definition.name m.name)
    if inherited.kind ≠ m.kind ∧ ¬inherited.isAbstract then
      throw (.overrideKindMismatch d.definition.name m.name inherited.kind m.kind)

def validateInheritedMembers (d : Draft S) : Except ObjectError Unit := do
  checkConstructor d.definition
  d.definition.properties.forM (checkProperty r drafts d)
  d.definition.methods.forM (checkMethod r drafts d)

/-- The drafts of a batch, and the next free identity. -/
def draftClasses (definitions : List (ClassDefinition S))
    : Except ObjectError (List (Draft S) × Nat) := do
  let n ← definitions.foldlM (number r) { numbered := [], nextId := r.nextId }
  let drafts ← n.numbered.mapM (resolve r n.numbered)
  return (drafts, n.nextId)

def withSemantics (d : Draft S) : Except ObjectError (Draft S × ClassSemantics) := do
  return (d, ← effectiveSemantics r drafts d)

def describe (entry : Draft S × ClassSemantics) : Except ObjectError (ClassDescriptor S) := do
  let isAbstract ← effectiveAbstractness r drafts entry.1
  return .fromDefinition entry.1.id entry.1.definition entry.1.superclass
    entry.1.additionalSuperclasses entry.2 isAbstract

/-- All checks of a batch. Nothing is written before they succeed. -/
def validateClasses : Except ObjectError (List (ClassDescriptor S)) := do
  drafts.forM checkEnumerationBase
  drafts.forM fun d => d.superclass.toList.forM (validateSealedSuperclass r drafts d)
  drafts.forM fun d => d.additionalSuperclasses.forM (validateSealedSuperclass r drafts d)
  drafts.forM (checkCombinedCycle r drafts)
  let semantics ← drafts.mapM (withSemantics r drafts)
  let classes ← semantics.mapM (describe r drafts)
  classes.forM checkEvents
  drafts.forM (validateInheritedMembers r drafts)
  return classes

end Batch

namespace ClassRegistry

def insertClass (r : ClassRegistry S) (c : ClassDescriptor S) : ClassRegistry S :=
  { r with names := r.names.insert c.name c.id, classes := r.classes.insert c.id c }

def planClasses (r : ClassRegistry S) (definitions : List (ClassDefinition S))
    : Except ObjectError (List (ClassDescriptor S) × Nat) := do
  let (drafts, nextId) ← draftClasses r definitions
  let classes ← validateClasses r drafts
  return (classes, nextId)

def registerClasses (r : ClassRegistry S) (definitions : List (ClassDefinition S))
    : Except ObjectError (List Nat) × ClassRegistry S :=
  if definitions.isEmpty then
    (.ok [], r)
  else
    match r.planClasses definitions with
    | .error e => (.error e, r)
    | .ok (classes, nextId) =>
      (.ok (classes.map ClassDescriptor.id), { classes.foldl insertClass r with nextId := nextId })

def registerClass (r : ClassRegistry S) (definition : ClassDefinition S)
    : Except ObjectError Nat × ClassRegistry S :=
  match r.registerClasses [definition] with
  | (.error e, r') => (.error e, r')
  | (.ok ids, r') =>
    match ids.getLast? with
    | some id => (.ok id, r')
    | none => (.error (.idExhausted "class"), r')

end ClassRegistry

section Lookup

inductive EventAccess where
  | listen
  | notify
  deriving DecidableEq, Repr

def EventDescriptor.requiredAccess (e : EventDescriptor) : EventAccess → Access
  | .listen => e.listenAccess
  | .notify => e.notifyAccess

structure MethodSelection where
  receiverClass : Nat
  declaringClass : Nat
  descriptor : MethodDescriptor
  deriving DecidableEq, Repr

structure EventSelection where
  receiverClass : Nat
  declaringClass : Nat
  descriptor : EventDescriptor
  deriving DecidableEq, Repr

namespace ClassRegistry

variable (r : ClassRegistry S)

def superclasses (id : Nat) : Except ObjectError (List Nat) := do
  return (← r.getClass id).superclasses

/-- The search through all superclasses, every class once. -/
def ancestry (id : Nat) : Except ObjectError (Traversal.Search Nat) :=
  Traversal.visit r.superclasses (.inheritanceCycle id) r.classes.size id { visited := [], finished := [] }

def ancestryPreorder (id : Nat) : Except ObjectError (List Nat) := do
  return (← r.ancestry id).visited

def ancestryPostorder (id : Nat) : Except ObjectError (List Nat) := do
  return (← r.ancestry id).finished

def isSubclassOf (id ancestor : Nat) : Except ObjectError Bool := do
  let _ ← r.getClass ancestor
  return ancestor ∈ (← r.ancestryPreorder id)

/-- The caller is the class whose method performs the access, none is an access from outside. -/
def checkAccess (declaringClass : Nat) (required : Access) (caller : Option Nat) (member : String)
    : Except ObjectError Unit := do
  let allowed ← match required, caller with
    | .publicAccess, _ => pure true
    | .privateAccess, _ => pure (caller = some declaringClass : Bool)
    | .protectedAccess, some caller => r.isSubclassOf caller declaringClass
    | .protectedAccess, none => pure false
  if ¬allowed then
    throw (.accessDenied member declaringClass required caller)

def selectMethod (receiverClass : Nat) (name : String) : Except ObjectError MethodSelection := do
  let preorder ← r.ancestryPreorder receiverClass
  let found ← preorder.findSomeM? fun id => do
    return ((← r.getClass id).localMethod name).map fun m => (id, m)
  match found with
  | some (id, m) => return { receiverClass := receiverClass, declaringClass := id, descriptor := m }
  | none => throw (.methodNotFound receiverClass name)

def methodAccessDeclaringClass (receiverClass : Nat) (name : String) (implementationClass : Nat)
    (access : Access) (kind : MethodKind) : Except ObjectError Nat := do
  (← r.ancestryPreorder receiverClass).foldlM (fun owner id => do
    match (← r.getClass id).localMethod name with
    | some m =>
      if m.access = access ∧ (m.isAbstract ∨ access = .protectedAccess ∧ m.kind = kind) then
        return id
      else
        return owner
    | none => return owner) implementationClass

def resolveMethodAny (receiverClass : Nat) (name : String) (caller : Option Nat)
    : Except ObjectError MethodSelection := do
  let selection ← r.selectMethod receiverClass name
  let accessDeclaringClass ← r.methodAccessDeclaringClass receiverClass name selection.declaringClass
    selection.descriptor.access selection.descriptor.kind
  r.checkAccess accessDeclaringClass selection.descriptor.access caller name
  if selection.descriptor.isAbstract then
    throw (.abstractMethodCall (← r.getClass selection.declaringClass).name name)
  return selection

def resolveEvent (receiverClass : Nat) (name : String) (operation : EventAccess) (caller : Option Nat)
    : Except ObjectError EventSelection := do
  let preorder ← r.ancestryPreorder receiverClass
  let found ← preorder.findSomeM? fun id => do
    return ((← r.getClass id).events.find? fun e => e.name = name).map fun e => (id, e)
  match found with
  | some (id, e) =>
    r.checkAccess id (e.requiredAccess operation) caller name
    return { receiverClass := receiverClass, declaringClass := id, descriptor := e }
  | none => throw (.eventNotFound receiverClass name)

/-- The members of all superclasses in the order base to derived, a derived declaration replaces the
inherited one in its place. -/
def effectiveMembers {α : Type} (members : ClassDescriptor S → List α) (name : α → String) (id : Nat)
    : Except ObjectError (List (Nat × α)) := do
  let preorder ← r.ancestryPreorder id
  let postorder ← r.ancestryPostorder id
  let selection ← postorder.foldlM (fun s id => do
    let c ← r.getClass id
    return (members c).foldl
      (fun s a => s.offer (fun entry : Nat × α => name entry.2) (preorder.idxOf id) (id, a)) s)
    (Table.Selection.empty : Table.Selection String (Nat × α))
  return selection.entries

def effectiveEvents : Nat → Except ObjectError (List (Nat × EventDescriptor)) :=
  r.effectiveMembers ClassDescriptor.events EventDescriptor.name

def effectiveMethods : Nat → Except ObjectError (List (Nat × MethodDescriptor)) :=
  r.effectiveMembers ClassDescriptor.methods MethodDescriptor.name

end ClassRegistry
end Lookup

end Objects
end OpenMat
