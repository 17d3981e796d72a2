import Std.Data.TreeMap.Lemmas
import OpenMat.Objects.Error

/-!
This module contains the store of objects with its handle lifecycle and its two-phase collection.
-/

namespace OpenMat
namespace Objects

open Std

structure PropertyKey where
  declaringClass : Nat
  name : String
  deriving DecidableEq, Repr

instance : Ord PropertyKey where
  compare := compareLex (compareOn PropertyKey.declaringClass) (compareOn PropertyKey.name)

instance : TransOrd PropertyKey :=
  inferInstanceAs
    (TransCmp (compareLex (compareOn PropertyKey.declaringClass) (compareOn PropertyKey.name)))

structure FinalizationCandidate where
  id : Nat
  classId : Nat
  constructionState : ConstructionState
  deriving DecidableEq, Repr

structure GcPlan where
  candidates : List FinalizationCandidate
  unreachable : List Nat
  plannedObjects : Nat
  plannedSlots : Nat
  deriving DecidableEq, Repr

structure GcMetrics where
  liveObjects : Nat
  liveSlots : Nat
  allocationDebt : Nat
  collections : Nat
  totalAllocatedObjects : Nat
  totalReclaimedObjects : Nat
  totalReclaimedSlots : Nat
  lastReclaimedObjects : Nat
  lastReclaimedSlots : Nat
  deriving DecidableEq, Repr

structure GcCollection where
  reclaimedObjects : Nat
  reclaimedSlots : Nat
  remainingObjects : Nat
  remainingSlots : Nat
  deriving DecidableEq, Repr

structure ObjectRef where
  id : Nat
  classId : Nat
  semantics : ClassSemantics
  deriving DecidableEq, Repr

structure ObjectRecord (S : Type) where
  classId : Nat
  semantics : ClassSemantics
  state : ConstructionState
  handleState : HandleState
  slots : TreeMap PropertyKey S

structure ObjectStore (S : Type) where
  objects : TreeMap Nat (ObjectRecord S)
  invalidHandles : TreeMap Nat Nat
  nextId : Nat
  metrics : GcMetrics

/-- What an allocation asks the registry for: the semantics of a class and its stored properties with
their explicit defaults, in the order of initialization. -/
structure ClassLayout (S : Type) where
  semantics : ClassSemantics
  storedProperties : List (PropertyKey × Option S)

namespace ObjectStore

variable {S T α : Type}

def new : ObjectStore S where
  objects := ∅
  invalidHandles := ∅
  nextId := 1
  metrics := {
    liveObjects := 0
    liveSlots := 0
    allocationDebt := 0
    collections := 0
    totalAllocatedObjects := 0
    totalReclaimedObjects := 0
    totalReclaimedSlots := 0
    lastReclaimedObjects := 0
    lastReclaimedSlots := 0
  }

section Records

def validateReference (object : ObjectRef) (record : ObjectRecord S) : Except ObjectError Unit :=
  if object.classId ≠ record.classId ∨ object.semantics ≠ record.semantics then
    .error (.objectReferenceMismatch object.id)
  else
    .ok ()

def recordRaw (s : ObjectStore S) (object : ObjectRef) : Except ObjectError (ObjectRecord S) :=
  match s.objects[object.id]? with
  | none =>
    match s.invalidHandles[object.id]? with
    | some classId =>
      if classId = object.classId ∧ object.semantics = .handle then
        .error (.handleNotAlive object.id .invalid)
      else
        .error (.objectReferenceMismatch object.id)
    | none => .error (.unknownObject object.id)
  | some record => do
    validateReference object record
    return record

def ObjectRecord.isAlive (record : ObjectRecord S) : Bool :=
  record.semantics = .value || record.handleState = .alive

def record (s : ObjectStore S) (object : ObjectRef) : Except ObjectError (ObjectRecord S) := do
  let record ← s.recordRaw object
  if ObjectRecord.isAlive record then
    return record
  else
    throw (.handleNotAlive object.id record.handleState)

def finalizingRecord (s : ObjectStore S) (candidate : FinalizationCandidate)
    : Except ObjectError (ObjectRecord S) :=
  match s.objects[candidate.id]? with
  | none =>
    if s.invalidHandles[candidate.id]? = some candidate.classId then
      .error (.handleNotAlive candidate.id .invalid)
    else
      .error (.finalizationCandidateMismatch candidate.id)
  | some record =>
    if record.classId ≠ candidate.classId ∨ record.semantics ≠ .handle
        ∨ record.state ≠ candidate.constructionState ∨ record.handleState ≠ .finalizing then
      .error (.finalizationCandidateMismatch candidate.id)
    else
      .ok record

/-- Replace the record of an object. -/
def putRecord (s : ObjectStore S) (id : Nat) (record : ObjectRecord S) : ObjectStore S :=
  { s with objects := s.objects.insert id record }

def reserveId (s : ObjectStore S) : Except ObjectError (Nat × Nat) :=
  if s.nextId < u64Max then
    .ok (s.nextId, s.nextId + 1)
  else
    .error (.idExhausted "object")

def recordAllocation (s : ObjectStore S) (slotCount : Nat) : ObjectStore S :=
  let slots := min slotCount u64Max
  { s with
    metrics := { s.metrics with
      liveObjects := saturatingAdd s.metrics.liveObjects 1
      liveSlots := saturatingAdd s.metrics.liveSlots slots
      allocationDebt := saturatingAdd s.metrics.allocationDebt (saturatingAdd slots 1)
      totalAllocatedObjects := saturatingAdd s.metrics.totalAllocatedObjects 1 } }

/-- The removed record and the store without it. A handle leaves a tombstone. -/
def removeRecord (s : ObjectStore S) (id : Nat) : Option (ObjectRecord S) × ObjectStore S :=
  match s.objects[id]? with
  | none => (none, s)
  | some record =>
    let isHandle := record.semantics = .handle
    let record := if isHandle then { record with handleState := .invalid } else record
    let slots := min record.slots.size u64Max
    (some record, { s with
      objects := s.objects.erase id
      invalidHandles :=
        if isHandle then s.invalidHandles.insert id record.classId else s.invalidHandles
      metrics := { s.metrics with
        liveObjects := s.metrics.liveObjects - 1
        liveSlots := s.metrics.liveSlots - slots } })

def recordReclamation (s : ObjectStore S) (record : ObjectRecord S) : ObjectStore S :=
  { s with
    metrics := { s.metrics with
      totalReclaimedObjects := saturatingAdd s.metrics.totalReclaimedObjects 1
      totalReclaimedSlots :=
        saturatingAdd s.metrics.totalReclaimedSlots (min record.slots.size u64Max) } }

/-- Remove a record, and count it as reclaimed. -/
def reclaim (s : ObjectStore S) (id : Nat) : ObjectStore S :=
  match s.removeRecord id with
  | (none, s) => s
  | (some record, s) => s.recordReclamation record

end Records

section Queries

def handleState (s : ObjectStore S) (object : ObjectRef) : Except ObjectError HandleState :=
  if object.semantics ≠ .handle then
    .error (.objectSemanticsMismatch object.id .handle object.semantics)
  else
    match s.objects[object.id]? with
    | some record => do
      validateReference object record
      return record.handleState
    | none =>
      match s.invalidHandles[object.id]? with
      | some classId =>
        if classId = object.classId then
          .ok .invalid
        else
          .error (.objectReferenceMismatch object.id)
      | none => .error (.unknownObject object.id)

def slotOf (id : Nat) (record : ObjectRecord S) (key : PropertyKey) : Except ObjectError S :=
  match record.slots[key]? with
  | some slot => .ok slot
  | none => .error (.propertySlotNotFound id key.name)

def slot (s : ObjectStore S) (object : ObjectRef) (key : PropertyKey) : Except ObjectError S := do
  slotOf object.id (← s.record object) key

def finalizerSlot (s : ObjectStore S) (candidate : FinalizationCandidate) (key : PropertyKey)
    : Except ObjectError S := do
  slotOf candidate.id (← s.finalizingRecord candidate) key

end Queries

section Construction

def transition (s : ObjectStore S) (object : ObjectRef) (expected next : ConstructionState)
    : Except ObjectError (ObjectStore S) := do
  let record ← s.record object
  if record.state ≠ expected then
    throw (.invalidConstructionTransition object.id record.state next)
  else
    return s.putRecord object.id { record with state := next }

def beginConstruction (s : ObjectStore S) (object : ObjectRef) : Except ObjectError (ObjectStore S) :=
  s.transition object .allocated .constructing

def finishConstruction (s : ObjectStore S) (object : ObjectRef)
    : Except ObjectError (ObjectStore S) :=
  s.transition object .constructing .constructed

def failConstruction (s : ObjectStore S) (object : ObjectRef) : Except ObjectError (ObjectStore S) := do
  let record ← s.record object
  match record.state with
  | .allocated => return s.putRecord object.id { record with state := .failed }
  | .constructing => return s.putRecord object.id { record with state := .failed }
  | state => throw (.invalidConstructionTransition object.id state .failed)

def discardIncomplete (s : ObjectStore S) (object : ObjectRef)
    : Except ObjectError (ObjectStore S) := do
  let record ← s.record object
  if record.state = .constructed then
    throw (.objectNotConstructed object.id record.state)
  else
    return (s.removeRecord object.id).2

def discardValueAssignmentCopy (s : ObjectStore S) (object : ObjectRef)
    : Except ObjectError (ObjectStore S) := do
  let record ← s.record object
  if record.semantics ≠ .value then
    throw (.objectSemanticsMismatch object.id .value record.semantics)
  else if record.state ≠ .constructed then
    throw (.objectNotConstructed object.id record.state)
  else
    return (s.removeRecord object.id).2

/-- A write through the reference that `slot_mut` returns. -/
def writeSlot (s : ObjectStore S) (object : ObjectRef) (key : PropertyKey) (value : S)
    : Except ObjectError (ObjectStore S) := do
  let record ← s.record object
  let _ ← slotOf object.id record key
  return s.putRecord object.id { record with slots := record.slots.insert key value }

end Construction

section Finalization

def beginFinalization (s : ObjectStore S) (object : ObjectRef) (requiresDestructor : Bool)
    : Except ObjectError (Option FinalizationCandidate × ObjectStore S) :=
  if object.semantics ≠ .handle then
    .error (.objectSemanticsMismatch object.id .handle object.semantics)
  else
    match s.invalidHandles[object.id]? with
    | some classId =>
      if classId = object.classId then
        .ok (none, s)
      else
        .error (.objectReferenceMismatch object.id)
    | none => do
      let record ← s.recordRaw object
      if record.handleState ≠ .alive then
        return (none, s)
      else
        let s := s.putRecord object.id { record with handleState := .finalizing }
        if requiresDestructor then
          return (some {
            id := object.id
            classId := record.classId
            constructionState := record.state
          }, s)
        else
          return (none, s.reclaim object.id)

def finishFinalization (s : ObjectStore S) (candidate : FinalizationCandidate)
    : Except ObjectError (Bool × ObjectStore S) :=
  match s.invalidHandles[candidate.id]? with
  | some classId =>
    if classId = candidate.classId then
      .ok (false, s)
    else
      .error (.finalizationCandidateMismatch candidate.id)
  | none => do
    let _ ← s.finalizingRecord candidate
    return (true, s.reclaim candidate.id)

end Finalization

section Allocation

/-- Insert a record under the next identity. -/
def allocateRecord (s : ObjectStore S) (record : ObjectRecord S)
    : Except ObjectError (ObjectRef × ObjectStore S) := do
  let (id, nextId) ← s.reserveId
  let stored := { s with objects := s.objects.insert id record, nextId := nextId }
  return ({
    id := id
    classId := record.classId
    semantics := record.semantics
  }, stored.recordAllocation record.slots.size)

def assignmentCopyWith (s : ObjectStore S) (source : ObjectRef) (copySlot : S → Except ObjectError S)
    : Except ObjectError (ObjectRef × ObjectStore S) := do
  let sourceRecord ← s.record source
  if sourceRecord.state ≠ .constructed then
    throw (.objectNotConstructed source.id sourceRecord.state)
  else if sourceRecord.semantics = .handle then
    return (source, s)
  else
    let slots ← sourceRecord.slots.toList.mapM fun (key, slot) => return (key, ← copySlot slot)
    s.allocateRecord {
      classId := sourceRecord.classId
      semantics := sourceRecord.semantics
      state := sourceRecord.state
      handleState := .alive
      slots := .ofList slots
    }

/-- The slot of a stored property is its explicit default or else the implicit one. -/
def initialSlot (implicitDefault : PropertyKey → Except ObjectError S)
    (property : PropertyKey × Option S) : Except ObjectError (PropertyKey × S) :=
  match property.2 with
  | some value => .ok (property.1, value)
  | none => return (property.1, ← implicitDefault property.1)

def allocateWith (s : ObjectStore S) (registry : Nat → Except ObjectError (ClassLayout S))
    (classId : Nat) (implicitDefault : PropertyKey → Except ObjectError S)
    : Except ObjectError (ObjectRef × ObjectStore S) := do
  let layout ← registry classId
  let slots ← layout.storedProperties.mapM (initialSlot implicitDefault)
  s.allocateRecord {
    classId := classId
    semantics := layout.semantics
    state := .allocated
    handleState := .alive
    slots := .ofList slots
  }

end Allocation

section Collection

variable {E : Type} (s : ObjectStore S)

/-- The first pending object that is to be marked, and the objects that are pending after it. -/
def nextUnmarked (marked : List Nat) : List Nat → Option ((Nat × ObjectRecord S) × List Nat)
  | [] => none
  | id :: pending =>
    if marked.contains id then
      nextUnmarked marked pending
    else
      match s.objects[id]? with
      | none => nextUnmarked marked pending
      | some record =>
        if ObjectRecord.isAlive record then
          some ((id, record), pending)
        else
          nextUnmarked marked pending

/-- The handles in the slots of a record. The callback may keep a state of its own. -/
def traceSlots (traceSlot : S → T → Except E (List Nat) × T) : List S → T → Except E (List Nat) × T
  | [], t => (.ok [], t)
  | slot :: slots, t =>
    match traceSlot slot t with
    | (.error e, t) => (.error e, t)
    | (.ok handles, t) =>
      match traceSlots traceSlot slots t with
      | (.error e, t) => (.error e, t)
      | (.ok outgoing, t) => (.ok (handles ++ outgoing), t)

/-- The marked objects. The last pending object comes first, and none is marked twice. -/
def mark (traceSlot : S → T → Except E (List Nat) × T)
    : Nat → List Nat → List Nat → T → Except E (List Nat) × T
  | 0, _, marked, t => (.ok marked, t)
  | unmarked + 1, pending, marked, t =>
    match s.nextUnmarked marked pending with
    | none => (.ok marked, t)
    | some ((id, record), pending) =>
      match traceSlots traceSlot record.slots.values t with
      | (.error e, t) => (.error e, t)
      | (.ok outgoing, t) => mark traceSlot unmarked (outgoing.reverse ++ pending) (id :: marked) t

def needsDestructor (needsFinalization : Nat → T → Except E Bool × T) (record : ObjectRecord S) (t : T)
    : Except E Bool × T :=
  if record.semantics = .handle then needsFinalization record.classId t else (.ok false, t)

/-- The objects that are not marked, and the handles among them that need a destructor. -/
def selectUnreachable (needsFinalization : Nat → T → Except E Bool × T) (marked : List Nat)
    : List (Nat × ObjectRecord S) → T → Except E (List Nat × List FinalizationCandidate)
  | [], _ => .ok ([], [])
  | (id, record) :: rest, t =>
    if marked.contains id || !ObjectRecord.isAlive record then
      selectUnreachable needsFinalization marked rest t
    else
      match needsDestructor needsFinalization record t with
      | (.error e, _) => .error e
      | (.ok needs, t) => do
        let (unreachable, candidates) ← selectUnreachable needsFinalization marked rest t
        let candidate : FinalizationCandidate := {
          id := id
          classId := record.classId
          constructionState := record.state
        }
        return (id :: unreachable, if needs then candidate :: candidates else candidates)

/-- A handle becomes invalid, its record stays. -/
def invalidate (s : ObjectStore S) (id : Nat) : ObjectStore S :=
  match s.objects[id]? with
  | none => s
  | some record =>
    if record.semantics = .handle then
      s.putRecord id { record with handleState := .finalizing }
    else
      s

def slotCount (id : Nat) : Nat :=
  match s.objects[id]? with
  | none => 0
  | some record => min record.slots.size u64Max

def tryBeginCollectionWith (roots : List Nat) (traceSlot : S → T → Except E (List Nat) × T)
    (needsFinalization : Nat → T → Except E Bool × T) (t : T)
    : Except E (GcPlan × ObjectStore S) :=
  match s.mark traceSlot s.objects.size roots.reverse [] t with
  | (.error e, _) => .error e
  | (.ok marked, t) => do
    let (unreachable, candidates) ←
      selectUnreachable needsFinalization marked s.objects.toList.reverse t
    let s := unreachable.foldl invalidate s
    return ({
      candidates := candidates
      unreachable := unreachable
      plannedObjects := min unreachable.length u64Max
      plannedSlots := unreachable.foldl (fun slots id => saturatingAdd slots (s.slotCount id)) 0
    }, s)

def finishCollection (plan : GcPlan) : GcCollection × ObjectStore S :=
  let s := plan.unreachable.foldl reclaim s
  let metrics := { s.metrics with
    allocationDebt := 0
    collections := saturatingAdd s.metrics.collections 1
    lastReclaimedObjects := plan.plannedObjects
    lastReclaimedSlots := plan.plannedSlots
  }
  ({
    reclaimedObjects := plan.plannedObjects
    reclaimedSlots := plan.plannedSlots
    remainingObjects := metrics.liveObjects
    remainingSlots := metrics.liveSlots
  }, { s with metrics := metrics })

end Collection

end ObjectStore

/-- The operations on a store, with the callbacks that they are given. -/
inductive Operation (S T E : Type) where
  | allocate (registry : Nat → Except ObjectError (ClassLayout S)) (classId : Nat)
      (implicitDefault : PropertyKey → Except ObjectError S)
  | assignmentCopy (source : ObjectRef) (copySlot : S → Except ObjectError S)
  | beginConstruction (object : ObjectRef)
  | finishConstruction (object : ObjectRef)
  | failConstruction (object : ObjectRef)
  | writeSlot (object : ObjectRef) (key : PropertyKey) (value : S)
  | discardIncomplete (object : ObjectRef)
  | discardValueAssignmentCopy (object : ObjectRef)
  | beginFinalization (object : ObjectRef) (requiresDestructor : Bool)
  | finishFinalization (candidate : FinalizationCandidate)
  | beginCollection (roots : List Nat) (traceSlot : S → T → Except E (List Nat) × T)
      (needsFinalization : Nat → T → Except E Bool × T) (t : T)
  | finishCollection (plan : GcPlan)

/-- The store after an operation, with the identities it has allocated and the candidates it has issued.
An operation that fails leaves the store as it is. -/
structure Outcome (S : Type) where
  store : ObjectStore S
  allocated : List Nat
  issued : List FinalizationCandidate

namespace Outcome

variable {S α : Type} (s : ObjectStore S)

def unchanged : Outcome S where
  store := s
  allocated := []
  issued := []

def ofStore : Except ObjectError (ObjectStore S) → Outcome S
  | .error _ => unchanged s
  | .ok s' => { store := s', allocated := [], issued := [] }

/-- The returned reference has a new identity unless it is an alias. -/
def ofReference (isAlias : Bool) : Except ObjectError (ObjectRef × ObjectStore S) → Outcome S
  | .error _ => unchanged s
  | .ok (object, s') => {
      store := s'
      allocated := if isAlias then [] else [object.id]
      issued := []
    }

def ofCandidates : Except α (List FinalizationCandidate × ObjectStore S) → Outcome S
  | .error _ => unchanged s
  | .ok (issued, s') => { store := s', allocated := [], issued := issued }

end Outcome

def step {S T E : Type} (op : Operation S T E) (s : ObjectStore S) : Outcome S :=
  match op with
  | .allocate registry classId implicitDefault =>
    .ofReference s false (s.allocateWith registry classId implicitDefault)
  | .assignmentCopy source copySlot =>
    -- The copy of a handle is an alias of it.
    .ofReference s (source.semantics = .handle) (s.assignmentCopyWith source copySlot)
  | .beginConstruction object => .ofStore s (s.beginConstruction object)
  | .finishConstruction object => .ofStore s (s.finishConstruction object)
  | .failConstruction object => .ofStore s (s.failConstruction object)
  | .writeSlot object key value => .ofStore s (s.writeSlot object key value)
  | .discardIncomplete object => .ofStore s (s.discardIncomplete object)
  | .discardValueAssignmentCopy object => .ofStore s (s.discardValueAssignmentCopy object)
  | .beginFinalization object requiresDestructor =>
    .ofCandidates s ((s.beginFinalization object requiresDestructor).map fun result =>
      (result.1.toList, result.2))
  | .finishFinalization candidate =>
    .ofStore s ((s.finishFinalization candidate).map Prod.snd)
  | .beginCollection roots traceSlot needsFinalization t =>
    .ofCandidates s ((s.tryBeginCollectionWith roots traceSlot needsFinalization t).map fun result =>
      (result.1.candidates, result.2))
  | .finishCollection plan =>
    { store := (s.finishCollection plan).2, allocated := [], issued := [] }

end Objects
end OpenMat
