import Mathlib.Data.List.Nodup
import OpenMat.Diagnostic
import OpenMat.Objects.Error

/-!
This module contains the definitions of classes, the metadata that is kept for registered classes and the
check of a definition on its own.
-/

namespace OpenMat
namespace Objects

variable {S : Type}

inductive Superclass where
  | id (id : Nat)
  | name (name : String)
  deriving DecidableEq, Repr

inductive PropertyKind where
  | stored
  | constant
  | dependent
  deriving DecidableEq, Repr

structure PropertyDescriptor (S : Type) where
  name : String
  kind : PropertyKind
  getAccess : Option Access
  setAccess : Option Access
  defaultValue : Option S
  isAbstract : Bool
  unsupportedAttributes : List String
  deriving DecidableEq, Repr

structure MethodDescriptor where
  name : String
  kind : MethodKind
  access : Access
  isAbstract : Bool
  isSealed : Bool
  unsupportedAttributes : List String
  deriving DecidableEq, Repr

structure EnumerationMemberDescriptor (S : Type) where
  name : String
  constructorArguments : List S
  deriving DecidableEq, Repr

structure EventDescriptor where
  name : String
  listenAccess : Access
  notifyAccess : Access
  hidden : Bool
  deriving DecidableEq, Repr

structure ClassDefinition (S : Type) where
  name : String
  superclass : Option Superclass
  additionalSuperclasses : List Nat
  declaredSemantics : ClassSemantics
  declaredAbstract : Option Bool
  isSealed : Bool
  isEnumeration : Bool
  enumerationBase : Option String
  enumerationMembers : List (EnumerationMemberDescriptor S)
  events : List EventDescriptor
  properties : List (PropertyDescriptor S)
  methods : List MethodDescriptor
  unsupportedAttributes : List String
  deriving DecidableEq, Repr

structure ClassDescriptor (S : Type) where
  id : Nat
  name : String
  superclass : Option Nat
  additionalSuperclasses : List Nat
  declaredSemantics : ClassSemantics
  effectiveSemantics : ClassSemantics
  declaredAbstract : Option Bool
  effectiveAbstract : Bool
  isSealed : Bool
  isEnumeration : Bool
  enumerationBase : Option String
  enumerationMembers : List (EnumerationMemberDescriptor S)
  events : List EventDescriptor
  properties : List (PropertyDescriptor S)
  methods : List MethodDescriptor
  deriving DecidableEq, Repr

namespace ClassDescriptor

def fromDefinition (id : Nat) (definition : ClassDefinition S) (superclass : Option Nat)
    (additionalSuperclasses : List Nat) (effectiveSemantics : ClassSemantics) (effectiveAbstract : Bool)
    : ClassDescriptor S where
  id := id
  name := definition.name
  superclass := superclass
  additionalSuperclasses := additionalSuperclasses
  declaredSemantics := definition.declaredSemantics
  effectiveSemantics := effectiveSemantics
  declaredAbstract := definition.declaredAbstract
  effectiveAbstract := effectiveAbstract
  isSealed := definition.isSealed
  isEnumeration := definition.isEnumeration
  enumerationBase := definition.enumerationBase
  enumerationMembers := definition.enumerationMembers
  events := definition.events
  properties := definition.properties
  methods := definition.methods

/-- The direct superclasses in their declared order. -/
def superclasses (c : ClassDescriptor S) : List Nat :=
  c.superclass.toList ++ c.additionalSuperclasses

def localProperty (c : ClassDescriptor S) (name : String) : Option (PropertyDescriptor S) :=
  c.properties.find? fun p => p.name = name

def localMethod (c : ClassDescriptor S) (name : String) : Option MethodDescriptor :=
  c.methods.find? fun m => m.name = name

end ClassDescriptor

def validateEnumeration (d : ClassDefinition S) : Except ObjectError Unit := do
  if d.isEnumeration ∧ (d.declaredAbstract = some true ∨ d.properties.any (·.isAbstract) ∨
      d.methods.any (·.isAbstract)) then
    throw (.invalidEnumerationDefinition d.name "enumeration classes cannot be abstract")
  if d.isEnumeration ∧ d.enumerationMembers.isEmpty then
    throw (.invalidEnumerationDefinition d.name "enumeration classes must declare at least one member")
  if d.enumerationBase = some "" then
    throw (.invalidEnumerationDefinition d.name "enumeration base name cannot be empty")

def addEnumerationMember (d : ClassDefinition S) (featureNames : List String)
    (m : EnumerationMemberDescriptor S) : Except ObjectError (List String) :=
  if m.name = "" ∨ m.name ∈ featureNames then
    .error (.duplicateEnumerationMember d.name m.name)
  else
    .ok (featureNames ++ [m.name])

def addEvent (d : ClassDefinition S) (featureNames : List String) (e : EventDescriptor)
    : Except ObjectError (List String) :=
  if e.name = "" ∨ e.name ∈ featureNames then
    .error (.duplicateEvent d.name e.name)
  else
    .ok (featureNames ++ [e.name])

namespace PropertyDescriptor

def validAccess (p : PropertyDescriptor S) : Bool :=
  match p.kind with
  | .stored => p.getAccess.isSome && p.setAccess.isSome
  | .constant => p.getAccess.isSome && p.setAccess.isNone
  | .dependent => p.getAccess.isSome || p.setAccess.isSome

end PropertyDescriptor

def addProperty (d : ClassDefinition S) (featureNames propertyNames : List String)
    (p : PropertyDescriptor S) : Except ObjectError (List String) :=
  if p.name = "" then
    .error (.emptyName "property")
  else if p.name ∈ propertyNames then
    .error (.duplicateProperty d.name p.name)
  else if p.name ∈ featureNames then
    .error (.invalidPropertyDefinition d.name p.name
      "property name conflicts with an enumeration member or event")
  else if p.isAbstract ∧ p.defaultValue.isSome then
    .error (.invalidPropertyDefinition d.name p.name "abstract property cannot carry a default value")
  else if ¬p.validAccess then
    .error (.invalidPropertyDefinition d.name p.name
      "property kind and readable/writable access metadata disagree")
  else
    match p.unsupportedAttributes with
    | a :: _ => .error (.unsupportedAttribute (.ofProperty p.name) a)
    | [] => .ok (propertyNames ++ [p.name])

def addMethod (d : ClassDefinition S) (featureNames methodNames : List String) (m : MethodDescriptor)
    : Except ObjectError (List String) :=
  if m.name = "" then
    .error (.emptyName "method")
  else if m.name ∈ methodNames then
    .error (.duplicateMethod d.name m.name)
  else if m.name ∈ featureNames then
    .error (.duplicateMethod d.name m.name)
  else
    match m.unsupportedAttributes with
    | a :: _ => .error (.unsupportedAttribute (.ofMethod m.name) a)
    | [] => .ok (methodNames ++ [m.name])

def validateDefinition (d : ClassDefinition S) : Except ObjectError Unit := do
  if d.name = "" then
    throw (.emptyName "class")
  if let a :: _ := d.unsupportedAttributes then
    throw (.unsupportedAttribute (.ofClass d.name) a)
  validateEnumeration d
  let memberNames ← d.enumerationMembers.foldlM (addEnumerationMember d) []
  let featureNames ← d.events.foldlM (addEvent d) memberNames
  let _ ← d.properties.foldlM (addProperty d featureNames) []
  let _ ← d.methods.foldlM (addMethod d featureNames) []

section Names

variable {α : Type} {d : ClassDefinition S} {featureNames : List String}

/-- A loop that takes only new names collects different names. -/
theorem nodup_of_foldlM {add : List String → α → Except ObjectError (List String)} {name : α → String}
    {l : List α} {names result : List String}
    (hadd : ∀ names a result, add names a = .ok result → name a ∉ names ∧ result = names ++ [name a])
    (h : l.foldlM add names = .ok result) (hnames : names.Nodup)
    : result = names ++ l.map name ∧ result.Nodup := by
  induction l generalizing names with
  | nil =>
    cases h
    exact ⟨by simp, hnames⟩
  | cons a l ih =>
    rw [List.foldlM_cons, bind_eq_ok_iff] at h
    obtain ⟨names', ha, h⟩ := h
    obtain ⟨hfresh, rfl⟩ := hadd names a names' ha
    have hnodup : (names ++ [name a]).Nodup := by
      rw [List.nodup_append]
      refine ⟨hnames, List.nodup_singleton _, fun b hb c hc heq => ?_⟩
      rw [List.mem_singleton.mp hc] at heq
      exact hfresh (heq ▸ hb)
    obtain ⟨rfl, hresult⟩ := ih h hnodup
    exact ⟨by simp, hresult⟩

theorem addEnumerationMember_eq_ok (names : List String) (m : EnumerationMemberDescriptor S)
    (result : List String) (h : addEnumerationMember d names m = .ok result)
    : m.name ∉ names ∧ result = names ++ [m.name] := by
  rw [addEnumerationMember] at h
  split at h
  . cases h
  . next hname =>
    cases h
    exact ⟨fun hmem => hname (.inr hmem), rfl⟩

theorem addEvent_eq_ok (names : List String) (e : EventDescriptor) (result : List String)
    (h : addEvent d names e = .ok result)
    : e.name ∉ names ∧ result = names ++ [e.name] := by
  rw [addEvent] at h
  split at h
  . cases h
  . next hname =>
    cases h
    exact ⟨fun hmem => hname (.inr hmem), rfl⟩

theorem addMethod_eq_ok (names : List String) (m : MethodDescriptor) (result : List String)
    (h : addMethod d featureNames names m = .ok result)
    : m.name ∉ names ∧ result = names ++ [m.name] := by
  rw [addMethod] at h
  split at h
  . cases h
  . split at h
    . cases h
    . next hname =>
      split at h
      . cases h
      . split at h
        . cases h
        . cases h
          exact ⟨hname, rfl⟩

theorem addProperty_eq_ok (names : List String) (p : PropertyDescriptor S) (result : List String)
    (h : addProperty d featureNames names p = .ok result)
    : p.name ∉ names ∧ result = names ++ [p.name] := by
  rw [addProperty] at h
  split at h
  . cases h
  . split at h
    . cases h
    . next hname =>
      split at h
      . cases h
      . split at h
        . cases h
        . split at h
          . cases h
          . split at h
            . cases h
            . cases h
              exact ⟨hname, rfl⟩

/-- A valid definition gives its members of one kind different names. -/
theorem validateDefinition_nodup (h : validateDefinition d = .ok ())
    : (d.events.map EventDescriptor.name).Nodup ∧ (d.properties.map PropertyDescriptor.name).Nodup ∧
        (d.methods.map MethodDescriptor.name).Nodup := by
  have hmembers : ∃ memberNames featureNames propertyNames methodNames,
      d.enumerationMembers.foldlM (addEnumerationMember d) [] = .ok memberNames ∧
      d.events.foldlM (addEvent d) memberNames = .ok featureNames ∧
      d.properties.foldlM (addProperty d featureNames) [] = .ok propertyNames ∧
      d.methods.foldlM (addMethod d featureNames) [] = .ok methodNames := by
    rw [validateDefinition] at h
    split at h
    . cases h
    . split at h
      . cases h
      . obtain ⟨-, -, h⟩ := bind_eq_ok_iff.mp h
        obtain ⟨memberNames, hmembers, h⟩ := bind_eq_ok_iff.mp h
        obtain ⟨featureNames, hfeatures, h⟩ := bind_eq_ok_iff.mp h
        obtain ⟨propertyNames, hproperties, h⟩ := bind_eq_ok_iff.mp h
        obtain ⟨methodNames, hmethods, -⟩ := bind_eq_ok_iff.mp h
        exact ⟨memberNames, featureNames, propertyNames, methodNames, hmembers, hfeatures,
          hproperties, hmethods⟩
  obtain ⟨memberNames, featureNames, propertyNames, methodNames, hmembers, hfeatures, hproperties,
    hmethods⟩ := hmembers
  have hmember := (nodup_of_foldlM addEnumerationMember_eq_ok hmembers List.nodup_nil).2
  obtain ⟨rfl, hfeature⟩ := nodup_of_foldlM addEvent_eq_ok hfeatures hmember
  obtain ⟨rfl, hproperty⟩ := nodup_of_foldlM addProperty_eq_ok hproperties List.nodup_nil
  obtain ⟨rfl, hmethod⟩ := nodup_of_foldlM addMethod_eq_ok hmethods List.nodup_nil
  exact ⟨(List.nodup_append.mp hfeature).2.1, hproperty, hmethod⟩

end Names

end Objects
end OpenMat
