import OpenMat.Fallible.Basic

/-!
This module contains the failures of class registration, member lookup and object storage.
-/

namespace OpenMat
namespace Objects

inductive Access where
  | publicAccess
  | protectedAccess
  | privateAccess
  deriving DecidableEq, Repr

inductive ClassSemantics where
  | value
  | handle
  deriving DecidableEq, Repr

inductive MethodKind where
  | instanceMethod
  | staticMethod
  deriving DecidableEq, Repr

inductive AttributeOwner where
  | ofClass (name : String)
  | ofProperty (name : String)
  | ofMethod (name : String)
  deriving DecidableEq, Repr

inductive ConstructionState where
  | allocated
  | constructing
  | constructed
  | failed
  deriving DecidableEq, Repr

/-- A finalizing handle is invalid already, its record remains for the finalization. -/
inductive HandleState where
  | alive
  | finalizing
  | invalid
  deriving DecidableEq, Repr

inductive ObjectError where
  | emptyName (kind : String)
  | duplicateClass (name : String)
  | duplicateSuperclass (className : String) (superclass : Nat)
  | duplicateProperty (className property : String)
  | duplicateMethod (className method : String)
  | invalidPropertyDefinition (className property reason : String)
  | inheritedPropertyConflict (className property : String) (inheritedFrom : Nat)
  | overrideKindMismatch (className method : String) (inheritedKind overridingKind : MethodKind)
  | abstractOverrideAccessMismatch (className method : String)
      (inheritedAccess overridingAccess : Access)
  | abstractPropertyOverrideAccessMismatch (className property : String)
  | sealedMethodOverride (className method : String)
  | sealedSuperclass (className : String) (superclass : Nat)
  | explicitConcreteWithAbstractMethods (className : String) (methods : List String)
  | invalidEnumerationDefinition (className reason : String)
  | duplicateEnumerationMember (className member : String)
  | duplicateEvent (className event : String)
  | eventNotFound (classId : Nat) (event : String)
  | invalidConstructorKind (className : String)
  | unsupportedAttribute (owner : AttributeOwner) (attributeName : String)
  | unknownClass (id : Nat)
  | unknownClassName (name : String)
  | inheritanceCycle (classId : Nat)
  | idExhausted (kind : String)
  | methodNotFound (classId : Nat) (method : String)
  | abstractMethodCall (className method : String)
  | abstractClassInstantiation (className : String)
  | enumerationDirectConstruction (className : String)
  | accessDenied (member : String) (declaringClass : Nat) (required : Access) (caller : Option Nat)
  | unknownObject (id : Nat)
  | objectReferenceMismatch (id : Nat)
  | objectSemanticsMismatch (id : Nat) (expected actual : ClassSemantics)
  | handleNotAlive (id : Nat) (state : HandleState)
  | finalizationCandidateMismatch (id : Nat)
  | invalidConstructionTransition (id : Nat) (source target : ConstructionState)
  | objectNotConstructed (id : Nat) (state : ConstructionState)
  | propertySlotNotFound (id : Nat) (property : String)
  deriving DecidableEq, Repr

def saturatingAdd (a b : Nat) : Nat := min (a + b) u64Max

end Objects
end OpenMat
