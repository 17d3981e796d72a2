import OpenMat.Bytecode.Basic
import OpenMat.Diagnostic

/-!
This module contains the verification of control flow and exception tables, and what it accepts.
-/

namespace OpenMat
namespace Bytecode

inductive VerificationErrorKind where
  | invalidJump (target count : Nat)
  | invalidLocal (slot count : Nat)
  | invalidExceptionProtectedRange (start stop count : Nat)
  | invalidExceptionHandler (handler count : Nat)
  | invalidExceptionExit (exit count : Nat)
  | invalidExceptionCatchOrder (protectedEnd handler exit : Nat)
  | invalidExceptionCatchSkip (instruction exit : Nat)
  | invalidExceptionSwallowExit (protectedEnd exit : Nat)
  | duplicateExceptionRange (start stop : Nat)
  | crossingExceptionRanges (firstStart firstEnd secondStart secondEnd : Nat)
  | nestedExceptionHandlerEscapes (outerStart outerEnd innerStart innerEnd innerExit : Nat)
  deriving DecidableEq, Repr

structure VerificationError where
  instruction : Option Nat
  kind : VerificationErrorKind
  deriving DecidableEq, Repr

/-- A `u32` increment that fails on overflow. -/
def checkedSucc (n : Nat) : Option Nat :=
  if n < u32Max then some (n + 1) else none

variable {L C : Type}

def exceptionHandlerError (kind : VerificationErrorKind) : VerificationError where
  instruction := none
  kind := kind

def checkLocal (f : Function L C) (slot : Nat) : Except VerificationError Unit :=
  if slot < f.localCount then
    .ok ()
  else
    .error (exceptionHandlerError (.invalidLocal slot f.localCount))

def isJumpTo (i : Option (Instruction L C)) (exit : Nat) : Bool :=
  match i with
  | some (.jump target) => target = exit
  | _ => false

def verifyExceptionHandlerKind (f : Function L C) (h : ExceptionHandler)
    : Except VerificationError Unit :=
  match h.kind with
  | .catch handler errorLocal =>
    if f.instructions[handler]?.isNone then
      .error (exceptionHandlerError (.invalidExceptionHandler handler f.instructions.length))
    else if checkedSucc h.protectedEnd ≠ some handler ∨ handler > h.exit then
      .error (exceptionHandlerError
        (.invalidExceptionCatchOrder h.protectedEnd handler h.exit))
    else do
      match errorLocal with
      | some slot => checkLocal f slot
      | none => pure ()
      if isJumpTo f.instructions[h.protectedEnd]? h.exit then
        .ok ()
      else
        .error (exceptionHandlerError (.invalidExceptionCatchSkip h.protectedEnd h.exit))
  | .swallow =>
    if h.protectedEnd ≠ h.exit then
      .error (exceptionHandlerError (.invalidExceptionSwallowExit h.protectedEnd h.exit))
    else
      .ok ()

def verifyExceptionHandler (f : Function L C) (h : ExceptionHandler) : Except VerificationError Unit :=
  if h.protectedStart ≥ h.protectedEnd ∨ f.instructions[h.protectedStart]?.isNone ∨
      f.instructions[h.protectedEnd]?.isNone then
    .error (exceptionHandlerError
      (.invalidExceptionProtectedRange h.protectedStart h.protectedEnd f.instructions.length))
  else if f.instructions[h.exit]?.isNone then
    .error (exceptionHandlerError (.invalidExceptionExit h.exit f.instructions.length))
  else
    verifyExceptionHandlerKind f h

namespace ExceptionHandler

def overlaps (a b : ExceptionHandler) : Bool :=
  decide (a.protectedStart < b.protectedEnd) && decide (b.protectedStart < a.protectedEnd)

def contains (a b : ExceptionHandler) : Bool :=
  decide (a.protectedStart ≤ b.protectedStart) && decide (b.protectedEnd ≤ a.protectedEnd)

/-- The outer and the inner handler if one range contains the other. -/
def nested (a b : ExceptionHandler) : Option (ExceptionHandler × ExceptionHandler) :=
  if a.contains b then
    some (a, b)
  else if b.contains a then
    some (b, a)
  else
    none

end ExceptionHandler

def verifyExceptionRangePair (first second : ExceptionHandler) : Except VerificationError Unit :=
  if first.protectedStart = second.protectedStart ∧ first.protectedEnd = second.protectedEnd then
    .error (exceptionHandlerError
      (.duplicateExceptionRange second.protectedStart second.protectedEnd))
  else if first.overlaps second ∧ ¬first.contains second ∧ ¬second.contains first then
    .error (exceptionHandlerError (.crossingExceptionRanges first.protectedStart first.protectedEnd
      second.protectedStart second.protectedEnd))
  else
    match first.nested second with
    | some (outer, inner) =>
      if inner.exit > outer.protectedEnd then
        .error (exceptionHandlerError (.nestedExceptionHandlerEscapes outer.protectedStart
          outer.protectedEnd inner.protectedStart inner.protectedEnd inner.exit))
      else
        .ok ()
    | none => .ok ()

def verifyExceptionRangeNesting : List ExceptionHandler → Except VerificationError Unit
  | [] => .ok ()
  | first :: rest => do
    rest.forM (verifyExceptionRangePair first)
    verifyExceptionRangeNesting rest

def verifyExceptionHandlers (f : Function L C) : Except VerificationError Unit := do
  f.exceptionHandlers.forM (verifyExceptionHandler f)
  verifyExceptionRangeNesting f.exceptionHandlers

def checkJump (f : Function L C) (index target : Nat) : Except VerificationError Unit :=
  if f.instructions[target]?.isSome then
    .ok ()
  else
    .error { instruction := some index, kind := .invalidJump target f.instructions.length }

def verifyInstructions (f : Function L C) : Nat → List (Instruction L C) → Except VerificationError Unit
  | _, [] => .ok ()
  | index, i :: rest => do
    i.targets.forM (checkJump f index)
    verifyInstructions f (index + 1) rest

/-- The part of the verification that is about control flow. -/
def verifyFunction (f : Function L C) : Except VerificationError Unit := do
  verifyExceptionHandlers f
  verifyInstructions f 0 f.instructions

section Accepted

variable {f : Function L C}

/-- The handlers that the verifier accepts on their own. -/
structure HandlerAccepted (f : Function L C) (h : ExceptionHandler) : Prop where
  start_lt_end : h.protectedStart < h.protectedEnd
  end_lt : h.protectedEnd < f.instructions.length
  exit_lt : h.exit < f.instructions.length
  kind : match h.kind with
    | .catch handler errorLocal =>
      handler < f.instructions.length ∧ checkedSucc h.protectedEnd = some handler ∧
        handler ≤ h.exit ∧ (∀ slot, errorLocal = some slot → slot < f.localCount) ∧
        f.instructions[h.protectedEnd]? = some (.jump h.exit)
    | .swallow => h.protectedEnd = h.exit

/-- The pairs of handlers that the verifier accepts. -/
structure RangesAccepted (a b : ExceptionHandler) : Prop where
  distinct : ¬(a.protectedStart = b.protectedStart ∧ a.protectedEnd = b.protectedEnd)
  nested : a.overlaps b → a.contains b ∨ b.contains a
  exit_le : ∀ outer inner, a.nested b = some (outer, inner) → inner.exit ≤ outer.protectedEnd

theorem isJumpTo_iff {i : Option (Instruction L C)} {exit : Nat}
    : isJumpTo i exit ↔ i = some (.jump exit) := by
  unfold isJumpTo
  split
  . simp
  . next hne =>
    constructor
    . simp
    . rintro rfl
      exact absurd rfl (hne exit)

theorem checkLocal_eq_ok_iff {slot : Nat}
    : checkLocal f slot = .ok () ↔ slot < f.localCount := by
  unfold checkLocal
  split <;> simp [*]

theorem verifyExceptionHandlerKind_eq_ok_iff {h : ExceptionHandler}
    : verifyExceptionHandlerKind f h = .ok () ↔
        match h.kind with
        | .catch handler errorLocal =>
          handler < f.instructions.length ∧ checkedSucc h.protectedEnd = some handler ∧
            handler ≤ h.exit ∧ (∀ slot, errorLocal = some slot → slot < f.localCount) ∧
            f.instructions[h.protectedEnd]? = some (.jump h.exit)
        | .swallow => h.protectedEnd = h.exit := by
  unfold verifyExceptionHandlerKind
  split
  . next handler errorLocal hkind =>
    rw [← isJumpTo_iff]
    simp only [Option.isNone_iff_eq_none, List.getElem?_eq_none_iff]
    split
    . next hnone =>
      constructor
      . rintro ⟨⟩
      . omega
    . next hsome =>
      split
      . next horder =>
        constructor
        . rintro ⟨⟩
        . rintro ⟨-, hnext, hexit, -⟩
          rcases horder with horder | horder
          . exact absurd hnext horder
          . omega
      . next horder =>
        rw [not_or, not_not] at horder
        have hhandler : handler < f.instructions.length := Nat.lt_of_not_le hsome
        have hexit : handler ≤ h.exit := Nat.le_of_not_lt horder.2
        cases errorLocal with
        | none => simp [hhandler, horder.1, hexit]
        | some slot =>
          dsimp only
          rw [seq_eq_ok_iff, checkLocal_eq_ok_iff]
          simp [hhandler, horder.1, hexit]
  . simp

theorem verifyExceptionHandler_eq_ok_iff {h : ExceptionHandler}
    : verifyExceptionHandler f h = .ok () ↔ HandlerAccepted f h := by
  unfold verifyExceptionHandler
  simp only [Option.isNone_iff_eq_none, List.getElem?_eq_none_iff]
  constructor
  . intro hok
    split at hok
    . cases hok
    . next hrange =>
      split at hok
      . cases hok
      . next hexit =>
        exact ⟨by omega, by omega, by omega, verifyExceptionHandlerKind_eq_ok_iff.mp hok⟩
  . intro haccepted
    have hstart := haccepted.start_lt_end
    have hend := haccepted.end_lt
    have hexit := haccepted.exit_lt
    rw [if_neg (by omega), if_neg (by omega)]
    exact verifyExceptionHandlerKind_eq_ok_iff.mpr haccepted.kind

theorem verifyExceptionRangePair_eq_ok_iff {a b : ExceptionHandler}
    : verifyExceptionRangePair a b = .ok () ↔ RangesAccepted a b := by
  unfold verifyExceptionRangePair
  constructor
  . intro hok
    split at hok
    . cases hok
    . next hdistinct =>
      split at hok
      . cases hok
      . next hcrossing =>
        refine ⟨hdistinct, fun hoverlaps => ?_, fun outer inner hnested => ?_⟩
        . by_contra hneither
          rw [not_or] at hneither
          exact hcrossing ⟨hoverlaps, hneither⟩
        . rw [hnested] at hok
          dsimp only at hok
          split at hok
          . cases hok
          . next hexit => exact Nat.le_of_not_lt hexit
  . intro haccepted
    rw [if_neg haccepted.distinct, if_neg]
    . split
      . next outer inner hnested =>
        rw [if_neg (Nat.not_lt.mpr (haccepted.exit_le outer inner hnested))]
      . rfl
    . rintro ⟨hoverlaps, ha, hb⟩
      rcases haccepted.nested hoverlaps with h | h
      . exact ha h
      . exact hb h

theorem verifyExceptionRangeNesting_eq_ok_iff {handlers : List ExceptionHandler}
    : verifyExceptionRangeNesting handlers = .ok () ↔ handlers.Pairwise RangesAccepted := by
  induction handlers with
  | nil => simp [verifyExceptionRangeNesting]
  | cons h handlers ih =>
    rw [verifyExceptionRangeNesting, seq_eq_ok_iff, forM_eq_ok_iff, List.pairwise_cons, ih]
    simp only [verifyExceptionRangePair_eq_ok_iff]

theorem verifyInstructions_eq_ok_iff {index : Nat} {instructions : List (Instruction L C)}
    : verifyInstructions f index instructions = .ok () ↔
        ∀ i ∈ instructions, ∀ target ∈ i.targets, target < f.instructions.length := by
  induction instructions generalizing index with
  | nil => simp [verifyInstructions]
  | cons i instructions ih =>
    rw [verifyInstructions, seq_eq_ok_iff, forM_eq_ok_iff, ih, List.forall_mem_cons]
    simp [checkJump]

theorem verifyFunction_eq_ok_iff
    : verifyFunction f = .ok () ↔
        (∀ h ∈ f.exceptionHandlers, HandlerAccepted f h) ∧
        f.exceptionHandlers.Pairwise RangesAccepted ∧
        ∀ i ∈ f.instructions, ∀ target ∈ i.targets, target < f.instructions.length := by
  rw [verifyFunction, seq_eq_ok_iff, verifyInstructions_eq_ok_iff, verifyExceptionHandlers,
    seq_eq_ok_iff, forM_eq_ok_iff, verifyExceptionRangeNesting_eq_ok_iff, and_assoc]
  simp only [verifyExceptionHandler_eq_ok_iff]

end Accepted
end Bytecode
end OpenMat
