import Mathlib.Data.List.Basic
import OpenMat.Fallible.Basic

/-!
This module contains the control-flow skeleton of bytecode functions and their execution: what the
instructions compute, which values they test and which of them raise is left to an interpretation. The
only registers that outlive a statement are those of the `for` loops, and they are kept apart.
-/

namespace OpenMat
namespace Bytecode

/--
`leaf` stands for the instructions without control flow that may raise and `load` for the raw loads
of output bindings, which do not raise. `evaluate` leaves the iterable of a `for` loop in a register,
and `loadZero` its first index.
-/
inductive Instruction (L C : Type) where
  | leaf (operation : L)
  | load (binding : L)
  | evaluate (dst : Nat) (operation : L)
  | loadZero (dst : Nat)
  | jump (target : Nat)
  | jumpIfFalse (condition : C) (target : Nat)
  | forEach (iterable index exit : Nat)
  | ret
  | retVariadic (variadic : L)
  deriving DecidableEq, Repr

inductive ExceptionHandlerKind where
  | catch (handler : Nat) (errorLocal : Option Nat)
  | swallow
  deriving DecidableEq, Repr

structure ExceptionHandler where
  protectedStart : Nat
  protectedEnd : Nat
  kind : ExceptionHandlerKind
  exit : Nat
  deriving DecidableEq, Repr

structure Function (L C : Type) where
  instructions : List (Instruction L C)
  exceptionHandlers : List ExceptionHandler
  localCount : Nat
  deriving DecidableEq, Repr

namespace Instruction

variable {L C : Type}

def targets : Instruction L C → List Nat
  | jump target => [target]
  | jumpIfFalse _ target => [target]
  | forEach _ _ exit => [exit]
  | _ => []

/-- The registers of loops that an instruction writes. -/
def written : Instruction L C → List Nat
  | evaluate dst _ => [dst]
  | loadZero dst => [dst]
  | forEach _ index _ => [index]
  | _ => []

end Instruction

namespace ExceptionHandler

def ofCatch (protectedStart protectedEnd handler exit : Nat) (errorLocal : Option Nat)
    : ExceptionHandler where
  protectedStart := protectedStart
  protectedEnd := protectedEnd
  kind := .catch handler errorLocal
  exit := exit

def ofSwallow (protectedStart protectedEnd exit : Nat) : ExceptionHandler where
  protectedStart := protectedStart
  protectedEnd := protectedEnd
  kind := .swallow
  exit := exit

def protects (h : ExceptionHandler) (pc : Nat) : Bool :=
  decide (h.protectedStart ≤ pc) && decide (pc < h.protectedEnd)

/-- The number of protected instructions. -/
def length (h : ExceptionHandler) : Nat := h.protectedEnd - h.protectedStart

/-- Where a caught error continues. -/
def continuation (h : ExceptionHandler) : Nat :=
  match h.kind with
  | .catch handler _ => handler
  | .swallow => h.exit

def errorLocal (h : ExceptionHandler) : Option Nat :=
  match h.kind with
  | .catch _ errorLocal => errorLocal
  | .swallow => none

end ExceptionHandler

/-- The first element with the least key. -/
def minByKey {α : Type} (key : α → Nat) : List α → Option α
  | [] => none
  | a :: l =>
    match minByKey key l with
    | none => some a
    | some b => if key b < key a then some b else some a

def innermostExceptionHandler (handlers : List ExceptionHandler) (pc : Nat)
    : Option ExceptionHandler :=
  minByKey ExceptionHandler.length (handlers.filter fun h => h.protects pc)

theorem minByKey_eq_some {α : Type} {key : α → Nat} {l : List α} {a : α} (h : a ∈ l)
    (hmin : ∀ b ∈ l, b = a ∨ key a < key b) : minByKey key l = some a := by
  induction l with
  | nil => simp at h
  | cons c l ih =>
    rw [minByKey]
    cases hrest : minByKey key l with
    | none =>
      cases l with
      | nil =>
        rw [List.mem_singleton] at h
        rw [h]
      | cons d l =>
        rw [minByKey] at hrest
        split at hrest
        . simp at hrest
        . split at hrest <;> simp at hrest
    | some b =>
      have hb : b ∈ l := by
        clear ih h hmin
        induction l generalizing b with
        | nil => simp [minByKey] at hrest
        | cons d l ih =>
          rw [minByKey] at hrest
          split at hrest
          . cases hrest
            simp
          . next e he =>
            split at hrest
            . cases hrest
              exact List.mem_cons_of_mem _ (ih _ he)
            . cases hrest
              simp
      by_cases hac : a ∈ l
      . have hrest' := ih hac fun b hb => hmin b (by simp [hb])
        rw [hrest', Option.some.injEq] at hrest
        subst hrest
        dsimp only
        rcases hmin c (by simp) with rfl | hlt
        . rw [if_neg (Nat.lt_irrefl _)]
        . rw [if_pos hlt]
      . have hca : c = a := by
          rcases List.mem_cons.mp h with h | h
          . exact h.symm
          . exact absurd h hac
        subst hca
        dsimp only
        rcases hmin b (by simp [hb]) with rfl | hlt
        . exact absurd hb hac
        . rw [if_neg (by omega)]

theorem minByKey_eq_none_iff {α : Type} {key : α → Nat} {l : List α}
    : minByKey key l = none ↔ l = [] := by
  cases l with
  | nil => simp [minByKey]
  | cons a l =>
    rw [minByKey]
    split
    . simp
    . split <;> simp

section Execution

variable {L C V S : Type}

/--
What the instructions do to a state. A leaf completes or raises, the evaluation of an iterable gives a
value or raises, a condition or the next iteration over a value is true, false or raises, and the
outputs of a variadic return are accepted or raise. A caught error is recorded and bound.
-/
structure Interpretation (L C V S : Type) where
  leaf : L → S → S × Bool
  load : L → S → S
  evaluate : L → S → S × Option V
  test : C → S → S × Option Bool
  iterate : V → Nat → S → S × Option Bool
  accepts : L → S → Bool
  caught : S → S

inductive Event (L C V : Type) where
  | leaf (operation : L)
  | evaluate (operation : L)
  | test (condition : C)
  | iterate (value : V) (iteration : Nat)
  | caught
  deriving DecidableEq, Repr

namespace Interpretation

/--
The interpretation that also records the leaves, the conditions and the caught errors in the order of
their visits.
-/
def logged (I : Interpretation L C V S) : Interpretation L C V (S × List (Event L C V)) where
  leaf operation s :=
    let (s', completes) := I.leaf operation s.1
    ((s', s.2 ++ [.leaf operation]), completes)
  load binding s := (I.load binding s.1, s.2)
  evaluate operation s :=
    let (s', value) := I.evaluate operation s.1
    ((s', s.2 ++ [.evaluate operation]), value)
  test condition s :=
    let (s', value) := I.test condition s.1
    ((s', s.2 ++ [.test condition]), value)
  iterate value iteration s :=
    let (s', more) := I.iterate value iteration s.1
    ((s', s.2 ++ [.iterate value iteration]), more)
  accepts variadic s := I.accepts variadic s.1
  caught s := (I.caught s.1, s.2 ++ [.caught])

end Interpretation

inductive RegisterValue (V : Type) where
  | nothing
  | value (value : V)
  | index (iteration : Nat)

abbrev Registers (V : Type) := Nat → RegisterValue V

/-- The registers of a new frame, and of one that caught an error. -/
def Registers.cleared (V : Type) : Registers V := fun _ => .nothing

/-- `aborted` is an error that no handler of the frame can catch. -/
inductive Config (V S : Type) where
  | running (pc : Nat) (s : S) (registers : Registers V)
  | returned (pc : Nat) (s : S)
  | raised (s : S)
  | aborted (s : S)
  | invalid (pc : Nat)

/--
Continue at a handler, or leave the function. Registers are expression temporaries, and do not survive
the abandoned computation.
-/
def transfer (I : Interpretation L C V S) (handler : Option ExceptionHandler) (s : S) : Config V S :=
  match handler with
  | none => .raised s
  | some h => .running h.continuation (I.caught s) (Registers.cleared V)

def Function.raise (f : Function L C) (I : Interpretation L C V S) (pc : Nat) (s : S) : Config V S :=
  transfer I (innermostExceptionHandler f.exceptionHandlers pc) s

def stepForEach (f : Function L C) (I : Interpretation L C V S) (pc iterable index exit : Nat) (s : S)
    (registers : Registers V) : Config V S :=
  match registers iterable, registers index with
  | .value value, .index iteration =>
    match I.iterate value iteration s with
    | (s', some true) =>
      .running (pc + 1) s' (Function.update registers index (.index (iteration + 1)))
    | (s', some false) => .running exit s' registers
    | (s', none) => f.raise I pc s'
  | _, _ => .aborted s -- the index register was corrupted

def step (f : Function L C) (I : Interpretation L C V S) : Config V S → Config V S
  | .running pc s registers =>
    match f.instructions[pc]? with
    | some (.leaf operation) =>
      match I.leaf operation s with
      | (s', true) => .running (pc + 1) s' registers
      | (s', false) => f.raise I pc s'
    | some (.load binding) => .running (pc + 1) (I.load binding s) registers
    | some (.evaluate dst operation) =>
      match I.evaluate operation s with
      | (s', some value) => .running (pc + 1) s' (Function.update registers dst (.value value))
      | (s', none) => f.raise I pc s'
    | some (.loadZero dst) => .running (pc + 1) s (Function.update registers dst (.index 0))
    | some (.jump target) => .running target s registers
    | some (.jumpIfFalse condition target) =>
      match I.test condition s with
      | (s', some true) => .running (pc + 1) s' registers
      | (s', some false) => .running target s' registers
      | (s', none) => f.raise I pc s'
    | some (.forEach iterable index exit) => stepForEach f I pc iterable index exit s registers
    | some .ret => .returned pc s
    | some (.retVariadic variadic) =>
      if I.accepts variadic s then .returned pc s else f.raise I pc s
    | none => .invalid pc
  | c => c

def run (f : Function L C) (I : Interpretation L C V S) : Nat → Config V S → Config V S
  | 0, c => c
  | n + 1, c => run f I n (step f I c)

theorem run_add (f : Function L C) (I : Interpretation L C V S) (m n : Nat) (c : Config V S)
    : run f I (m + n) c = run f I n (run f I m c) := by
  induction m generalizing c with
  | zero => rw [Nat.zero_add, run]
  | succ m ih => rw [Nat.succ_add, run, ih, run]

end Execution

end Bytecode
end OpenMat
