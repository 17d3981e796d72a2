import OpenMat.Lowering.Emission

/-!
This module contains which bodies are lowered: break and continue stand in loops, every conditional has a branch, and
the code, its locals and its registers stay within their limits.
-/

namespace OpenMat
namespace Lowering

open Bytecode

variable {L C α β : Type} {locals : Nat}

/-- Bounds for the instructions, locals and registers that a part of a body takes. -/
structure Cost where
  instructions : Nat
  locals : Nat
  registers : Nat

namespace Cost

instance : Add Cost where
  add a b := ⟨a.instructions + b.instructions, a.locals + b.locals, a.registers + b.registers⟩

def ofInstructions (count : Nat) : Cost := ⟨count, 0, 0⟩

def none : Cost := ⟨0, 0, 0⟩

@[simp]
theorem instructions_add (a b : Cost) : (a + b).instructions = a.instructions + b.instructions := rfl

@[simp]
theorem locals_add (a b : Cost) : (a + b).locals = a.locals + b.locals := rfl

@[simp]
theorem registers_add (a b : Cost) : (a + b).registers = a.registers + b.registers := rfl

end Cost

section Syntax

def CatchBinding.cost : CatchBinding L locals → Cost
  | .plain => .none
  | .direct _ => .none
  | .indirect prologue => ⟨prologue.length, 1, 0⟩

theorem CatchBinding.length_catchPrologue (binding : CatchBinding L locals)
    : (catchPrologue binding).length = binding.cost.instructions := by
  cases binding <;> rfl

theorem CatchBinding.registers_cost (binding : CatchBinding L locals) : binding.cost.registers = 0 := by
  cases binding <;> rfl

variable (frame : Frame L)

def Frame.returnCost : Cost := .ofInstructions ((frame.validations.getD []).length + frame.outputs.length + 1)

mutual

def statementCost : Stmt L C locals → Cost
  | .leaf operations => .ofInstructions operations.length
  | .ifElse branches elseBody => branchesCost branches + statementsCost elseBody
  | .switch selector cases otherwise =>
    .ofInstructions selector.length + (branchesCost cases + statementsCost otherwise)
  | .whileLoop condition body =>
    .ofInstructions (condition.operations.length + 2) + statementsCost body
  | .forLoop iterable _ store body =>
    ⟨iterable.length + store.length + 4, 0, 3⟩ + statementsCost body
  | .tryCatch body handler => statementsCost body + handlerCost handler
  | .breakLoop => .ofInstructions 1
  | .continueLoop => .ofInstructions 1
  | .returnValues => frame.returnCost

def handlerCost : Option (CatchBinding L locals × List (Stmt L C locals)) → Cost
  | none => .ofInstructions 1
  | some (binding, catchBody) => .ofInstructions 1 + binding.cost + statementsCost catchBody

def statementsCost : List (Stmt L C locals) → Cost
  | [] => .none
  | stmt :: statements => statementCost stmt + statementsCost statements

def branchesCost : List (Condition L C × List (Stmt L C locals)) → Cost
  | [] => .none
  | (condition, body) :: branches =>
    .ofInstructions (condition.operations.length + 2) + statementsCost body + branchesCost branches

end

mutual

/-- Break and continue stand in loops, and every conditional has a branch. -/
def wellFormedStatement (inLoop : Bool) : Stmt L C locals → Bool
  | .leaf _ => true
  | .ifElse branches elseBody =>
    !branches.isEmpty && wellFormedBranches inLoop branches && wellFormed inLoop elseBody
  | .switch _ cases otherwise => wellFormedBranches inLoop cases && wellFormed inLoop otherwise
  | .whileLoop _ body => wellFormed true body
  | .forLoop _ _ _ body => wellFormed true body
  | .tryCatch body handler => wellFormed inLoop body && wellFormedHandler inLoop handler
  | .breakLoop => inLoop
  | .continueLoop => inLoop
  | .returnValues => true

def wellFormedHandler (inLoop : Bool) : Option (CatchBinding L locals × List (Stmt L C locals)) → Bool
  | none => true
  | some (_, catchBody) => wellFormed inLoop catchBody

def wellFormed (inLoop : Bool) : List (Stmt L C locals) → Bool
  | [] => true
  | stmt :: statements => wellFormedStatement inLoop stmt && wellFormed inLoop statements

def wellFormedBranches (inLoop : Bool) : List (Condition L C × List (Stmt L C locals)) → Bool
  | [] => true
  | (_, body) :: branches => wellFormed inLoop body && wellFormedBranches inLoop branches

end

end Syntax

section Operations

/-- The instructions with a target that is patched. -/
inductive Jumps : Instruction L C → Prop where
  | jump (target : Nat) : Jumps (.jump target)
  | jumpIfFalse (condition : C) (target : Nat) : Jumps (.jumpIfFalse condition target)
  | forEach (iterable index target : Nat) : Jumps (.forEach iterable index target)

/-- There is an instruction at the position whose target can be patched. -/
def Patchable (s : Emitter L C) (position : Nat) : Prop :=
  ∃ i, s.instructions[position]? = some i ∧ Jumps i

/-- All jumps that wait for their target can be patched. -/
structure Ready (s : Emitter L C) : Prop where
  returns : ∀ patch ∈ s.outputReturnPatches, Patchable s patch
  breaks : ∀ context ∈ s.loops, ∀ patch ∈ context.breakPatches, Patchable s patch

structure Room (cost : Cost) (s : Emitter L C) : Prop where
  instructions : s.instructions.length + cost.instructions ≤ u32Max
  locals : s.localCount + cost.locals ≤ u32Max
  registers : s.nextRegister + cost.registers ≤ u32Max

structure Grows (cost : Cost) (s s' : Emitter L C) : Prop where
  instructions : s'.instructions.length ≤ s.instructions.length + cost.instructions
  locals : s'.localCount ≤ s.localCount + cost.locals
  registers : s'.nextRegister ≤ s.nextRegister + cost.registers
  loops : s'.loops.length = s.loops.length
  patchable : ∀ position, Patchable s position → Patchable s' position
  ready : Ready s'

/-- Where there is room, an operation succeeds and takes no more than its cost. -/
def Lowers (cost : Cost) (m : Lower L C α) (s : Emitter L C) (Q : α → Emitter L C → Prop) : Prop :=
  Ready s → Room cost s → ∃ a s', m.run s = .ok (a, s') ∧ Grows cost s s' ∧ Q a s'

variable {s s' : Emitter L C} {a b cost cost' : Cost} {m : Lower L C α} {f : α → Lower L C β}
  {Q : α → Emitter L C → Prop} {R : β → Emitter L C → Prop}

theorem Grows.trans {t : Emitter L C} (h : Grows a s t) (h' : Grows b t s') : Grows (a + b) s s' where
  instructions := by
    have := h.instructions
    have := h'.instructions
    rw [Cost.instructions_add]
    omega
  locals := by
    have := h.locals
    have := h'.locals
    rw [Cost.locals_add]
    omega
  registers := by
    have := h.registers
    have := h'.registers
    rw [Cost.registers_add]
    omega
  loops := h'.loops.trans h.loops
  patchable := fun position hposition => h'.patchable position (h.patchable position hposition)
  ready := h'.ready

theorem Room.left (h : Room (a + b) s) : Room a s where
  instructions := Nat.le_trans (Nat.add_le_add_left (Nat.le_add_right _ _) _) h.instructions
  locals := Nat.le_trans (Nat.add_le_add_left (Nat.le_add_right _ _) _) h.locals
  registers := Nat.le_trans (Nat.add_le_add_left (Nat.le_add_right _ _) _) h.registers

theorem Room.right (h : Room (a + b) s) (hgrows : Grows a s s') : Room b s' where
  instructions := by
    have := h.instructions
    have := hgrows.instructions
    rw [Cost.instructions_add] at *
    omega
  locals := by
    have := h.locals
    have := hgrows.locals
    rw [Cost.locals_add] at *
    omega
  registers := by
    have := h.registers
    have := hgrows.registers
    rw [Cost.registers_add] at *
    omega

theorem Lowers.bind (h : Lowers a m s Q)
    (hnext : ∀ value t, Grows a s t → Q value t → Lowers b (f value) t R)
    : Lowers (a + b) (m >>= f) s R := by
  intro hready hroom
  obtain ⟨value, t, hrun, hgrows, hq⟩ := h hready hroom.left
  obtain ⟨result, s', hrun', hgrows', hr⟩ := hnext value t hgrows hq hgrows.ready (hroom.right hgrows)
  exact ⟨result, s', run_bind_eq_ok_iff.mpr ⟨value, t, hrun, hrun'⟩, hgrows.trans hgrows', hr⟩

/-- A bound that is at least as large serves as well. -/
theorem Lowers.weaken (h : Lowers a m s Q) (hinstructions : a.instructions ≤ b.instructions)
    (hlocals : a.locals ≤ b.locals) (hregisters : a.registers ≤ b.registers)
    : Lowers b m s Q := by
  intro hready hroom
  have hroom' : Room a s := {
    instructions := Nat.le_trans (Nat.add_le_add_left hinstructions _) hroom.instructions
    locals := Nat.le_trans (Nat.add_le_add_left hlocals _) hroom.locals
    registers := Nat.le_trans (Nat.add_le_add_left hregisters _) hroom.registers }
  obtain ⟨value, s', hrun, hgrows, hq⟩ := h hready hroom'
  refine ⟨value, s', hrun, { hgrows with instructions := ?_, locals := ?_, registers := ?_ }, hq⟩
  . exact Nat.le_trans hgrows.instructions (Nat.add_le_add_left hinstructions _)
  . exact Nat.le_trans hgrows.locals (Nat.add_le_add_left hlocals _)
  . exact Nat.le_trans hgrows.registers (Nat.add_le_add_left hregisters _)

theorem Lowers.mono (h : Lowers a m s Q) {Q' : α → Emitter L C → Prop} (hq : ∀ value t, Q value t → Q' value t)
    : Lowers a m s Q' := by
  intro hready hroom
  obtain ⟨value, s', hrun, hgrows, h⟩ := h hready hroom
  exact ⟨value, s', hrun, hgrows, hq value s' h⟩

theorem Grows.refl (h : Ready s) : Grows .none s s where
  instructions := Nat.le_refl _
  locals := Nat.le_refl _
  registers := Nat.le_refl _
  loops := rfl
  patchable := fun _ h => h
  ready := h

theorem Lowers.pure (value : α) : Lowers .none (pure value : Lower L C α) s (fun a t => a = value ∧ t = s) :=
  fun hready _ => ⟨value, s, run_pure_eq_ok_iff.mpr rfl, .refl hready, rfl, rfl⟩

theorem Patchable.extend {position : Nat} (h : Patchable s position) (block : List (Instruction L C))
    : Patchable (s.extend block) position := by
  obtain ⟨i, hi, htarget⟩ := h
  refine ⟨i, ?_, htarget⟩
  rw [Emitter.extend, List.getElem?_append_left (List.getElem?_eq_some_iff.mp hi).1]
  exact hi

theorem Ready.mono (h : Ready s) (hreturns : s'.outputReturnPatches = s.outputReturnPatches)
    (hloops : s'.loops = s.loops) (hpatchable : ∀ position, Patchable s position → Patchable s' position)
    : Ready s' where
  returns := by
    rw [hreturns]
    exact fun patch hpatch => hpatchable patch (h.returns patch hpatch)
  breaks := by
    rw [hloops]
    exact fun context hcontext patch hpatch => hpatchable patch (h.breaks context hcontext patch hpatch)

theorem grows_extend (hready : Ready s) (i : Instruction L C) : Grows (.ofInstructions 1) s (s.extend [i]) where
  instructions := by simp [Emitter.extend, Cost.ofInstructions]
  locals := Nat.le_refl _
  registers := Nat.le_refl _
  loops := rfl
  patchable := fun _ h => h.extend [i]
  ready := hready.mono rfl rfl fun _ h => h.extend [i]

theorem emit_lowers (s : Emitter L C) (i : Instruction L C)
    : Lowers (.ofInstructions 1) (emit i) s (fun value t => value = s.instructions.length ∧ t = s.extend [i]) := by
  intro hready hroom
  have hlength : ¬s.instructions.length > u32Max := by
    have := hroom.instructions
    omega
  refine ⟨s.instructions.length, s.extend [i], ?_, grows_extend hready i, rfl, rfl⟩
  unfold emit
  refine run_bind_eq_ok_iff.mpr ⟨s, s, run_get_eq_ok_iff.mpr rfl, ?_⟩
  rw [if_neg hlength]
  exact run_bind_eq_ok_iff.mpr ⟨(), s.extend [i], run_set_eq_ok_iff.mpr rfl, run_pure_eq_ok_iff.mpr rfl⟩

/-- A jump that is emitted can be patched. -/
theorem emitPatchable_lowers (s : Emitter L C) {i : Instruction L C} (hi : Jumps i)
    : Lowers (.ofInstructions 1) (emit i) s (fun patch t => Patchable t patch) := by
  refine (emit_lowers s i).mono ?_
  rintro _ _ ⟨rfl, rfl⟩
  exact ⟨i, by simp [Emitter.extend], hi⟩

theorem emitJump_lowers (s : Emitter L C)
    : Lowers (.ofInstructions 1) emitJump s (fun patch t => Patchable t patch) :=
  emitPatchable_lowers s (.jump 0)

theorem emitJumpIfFalse_lowers (s : Emitter L C) (condition : C)
    : Lowers (.ofInstructions 1) (emitJumpIfFalse condition) s (fun patch t => Patchable t patch) :=
  emitPatchable_lowers s (.jumpIfFalse condition 0)

theorem currentInstruction_lowers (s : Emitter L C)
    : Lowers .none currentInstruction s (fun value t => value = s.instructions.length ∧ t = s) := by
  intro hready hroom
  have hlength : ¬s.instructions.length > u32Max := by
    have := hroom.instructions
    omega
  refine ⟨s.instructions.length, s, ?_, .refl hready, rfl, rfl⟩
  unfold currentInstruction
  refine run_bind_eq_ok_iff.mpr ⟨s, s, run_get_eq_ok_iff.mpr rfl, ?_⟩
  rw [if_neg hlength]
  exact run_pure_eq_ok_iff.mpr rfl

/-- Jumps stay jumps when one of them is patched. -/
theorem Patchable.set {patch position : Nat} {i : Instruction L C} (h : Patchable s patch) (hi : Jumps i)
    (hposition : Patchable s position)
    : Patchable { s with instructions := s.instructions.set patch i } position := by
  by_cases heq : patch = position
  . subst heq
    obtain ⟨j, hj, -⟩ := h
    exact ⟨i, by simp [(List.getElem?_eq_some_iff.mp hj).1], hi⟩
  . obtain ⟨j, hj, hjumps⟩ := hposition
    exact ⟨j, by simpa [List.getElem?_set_ne heq] using hj, hjumps⟩

/-- A jump is patched to a jump. -/
theorem exists_patchToCurrent {patch : Nat} (h : Patchable s patch) (hready : Ready s) (hroom : Room .none s)
    : ∃ i, Jumps i ∧
        (patchToCurrent patch).run s = .ok ((), { s with instructions := s.instructions.set patch i }) := by
  obtain ⟨target, t, hcurrent, -, htarget, ht⟩ := currentInstruction_lowers s hready hroom
  rw [htarget, ht] at hcurrent
  have hrun {next : Nat → Emitter L C → Lower L C Unit} {r : Unit × Emitter L C}
      (hnext : (next s.instructions.length s).run s = .ok r)
      : (do let target ← currentInstruction; let s ← get; next target s).run s = .ok r :=
    run_bind_eq_ok_iff.mpr ⟨_, _, hcurrent, run_bind_eq_ok_iff.mpr ⟨s, s, run_get_eq_ok_iff.mpr rfl, hnext⟩⟩
  obtain ⟨i, hi, hjumps⟩ := h
  cases hjumps with
  | jump =>
    exact ⟨_, .jump s.instructions.length, hrun (by rw [hi]; exact run_set_eq_ok_iff.mpr rfl)⟩
  | jumpIfFalse condition =>
    exact ⟨_, .jumpIfFalse condition s.instructions.length, hrun (by rw [hi]; exact run_set_eq_ok_iff.mpr rfl)⟩
  | forEach iterable index =>
    exact ⟨_, .forEach iterable index s.instructions.length, hrun (by rw [hi]; exact run_set_eq_ok_iff.mpr rfl)⟩

theorem patchToCurrent_lowers {patch : Nat} (h : Patchable s patch)
    : Lowers .none (patchToCurrent patch) s (fun _ _ => True) := by
  intro hready hroom
  obtain ⟨i, hi, hrun⟩ := exists_patchToCurrent h hready hroom
  refine ⟨(), _, hrun, ?_, trivial⟩
  exact {
    instructions := by simp
    locals := Nat.le_refl _
    registers := Nat.le_refl _
    loops := rfl
    patchable := fun _ => h.set hi
    ready := hready.mono rfl rfl fun _ => h.set hi }

theorem Lowers.none_bind (h : Lowers .none m s Q)
    (hnext : ∀ value t, Grows .none s t → Q value t → Lowers b (f value) t R)
    : Lowers b (m >>= f) s R :=
  (h.bind hnext).weaken (Nat.le_of_eq (Nat.zero_add _)) (Nat.le_of_eq (Nat.zero_add _))
    (Nat.le_of_eq (Nat.zero_add _))

theorem Patchable.congr {position : Nat} (h : s'.instructions = s.instructions) (hposition : Patchable s position)
    : Patchable s' position := by
  unfold Patchable
  rw [h]
  exact hposition

theorem patchAll_lowers (patches : List Nat) (s : Emitter L C) (h : ∀ patch ∈ patches, Patchable s patch)
    : Lowers .none (patches.forM patchToCurrent) s (fun _ _ => True) := by
  induction patches generalizing s with
  | nil => exact (Lowers.pure ()).mono fun _ _ _ => trivial
  | cons patch patches ih =>
    rw [List.forM]
    refine (patchToCurrent_lowers (h patch List.mem_cons_self)).none_bind ?_
    intro _ t hgrows _
    exact ih t fun other hother => hgrows.patchable other (h other (List.mem_cons_of_mem _ hother))

theorem emitAll_lowers (instruction : L → Instruction L C) (operations : List L) (s : Emitter L C)
    : Lowers (.ofInstructions operations.length)
        (operations.forM fun operation => do let _ ← emit (instruction operation)) s (fun _ _ => True) := by
  induction operations generalizing s with
  | nil => exact (Lowers.pure ()).mono fun _ _ _ => trivial
  | cons operation operations ih =>
    rw [List.forM]
    have hfirst : Lowers (.ofInstructions 1) (do let _ ← emit (instruction operation)) s (fun _ _ => True) :=
      (emit_lowers s (instruction operation)).bind fun _ t _ _ => (Lowers.pure ()).mono fun _ _ _ => trivial
    refine (hfirst.bind fun _ t _ _ => ih t).weaken ?_ (Nat.le_refl _) (Nat.le_refl _)
    simp only [Cost.ofInstructions, Cost.instructions_add, List.length_cons]
    omega

theorem emitLeaves_lowers (operations : List L) (s : Emitter L C)
    : Lowers (.ofInstructions operations.length) (emitLeaves operations) s (fun _ _ => True) :=
  emitAll_lowers .leaf operations s

theorem emitLoads_lowers (bindings : List L) (s : Emitter L C)
    : Lowers (.ofInstructions bindings.length) (emitLoads bindings) s (fun _ _ => True) :=
  emitAll_lowers .load bindings s

theorem allocateRegister_lowers (s : Emitter L C)
    : Lowers ⟨0, 0, 1⟩ allocateRegister s (fun _ _ => True) := by
  intro hready hroom
  have hlimit : ¬s.nextRegister ≥ u32Max := Nat.not_le_of_lt hroom.registers
  refine ⟨s.nextRegister, { s with nextRegister := s.nextRegister + 1 }, ?_, ?_, trivial⟩
  . unfold allocateRegister
    refine run_bind_eq_ok_iff.mpr ⟨s, s, run_get_eq_ok_iff.mpr rfl, ?_⟩
    rw [if_neg hlimit]
    exact run_bind_eq_ok_iff.mpr ⟨(), _, run_set_eq_ok_iff.mpr rfl, run_pure_eq_ok_iff.mpr rfl⟩
  . exact {
      instructions := Nat.le_refl _
      locals := Nat.le_refl _
      registers := Nat.le_refl _
      loops := rfl
      patchable := fun _ => .congr rfl
      ready := hready.mono rfl rfl fun _ => .congr rfl }

theorem allocateInternalLocal_lowers (s : Emitter L C)
    : Lowers ⟨0, 1, 0⟩ allocateInternalLocal s (fun _ _ => True) := by
  intro hready hroom
  have hlimit : ¬s.localCount ≥ u32Max := Nat.not_le_of_lt hroom.locals
  refine ⟨s.localCount, { s with localCount := s.localCount + 1 }, ?_, ?_, trivial⟩
  . unfold allocateInternalLocal
    refine run_bind_eq_ok_iff.mpr ⟨s, s, run_get_eq_ok_iff.mpr rfl, ?_⟩
    rw [if_neg hlimit]
    exact run_bind_eq_ok_iff.mpr ⟨(), _, run_set_eq_ok_iff.mpr rfl, run_pure_eq_ok_iff.mpr rfl⟩
  . exact {
      instructions := Nat.le_refl _
      locals := Nat.le_refl _
      registers := Nat.le_refl _
      loops := rfl
      patchable := fun _ => .congr rfl
      ready := hready.mono rfl rfl fun _ => .congr rfl }

/-- A change that touches neither the code nor what is counted. -/
theorem modify_lowers (change : Emitter L C → Emitter L C) {t : Emitter L C} (hchange : change s = t)
    (hinstructions : t.instructions = s.instructions) (hlocals : t.localCount = s.localCount)
    (hregisters : t.nextRegister = s.nextRegister) (hloops : t.loops.length = s.loops.length)
    (hready : Ready s → Ready t) : Lowers .none (modify change) s (fun _ _ => True) := by
  intro h _
  refine ⟨(), t, run_modify_eq_ok_iff.mpr (by rw [hchange]), ?_, trivial⟩
  exact {
    instructions := Nat.le_of_eq (congrArg List.length hinstructions)
    locals := Nat.le_of_eq hlocals
    registers := Nat.le_of_eq hregisters
    loops := hloops
    patchable := fun _ => .congr hinstructions
    ready := hready h }

theorem pushHandler_lowers (handler : ExceptionHandler) (s : Emitter L C)
    : Lowers .none (pushHandler handler) s (fun _ _ => True) :=
  modify_lowers _ rfl rfl rfl rfl rfl fun h => h.mono rfl rfl fun _ => .congr rfl

theorem catchErrorLocal_lowers (binding : CatchBinding L locals) (s : Emitter L C)
    : Lowers ⟨0, binding.cost.locals, 0⟩ (catchErrorLocal binding) s (fun _ _ => True) := by
  cases binding with
  | plain => exact (Lowers.pure none).mono fun _ _ _ => trivial
  | direct slot => exact (Lowers.pure (some slot.val)).mono fun _ _ _ => trivial
  | indirect prologue =>
    have h := (allocateInternalLocal_lowers s).bind (R := fun _ _ => True) fun scratch _ _ _ =>
      (Lowers.pure (some scratch)).mono fun _ _ _ => trivial
    exact h.weaken (Nat.le_refl _) (Nat.le_refl _) (Nat.le_refl _)

theorem lowerForHead_lowers (value : L) (s : Emitter L C)
    : Lowers ⟨3, 0, 3⟩ (lowerForHead value) s (fun head t => Patchable t head.2) := by
  unfold lowerForHead
  have h := (allocateRegister_lowers s).bind (R := fun (head : Nat × Nat) t => Patchable t head.2)
    fun iterable t _ _ =>
    (emit_lowers t (.evaluate iterable value)).bind fun _ t _ _ =>
    (allocateRegister_lowers t).bind fun index t _ _ =>
    (emit_lowers t (.loadZero index)).bind fun _ t _ _ =>
    (currentInstruction_lowers t).bind fun loopStart t _ _ =>
    (allocateRegister_lowers t).bind fun _ t _ _ =>
    (emitPatchable_lowers t (.forEach iterable index 0)).bind fun exitPatch t _ hpatch =>
    (Lowers.pure (loopStart, exitPatch)).mono fun _ _ ⟨hhead, ht⟩ => by
      rw [hhead, ht]
      exact hpatch
  exact h.weaken (Nat.le_refl _) (Nat.le_refl _) (Nat.le_refl _)

/-- Reading the state comes first in an operation. -/
theorem Lowers.get {next : Emitter L C → Lower L C β} (h : Lowers a (next s) s R)
    : Lowers a (do let s ← get; next s) s R := by
  intro hready hroom
  obtain ⟨value, s', hrun, h⟩ := h hready hroom
  exact ⟨value, s', run_bind_eq_ok_iff.mpr ⟨s, s, run_get_eq_ok_iff.mpr rfl, hrun⟩, h⟩

theorem lowerBreak_lowers (s : Emitter L C) (h : 0 < s.loops.length)
    : Lowers (.ofInstructions 1) lowerBreak s (fun _ _ => True) := by
  unfold lowerBreak
  refine .get ?_
  have hloops : ¬s.loops.isEmpty = true := by
    rw [List.isEmpty_iff, ← List.length_eq_zero_iff]
    omega
  rw [if_neg hloops]
  refine (emitJump_lowers s).bind (b := .none) ?_
  intro patch t hgrows hpatch
  obtain ⟨context, loops, hcontexts⟩ : ∃ context loops, t.loops = context :: loops := by
    apply List.exists_cons_of_length_pos
    rw [hgrows.loops]
    exact h
  refine modify_lowers _
    (t := { t with loops := { context with breakPatches := context.breakPatches ++ [patch] } :: loops })
    (by simp only [hcontexts]) rfl rfl rfl (by rw [hcontexts]; rfl) ?_
  intro hready
  have hbreaks := hready.breaks
  rw [hcontexts, List.forall_mem_cons] at hbreaks
  refine ⟨fun other hother => .congr rfl (hready.returns other hother), ?_⟩
  refine List.forall_mem_cons.mpr ⟨?_, fun other hother position hposition => ?_⟩
  . refine List.forall_mem_append.mpr ⟨fun position hposition => .congr rfl (hbreaks.1 position hposition), ?_⟩
    exact List.forall_mem_singleton.mpr (.congr rfl hpatch)
  . exact .congr rfl (hbreaks.2 other hother position hposition)

theorem lowerContinue_lowers (s : Emitter L C) (h : 0 < s.loops.length)
    : Lowers (.ofInstructions 1) lowerContinue s (fun _ _ => True) := by
  unfold lowerContinue
  refine .get ?_
  cases hloops : s.loops with
  | nil => simp [hloops] at h
  | cons context loops =>
    exact (emit_lowers s _).bind fun _ _ _ _ => (Lowers.pure ()).mono fun _ _ _ => trivial

theorem takeOutputReturnPatches_lowers (s : Emitter L C)
    : Lowers .none takeOutputReturnPatches s (fun patches t => ∀ patch ∈ patches, Patchable t patch) := by
  intro hready _
  refine ⟨s.outputReturnPatches, { s with outputReturnPatches := [] }, ?_, ?_, ?_⟩
  . unfold takeOutputReturnPatches
    refine run_bind_eq_ok_iff.mpr ⟨s, s, run_get_eq_ok_iff.mpr rfl, ?_⟩
    exact run_bind_eq_ok_iff.mpr ⟨(), _, run_set_eq_ok_iff.mpr rfl, run_pure_eq_ok_iff.mpr rfl⟩
  . exact {
      instructions := Nat.le_refl _
      locals := Nat.le_refl _
      registers := Nat.le_refl _
      loops := rfl
      patchable := fun _ => .congr rfl
      ready := {
        returns := fun _ hpatch => absurd hpatch List.not_mem_nil
        breaks := fun context hcontext patch hpatch => .congr rfl (hready.breaks context hcontext patch hpatch) } }
  . exact fun patch hpatch => .congr rfl (hready.returns patch hpatch)

theorem emitReturn_lowers (frame : Frame L) (s : Emitter L C)
    : Lowers frame.returnCost (emitReturn frame) s (fun _ _ => True) := by
  unfold emitReturn
  refine (takeOutputReturnPatches_lowers s).none_bind fun patches t _ hpatches => ?_
  refine (patchAll_lowers patches t hpatches).none_bind fun _ t _ _ => ?_
  have h := (emitLeaves_lowers (C := C) (frame.validations.getD []) t).bind (R := fun _ _ => True) fun _ t _ _ =>
    (emitLoads_lowers frame.outputs t).bind fun _ t _ _ =>
    (emit_lowers t frame.ret).bind fun _ t _ _ => (Lowers.pure ()).mono fun _ _ _ => trivial
  refine h.weaken ?_ (Nat.le_refl _) (Nat.le_refl _)
  simp only [Frame.returnCost, Cost.ofInstructions, Cost.none, Cost.instructions_add]
  omega

theorem lowerReturn_lowers (frame : Frame L) (s : Emitter L C)
    : Lowers frame.returnCost (lowerReturn frame) s (fun _ _ => True) := by
  unfold lowerReturn
  split
  . exact emitReturn_lowers frame s
  . have h := (emitJump_lowers s).bind (b := .none) (R := fun _ _ => True) fun patch t _ hpatch => by
      refine modify_lowers (fun s => { s with outputReturnPatches := s.outputReturnPatches ++ [patch] })
        rfl rfl rfl rfl rfl fun hready => ⟨?_, ?_⟩
      . refine List.forall_mem_append.mpr ⟨fun other hother => .congr rfl (hready.returns other hother), ?_⟩
        exact List.forall_mem_singleton.mpr (.congr rfl hpatch)
      . exact fun context hcontext other hother => .congr rfl (hready.breaks context hcontext other hother)
    refine h.weaken ?_ (Nat.zero_le _) (Nat.zero_le _)
    simp only [Frame.returnCost, Cost.ofInstructions, Cost.none, Cost.instructions_add]
    omega

/-- The body of a loop is lowered in a loop of its own. -/
theorem Lowers.inLoop (continueTarget : Nat) {body : Lower L C Unit} {rest : List Nat → Lower L C β}
    (hbody : ∀ t, t.loops.length = s.loops.length + 1 → Lowers a body t (fun _ _ => True))
    (hrest : ∀ patches t, Grows a s t → (∀ patch ∈ patches, Patchable t patch) → Lowers b (rest patches) t R)
    : Lowers (a + b) (do pushLoop continueTarget; body; let patches ← popLoop; rest patches) s R := by
  intro hready hroom
  let pushed : Emitter L C :=
    { s with loops := { continueTarget := continueTarget, breakPatches := [] } :: s.loops }
  have hpushed : Ready pushed := {
    returns := fun patch hpatch => .congr rfl (hready.returns patch hpatch)
    breaks := List.forall_mem_cons.mpr ⟨fun _ hpatch => absurd hpatch List.not_mem_nil,
      fun context hcontext patch hpatch => .congr rfl (hready.breaks context hcontext patch hpatch)⟩ }
  have hroomBody : Room a pushed := ⟨hroom.left.instructions, hroom.left.locals, hroom.left.registers⟩
  obtain ⟨_, t, hrun, hgrows, -⟩ := hbody pushed rfl hpushed hroomBody
  obtain ⟨context, loops, hcontexts⟩ : ∃ context loops, t.loops = context :: loops := by
    apply List.exists_cons_of_length_pos
    rw [hgrows.loops]
    exact Nat.succ_pos _
  have hbreaks := hgrows.ready.breaks
  rw [hcontexts, List.forall_mem_cons] at hbreaks
  have hlength := hgrows.loops
  rw [hcontexts] at hlength
  have hpopped : Grows a s { t with loops := loops } := {
    instructions := hgrows.instructions
    locals := hgrows.locals
    registers := hgrows.registers
    loops := Nat.succ.inj hlength
    patchable := fun position hposition => .congr rfl (hgrows.patchable position (.congr rfl hposition))
    ready := {
      returns := fun patch hpatch => .congr rfl (hgrows.ready.returns patch hpatch)
      breaks := fun other hother patch hpatch => .congr rfl (hbreaks.2 other hother patch hpatch) } }
  obtain ⟨value, s', hrunRest, hgrowsRest, hr⟩ :=
    hrest context.breakPatches { t with loops := loops } hpopped
      (fun patch hpatch => .congr rfl (hbreaks.1 patch hpatch)) hpopped.ready (hroom.right hpopped)
  refine ⟨value, s', ?_, hpopped.trans hgrowsRest, hr⟩
  refine run_bind_eq_ok_iff.mpr ⟨(), pushed, run_modify_eq_ok_iff.mpr rfl, ?_⟩
  refine run_bind_eq_ok_iff.mpr ⟨(), t, hrun, ?_⟩
  refine run_bind_eq_ok_iff.mpr ⟨context.breakPatches, { t with loops := loops }, ?_, hrunRest⟩
  unfold popLoop
  refine run_bind_eq_ok_iff.mpr ⟨t, t, run_get_eq_ok_iff.mpr rfl, ?_⟩
  rw [hcontexts]
  exact run_bind_eq_ok_iff.mpr ⟨(), _, run_set_eq_ok_iff.mpr rfl, run_pure_eq_ok_iff.mpr rfl⟩

/-- What closes a conditional, and the patches of its branches. -/
theorem Lowers.patchAll {body : Lower L C Unit} {patches : List Nat} (hbody : Lowers a body s (fun _ _ => True))
    (hpatches : ∀ patch ∈ patches, Patchable s patch)
    : Lowers a (do body; patches.forM patchToCurrent) s (fun _ _ => True) := by
  have hlowers := hbody.bind (R := fun _ _ => True) fun _ t ht _ =>
    patchAll_lowers patches t fun patch hpatch => ht.patchable patch (hpatches patch hpatch)
  exact hlowers.weaken (Nat.le_refl _) (Nat.le_refl _) (Nat.le_refl _)

/-- What `while` and `for` do after their test. -/
theorem Lowers.loop (loopStart : Nat) {exitPatch : Nat} {body : Lower L C Unit} (hexit : Patchable s exitPatch)
    (hbody : ∀ t, t.loops.length = s.loops.length + 1 → Lowers a body t (fun _ _ => True))
    : Lowers (a + .ofInstructions 1) (do
        pushLoop loopStart
        body
        let breakPatches ← popLoop
        let _ ← emit (.jump loopStart)
        patchToCurrent exitPatch
        breakPatches.forM patchToCurrent) s (fun _ _ => True) := by
  refine .inLoop loopStart hbody fun patches t ht hpatches => ?_
  refine (emit_lowers t (.jump loopStart)).bind (b := .none) fun _ u hu _ => ?_
  refine (patchToCurrent_lowers (hu.patchable _ (ht.patchable _ hexit))).none_bind fun _ v hv _ => ?_
  exact patchAll_lowers patches v fun patch hpatch => hv.patchable _ (hu.patchable _ (hpatches patch hpatch))

end Operations

section Functions

variable (frame : Frame L)

mutual

/-- A well-formed statement is lowered wherever there is room for it. -/
theorem lowerStatement_lowers {inLoop : Bool} (s : Emitter L C) (hloops : inLoop = true → 0 < s.loops.length)
    : (stmt : Stmt L C locals) → wellFormedStatement inLoop stmt = true
      → Lowers (statementCost frame stmt) (lowerStatement frame stmt) s (fun _ _ => True)
  | .leaf operations, _ => by
    unfold lowerStatement statementCost
    exact emitLeaves_lowers operations s
  | .ifElse branches elseBody, h => by
    unfold wellFormedStatement at h
    simp only [Bool.and_eq_true, Bool.not_eq_true'] at h
    obtain ⟨⟨hbranches, hwf⟩, helse⟩ := h
    unfold lowerStatement statementCost
    rw [hbranches]
    refine (lowerBranches_lowers s hloops branches hwf).bind fun patches t hgrows hpatches => ?_
    exact (lowerStatements_lowers t (fun hin => hgrows.loops ▸ hloops hin) elseBody helse).patchAll hpatches
  | .switch selector cases otherwise, h => by
    unfold wellFormedStatement at h
    rw [Bool.and_eq_true] at h
    unfold lowerStatement statementCost
    refine (emitLeaves_lowers selector s).bind fun _ t ht _ => ?_
    have hloops' : inLoop = true → 0 < t.loops.length := fun hin => ht.loops ▸ hloops hin
    refine (lowerBranches_lowers t hloops' cases h.1).bind fun patches u hu hpatches => ?_
    exact (lowerStatements_lowers u (fun hin => hu.loops ▸ hloops' hin) otherwise h.2).patchAll hpatches
  | .whileLoop condition body, h => by
    unfold wellFormedStatement at h
    unfold lowerStatement statementCost
    have hlowers := (currentInstruction_lowers s).bind (R := fun _ _ => True) fun loopStart t _ _ =>
      (emitLeaves_lowers condition.operations t).bind fun _ t _ _ =>
      (emitJumpIfFalse_lowers t condition.test).bind fun exitPatch t _ hexit =>
      .loop loopStart hexit fun u hu =>
        lowerStatements_lowers u (fun _ => by rw [hu]; exact Nat.succ_pos _) body h
    refine hlowers.weaken ?_ ?_ ?_
    . simp only [Cost.ofInstructions, Cost.none, Cost.instructions_add]
      omega
    . simp only [Cost.ofInstructions, Cost.none, Cost.locals_add]
      omega
    . simp only [Cost.ofInstructions, Cost.none, Cost.registers_add]
      omega
  | .forLoop iterable value store body, h => by
    unfold wellFormedStatement at h
    unfold lowerStatement statementCost
    have hlowers := (emitLeaves_lowers iterable s).bind (R := fun _ _ => True) fun _ t _ _ =>
      (lowerForHead_lowers value t).bind fun head t _ hexit =>
      (emitLeaves_lowers store t).bind fun _ u hu _ =>
      .loop head.1 (hu.patchable _ hexit) fun v hv =>
        lowerStatements_lowers v (fun _ => by rw [hv]; exact Nat.succ_pos _) body h
    refine hlowers.weaken ?_ ?_ ?_
    . simp only [Cost.ofInstructions, Cost.instructions_add]
      omega
    . simp only [Cost.ofInstructions, Cost.locals_add]
      omega
    . simp only [Cost.ofInstructions, Cost.registers_add]
      omega
  | .tryCatch body handler, h => by
    unfold wellFormedStatement at h
    rw [Bool.and_eq_true] at h
    unfold lowerStatement statementCost
    refine (currentInstruction_lowers s).none_bind fun protectedStart t ht _ => ?_
    have hloops' : inLoop = true → 0 < t.loops.length := fun hin => ht.loops ▸ hloops hin
    refine (lowerStatements_lowers t hloops' body h.1).bind fun _ u hu _ => ?_
    have hloops'' : inLoop = true → 0 < u.loops.length := fun hin => hu.loops ▸ hloops' hin
    refine (currentInstruction_lowers u).none_bind fun protectedEnd v hv _ => ?_
    by_cases heq : protectedStart = protectedEnd
    . rw [if_pos heq]
      exact ((Lowers.pure ()).mono fun _ _ _ => trivial).weaken (Nat.zero_le _) (Nat.zero_le _) (Nat.zero_le _)
    . rw [if_neg heq]
      exact lowerHandler_lowers v (fun hin => hv.loops ▸ hloops'' hin) protectedStart protectedEnd handler h.2
  | .breakLoop, h => by
    unfold lowerStatement statementCost
    exact lowerBreak_lowers s (hloops h)
  | .continueLoop, h => by
    unfold lowerStatement statementCost
    exact lowerContinue_lowers s (hloops h)
  | .returnValues, _ => by
    unfold lowerStatement statementCost
    exact lowerReturn_lowers frame s

theorem lowerHandler_lowers {inLoop : Bool} (s : Emitter L C) (hloops : inLoop = true → 0 < s.loops.length)
    (protectedStart protectedEnd : Nat)
    : (handler : Option (CatchBinding L locals × List (Stmt L C locals))) → wellFormedHandler inLoop handler = true
      → Lowers (handlerCost frame handler) (lowerHandler frame protectedStart protectedEnd handler) s (fun _ _ => True)
  | none, _ => by
    unfold lowerHandler handlerCost
    refine (emitJump_lowers s).bind (b := .none) fun patch t _ hpatch => ?_
    exact (patchToCurrent_lowers hpatch).none_bind fun _ u _ _ => pushHandler_lowers _ u
  | some (binding, catchBody), h => by
    unfold wellFormedHandler at h
    unfold lowerHandler handlerCost
    have hlowers := (catchErrorLocal_lowers binding s).bind (R := fun _ _ => True) fun errorLocal t ht _ =>
      (emitJump_lowers t).bind fun skipPatch u hu hskip =>
      (currentInstruction_lowers u).bind fun handler v hv _ =>
      (emitLeaves_lowers (catchPrologue binding) v).bind fun _ w hw _ =>
      (lowerStatements_lowers w (fun hin => hw.loops ▸ hv.loops ▸ hu.loops ▸ ht.loops ▸ hloops hin) catchBody h).bind
        fun _ x hx _ =>
      (currentInstruction_lowers x).bind fun exit y hy _ =>
      (patchToCurrent_lowers (hy.patchable _ (hx.patchable _ (hw.patchable _ (hv.patchable _ hskip))))).bind
        fun _ z _ _ =>
      pushHandler_lowers (.ofCatch protectedStart protectedEnd handler exit errorLocal) z
    refine hlowers.weaken ?_ ?_ ?_
    . simp only [Cost.ofInstructions, Cost.none, Cost.instructions_add, binding.length_catchPrologue]
      omega
    . simp only [Cost.ofInstructions, Cost.none, Cost.locals_add]
      omega
    . simp only [Cost.ofInstructions, Cost.none, Cost.registers_add, binding.registers_cost]
      omega

theorem lowerStatements_lowers {inLoop : Bool} (s : Emitter L C) (hloops : inLoop = true → 0 < s.loops.length)
    : (body : List (Stmt L C locals)) → wellFormed inLoop body = true
      → Lowers (statementsCost frame body) (lowerStatements frame body) s (fun _ _ => True)
  | [], _ => by
    unfold lowerStatements statementsCost
    exact (Lowers.pure ()).mono fun _ _ _ => trivial
  | stmt :: statements, h => by
    unfold wellFormed at h
    rw [Bool.and_eq_true] at h
    unfold lowerStatements statementsCost
    refine (lowerStatement_lowers s hloops stmt h.1).bind fun _ t ht _ => ?_
    exact lowerStatements_lowers t (fun hin => ht.loops ▸ hloops hin) statements h.2

/-- The jumps to the end can be patched. -/
theorem lowerBranches_lowers {inLoop : Bool} (s : Emitter L C) (hloops : inLoop = true → 0 < s.loops.length)
    : (branches : List (Condition L C × List (Stmt L C locals))) → wellFormedBranches inLoop branches = true
      → Lowers (branchesCost frame branches) (lowerBranches frame branches) s
          (fun patches t => ∀ patch ∈ patches, Patchable t patch)
  | [], _ => by
    unfold lowerBranches branchesCost
    refine (Lowers.pure []).mono fun patches t hpatches => ?_
    rw [hpatches.1]
    exact List.forall_mem_nil _
  | (condition, body) :: branches, h => by
    unfold wellFormedBranches at h
    rw [Bool.and_eq_true] at h
    unfold lowerBranches branchesCost
    have hlowers := (emitLeaves_lowers condition.operations s).bind
      (R := fun patches t => ∀ patch ∈ patches, Patchable t patch) fun _ t ht _ =>
      (emitJumpIfFalse_lowers t condition.test).bind fun falsePatch u hu hfalse =>
      (lowerStatements_lowers u (fun hin => hu.loops ▸ ht.loops ▸ hloops hin) body h.1).bind fun _ v hv _ =>
      (emitJump_lowers v).bind fun patch w hw hpatch =>
      (patchToCurrent_lowers (hw.patchable _ (hv.patchable _ hfalse))).bind fun _ x hx _ =>
      (lowerBranches_lowers x (fun hin => hx.loops ▸ hw.loops ▸ hv.loops ▸ hu.loops ▸ ht.loops ▸ hloops hin)
        branches h.2).bind fun endPatches y hy hend =>
      (Lowers.pure (patch :: endPatches)).mono fun patches z ⟨hpatches, hz⟩ => by
        rw [hpatches, hz]
        exact List.forall_mem_cons.mpr ⟨hy.patchable _ (hx.patchable _ hpatch), hend⟩
    refine hlowers.weaken ?_ ?_ ?_
    . simp only [Cost.ofInstructions, Cost.none, Cost.instructions_add]
      omega
    . simp only [Cost.ofInstructions, Cost.none, Cost.locals_add]
      omega
    . simp only [Cost.ofInstructions, Cost.none, Cost.registers_add]
      omega

end

/-- What a function takes: its prologue, its body and its return. -/
def functionCost (body : List (Stmt L C locals)) : Cost :=
  .ofInstructions frame.prologue.length + (statementsCost frame body + frame.returnCost)

/-- A well-formed body within the limits is lowered. -/
theorem exists_compileFunction (body : List (Stmt L C locals)) (h : wellFormed false body = true)
    (hinstructions : (functionCost frame body).instructions ≤ u32Max)
    (hlocals : locals + (functionCost frame body).locals ≤ u32Max)
    (hregisters : (functionCost frame body).registers ≤ u32Max)
    : ∃ f, compileFunction frame body = .ok f := by
  have hlowers := (emitLeaves_lowers frame.prologue (Emitter.initial L C locals)).bind (R := fun _ _ => True)
    fun _ t _ _ => (lowerStatements_lowers frame t (fun hin => absurd hin Bool.false_ne_true) body h).bind
    fun _ u _ _ => emitReturn_lowers frame u
  have hready : Ready (Emitter.initial L C locals) := {
    returns := List.forall_mem_nil _
    breaks := List.forall_mem_nil _ }
  have hroom : Room (functionCost frame body) (Emitter.initial L C locals) := {
    instructions := by
      rw [Emitter.initial, List.length_nil, Nat.zero_add]
      exact hinstructions
    locals := hlocals
    registers := by
      rw [Emitter.initial, Nat.zero_add]
      exact hregisters }
  obtain ⟨_, s, hrun, -⟩ := hlowers hready hroom
  let f : Function L C := {
    instructions := s.instructions
    exceptionHandlers := s.exceptionHandlers
    localCount := s.localCount }
  exact ⟨f, bind_eq_ok_iff.mpr ⟨((), s), hrun, rfl⟩⟩

end Functions

end Lowering
end OpenMat
