import OpenMat.Numeric.Basic
import OpenMat.Ssa.Prune

/-!
This module contains the verification conditions of numerical programs and the link between the
in-place reference kernel and the equations of straight-line code.
-/

namespace OpenMat

variable {F : Type} [Scalar F]

namespace Instruction

omit [Scalar F] in
theorem operands_remap (map : Nat → Nat) (i : Instruction F)
    : (i.remap map).operands = i.operands.map map := by
  cases i <;> rfl

omit [Scalar F] in
theorem remap_eq_self {map : Nat → Nat} (i : Instruction F) (h : ∀ r ∈ i.operands, map r = r)
    : i.remap map = i := by
  cases i <;> simp_all [remap, operands]

omit [Scalar F] in
theorem remap_congr {map map' : Nat → Nat} (i : Instruction F)
    (h : ∀ r ∈ i.operands, map r = map' r) : i.remap map = i.remap map' := by
  cases i <;> simp_all [remap, operands]

theorem evaluate_congr (inputs : List F) (i : Instruction F) {v w : Nat → F}
    (h : ∀ r ∈ i.operands, v r = w r) : i.evaluate inputs v = i.evaluate inputs w := by
  cases i with
  | select c a b =>
    simp only [operands, List.mem_cons, List.not_mem_nil, or_false, forall_eq_or_imp,
      forall_eq] at h
    simp only [evaluate, h.1]
    split
    . exact h.2.2
    . exact h.2.1
  | _ => simp_all [evaluate, operands]

theorem evaluate_remap (inputs : List F) (map : Nat → Nat) (i : Instruction F) (v : Nat → F)
    : (i.remap map).evaluate inputs v = i.evaluate inputs (v ∘ map) := by
  cases i with
  | select c a b =>
    simp only [remap, evaluate, Function.comp_apply]
    split <;> rfl
  | _ => rfl

theorem valid_operands {inputCount index : Nat} {i : Instruction F}
    (h : i.valid inputCount index = true) : ∀ r ∈ i.operands, r < index := by
  cases i <;> simp_all [valid, operands]

theorem valid_remap {inputCount index index' : Nat} {map : Nat → Nat} {i : Instruction F}
    (h : i.valid inputCount index = true) (hmap : ∀ r ∈ i.operands, map r < index')
    : (i.remap map).valid inputCount index' = true := by
  cases i <;> simp_all [valid, operands, remap]

end Instruction

/--
Guarded instructions as an instruction set: a guard is one more reference.
-/
def dialect (inputs : List F) : Ssa.Dialect (Instruction F × Option Nat) F where
  refs i := i.2.toList ++ i.1.operands
  rename map i := (i.1.remap map, i.2.map map)
  denote v i := if i.2.any (fun g => Scalar.isZero (v g)) then Scalar.zero else i.1.evaluate inputs v
  refs_rename map i := by
    obtain ⟨op, guard⟩ := i
    cases guard <;> simp [Instruction.operands_remap]
  rename_eq_self map i h := by
    obtain ⟨op, guard⟩ := i
    have hop : op.remap map = op := Instruction.remap_eq_self op (fun r hr => h r (by simp [hr]))
    cases guard with
    | none => simp [hop]
    | some g => simp [hop, h g (by simp)]
  denote_congr i v w h := by
    obtain ⟨op, guard⟩ := i
    have hop := Instruction.evaluate_congr inputs op (fun r hr => h r (by simp [hr]))
    cases guard with
    | none => simpa using hop
    | some g => simp only [Option.any_some, h g (by simp), hop]
  denote_rename map i v := by
    obtain ⟨op, guard⟩ := i
    cases guard <;> simp [Instruction.evaluate_remap]

namespace Program

def code (p : Program F) : List (Instruction F × Option Nat) := p.instructions.zip p.guards

structure Verified (p : Program F) : Prop where
  inputCount_le : p.inputCount ≤ maxValues
  length_le : p.instructions.length ≤ maxValues
  outputs_le : p.outputs.length ≤ maxValues
  valid : ∀ (k : Nat) (hk : k < p.instructions.length),
    p.instructions[k].valid p.inputCount k = true
  output_lt : ∀ id ∈ p.outputs, id < p.instructions.length
  length_guards : p.guards.length = p.instructions.length
  guard_lt : ∀ (k : Nat) (hk : k < p.guards.length), ∀ g, p.guards[k] = some g → g < k

theorem firstInvalid_eq_none_iff (inputCount index : Nat) (instructions : List (Instruction F))
    : firstInvalid inputCount index instructions = none ↔
        ∀ (k : Nat) (hk : k < instructions.length),
          instructions[k].valid inputCount (index + k) = true := by
  induction instructions generalizing index with
  | nil => simp [firstInvalid]
  | cons i rest ih =>
    rw [firstInvalid]
    split
    . next hvalid =>
      rw [ih]
      constructor
      . intro h k hk
        cases k with
        | zero => simpa using hvalid
        | succ k =>
          have := h k (by simpa using hk)
          simpa [Nat.add_assoc, Nat.add_comm 1] using this
      . intro h k hk
        have := h (k + 1) (by simpa using hk)
        simpa [Nat.add_assoc, Nat.add_comm 1] using this
    . next hvalid =>
      simp only [reduceCtorEq, false_iff, not_forall]
      exact ⟨0, by simp, by simpa using hvalid⟩

theorem badGuard_eq_false_iff (index : Nat) (guards : List (Option Nat))
    : badGuard index guards = false ↔
        ∀ (k : Nat) (hk : k < guards.length), ∀ g, guards[k] = some g → g < index + k := by
  induction guards generalizing index with
  | nil => simp [badGuard]
  | cons guard rest ih =>
    rw [badGuard, Bool.or_eq_false_iff, ih]
    constructor
    . rintro ⟨hhead, htail⟩ k hk g hg
      cases k with
      | zero =>
        simp only [List.getElem_cons_zero] at hg
        simp only [hg, Option.any_some, decide_eq_false_iff_not] at hhead
        omega
      | succ k =>
        have := htail k (by simpa using hk) g (by simpa using hg)
        omega
    . intro h
      constructor
      . cases guard with
        | none => rfl
        | some g =>
          have := h 0 (by simp) g rfl
          simp only [Option.any_some, decide_eq_false_iff_not]
          omega
      . intro k hk g hg
        have := h (k + 1) (by simpa using hk) g (by simpa using hg)
        omega

theorem new_withGuards_eq_ok_iff {inputCount : Nat} {instructions : List (Instruction F)}
    {outputs : List Nat} {guards : List (Option Nat)} {q : Program F}
    : (do let p ← Program.new inputCount instructions outputs; p.withGuards guards) = .ok q ↔
        q = ⟨inputCount, instructions, outputs, guards⟩ ∧ q.Verified := by
  rw [Program.new]
  constructor
  . intro h
    split at h
    . simp [bind, Except.bind] at h
    . next hlimits =>
      split at h
      . simp [bind, Except.bind] at h
      . next hvalid =>
        split at h
        . simp [bind, Except.bind] at h
        . next houtputs =>
          simp only [bind, Except.bind, withGuards] at h
          split at h
          . simp at h
          . next hguards =>
            simp only [Except.ok.injEq] at h
            simp only [firstInvalid_eq_none_iff, Nat.zero_add] at hvalid
            simp only [not_or, Nat.not_lt] at hlimits
            simp only [not_or, Decidable.not_not, Bool.not_eq_true, badGuard_eq_false_iff,
              Nat.zero_add] at hguards
            simp only [List.any_eq_true, decide_eq_true_eq, not_exists, not_and,
              Nat.not_le] at houtputs
            subst h
            exact ⟨rfl, hlimits.1, hlimits.2.1, hlimits.2.2, hvalid, houtputs, hguards.1,
              hguards.2⟩
  . rintro ⟨rfl, h⟩
    have hvalid : firstInvalid inputCount 0 instructions = none := by
      rw [firstInvalid_eq_none_iff]
      simpa using h.valid
    have hguards : badGuard 0 guards = false := by
      rw [badGuard_eq_false_iff]
      simpa using h.guard_lt
    have hlimits := And.intro h.inputCount_le (And.intro h.length_le h.outputs_le)
    have hlength : guards.length = instructions.length := h.length_guards
    have houtputs : outputs.any (fun id => decide (instructions.length ≤ id)) = false := by
      simp only [List.any_eq_false, decide_eq_true_eq, Nat.not_le]
      exact h.output_lt
    rw [if_neg (by simp only [not_or, Nat.not_lt]; exact hlimits), hvalid]
    simp [houtputs, bind, Except.bind, withGuards, hlength, hguards]

theorem new_eq_ok_iff {inputCount : Nat} {instructions : List (Instruction F)}
    {outputs : List Nat} {q : Program F}
    : Program.new inputCount instructions outputs = .ok q ↔
        q = ⟨inputCount, instructions, outputs, List.replicate instructions.length none⟩ ∧
          q.Verified := by
  rw [← @new_withGuards_eq_ok_iff _ _ _ _ _ (List.replicate instructions.length none)]
  have hbad : badGuard 0 (List.replicate instructions.length none) = false := by
    simp [badGuard_eq_false_iff]
  cases hnew : Program.new inputCount instructions outputs with
  | error e => simp [bind, Except.bind]
  | ok p =>
    have hp : p.instructions = instructions ∧
        p.guards = List.replicate instructions.length none := by
      rw [Program.new] at hnew
      split at hnew
      . simp at hnew
      . split at hnew
        . simp at hnew
        . split at hnew
          . simp at hnew
          . simp only [Except.ok.injEq] at hnew
            subst hnew
            exact ⟨rfl, rfl⟩
    obtain ⟨inputCount', instructions', outputs', guards'⟩ := p
    obtain ⟨hins, hguards⟩ := hp
    dsimp only at hins hguards
    subst hins hguards
    simp [bind, Except.bind, withGuards, hbad]

@[simp]
theorem Verified.length_code {p : Program F} (h : p.Verified)
    : p.code.length = p.instructions.length := by
  simp [code, h.length_guards]

theorem Verified.dominated {p : Program F} (h : p.Verified) (inputs : List F)
    : Ssa.Dominated (dialect inputs) p.code := by
  intro k hk r hr
  have hk' : k < p.instructions.length := by simpa [h.length_code] using hk
  simp only [dialect, code, List.getElem_zip, List.mem_append, Option.mem_toList] at hr
  cases hr with
  | inl hguard => exact h.guard_lt k (by simpa [h.length_guards] using hk') r hguard
  | inr hop => exact Instruction.valid_operands (h.valid k hk') r hop

end Program

namespace ReferenceKernel

theorem run_getD (p : Program F) (inputs : List F) (index : Nat)
    (code : List (Instruction F × Option Nat)) (registers : List F)
    (hcode : ∀ (k : Nat) (hk : k < code.length), p.guards.getD (index + k) none = code[k].2)
    (hlength : index + code.length ≤ registers.length) (r : Nat)
    : (run p inputs index (code.map Prod.fst) registers).getD r default =
        Ssa.exec (dialect inputs) index code (fun id => registers.getD id default) r := by
  induction code generalizing index registers with
  | nil => rfl
  | cons i code ih =>
    simp only [List.length_cons] at hlength
    have hguard : p.guards.getD index none = i.2 := hcode 0 (by simp)
    rw [List.map_cons, run, Ssa.exec, ih]
    . congr 1
      funext id
      simp only [List.getD_eq_getElem?_getD, List.getElem?_set, Function.update_apply]
      by_cases hid : id = index
      . subst hid
        have hlt : id < registers.length := by omega
        rw [if_pos rfl, if_pos rfl, if_pos hlt, Option.getD_some, result, hguard]
        simp [dialect, List.getD_eq_getElem?_getD]
      . rw [if_neg (Ne.symm hid), if_neg hid]
    . intro k hk
      have := hcode (k + 1) (by simpa using hk)
      simpa [Nat.add_assoc, Nat.add_comm 1] using this
    . simp only [List.length_set]
      omega

theorem run_isValuation {p : Program F} (h : p.Verified) (inputs registers : List F)
    (hlength : registers.length = p.instructions.length)
    : Ssa.IsValuation (dialect inputs) p.code
        (fun id => (run p inputs 0 p.instructions registers).getD id default) := by
  have hfst : p.code.map Prod.fst = p.instructions :=
    List.map_fst_zip (Nat.le_of_eq h.length_guards.symm)
  have hexec : (fun id => (run p inputs 0 p.instructions registers).getD id default) =
      Ssa.exec (dialect inputs) 0 p.code (fun id => registers.getD id default) := by
    funext r
    rw [← hfst]
    apply run_getD
    . intro k hk
      have hk' : k < p.guards.length := by
        rw [h.length_guards, ← h.length_code]
        exact hk
      simp [Program.code, List.getElem?_eq_getElem hk']
    . rw [h.length_code, hlength]
      omega
  rw [hexec]
  exact Ssa.exec_isValuation (h.dominated inputs) _

theorem evaluate_fst_of_isValuation (k : ReferenceKernel F) (h : k.program.Verified)
    (inputs : List F) (hinputs : inputs.length = k.program.inputCount) {v : Nat → F}
    (hv : Ssa.IsValuation (dialect inputs) k.program.code v)
    : (k.evaluate inputs k.program.outputCount).1 = .ok (k.program.outputs.map v) := by
  rw [evaluate, if_neg (by simp [hinputs])]
  simp only [Except.ok.injEq]
  apply List.map_congr_left
  intro id hid
  have hrun := run_isValuation h inputs k.registers k.length_registers
  exact Ssa.IsValuation.eq_of_lt (h.dominated inputs) hrun hv id
    (by simpa [h.length_code] using h.output_lt id hid)

end ReferenceKernel

end OpenMat
