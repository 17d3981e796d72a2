import OpenMat.Lowering.Emission

/-!
This module contains the proof that lowering places every part of a body as its layout demands.
-/

namespace OpenMat
namespace Lowering

open Bytecode Assembly

variable {L C : Type} {locals : Nat}

/-- The targets for the code that is emitted in a state. -/
def targetsOf (s : Emitter L C) (target : Label → Nat) : Targets where
  loopStart := s.loops.head?.map LoopContext.continueTarget
  loopExit := target .loopExit
  epilogue := target .epilogue

section Targets

variable {s : Emitter L C} {target : Label → Nat} {pc : Nat}

theorem targetsOf_branchEnd
    : targetsOf s (Function.update target .branchEnd pc) = targetsOf s target :=
  rfl

theorem targetsOf_skip
    : targetsOf s (Function.update target .skip pc) = targetsOf s target :=
  rfl

theorem targetsOf_loopExit
    : targetsOf s (Function.update target .loopExit pc) =
        { targetsOf s target with loopExit := pc } :=
  rfl

end Targets

theorem Emits.targetsOf_eq {frame : Frame L} {P : Layout L C} {ends skips : List Nat}
    {s s' : Emitter L C} (h : Emits locals frame P ends skips s s') (target : Label → Nat)
    : targetsOf s' target = targetsOf s target := by
  unfold targetsOf
  rw [h.loopStart_eq]

section Operations

variable {s s' : Emitter L C} {frame : Frame L}

theorem Emitter.length_extend {block : List (Instruction L C)}
    : (s.extend block).instructions.length = s.instructions.length + block.length := by
  simp [Emitter.extend]

theorem lowerBreak_emits (h : lowerBreak.run s = .ok ((), s'))
    : Emits locals frame (fun handlers code target =>
        StatementAt code frame (targetsOf s target) (.breakLoop : Stmt L C locals)
          s.instructions.length s'.instructions.length handlers) [] [] s s' := by
  unfold lowerBreak emitJump at h
  simp only [run_bind_eq_ok_iff, run_get_eq_ok_iff] at h
  obtain ⟨_, _, hget, h⟩ := h
  cases hget
  split at h
  . simp only [run_bind_eq_ok_iff, run_throw_eq_ok_iff, false_and, exists_false] at h
  . simp only [run_bind_eq_ok_iff, run_modify_eq_ok_iff] at h
    obtain ⟨_, _, hemit, h⟩ := h
    cases (of_emit hemit).2
    cases hloops : s.loops with
    | nil => simp_all
    | cons context loops =>
      have hs' : s' = { s.extend [.jump 0] with
          loops := addBreaks [s.instructions.length] s.loops } := by
        rw [Prod.mk.injEq] at h
        rw [h.2]
        simp [Emitter.extend, hloops, addBreaks]
      rw [hs']
      apply (Emits.breakLoop locals frame hloops).mono
      rintro handlers code target ⟨hcode, hhandlers⟩
      rw [StatementAt]
      refine ⟨by simp [targetsOf, hloops], hcode, Emitter.length_extend, hhandlers⟩

theorem lowerContinue_emits (h : lowerContinue.run s = .ok ((), s'))
    : Emits locals frame (fun handlers code target =>
        StatementAt code frame (targetsOf s target) (.continueLoop : Stmt L C locals)
          s.instructions.length s'.instructions.length handlers) [] [] s s' := by
  unfold lowerContinue at h
  simp only [run_bind_eq_ok_iff, run_get_eq_ok_iff] at h
  obtain ⟨_, _, hget, h⟩ := h
  cases hget
  split at h
  . simp only [run_throw_eq_ok_iff] at h
  . next context loops hloops =>
    simp only [run_bind_eq_ok_iff, run_pure_eq_ok_iff] at h
    obtain ⟨_, _, hemit, h⟩ := h
    cases (of_emit hemit).2
    cases h
    apply (Emits.jump locals frame s context.continueTarget).mono
    rintro handlers code target ⟨hcode, hhandlers⟩
    rw [StatementAt]
    refine ⟨⟨context.continueTarget, ?_, hcode⟩, Emitter.length_extend, hhandlers⟩
    simp [targetsOf, hloops]

theorem lowerReturn_emits (h : (lowerReturn frame).run s = .ok ((), s'))
    (hinline : frame.validations = none → s.outputReturnPatches = [])
    : Emits locals frame (fun handlers code target =>
        StatementAt code frame (targetsOf s target) (.returnValues : Stmt L C locals)
          s.instructions.length s'.instructions.length handlers) [] [] s s' := by
  unfold lowerReturn at h
  by_cases hframe : frame.validations = none
  . rw [if_pos (by simp [hframe])] at h
    obtain ⟨t, hpatched, rfl, -⟩ := of_emitReturn h
    -- Without validated outputs no jump waits for the epilogue.
    rw [hinline hframe] at hpatched
    have ht : t = s := by
      rw [hpatched.eq_of_nil, ← hinline hframe]
    subst t
    apply (Emits.block locals frame s (silent_epilogue frame)).mono
    rintro handlers code target ⟨hcode, hhandlers⟩
    rw [StatementAt, ReturnAt, if_pos (by simp [hframe])]
    have hepilogue : frame.epilogue (C := C) = frame.outputs.map .load ++ [frame.ret] := by
      simp [Frame.epilogue, hframe]
    refine ⟨⟨hepilogue ▸ hcode, ?_⟩, hhandlers⟩
    rw [Emitter.length_extend, hepilogue]
    simp [Nat.add_assoc]
  . rw [if_neg (by simp [hframe])] at h
    unfold emitJump at h
    simp only [run_bind_eq_ok_iff, run_modify_eq_ok_iff] at h
    obtain ⟨_, _, hemit, h⟩ := h
    cases (of_emit hemit).2
    cases h
    apply (Emits.deferredReturn locals s hframe).mono
    rintro handlers code target ⟨hcode, hhandlers⟩
    rw [StatementAt, ReturnAt, if_neg (by simp [hframe])]
    exact ⟨⟨hcode, Emitter.length_extend⟩, hhandlers⟩

theorem catchErrorLocal_emits (frame : Frame L) {binding : CatchBinding L locals} {errorLocal : Option Nat}
    (h : (catchErrorLocal binding).run s = .ok (errorLocal, s'))
    : Emits locals frame (fun handlers _ _ => handlers = []) [] [] s s' ∧
        s'.instructions = s.instructions ∧
        (locals ≤ s.localCount → ∀ l, errorLocal = some l → l < s'.localCount) := by
  unfold catchErrorLocal at h
  split at h
  . cases run_pure_eq_ok_iff.mp h
    exact ⟨Emits.nil locals frame s, rfl, by simp⟩
  . next slot =>
    cases run_pure_eq_ok_iff.mp h
    refine ⟨Emits.nil locals frame s, rfl, ?_⟩
    intro hlocals l hl
    cases hl
    exact Nat.lt_of_lt_of_le slot.isLt hlocals
  . unfold allocateInternalLocal at h
    simp only [run_bind_eq_ok_iff, run_get_eq_ok_iff] at h
    obtain ⟨_, _, ⟨_, _, hget, h⟩, hpure⟩ := h
    cases hget
    split at h
    . simp only [run_bind_eq_ok_iff, run_throw_eq_ok_iff, false_and, exists_false] at h
    . simp only [run_bind_eq_ok_iff, run_set_eq_ok_iff, run_pure_eq_ok_iff] at h
      obtain ⟨_, _, hset, h⟩ := h
      cases hset
      cases h
      cases run_pure_eq_ok_iff.mp hpure
      refine ⟨Emits.allocate locals frame s (Nat.le_succ _), rfl, ?_⟩
      intro _ l hl
      cases hl
      exact Nat.lt_succ_self _

def Emitter.inLoop (s : Emitter L C) (continueTarget : Nat) : Emitter L C :=
  { s with loops := { continueTarget := continueTarget, breakPatches := [] } :: s.loops }

/-- The end of a loop, where `P` is said about what comes before the body. -/
theorem loopEnd_emits {P Q : Layout L C} {continueTarget exitPatch pc : Nat} {breaks : List Nat}
    {s₁ s₂ s₃ s₄ s₅ : Emitter L C}
    (hhead : Emits locals frame P [] [exitPatch] (s.inLoop continueTarget) s₁)
    (hbody : Emits locals frame Q [] [] s₁ s₂)
    (hpop : popLoop.run s₂ = .ok (breaks, s₃))
    (hjump : (emit (.jump continueTarget)).run s₃ = .ok (pc, s₄))
    (hexit : (patchToCurrent exitPatch).run s₄ = .ok ((), s₅))
    (hbreaks : (breaks.forM patchToCurrent).run s₅ = .ok ((), s'))
    : Emits locals frame (fun handlers code target =>
        ∃ hs hs', P hs code (Function.update (Function.update target .loopExit
            s'.instructions.length) .skip s'.instructions.length) ∧
          Q hs' code (Function.update (Function.update target .loopExit s'.instructions.length)
            .skip s'.instructions.length) ∧
          CodeAt code s₂.instructions.length [.jump continueTarget] ∧ handlers = hs ++ hs')
        [] [] s s' ∧ s'.instructions.length = s₂.instructions.length + 1 := by
  have hall := hhead.append (hbody.append (Emits.jump locals frame s₂ continueTarget))
  have hloops : s₂.loops ≠ [] := by
    obtain ⟨_, _, hemitted, -⟩ := hbody
    obtain ⟨_, _, hemitted', -⟩ := hhead
    rw [hemitted.loops, hemitted'.loops]
    simp [Emitter.inLoop, addBreaks]
  unfold popLoop at hpop
  simp only [run_bind_eq_ok_iff, run_get_eq_ok_iff] at hpop
  obtain ⟨_, _, hget, hpop⟩ := hpop
  cases hget
  split at hpop
  . next hnil => exact absurd hnil hloops
  . next context loops hcons =>
    simp only [run_bind_eq_ok_iff, run_set_eq_ok_iff, run_pure_eq_ok_iff] at hpop
    obtain ⟨_, _, hset, hpop⟩ := hpop
    cases hset
    cases hpop
    cases (of_emit hjump).2
    have hskips := of_patchToCurrent hexit
    have hbreaks := of_patchAll hbreaks
    have hlength : s'.instructions.length = s₂.instructions.length + 1 := by
      rw [hbreaks.length, hskips.length, Emitter.length_extend]
      rfl
    refine ⟨?_, hlength⟩
    apply (hall.closeLoop hcons hskips hbreaks).mono
    rintro handlers code target ⟨hs, _, hP, ⟨hs', _, hQ, ⟨hcode, rfl⟩, rfl⟩, rfl⟩
    rw [Emitter.length_extend, List.length_singleton, ← hlength] at hP hQ
    exact ⟨hs, hs', hP, hQ, hcode, by rw [List.append_nil]⟩

end Operations

mutual

theorem lowerStatement_emits (frame : Frame L) (stmt : Stmt L C locals) {s s' : Emitter L C}
    (h : (lowerStatement frame stmt).run s = .ok ((), s'))
    (hinline : frame.validations = none → s.outputReturnPatches = [])
    : Emits locals frame (fun handlers code target =>
        StatementAt code frame (targetsOf s target) stmt s.instructions.length
          s'.instructions.length handlers) [] [] s s' := by
  cases stmt with
  | leaf operations =>
    rw [lowerStatement] at h
    cases of_emitLeaves h
    apply (Emits.leaves locals frame s operations).mono
    rintro handlers code target ⟨hcode, hhandlers⟩
    rw [StatementAt]
    exact ⟨hcode, by simp [Emitter.length_extend], hhandlers⟩
  | ifElse branches elseBody =>
    rw [lowerStatement] at h
    split at h
    . simp only [run_bind_eq_ok_iff, run_throw_eq_ok_iff, false_and, exists_false] at h
    . simp only [run_bind_eq_ok_iff] at h
      obtain ⟨ends, s₁, hbranches, _, s₂, helse, hpatch⟩ := h
      have hfirst := lowerBranches_emits frame branches hbranches hinline
      have hsecond := lowerStatements_emits frame elseBody helse (hfirst.inline_returns hinline)
      have hpatched := of_patchAll hpatch
      have hall := hfirst.append hsecond
      rw [List.append_nil] at hall
      apply (hall.patchEnds hpatched).mono
      rintro handlers code target ⟨hs, hs', hcode, hcode', hhandlers⟩
      simp only [targetsOf_branchEnd, hfirst.targetsOf_eq, Function.update_self] at hcode hcode'
      rw [StatementAt, hpatched.length]
      exact ⟨s₁.instructions.length, hs, hs', hcode, hcode', hhandlers⟩
  | switch selector cases otherwise =>
    rw [lowerStatement] at h
    simp only [run_bind_eq_ok_iff] at h
    obtain ⟨_, _, hselector, ends, s₁, hbranches, _, s₂, helse, hpatch⟩ := h
    cases of_emitLeaves hselector
    have hblock := Emits.leaves locals frame s selector
    have hfirst := lowerBranches_emits frame cases hbranches (hblock.inline_returns hinline)
    have hsecond := lowerStatements_emits frame otherwise helse
      (hfirst.inline_returns (hblock.inline_returns hinline))
    have hpatched := of_patchAll hpatch
    have hall := hblock.append (hfirst.append hsecond)
    rw [List.append_nil] at hall
    apply (hall.patchEnds hpatched).mono
    rintro handlers code target ⟨_, _, ⟨hselector, rfl⟩, ⟨hs, hs', hcode, hcode', rfl⟩, hhandlers⟩
    simp only [targetsOf_branchEnd, hfirst.targetsOf_eq, hblock.targetsOf_eq, Function.update_self,
      Emitter.length_extend, List.length_map] at hcode hcode'
    rw [StatementAt, hpatched.length]
    exact ⟨hselector, s₁.instructions.length, hs, hs', hcode, hcode', hhandlers⟩
  | whileLoop condition body =>
    rw [lowerStatement] at h
    unfold emitJumpIfFalse pushLoop at h
    simp only [run_bind_eq_ok_iff, run_modify_eq_ok_iff] at h
    obtain ⟨_, _, hstart, _, _, hleaves, _, _, hexit, _, _, hpush, _, s₁, hbody, breaks, _, hpop,
      _, _, hjump, _, s₂, hpatch, hpatches⟩ := h
    cases (of_currentInstruction hstart).2
    cases of_emitLeaves hleaves
    cases (of_emit hexit).2
    cases hpush
    -- The condition is emitted before the loop is pushed, but it does not mind the loop.
    have hcondition := Emits.leaves locals frame (s.inLoop s.instructions.length) condition.operations
    have hhole := Emits.hole locals frame
      ((s.inLoop s.instructions.length).extend (condition.operations.map .leaf))
      (.jumpIfFalse condition.test 0) .skip (by decide) (by decide) rfl
    have hhead := hcondition.append hhole
    have hinner := lowerStatements_emits frame body hbody (hhead.inline_returns hinline)
    obtain ⟨hall, hlength⟩ := loopEnd_emits hhead hinner hpop hjump hpatch hpatches
    apply hall.mono
    rintro handlers code target
      ⟨_, hs, ⟨_, _, ⟨hcode, rfl⟩, ⟨hcode', rfl⟩, rfl⟩, hbody, hback, rfl⟩
    simp only [targetsOf_skip, targetsOf_loopExit, Function.update_self, Emitter.length_extend,
      List.length_map] at hbody hcode'
    rw [StatementAt]
    refine ⟨codeAt_append.mpr ⟨hcode, ?_⟩, s₁.instructions.length, ?_, hback, hlength⟩
    . rw [List.length_map]
      exact hcode'
    . exact hbody
  | forLoop iterable value store body =>
    rw [lowerStatement] at h
    unfold pushLoop at h
    simp only [run_bind_eq_ok_iff, run_modify_eq_ok_iff] at h
    obtain ⟨_, _, hiterable, _, _, hhead, _, _, hstore, _, _, hpush, _, s₁, hbody, breaks, _, hpop, _, _,
      hjump, _, s₂, hpatch, hpatches⟩ := h
    cases of_emitLeaves hiterable
    cases of_lowerForHead hhead
    cases of_emitLeaves hstore
    cases hpush
    have hiterable := Emits.leaves locals frame (s.inLoop (s.instructions.length + iterable.length + 2))
      iterable
    have hhead := hiterable.append ((Emits.forHead locals frame _ value).append
      (Emits.leaves locals frame _ store))
    rw [Emitter.length_extend, List.length_map] at hbody hjump
    have hinner := (lowerStatements_emits frame body hbody (hhead.inline_returns hinline)).untouched
    obtain ⟨hall, hlength⟩ := loopEnd_emits hhead hinner hpop hjump hpatch hpatches
    apply hall.mono
    rintro handlers code target
      ⟨_, hs, ⟨_, _, ⟨hcode, rfl⟩, ⟨_, _, ⟨hcode', rfl⟩, ⟨hcode'', rfl⟩, rfl⟩, rfl⟩,
        ⟨hbody, huntouched⟩, hback, rfl⟩
    simp only [targetsOf_skip, targetsOf_loopExit, Function.update_self, Emitter.length_extend,
      List.length_map, length_forHead] at hbody hcode' hcode'' huntouched
    rw [StatementAt]
    refine ⟨s.nextRegister, s.nextRegister + 1, s₁.instructions.length, by omega,
      codeAt_append.mpr ⟨hcode, ?_⟩, hbody, ?_, hback, hlength⟩
    . rw [List.length_map]
      exact codeAt_append (a := forHead s.nextRegister value s'.instructions.length) |>.mpr
        ⟨hcode', hcode''⟩
    . intro register hregister
      have hnext : register < s.nextRegister + 3 := by
        simp only [List.mem_cons, List.not_mem_nil, or_false] at hregister
        omega
      exact huntouched register hnext
  | tryCatch body handler =>
    rw [lowerStatement] at h
    simp only [run_bind_eq_ok_iff] at h
    obtain ⟨_, _, hstart, _, s₁, hbody, _, _, hend, h⟩ := h
    cases (of_currentInstruction hstart).2
    cases (of_currentInstruction hend).2
    have hfirst := lowerStatements_emits frame body hbody hinline
    split at h
    . next hempty =>
      cases run_pure_eq_ok_iff.mp h
      apply hfirst.mono
      intro handlers code target hcode
      rw [StatementAt]
      refine ⟨s'.instructions.length, handlers, hcode, ?_⟩
      rw [if_pos hempty]
      exact ⟨hempty.symm, rfl⟩
    . next hnonempty =>
      have hsecond := lowerHandler_emits frame s.instructions.length handler h
        (hfirst.inline_returns hinline)
      apply (hfirst.append hsecond).mono
      rintro handlers code target ⟨hs, hs', hcode, hcode', hhandlers⟩
      simp only [hfirst.targetsOf_eq] at hcode'
      rw [StatementAt]
      refine ⟨s₁.instructions.length, hs, hcode, ?_⟩
      rw [if_neg hnonempty]
      exact ⟨hs', hcode', hhandlers⟩
  | breakLoop =>
    rw [lowerStatement] at h
    exact lowerBreak_emits h
  | continueLoop =>
    rw [lowerStatement] at h
    exact lowerContinue_emits h
  | returnValues =>
    rw [lowerStatement] at h
    exact lowerReturn_emits h hinline

theorem lowerHandler_emits (frame : Frame L) (protectedStart : Nat)
    (handler : Option (CatchBinding L locals × List (Stmt L C locals))) {s s' : Emitter L C}
    (h : (lowerHandler frame protectedStart s.instructions.length handler).run s = .ok ((), s'))
    (hinline : frame.validations = none → s.outputReturnPatches = [])
    : Emits locals frame (fun handlers code target =>
        HandlerAt code frame (targetsOf s target) protectedStart s.instructions.length handler
          s'.instructions.length handlers) [] [] s s' := by
  cases handler with
  | none =>
    rw [lowerHandler] at h
    unfold emitJump pushHandler at h
    simp only [run_bind_eq_ok_iff, run_modify_eq_ok_iff] at h
    obtain ⟨_, _, hjump, _, s₁, hpatch, h⟩ := h
    cases (of_emit hjump).2
    cases h
    have hhole := Emits.hole locals frame s (.jump 0) .skip (by decide) (by decide) rfl
    have hpatched := of_patchToCurrent hpatch
    have hlength : s₁.instructions.length = s.instructions.length + 1 := by
      rw [hpatched.length, Emitter.length_extend]
      rfl
    apply ((hhole.patchSkips hpatched).pushHandler (fun _ l hl => by cases hl)).mono
    rintro handlers code target ⟨_, ⟨hcode, rfl⟩, hhandlers⟩
    rw [Function.update_self, Emitter.length_extend] at hcode
    rw [HandlerAt]
    exact ⟨hcode, hlength, hhandlers⟩
  | some handler =>
    obtain ⟨binding, body⟩ := handler
    rw [lowerHandler] at h
    unfold emitJump pushHandler at h
    simp only [run_bind_eq_ok_iff, run_modify_eq_ok_iff] at h
    obtain ⟨errorLocal, t, hbinding, _, _, hjump, _, _, hhandler, _, _, hprologue, _, s₁, hbody, _, _,
      hexit, _, s₂, hpatch, h⟩ := h
    obtain ⟨hallocate, hinstructions, hlocal⟩ := catchErrorLocal_emits frame hbinding
    cases (of_emit hjump).2
    cases (of_currentInstruction hhandler).2
    cases of_emitLeaves hprologue
    cases (of_currentInstruction hexit).2
    cases h
    have hhole := Emits.hole locals frame t (.jump 0) .skip (by decide) (by decide) rfl
    have hblock := Emits.leaves locals frame (t.extend [.jump 0]) (catchPrologue binding)
    have hhead := hallocate.append (hhole.append hblock)
    have hinner := lowerStatements_emits frame body hbody (hhead.inline_returns hinline)
    have hpatched := of_patchToCurrent hpatch
    have hall := (hhead.append hinner).patchSkips hpatched
    apply (hall.pushHandler ?_).mono
    . rintro handlers code target ⟨_, ⟨_, hs, ⟨_, _, rfl, ⟨_, _, ⟨hskip, rfl⟩, ⟨hprologue, rfl⟩, rfl⟩,
        rfl⟩, hbody, hcatch⟩, rfl⟩
      simp only [targetsOf_skip, hhead.targetsOf_eq, Function.update_self, Emitter.length_extend,
        List.length_map, List.length_singleton, hinstructions] at hskip hprologue hbody
      rw [HandlerAt]
      dsimp only
      rw [hpatched.length, codeAt_cons]
      refine ⟨⟨codeAt_singleton.mp hskip, hprologue⟩, hs, errorLocal, hbody, ?_⟩
      rw [Emitter.length_extend, hinstructions, hcatch]
      rfl
    . intro hlocals l hl
      have hle := hinner.localCount_le
      have hlt := hlocal hlocals l hl
      rw [hpatched.others]
      exact Nat.lt_of_lt_of_le hlt hle

theorem lowerStatements_emits (frame : Frame L) (body : List (Stmt L C locals)) {s s' : Emitter L C}
    (h : (lowerStatements frame body).run s = .ok ((), s'))
    (hinline : frame.validations = none → s.outputReturnPatches = [])
    : Emits locals frame (fun handlers code target =>
        StatementsAt code frame (targetsOf s target) body s.instructions.length
          s'.instructions.length handlers) [] [] s s' := by
  cases body with
  | nil =>
    rw [lowerStatements] at h
    cases run_pure_eq_ok_iff.mp h
    apply (Emits.nil locals frame s).mono
    intro handlers code target hhandlers
    rw [StatementsAt]
    exact ⟨rfl, hhandlers⟩
  | cons stmt body =>
    rw [lowerStatements] at h
    obtain ⟨_, s₁, hstmt, hbody⟩ := run_bind_eq_ok_iff.mp h
    have hfirst := lowerStatement_emits frame stmt hstmt hinline
    have hsecond := lowerStatements_emits frame body hbody (hfirst.inline_returns hinline)
    apply (hfirst.append hsecond).mono
    rintro handlers code target ⟨hs, hs', hcode, hcode', hhandlers⟩
    simp only [hfirst.targetsOf_eq] at hcode'
    rw [StatementsAt]
    exact ⟨s₁.instructions.length, hs, hs', hcode, hcode', hhandlers⟩

theorem lowerBranches_emits (frame : Frame L)
    (branches : List (Condition L C × List (Stmt L C locals))) {ends : List Nat} {s s' : Emitter L C}
    (h : (lowerBranches frame branches).run s = .ok (ends, s'))
    (hinline : frame.validations = none → s.outputReturnPatches = [])
    : Emits locals frame (fun handlers code target =>
        BranchesAt code frame (targetsOf s target) (target .branchEnd) branches s.instructions.length
          s'.instructions.length handlers) ends [] s s' := by
  cases branches with
  | nil =>
    rw [lowerBranches] at h
    cases run_pure_eq_ok_iff.mp h
    apply (Emits.nil locals frame s).mono
    intro handlers code target hhandlers
    rw [BranchesAt]
    exact ⟨rfl, hhandlers⟩
  | cons branch branches =>
    obtain ⟨condition, body⟩ := branch
    rw [lowerBranches] at h
    unfold emitJump emitJumpIfFalse at h
    simp only [run_bind_eq_ok_iff, run_pure_eq_ok_iff] at h
    obtain ⟨_, _, hleaves, _, _, hfalse, _, s₁, hbody, _, _, hjump, _, s₂, hpatch, ends', _, hrest, h⟩ := h
    cases h
    cases of_emitLeaves hleaves
    cases (of_emit hfalse).2
    cases (of_emit hjump).2
    have hcondition := Emits.leaves locals frame s condition.operations
    have hhole := Emits.hole locals frame (s.extend (condition.operations.map .leaf))
      (.jumpIfFalse condition.test 0) .skip (by decide) (by decide) rfl
    have hhead := hcondition.append hhole
    have hinner := lowerStatements_emits frame body hbody (hhead.inline_returns hinline)
    have hend := Emits.hole locals frame s₁ (.jump 0) .branchEnd (by decide) (by decide) rfl
    have hpatched := of_patchToCurrent hpatch
    have hbranch := (hhead.append (hinner.append hend)).patchSkips hpatched
    have hothers := lowerBranches_emits frame branches hrest (hbranch.inline_returns hinline)
    apply (hbranch.append hothers).mono
    rintro handlers code target ⟨_, hs', ⟨_, _, ⟨_, _, ⟨hcode, rfl⟩, ⟨hcode', rfl⟩, rfl⟩,
      ⟨hs, _, hbody, ⟨hjump, rfl⟩, rfl⟩, rfl⟩, hrest, rfl⟩
    have hlength : s₂.instructions.length = s₁.instructions.length + 1 := by
      rw [hpatched.length, Emitter.length_extend]
      rfl
    simp only [targetsOf_skip, hbranch.targetsOf_eq, Function.update_self, Emitter.length_extend,
      List.length_map, List.length_singleton, hlength] at hcode' hbody hrest
    rw [BranchesAt]
    refine ⟨s₁.instructions.length, hs, hs', codeAt_append.mpr ⟨hcode, ?_⟩, ?_, hjump, hrest, by simp⟩
    . rw [List.length_map]
      exact hcode'
    . exact hbody

end

theorem compileFunction_layout {frame : Frame L} {body : List (Stmt L C locals)} {f : Function L C}
    (h : compileFunction frame body = .ok f)
    : ∃ epilogue, FunctionAt f frame body epilogue ∧ f.instructions.length ≤ u32Max + 1 ∧
        ∀ h ∈ f.exceptionHandlers, ∀ l, h.errorLocal = some l → l < f.localCount := by
  unfold compileFunction lowerFunction at h
  obtain ⟨⟨_, s⟩, hrun, hf⟩ := bind_eq_ok_iff.mp h
  cases hf
  simp only [run_bind_eq_ok_iff] at hrun
  obtain ⟨_, _, hprologue, _, s₁, hbody, hreturn⟩ := hrun
  cases of_emitLeaves hprologue
  have hblock := Emits.leaves locals frame (Emitter.initial L C locals) frame.prologue
  have hinner := lowerStatements_emits frame body hbody (hblock.inline_returns fun _ => rfl)
  obtain ⟨patches, handlers, hemitted, hends, hskips⟩ := hblock.append hinner
  obtain ⟨t, hpatched, rfl, hcount⟩ := of_emitReturn hreturn
  have hreturns : s₁.outputReturnPatches = patches .epilogue := hemitted.returns
  rw [hreturns] at hpatched
  have hlength : t.instructions.length = s₁.instructions.length := hpatched.length
  have hfragment := hemitted.fragment.patch hpatched.length hpatched.instructions
  -- No jump waits for anything but the epilogue.
  have hnone : ∀ pc label, pc ∉ patches.without .epilogue label := by
    intro pc label hmem
    obtain ⟨hmem, hne⟩ := Patches.mem_without.mp hmem
    cases label with
    | loopExit => simp [hemitted.breaks rfl] at hmem
    | epilogue => exact hne rfl
    | branchEnd => simp [hends] at hmem
    | skip => simp [hskips] at hmem
  have hresolves : Resolves retarget (t.instructions ++ frame.epilogue) t.instructions 0
      (patches.without .epilogue) (fun _ => t.instructions.length) := by
    intro pc _ hpc
    refine ⟨fun label hmem => absurd hmem (hnone pc label), fun _ => ?_⟩
    exact List.getElem?_append_left hpc
  have hmeaning := hfragment.meaning _ _ hresolves
  obtain ⟨_, hs, ⟨hprologueAt, rfl⟩, hbodyAt, hhandlers⟩ := hmeaning
  have hall : t.exceptionHandlers = handlers := by
    rw [hpatched.others]
    exact hemitted.exceptionHandlers
  have hlocalCount : t.localCount = s₁.localCount := by
    rw [hpatched.others]
  refine ⟨t.instructions.length, ⟨hprologueAt, ?_, ?_, ?_⟩, hcount, ?_⟩
  . simp only [Emitter.length_extend, List.length_map] at hbodyAt
    dsimp only [Emitter.extend]
    rw [hall, hhandlers]
    simpa [targetsOf, Emitter.initial, Emitter.extend, hlength] using hbodyAt
  . intro k hk
    exact List.getElem?_append_right (by omega) |>.trans (by rw [Nat.add_sub_cancel_left]; rfl)
  . simp [Emitter.extend, Frame.epilogue]
    omega
  . intro h hmem l hl
    dsimp only [Emitter.extend] at hmem ⊢
    rw [hlocalCount]
    rw [hall] at hmem
    exact hemitted.errorLocals (Nat.le_refl _) h hmem l hl

end Lowering
end OpenMat
