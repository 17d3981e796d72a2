import OpenMat.Lowering.Layout

/-!
This module contains what the operations of the emitter do, and the invariant of lowering: emitted
code is a fragment, and its pending jumps are exactly the ones that the patch lists gained.
-/

namespace OpenMat
namespace Lowering

open Bytecode Assembly

variable {L C : Type} {locals : Nat}

def retarget : Instruction L C → Nat → Instruction L C
  | .jump _, target => .jump target
  | .jumpIfFalse condition _, target => .jumpIfFalse condition target
  | .forEach iterable index _, target => .forEach iterable index target
  | i, _ => i

theorem retarget_retarget (i : Instruction L C) (a b : Nat)
    : retarget (retarget i a) b = retarget i b := by
  cases i <;> rfl

theorem written_retarget (i : Instruction L C) (target : Nat)
    : (retarget i target).written = i.written := by
  cases i <;> rfl

/-- A block that writes no register of a loop. -/
def Silent (block : List (Instruction L C)) : Prop := ∀ i ∈ block, i.written = []

theorem silent_leaves (operations : List L)
    : Silent (C := C) (operations.map .leaf) := by
  simp [Silent, Instruction.written]

theorem silent_singleton {i : Instruction L C} (h : i.written = [])
    : Silent [i] := by
  simpa [Silent] using h

section Operations

variable {s s' : Emitter L C}

/-- The emitter after more instructions. -/
def Emitter.extend (s : Emitter L C) (block : List (Instruction L C)) : Emitter L C :=
  { s with instructions := s.instructions ++ block }

theorem of_emit {i : Instruction L C} {r : Nat × Emitter L C} (h : (emit i).run s = .ok r)
    : s.instructions.length ≤ u32Max ∧ r = (s.instructions.length, s.extend [i]) := by
  unfold emit at h
  simp only [run_bind_eq_ok_iff, run_get_eq_ok_iff, Prod.mk.injEq] at h
  obtain ⟨_, _, ⟨rfl, rfl⟩, h⟩ := h
  split at h
  . simp only [run_bind_eq_ok_iff, run_throw_eq_ok_iff, false_and, exists_false] at h
  . next hlength =>
    simp only [run_bind_eq_ok_iff, run_set_eq_ok_iff, run_pure_eq_ok_iff, Prod.mk.injEq] at h
    obtain ⟨_, _, ⟨-, rfl⟩, rfl⟩ := h
    exact ⟨Nat.le_of_not_lt hlength, rfl⟩

theorem of_currentInstruction {r : Nat × Emitter L C} (h : currentInstruction.run s = .ok r)
    : s.instructions.length ≤ u32Max ∧ r = (s.instructions.length, s) := by
  unfold currentInstruction at h
  simp only [run_bind_eq_ok_iff, run_get_eq_ok_iff, Prod.mk.injEq] at h
  obtain ⟨_, _, ⟨rfl, rfl⟩, h⟩ := h
  split at h
  . simp only [run_bind_eq_ok_iff, run_throw_eq_ok_iff, false_and, exists_false] at h
  . next hlength =>
    exact ⟨Nat.le_of_not_lt hlength, run_pure_eq_ok_iff.mp h⟩

theorem of_emitLeaves {operations : List L} (h : (emitLeaves operations).run s = .ok ((), s'))
    : s' = s.extend (operations.map .leaf) := by
  induction operations generalizing s with
  | nil =>
    cases run_pure_eq_ok_iff.mp h
    simp [Emitter.extend]
  | cons operation operations ih =>
    unfold emitLeaves at h
    rw [List.forM] at h
    simp only [run_bind_eq_ok_iff, run_pure_eq_ok_iff] at h
    obtain ⟨_, _, ⟨_, _, hemit, hpure⟩, h⟩ := h
    cases (of_emit hemit).2
    cases hpure
    rw [ih h]
    simp [Emitter.extend]

/-- The emitter with the instructions at the given positions patched to the current length. -/
structure Patched (patches : List Nat) (s s' : Emitter L C) : Prop where
  length : s'.instructions.length = s.instructions.length
  instructions : ∀ pc, s'.instructions[pc]? =
    if pc ∈ patches then s.instructions[pc]?.map (retarget · s.instructions.length)
    else s.instructions[pc]?
  others : s' = { s with instructions := s'.instructions }

theorem of_patchToCurrent {patch : Nat} (h : (patchToCurrent patch).run s = .ok ((), s'))
    : Patched [patch] s s' := by
  unfold patchToCurrent at h
  simp only [run_bind_eq_ok_iff, run_get_eq_ok_iff, Prod.mk.injEq] at h
  obtain ⟨_, _, hcurrent, _, _, ⟨rfl, rfl⟩, h⟩ := h
  cases (of_currentInstruction hcurrent).2
  have hset : ∃ i, s.instructions[patch]? = some i ∧ 
      s' = { s with instructions := s.instructions.set patch (retarget i s.instructions.length) } := by
    split at h
    . next hi => exact ⟨_, hi, congrArg Prod.snd (run_set_eq_ok_iff.mp h)⟩
    . next hi => exact ⟨_, hi, congrArg Prod.snd (run_set_eq_ok_iff.mp h)⟩
    . next hi => exact ⟨_, hi, congrArg Prod.snd (run_set_eq_ok_iff.mp h)⟩
    . simp only [run_throw_eq_ok_iff] at h
  obtain ⟨i, hi, rfl⟩ := hset
  have hpatch : patch < s.instructions.length := (List.getElem?_eq_some_iff.mp hi).1
  constructor
  . simp
  . intro pc
    rw [List.getElem?_set]
    by_cases hpc : patch = pc
    . subst pc
      rw [hi]
      simp [hpatch]
    . simp [hpc, Ne.symm hpc]
  . rfl

/-- Patched instructions write the same registers. -/
theorem Patched.exists_written {patches : List Nat} (h : Patched patches s s') {pc : Nat}
    {i : Instruction L C} (hi : s'.instructions[pc]? = some i)
    : ∃ j, s.instructions[pc]? = some j ∧ i.written = j.written := by
  rw [h.instructions] at hi
  split at hi
  . obtain ⟨j, hj, rfl⟩ := Option.map_eq_some_iff.mp hi
    exact ⟨j, hj, written_retarget j _⟩
  . exact ⟨i, hi, rfl⟩

theorem Patched.eq_of_nil (h : Patched [] s s')
    : s' = s := by
  rw [h.others]
  have : s'.instructions = s.instructions := List.ext_getElem? fun pc => by simp [h.instructions pc]
  rw [this]

theorem of_patchAll {patches : List Nat}
    (h : (patches.forM patchToCurrent).run s = .ok ((), s'))
    : Patched patches s s' := by
  induction patches generalizing s with
  | nil =>
    cases run_pure_eq_ok_iff.mp h
    exact ⟨rfl, fun pc => by simp, rfl⟩
  | cons patch patches ih =>
    rw [List.forM] at h
    obtain ⟨_, s', hpatch, h⟩ := run_bind_eq_ok_iff.mp h
    have hfirst := of_patchToCurrent hpatch
    have hrest := ih h
    constructor
    . rw [hrest.length, hfirst.length]
    . intro pc
      rw [hrest.instructions, hfirst.instructions, hfirst.length]
      by_cases hpc : pc = patch
      . by_cases hmem : pc ∈ patches
        . simp [hpc ▸ hmem, hpc, Function.comp_def, retarget_retarget]
        . simp [hpc ▸ hmem, hpc]
      . simp [hpc]
    . rw [hrest.others, hfirst.others]

theorem of_emitLoads {bindings : List L} (h : (emitLoads bindings).run s = .ok ((), s'))
    : s' = s.extend (bindings.map .load) := by
  induction bindings generalizing s with
  | nil =>
    cases run_pure_eq_ok_iff.mp h
    simp [Emitter.extend]
  | cons binding bindings ih =>
    unfold emitLoads at h
    rw [List.forM] at h
    simp only [run_bind_eq_ok_iff, run_pure_eq_ok_iff] at h
    obtain ⟨_, _, ⟨_, _, hemit, hpure⟩, h⟩ := h
    cases (of_emit hemit).2
    cases hpure
    rw [ih h]
    simp [Emitter.extend]

theorem of_allocateRegister {r : Nat × Emitter L C} (h : allocateRegister.run s = .ok r)
    : r = (s.nextRegister, { s with nextRegister := s.nextRegister + 1 }) := by
  unfold allocateRegister at h
  simp only [run_bind_eq_ok_iff, run_get_eq_ok_iff] at h
  obtain ⟨_, _, hget, h⟩ := h
  cases hget
  split at h
  . simp only [run_bind_eq_ok_iff, run_throw_eq_ok_iff, false_and, exists_false] at h
  . simp only [run_bind_eq_ok_iff, run_set_eq_ok_iff, run_pure_eq_ok_iff] at h
    obtain ⟨_, _, hset, h⟩ := h
    cases hset
    exact h

def Frame.epilogue (frame : Frame L) : List (Instruction L C) :=
  (frame.validations.getD []).map .leaf ++ frame.outputs.map .load ++ [frame.ret]

theorem Frame.written_ret (frame : Frame L)
    : (frame.ret (C := C)).written = [] := by
  unfold Frame.ret
  split <;> rfl

theorem silent_epilogue (frame : Frame L)
    : Silent (C := C) frame.epilogue := by
  intro i hi
  rcases List.mem_append.mp hi with hi | hi
  . rcases List.mem_append.mp hi with hi | hi
    . exact silent_leaves _ i hi
    . obtain ⟨_, -, rfl⟩ := List.mem_map.mp hi
      rfl
  . rw [List.mem_singleton.mp hi]
    exact frame.written_ret

/-- The registers of a `for` loop, and the test of its iterations. -/
def forHead (source : Nat) (value : L) (exit : Nat) : List (Instruction L C) :=
  [.evaluate source value, .loadZero (source + 1), .forEach source (source + 1) exit]

@[simp]
theorem length_forHead (source : Nat) (value : L) (exit : Nat)
    : (forHead (C := C) source value exit).length = 3 := rfl

theorem of_lowerForHead {value : L} {r : (Nat × Nat) × Emitter L C}
    (h : (lowerForHead value).run s = .ok r)
    : r = ((s.instructions.length + 2, s.instructions.length + 2),
        { s.extend (forHead s.nextRegister value 0) with nextRegister := s.nextRegister + 3 }) := by
  unfold lowerForHead at h
  simp only [run_bind_eq_ok_iff, run_pure_eq_ok_iff] at h
  obtain ⟨_, _, hiterable, _, _, hevaluate, _, _, hindex, _, _, hzero, _, _, hstart, _, _, hiteration, _,
    _, hexit, h⟩ := h
  cases of_allocateRegister hiterable
  cases (of_emit hevaluate).2
  cases of_allocateRegister hindex
  cases (of_emit hzero).2
  cases (of_currentInstruction hstart).2
  cases of_allocateRegister hiteration
  cases (of_emit hexit).2
  rw [h]
  simp [Emitter.extend, forHead]

theorem of_emitReturn {frame : Frame L} (h : (emitReturn frame).run s = .ok ((), s'))
    : ∃ t, Patched s.outputReturnPatches { s with outputReturnPatches := [] } t ∧
        s' = t.extend frame.epilogue ∧ s'.instructions.length ≤ u32Max + 1 := by
  unfold emitReturn takeOutputReturnPatches at h
  simp only [run_bind_eq_ok_iff, run_get_eq_ok_iff, run_set_eq_ok_iff, run_pure_eq_ok_iff] at h
  obtain ⟨_, _, ⟨_, _, hget, _, _, hset, hpure⟩, _, t, hpatch, _, _, hleaves, _, _, hloads, _, _,
    hret, hdone⟩ := h
  cases hget
  cases hset
  cases hpure
  cases of_emitLeaves hleaves
  cases of_emitLoads hloads
  have hlength := (of_emit hret).1
  cases (of_emit hret).2
  cases hdone
  refine ⟨t, of_patchAll hpatch, by simp [Emitter.extend, Frame.epilogue], ?_⟩
  simp only [Emitter.extend, List.length_append, List.length_singleton] at hlength ⊢
  omega

end Operations

inductive Label where
  | loopExit
  | epilogue
  | branchEnd
  | skip
  deriving DecidableEq

/-- What is said about a piece of code and its exception handlers. -/
abbrev Layout (L C : Type) := List ExceptionHandler → Meaning (Instruction L C) Label

def Layout.append (P Q : Layout L C) : Layout L C :=
  fun handlers code target => ∃ hs hs', P hs code target ∧ Q hs' code target ∧ handlers = hs ++ hs'

def addBreaks (breaks : List Nat) : List LoopContext → List LoopContext
  | [] => []
  | context :: loops => { context with breakPatches := context.breakPatches ++ breaks } :: loops

/-- The code that was emitted between two states, and its share of the patch lists. -/
structure Emitted (locals : Nat) (frame : Frame L) (P : Layout L C) (s s' : Emitter L C)
    (patches : Patches Label) (handlers : List ExceptionHandler) : Prop where
  fragment : Fragment retarget (P handlers) s.instructions s'.instructions patches
  exceptionHandlers : s'.exceptionHandlers = s.exceptionHandlers ++ handlers
  localCount : s.localCount ≤ s'.localCount
  nextRegister : s.nextRegister ≤ s'.nextRegister
  written : ∀ pc i, s.instructions.length ≤ pc → s'.instructions[pc]? = some i →
    ∀ register ∈ i.written, s.nextRegister ≤ register ∧ register < s'.nextRegister
  errorLocals : locals ≤ s.localCount →
    ∀ h ∈ handlers, ∀ l, h.errorLocal = some l → l < s'.localCount
  loops : s'.loops = addBreaks (patches .loopExit) s.loops
  breaks : s.loops = [] → patches .loopExit = []
  returns : s'.outputReturnPatches = s.outputReturnPatches ++ patches .epilogue
  inline : frame.validations = none → patches .epilogue = []

theorem Emitted.patch {frame : Frame L} {P : Layout L C} {s s' s'' : Emitter L C}
    {patches : Patches Label} {handlers : List ExceptionHandler} {label : Label}
    (h : Emitted locals frame P s s' patches handlers) (hlabel : label ≠ .loopExit)
    (hlabel' : label ≠ .epilogue) (hpatched : Patched (patches label) s' s'')
    : Emitted locals frame (fun handlers code target =>
        P handlers code (Function.update target label s'.instructions.length)) s s''
        (patches.without label) handlers := by
  have hothers := hpatched.others
  constructor
  . exact h.fragment.patch hpatched.length hpatched.instructions
  . rw [hothers]
    exact h.exceptionHandlers
  . rw [hothers]
    exact h.localCount
  . rw [hothers]
    exact h.nextRegister
  . intro pc i hpc hi register hregister
    obtain ⟨j, hj, hwritten⟩ := hpatched.exists_written hi
    rw [hothers]
    exact h.written pc j hpc hj register (hwritten ▸ hregister)
  . rw [hothers]
    exact h.errorLocals
  . rw [hothers, Patches.without_of_ne hlabel.symm]
    exact h.loops
  . rw [Patches.without_of_ne hlabel.symm]
    exact h.breaks
  . rw [hothers, Patches.without_of_ne hlabel'.symm]
    exact h.returns
  . rw [Patches.without_of_ne hlabel'.symm]
    exact h.inline

/-- The two lists are the positions that wait for the end of a conditional, and of a skipped part. -/
def Emits (locals : Nat) (frame : Frame L) (P : Layout L C) (ends skips : List Nat)
    (s s' : Emitter L C) : Prop :=
  ∃ patches handlers, Emitted locals frame P s s' patches handlers ∧
    patches .branchEnd = ends ∧ patches .skip = skips

namespace Emits

variable {frame : Frame L} {P Q : Layout L C} {ends ends' skips skips' : List Nat}
variable {s s' s'' : Emitter L C}

theorem mono (h : Emits locals frame P ends skips s s')
    (hPQ : ∀ handlers code target, P handlers code target → Q handlers code target)
    : Emits locals frame Q ends skips s s' := by
  obtain ⟨patches, handlers, hemitted, hends, hskips⟩ := h
  exact ⟨patches, handlers, { hemitted with fragment := hemitted.fragment.mono (hPQ handlers) },
    hends, hskips⟩

theorem loopStart_eq (h : Emits locals frame P ends skips s s')
    : s'.loops.head?.map LoopContext.continueTarget =
        s.loops.head?.map LoopContext.continueTarget := by
  obtain ⟨patches, handlers, hemitted, -, -⟩ := h
  rw [hemitted.loops]
  cases s.loops with
  | nil => rfl
  | cons context loops => rfl

theorem localCount_le (h : Emits locals frame P ends skips s s')
    : s.localCount ≤ s'.localCount := by
  obtain ⟨_, _, hemitted, -, -⟩ := h
  exact hemitted.localCount

theorem inline_returns (h : Emits locals frame P ends skips s s')
    (hs : frame.validations = none → s.outputReturnPatches = [])
    : frame.validations = none → s'.outputReturnPatches = [] := by
  intro hnone
  obtain ⟨patches, handlers, hemitted, -, -⟩ := h
  rw [hemitted.returns, hs hnone, hemitted.inline hnone]
  rfl

theorem append (hP : Emits locals frame P ends skips s s')
    (hQ : Emits locals frame Q ends' skips' s' s'')
    : Emits locals frame (P.append Q) (ends ++ ends') (skips ++ skips') s s'' := by
  obtain ⟨p, hs, hP, rfl, rfl⟩ := hP
  obtain ⟨q, hs', hQ, rfl, rfl⟩ := hQ
  refine ⟨p.append q, hs ++ hs', ?_, rfl, rfl⟩
  constructor
  . apply (hP.fragment.append hQ.fragment).mono
    rintro code target ⟨hcode, hcode'⟩
    exact ⟨hs, hs', hcode, hcode', rfl⟩
  . rw [hQ.exceptionHandlers, hP.exceptionHandlers, List.append_assoc]
  . exact Nat.le_trans hP.localCount hQ.localCount
  . exact Nat.le_trans hP.nextRegister hQ.nextRegister
  . intro pc i hpc hi register hregister
    have := hP.nextRegister
    have := hQ.nextRegister
    by_cases hmiddle : s'.instructions.length ≤ pc
    . have := hQ.written pc i hmiddle hi register hregister
      omega
    . rw [List.prefix_iff_getElem?.mp hQ.fragment.isPrefix pc (by omega),
        ← List.getElem?_eq_getElem] at hi
      have := hP.written pc i hpc hi register hregister
      omega
  . intro hlocals h hmem l hl
    have := hP.localCount
    have := hQ.localCount
    rcases List.mem_append.mp hmem with hmem | hmem
    . have := hP.errorLocals hlocals h hmem l hl
      omega
    . exact hQ.errorLocals (by omega) h hmem l hl
  . rw [hQ.loops, hP.loops]
    cases s.loops with
    | nil => rfl
    | cons context loops => simp [addBreaks, Patches.append]
  . intro hnil
    have hnil' : s'.loops = [] := by
      rw [hP.loops, hnil]
      rfl
    simp [Patches.append, hP.breaks hnil, hQ.breaks hnil']
  . rw [hQ.returns, hP.returns, List.append_assoc]
    rfl
  . intro hnone
    simp [Patches.append, hP.inline hnone, hQ.inline hnone]

/-- A jump writes no register. -/
theorem written_jump (pc : Nat) (i : Instruction L C) (hpc : s.instructions.length ≤ pc)
    (hi : (s.extend [.jump 0]).instructions[pc]? = some i)
    : ∀ register ∈ i.written, s.nextRegister ≤ register ∧ register < s.nextRegister := by
  dsimp only [Emitter.extend] at hi
  rw [List.getElem?_append_right hpc] at hi
  rw [List.mem_singleton.mp (List.mem_of_getElem? hi)]
  simp [Instruction.written]

theorem addBreaks_nil (loops : List LoopContext)
    : addBreaks [] loops = loops := by
  cases loops with
  | nil => rfl
  | cons context loops => simp [addBreaks]

/-- Emitted code that waits for the end of a conditional, or of a skipped part, only. -/
theorem ofFragment (locals : Nat) (frame : Frame L) {P : Meaning (Instruction L C) Label}
    {block : List (Instruction L C)} {patches : Patches Label} {next : Nat}
    (h : Fragment retarget P s.instructions (s.instructions ++ block) patches)
    (hexit : patches .loopExit = []) (hepilogue : patches .epilogue = [])
    (hnext : s.nextRegister ≤ next)
    (hwritten : ∀ i ∈ block, ∀ register ∈ i.written,
      s.nextRegister ≤ register ∧ register < next)
    : Emits locals frame (fun handlers code target => P code target ∧ handlers = [])
        (patches .branchEnd) (patches .skip) s { s.extend block with nextRegister := next } := by
  refine ⟨patches, [], ?_, rfl, rfl⟩
  constructor
  . exact h.mono fun _ _ h => ⟨h, rfl⟩
  . exact (List.append_nil _).symm
  . exact Nat.le_refl _
  . exact hnext
  . intro pc i hpc hi
    dsimp only [Emitter.extend] at hi
    rw [List.getElem?_append_right hpc] at hi
    exact hwritten i (List.mem_of_getElem? hi)
  . simp
  . rw [hexit]
    exact (addBreaks_nil _).symm
  . intros
    exact hexit
  . rw [hepilogue]
    exact (List.append_nil _).symm
  . intros
    exact hepilogue

theorem block (locals : Nat) (frame : Frame L) (s : Emitter L C) {block : List (Instruction L C)}
    (hsilent : Silent block)
    : Emits locals frame (fun handlers code _ =>
        CodeAt code s.instructions.length block ∧ handlers = []) [] [] s (s.extend block) :=
  ofFragment locals frame (Fragment.block block) rfl rfl (Nat.le_refl _) (by
    intro i hi register hregister
    rw [hsilent i hi] at hregister
    cases hregister)

theorem leaves (locals : Nat) (frame : Frame L) (s : Emitter L C) (operations : List L)
    : Emits locals frame (fun handlers code _ =>
        CodeAt code s.instructions.length (operations.map .leaf) ∧ handlers = []) [] [] s
        (s.extend (operations.map .leaf)) :=
  block locals frame s (silent_leaves operations)

theorem jump (locals : Nat) (frame : Frame L) (s : Emitter L C) (target : Nat)
    : Emits locals frame (fun handlers code _ =>
        CodeAt code s.instructions.length [.jump target] ∧ handlers = []) [] [] s
        (s.extend [.jump target]) :=
  block locals frame s (silent_singleton rfl)

theorem nil (locals : Nat) (frame : Frame L) (s : Emitter L C)
    : Emits locals frame (fun handlers _ _ => handlers = []) [] [] s s := by
  have h := (leaves locals frame s []).mono (Q := fun handlers _ _ => handlers = [])
    fun _ _ _ h => h.2
  rwa [show s.extend ([].map .leaf) = s by simp [Emitter.extend]] at h

/-- A jump over a part, or to the end of a conditional. -/
theorem hole (locals : Nat) (frame : Frame L) (s : Emitter L C) (i : Instruction L C) (label : Label)
    (hlabel : label ≠ .loopExit) (hlabel' : label ≠ .epilogue) (hi : i.written = [])
    : Emits locals frame (fun handlers code target =>
        CodeAt code s.instructions.length [retarget i (target label)] ∧ handlers = [])
        (Patches.single s.instructions.length label .branchEnd)
        (Patches.single s.instructions.length label .skip) s (s.extend [i]) :=
  ofFragment locals frame (Fragment.hole i label) (Patches.single_of_ne hlabel.symm)
    (Patches.single_of_ne hlabel'.symm) (Nat.le_refl _) (by
      intro j hj register hregister
      rw [List.mem_singleton.mp hj, hi] at hregister
      cases hregister)

theorem forHead (locals : Nat) (frame : Frame L) (s : Emitter L C) (value : L)
    : Emits locals frame (fun handlers code target =>
        CodeAt code s.instructions.length
          (Lowering.forHead s.nextRegister value (target .skip)) ∧ handlers = [])
        [] [s.instructions.length + 2] s
        { s.extend (Lowering.forHead s.nextRegister value 0) with
          nextRegister := s.nextRegister + 3 } := by
  have hwritten : ∀ i ∈ Lowering.forHead (C := C) s.nextRegister value 0, ∀ register ∈ i.written,
      s.nextRegister ≤ register ∧ register < s.nextRegister + 3 := by
    intro i hi register hregister
    simp only [Lowering.forHead, List.mem_cons, List.not_mem_nil, or_false] at hi
    rcases hi with rfl | rfl | rfl <;>
    . rw [Instruction.written, List.mem_singleton] at hregister
      omega
  let registers : List (Instruction L C) :=
    [.evaluate s.nextRegister value, .loadZero (s.nextRegister + 1)]
  let test : Instruction L C := .forEach s.nextRegister (s.nextRegister + 1) 0
  let patches := Patches.none.append
    (Patches.single (s.instructions ++ registers).length Label.skip)
  have hregisters : Fragment retarget (fun code (_ : Label → Nat) =>
      CodeAt code s.instructions.length registers) s.instructions (s.instructions ++ registers)
      Patches.none := Fragment.block registers
  have htest : Fragment retarget _ (s.instructions ++ registers) (s.instructions ++ registers ++ [test])
      (Patches.single (s.instructions ++ registers).length Label.skip) := Fragment.hole test Label.skip
  have hall : Fragment retarget (fun code target => CodeAt code s.instructions.length
      (Lowering.forHead s.nextRegister value (target .skip))) s.instructions
      (s.instructions ++ (registers ++ [test])) patches := by
    rw [← List.append_assoc]
    apply (hregisters.append htest).mono
    rintro code target ⟨hcode, htest⟩
    rw [List.length_append] at htest
    exact codeAt_append.mpr ⟨hcode, htest⟩
  have hskip : patches .skip = [s.instructions.length + 2] := by
    simp [patches, registers, Patches.append, Patches.none, Patches.single_same]
  rw [← hskip]
  exact ofFragment locals frame hall rfl rfl (Nat.le_add_right _ 3) hwritten

/-- The registers that were allocated before are not written. -/
theorem untouched (h : Emits locals frame P ends skips s s')
    : Emits locals frame (fun handlers code target => P handlers code target ∧
        ∀ register < s.nextRegister,
          Untouched code s.instructions.length s'.instructions.length register) ends skips s s' := by
  obtain ⟨patches, handlers, hemitted, hends, hskips⟩ := h
  refine ⟨patches, handlers, {
    hemitted with
    fragment := hemitted.fragment.and fun code target hcode register hregister pc i hpc hpc' hi hmem => ?_
    }, hends, hskips⟩
  obtain ⟨j, hj, hsame⟩ := hcode.exists_getElem? hpc hpc'
  have hwritten : i.written = j.written := by
    rcases hsame with hsame | ⟨t, hsame⟩
    . rw [Option.some.inj (hi.symm.trans hsame)]
    . rw [Option.some.inj (hi.symm.trans hsame), written_retarget]
  have := (hemitted.written pc j hpc hj register (hwritten ▸ hmem)).1
  omega

theorem breakLoop {context : LoopContext} {loops : List LoopContext} (locals : Nat) (frame : Frame L)
    (hloops : s.loops = context :: loops)
    : Emits locals frame (fun handlers code target =>
        CodeAt code s.instructions.length [.jump (target .loopExit)] ∧ handlers = []) [] [] s
        { s.extend [.jump 0] with
          loops := addBreaks [s.instructions.length] s.loops } := by
  refine ⟨Patches.single s.instructions.length .loopExit, [], ?_, rfl, rfl⟩
  constructor
  . exact (Fragment.hole (Instruction.jump 0) Label.loopExit).mono fun _ _ h => ⟨h, rfl⟩
  . exact (List.append_nil _).symm
  . exact Nat.le_refl _
  . exact Nat.le_refl _
  . exact written_jump
  . simp
  . rfl
  . intro hnil
    rw [hloops] at hnil
    cases hnil
  . exact (List.append_nil _).symm
  . intros
    rfl

theorem deferredReturn (locals : Nat) {frame : Frame L} (s : Emitter L C)
    (hframe : frame.validations ≠ none)
    : Emits locals frame (fun handlers code target =>
        CodeAt code s.instructions.length [.jump (target .epilogue)] ∧ handlers = []) [] [] s
        { s.extend [.jump 0] with
          outputReturnPatches := s.outputReturnPatches ++ [s.instructions.length] } := by
  refine ⟨Patches.single s.instructions.length .epilogue, [], ?_, rfl, rfl⟩
  constructor
  . exact (Fragment.hole (Instruction.jump 0) Label.epilogue).mono fun _ _ h => ⟨h, rfl⟩
  . exact (List.append_nil _).symm
  . exact Nat.le_refl _
  . exact Nat.le_refl _
  . exact written_jump
  . simp
  . exact (addBreaks_nil _).symm
  . intros
    rfl
  . rfl
  . intro hnone
    exact absurd hnone hframe

theorem patchSkips (h : Emits locals frame P ends skips s s') (hpatched : Patched skips s' s'')
    : Emits locals frame (fun handlers code target =>
        P handlers code (Function.update target .skip s'.instructions.length)) ends [] s s'' := by
  obtain ⟨patches, handlers, hemitted, rfl, rfl⟩ := h
  exact ⟨patches.without .skip, handlers, hemitted.patch (by decide) (by decide) hpatched, rfl, rfl⟩

theorem patchEnds (h : Emits locals frame P ends skips s s') (hpatched : Patched ends s' s'')
    : Emits locals frame (fun handlers code target =>
        P handlers code (Function.update target .branchEnd s'.instructions.length)) [] skips s s'' := by
  obtain ⟨patches, handlers, hemitted, rfl, rfl⟩ := h
  exact ⟨patches.without .branchEnd, handlers, hemitted.patch (by decide) (by decide) hpatched, rfl, rfl⟩

/-- Leave a loop, and patch the jumps to its end. -/
theorem closeLoop {t u : Emitter L C} {continueTarget : Nat} {context : LoopContext}
    {loops : List LoopContext}
    (h : Emits locals frame P ends skips
      { s with loops := { continueTarget := continueTarget, breakPatches := [] } :: s.loops } t)
    (hloops : t.loops = context :: loops)
    (hskips : Patched skips { t with loops := loops } u)
    (hbreaks : Patched context.breakPatches u s')
    : Emits locals frame (fun handlers code target =>
        P handlers code (Function.update (Function.update target .loopExit t.instructions.length)
          .skip t.instructions.length)) ends [] s s' := by
  obtain ⟨patches, handlers, hemitted, rfl, rfl⟩ := h
  have hcontext := hemitted.loops
  rw [hloops] at hcontext
  cases hcontext
  have hlength : u.instructions.length = t.instructions.length := hskips.length
  refine ⟨(patches.without .skip).without .loopExit, handlers, ?_, rfl, rfl⟩
  constructor
  . have hfragment := hemitted.fragment.patch hskips.length hskips.instructions
    have hbreaks' : Patched (patches.without .skip .loopExit) u s' := hbreaks
    have hfragment' := hfragment.patch hbreaks'.length hbreaks'.instructions
    rw [hlength] at hfragment'
    exact hfragment'
  . rw [hbreaks.others, hskips.others]
    exact hemitted.exceptionHandlers
  . rw [hbreaks.others, hskips.others]
    exact hemitted.localCount
  . rw [hbreaks.others, hskips.others]
    exact hemitted.nextRegister
  . intro pc i hpc hi register hregister
    obtain ⟨j, hj, hwritten⟩ := hbreaks.exists_written hi
    obtain ⟨j', hj', hwritten'⟩ := hskips.exists_written hj
    rw [hbreaks.others, hskips.others]
    exact hemitted.written pc j' hpc hj' register (hwritten' ▸ hwritten ▸ hregister)
  . rw [hbreaks.others, hskips.others]
    exact hemitted.errorLocals
  . rw [hbreaks.others, hskips.others]
    exact (addBreaks_nil _).symm
  . intros
    rfl
  . rw [hbreaks.others, hskips.others]
    exact hemitted.returns
  . exact hemitted.inline

/-- Allocate a local. -/
theorem allocate (locals : Nat) (frame : Frame L) (s : Emitter L C) {count : Nat}
    (hcount : s.localCount ≤ count)
    : Emits locals frame (fun handlers _ _ => handlers = []) [] [] s
        { s with localCount := count } := by
  obtain ⟨patches, handlers, hemitted, hends, hskips⟩ := nil locals frame s
  exact ⟨patches, handlers, {
    hemitted with
    localCount := hcount
    errorLocals := fun hlocals h hmem l hl =>
      Nat.lt_of_lt_of_le (hemitted.errorLocals hlocals h hmem l hl) hcount }, hends, hskips⟩

theorem pushHandler (h : Emits locals frame P ends skips s s') {handler : ExceptionHandler}
    (hlocal : locals ≤ s.localCount → ∀ l, handler.errorLocal = some l → l < s'.localCount)
    : Emits locals frame (fun handlers code target =>
        ∃ hs, P hs code target ∧ handlers = hs ++ [handler]) ends skips s
        { s' with exceptionHandlers := s'.exceptionHandlers ++ [handler] } := by
  obtain ⟨patches, handlers, hemitted, hends, hskips⟩ := h
  refine ⟨patches, handlers ++ [handler], ?_, hends, hskips⟩
  exact {
    hemitted with
    fragment := hemitted.fragment.mono fun code target hcode => ⟨handlers, hcode, rfl⟩
    exceptionHandlers := by
      dsimp only
      rw [hemitted.exceptionHandlers, List.append_assoc]
    errorLocals := by
      intro hlocals g hg l hl
      rcases List.mem_append.mp hg with hg | hg
      . exact hemitted.errorLocals hlocals g hg l hl
      . rw [List.mem_singleton] at hg
        subst hg
        exact hlocal hlocals l hl }

end Emits
end Lowering
end OpenMat
