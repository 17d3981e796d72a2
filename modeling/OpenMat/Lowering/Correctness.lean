import OpenMat.Lowering.Placement
import OpenMat.Lowering.Simulation

/-!
This module contains the correctness of lowering: the code of a function visits the same leaves and
conditions as its body, and ends the same way.
-/

namespace OpenMat
namespace Lowering

open Bytecode Assembly

variable {L C V S : Type} {locals : Nat}

section Empty

variable {code : List (Instruction L C)} {frame : Frame L} {targets : Targets}
variable (I : Interpretation L C V S) (fuel : Nat)

mutual

/-- A statement without code does nothing. -/
theorem StatementAt.exec_of_empty (stmt : Stmt L C locals) {p : Nat}
    {handlers : List ExceptionHandler} (h : StatementAt code frame targets stmt p p handlers) (s : S)
    : exec I fuel stmt s = .of s .normal := by
  cases stmt with
  | leaf operations =>
    rw [StatementAt] at h
    have hnil : operations = [] := List.eq_nil_of_length_eq_zero (by omega)
    rw [exec, hnil]
    rfl
  | ifElse branches elseBody =>
    rw [StatementAt] at h
    obtain ⟨m, hs, hs', hbranches, helse, -⟩ := h
    have hle := hbranches.le
    have hle' := helse.le
    obtain rfl : p = m := by omega
    have hnil := hbranches.eq_nil_of_empty
    rw [exec, hnil, execBranches, StatementsAt.exec_of_empty elseBody helse]
  | switch selector cases otherwise =>
    rw [StatementAt] at h
    obtain ⟨-, m, hs, hs', hcases, hotherwise, -⟩ := h
    have hle := hcases.le
    have hle' := hotherwise.le
    obtain rfl : p = m := by omega
    have hselector : selector = [] := List.eq_nil_of_length_eq_zero (by omega)
    rw [hselector] at hcases
    have hnil := hcases.eq_nil_of_empty
    rw [exec, hselector, hnil, afterLeaves, runLeaves]
    dsimp only
    rw [execBranches, StatementsAt.exec_of_empty otherwise hotherwise]
  | whileLoop condition body =>
    rw [StatementAt] at h
    obtain ⟨-, last, hbody, -, hstop⟩ := h
    have hle := hbody.le
    omega
  | forLoop iterable value store body =>
    rw [StatementAt] at h
    obtain ⟨source, index, last, -, -, hbody, -, -, hstop⟩ := h
    have hle := hbody.le
    omega
  | tryCatch body handler =>
    rw [StatementAt] at h
    obtain ⟨m, hs, hbody, h⟩ := h
    split at h
    . next heq =>
      subst heq
      rw [exec, StatementsAt.exec_of_empty body hbody]
      rfl
    . next hne =>
      obtain ⟨hs', hhandler, -⟩ := h
      have hle := hbody.le
      have hle' := hhandler.lt
      omega
  | breakLoop =>
    rw [StatementAt] at h
    omega
  | continueLoop =>
    rw [StatementAt] at h
    omega
  | returnValues =>
    rw [StatementAt, ReturnAt] at h
    obtain ⟨h, -⟩ := h
    split at h <;> omega

theorem StatementsAt.exec_of_empty (body : List (Stmt L C locals)) {p : Nat}
    {handlers : List ExceptionHandler} (h : StatementsAt code frame targets body p p handlers) (s : S)
    : execBody I fuel body s = .of s .normal := by
  cases body with
  | nil => rw [execBody]
  | cons stmt body =>
    rw [StatementsAt] at h
    obtain ⟨m, hs, hs', hstmt, hbody, -⟩ := h
    have hle := hstmt.le
    have hle' := hbody.le
    obtain rfl : p = m := by omega
    rw [execBody, StatementAt.exec_of_empty stmt hstmt]
    dsimp only [Result.sequence, Result.of]
    rw [show execBody I fuel body = fun s => .of s .normal from
      funext (StatementsAt.exec_of_empty body hbody)]
    rfl

end

end Empty
section Simulation

variable {f : Function L C} {frame : Frame L} (I : Interpretation L C V S) (fuel : Nat)
variable {stack : List ExceptionHandler}

/-- The registers of a loop that is about to begin an iteration. -/
def LoopHead (source index : Nat) (value : V) (k : Nat) (registers : Registers V) : Prop :=
  registers source = .value value ∧ registers index = .index k

theorem Untouched.ne {code : List (Instruction L C)} {p q pc register r : Nat} {i : Instruction L C}
    (h : Untouched code p q register) (hi : code[pc]? = some i) (hp : p ≤ pc) (hq : pc < q)
    (hr : r ∈ i.written)
    : register ≠ r :=
  fun heq => h pc i hp hq hi (heq ▸ hr)

/-- Leaves write no registers. -/
theorem Untouched.prepend_leaves {code : List (Instruction L C)} {p q register : Nat}
    {operations : List L} (hcode : CodeAt code p (operations.map .leaf))
    (h : Untouched code (p + operations.length) q register)
    : Untouched code p q register := by
  intro pc i hpc hpc' hi
  by_cases hlt : pc < p + operations.length
  . obtain ⟨k, rfl⟩ := Nat.exists_eq_add_of_le hpc
    have hleaf := hcode k (by simpa using hlt)
    rw [hi, List.getElem?_map] at hleaf
    obtain ⟨operation, -, rfl⟩ := Option.map_eq_some_iff.mp hleaf.symm
    simp [Instruction.written]
  . exact h pc i (by omega) hpc' hi

/-- What evaluates the iterable of a loop leaves the registers for its first iteration. -/
theorem afterEvaluate_simulates {targets : Targets} {p q source index : Nat} {operation : L}
    {rest : V → S → Result S} {s : S} {registers : Registers V}
    (hevaluate : f.instructions[p]? = some (.evaluate source operation))
    (hzero : f.instructions[p + 1]? = some (.loadZero index)) (hne : source ≠ index)
    (hscope : Scoped f.exceptionHandlers p (p + 2) [] stack) (hq : p + 2 ≤ q)
    (hrest : ∀ value s' registers', LoopHead source index value 0 registers' →
      Simulates f I frame targets stack (p + 2) q fuel registers' (.running (p + 2) s' registers')
        (rest value s'))
    : Simulates f I frame targets stack p q fuel registers (.running p s registers)
        (afterEvaluate I operation rest s) := by
  have hinnermost := hscope.innermost (Nat.le_refl p) (by omega)
  unfold afterEvaluate
  cases heq : I.evaluate operation s with
  | mk s' result =>
    cases result with
    | none =>
      have hstep : Bytecode.step f I (.running p s registers) = transfer I stack.head? s' := by
        simp only [Bytecode.step, hevaluate, heq, Function.raise, hinnermost]
      exact Simulates.of ((Reaches.of_step hstep).mono (Nat.zero_le _))
    | some value =>
      have hstep : Bytecode.step f I (.running p s registers) =
          .running (p + 1) s' (Function.update registers source (.value value)) := by
        simp only [Bytecode.step, hevaluate, heq]
      dsimp only
      let registers' := Function.update (Function.update registers source (.value value)) index (.index 0)
      have hzeroed : Reaches f I 1 (.running (p + 1) s' (Function.update registers source (.value value)))
          (.running (p + 2) s' registers') := .of_step (by rw [Bytecode.step, hzero])
      have hhead : LoopHead source index value 0 registers' :=
        ⟨by simp [registers', hne], by simp [registers']⟩
      have hkept : Kept f p q false registers registers' := by
        intro register hregister
        have hsource : register ≠ source :=
          hregister.ne hevaluate (Nat.le_refl p) (by omega) (by simp [Instruction.written])
        have hindex : register ≠ index :=
          hregister.ne hzero (Nat.le_succ p) (by omega) (by simp [Instruction.written])
        simp [registers', hsource, hindex]
      exact ((hrest value s' registers' hhead).of_reaches
        ((Reaches.of_step hstep).trans hzeroed)).prepend (by omega) hkept

theorem forEach_reaches {p source index stop : Nat} {value : V} {k : Nat} {s : S}
    {registers : Registers V} (hcode : f.instructions[p]? = some (.forEach source index stop))
    (hne : source ≠ index) (hscope : Scoped f.exceptionHandlers p (p + 1) [] stack) (hstop : p < stop)
    (hhead : LoopHead source index value k registers)
    : IterationReaches f I stack p (p + 1) stop (LoopHead source index value (k + 1)) s registers
        (I.iterate value k s) := by
  have hinnermost := hscope.innermost (Nat.le_refl p) (Nat.lt_succ_self p)
  have hstep : Bytecode.step f I (.running p s registers) = stepForEach f I p source index stop s registers := by
    rw [Bytecode.step, hcode]
  simp only [stepForEach, hhead.1, hhead.2] at hstep
  cases heq : I.iterate value k s with
  | mk s' more =>
    simp only [heq] at hstep
    cases more with
    | none =>
      simp only [Function.raise, hinnermost] at hstep
      exact (Reaches.of_step hstep).mono (Nat.zero_le _)
    | some more =>
      cases more with
      | false => exact .of_step hstep
      | true =>
        refine ⟨_, ⟨?_, Function.update_self ..⟩, ?_, .of_step hstep⟩
        . rw [Function.update_of_ne hne]
          exact hhead.1
        . intro register hregister
          have hindex : register ≠ index :=
            hregister.ne hcode (Nat.le_refl p) hstop (by simp [Instruction.written])
          simp [hindex]

/-- Without its registers, a loop cannot begin another iteration. -/
theorem forEach_aborts {p source index stop : Nat} {registers : Registers V}
    (hcode : f.instructions[p]? = some (.forEach source index stop))
    (hlost : registers source = .nothing) (s : S)
    : ∃ s', Reaches f I 0 (.running p s registers) (.aborted s') := by
  have hstep : Bytecode.step f I (.running p s registers) = .aborted s := by
    rw [Bytecode.step, hcode]
    dsimp only
    rw [stepForEach, hlost]
  exact ⟨s, (Reaches.of_step hstep).mono (Nat.zero_le _)⟩

mutual

theorem StatementAt.simulates (stmt : Stmt L C locals) {targets : Targets}
    {handlers stack : List ExceptionHandler} {p q : Nat}
    (h : StatementAt f.instructions frame targets stmt p q handlers)
    (hscope : Scoped f.exceptionHandlers p q handlers stack) (s : S) (registers : Registers V)
    : Simulates f I frame targets stack p q fuel registers (.running p s registers)
        (exec I fuel stmt s) := by
  have hwithin := h.within
  cases stmt with
  | leaf operations =>
    rw [StatementAt] at h
    obtain ⟨hcode, rfl, rfl⟩ := h
    rw [exec]
    exact afterLeaves_simulates hcode hscope (Nat.le_refl _) fun s' =>
      Simulates.of ⟨registers, Kept.refl f _ _ _, Reaches.refl f I _⟩
  | ifElse branches elseBody =>
    rw [StatementAt] at h
    obtain ⟨m, hs, hs', hbranches, helse, rfl⟩ := h
    rw [exec]
    have hfirst := hscope.left helse.le fun g hg => (helse.within g hg).start_le
    have hsecond := hscope.right hbranches.le fun g hg => Nat.le_of_lt (hbranches.within g hg).end_lt
    exact BranchesAt.simulates branches hbranches hfirst helse.le
      (fun s' => StatementsAt.simulates elseBody helse hsecond s' registers) s
  | switch selector cases otherwise =>
    rw [StatementAt] at h
    obtain ⟨hselector, m, hs, hs', hcases, hotherwise, rfl⟩ := h
    have hle := hcases.le
    have hle' := hotherwise.le
    have hhead := hscope.head (m := p + selector.length) (by omega) (by
      intro g hg
      rcases List.mem_append.mp hg with hg | hg
      . exact (hcases.within g hg).start_le
      . exact Nat.le_trans hle (hotherwise.within g hg).start_le)
    have hfirst := hscope.left hotherwise.le fun g hg => (hotherwise.within g hg).start_le
    have hfirst' := hfirst.shrink (p + selector.length) m (Nat.le_add_right p _) (Nat.le_refl m)
    have hsecond := hscope.right (by omega) fun g hg => Nat.le_of_lt (hcases.within g hg).end_lt
    rw [exec]
    exact afterLeaves_simulates hselector hhead (Nat.le_refl _) fun s' =>
      BranchesAt.simulates cases hcases hfirst' hotherwise.le
        (fun s'' => StatementsAt.simulates otherwise hotherwise hsecond s'' registers) s'
  | whileLoop condition body =>
    rw [StatementAt] at h
    obtain ⟨hcondition, last, hbody, hback, rfl⟩ := h
    have hle := hbody.le
    have hhead := hscope.head (by omega) fun g hg => (hbody.within g hg).start_le
    have hinner := hscope.shrink (p + condition.operations.length + 1) last (by omega)
      (Nat.le_succ last)
    rw [exec]
    exact loop_simulates (fun _ _ => True) (fun _ _ => True) hback (by omega)
      (fun _ s' registers' _ => (condition_reaches registers' hcondition hhead).iteration)
      (fun s' registers' => StatementsAt.simulates body hbody hinner s' registers')
      (fun _ _ _ _ _ _ => by simp) (Nat.le_refl fuel) 0 s registers trivial
  | forLoop iterable value store body =>
    rw [StatementAt] at h
    obtain ⟨source, index, last, hne, hcode, hbody, huntouched, hback, rfl⟩ := h
    obtain ⟨hiterable, htail⟩ := codeAt_append.mp hcode
    rw [List.length_map, codeAt_cons, codeAt_cons, codeAt_cons] at htail
    obtain ⟨hevaluate, hzero, htest, hstore⟩ := htail
    have hle := hbody.le
    have hhead := hscope.head (by omega) fun g hg => (hbody.within g hg).start_le
    have hinner := hscope.shrink (p + iterable.length + 3 + store.length) last (by omega)
      (Nat.le_succ last)
    rw [exec]
    refine afterLeaves_simulates hiterable hhead (by omega) fun s₁ => ?_
    refine afterEvaluate_simulates I fuel hevaluate hzero hne (hhead.shrink _ _ (by omega) (by omega))
      (by omega) fun v s₂ registers' hzeroed => ?_
    refine loop_simulates (LoopHead source index v) (fun k => LoopHead source index v (k + 1)) hback
      (Nat.le_succ _) (fun k s₃ registers₃ hhead₃ => forEach_reaches I htest hne
        (hhead.shrink _ _ (by omega) (by omega)) (by omega) hhead₃) ?_ ?_ (Nat.le_refl fuel) 0 s₂
      registers' hzeroed
    . intro s₃ registers₃
      exact afterLeaves_simulates hstore (hhead.shrink _ _ (by omega) (by omega)) (Nat.le_refl _)
        fun s₄ => StatementsAt.simulates body hbody hinner s₄ registers₃
    . intro k caught registers₃ registers₄ hwithin hkept
      have hsource := hkept source (.prepend_leaves hstore (huntouched source (by simp)))
      have hindex := hkept index (.prepend_leaves hstore (huntouched index (by simp)))
      cases caught with
      | true => exact fun s₃ => forEach_aborts I htest hsource s₃
      | false => exact ⟨hsource.trans hwithin.1, hindex.trans hwithin.2⟩
  | tryCatch body handler =>
    rw [StatementAt] at h
    obtain ⟨m, hs, hbody, h⟩ := h
    split at h
    . next heq =>
      obtain ⟨rfl, rfl⟩ := h
      subst heq
      rw [exec, StatementsAt.exec_of_empty I fuel body hbody s]
      exact Simulates.of ⟨registers, Kept.refl f _ _ _, Reaches.refl f I _⟩
    . obtain ⟨hs', hhandler, rfl⟩ := h
      have hle := hbody.le
      have hlt := hhandler.lt
      obtain ⟨hs'', g, rfl, hstart, hend, hskip, houtside, hcatch⟩ :=
        HandlerAt.simulates handler hhandler
      have hscope' := hscope.push hstart hend (by omega) hlt houtside
      have hrest : Scoped f.exceptionHandlers m q hs'' stack := by
        apply hscope.restrict hle (Nat.le_refl q)
        intro pc hpc _ g' hg'
        have hpc' := protects_iff.mp hg'
        simp only [List.mem_append, List.mem_singleton]
        constructor
        . rintro (hmem | hmem | rfl)
          . have := (hbody.within g' hmem).end_lt
            omega
          . exact hmem
          . omega
        . exact fun hmem => .inr (.inl hmem)
      rw [exec]
      -- The error is caught by the handler of this statement, outside of its range.
      exact (StatementsAt.simulates body hbody hscope' s registers).guard hskip hle (Nat.le_of_lt hlt)
        fun s' => hcatch stack hrest (I.caught s')
  | breakLoop =>
    rw [StatementAt] at h
    obtain ⟨hloop, hcode, -, -⟩ := h
    rw [exec]
    exact Simulates.of ⟨hloop, registers, Kept.refl f _ _ _, (step_jump hcode).mono (Nat.zero_le _)⟩
  | continueLoop =>
    rw [StatementAt] at h
    obtain ⟨⟨loopStart, hloop, hcode⟩, -, -⟩ := h
    rw [exec]
    exact Simulates.of ⟨loopStart, hloop, registers, Kept.refl f _ _ _,
      (step_jump hcode).mono (Nat.zero_le _)⟩
  | returnValues =>
    rw [StatementAt, ReturnAt] at h
    obtain ⟨h, rfl⟩ := h
    rw [exec]
    apply Simulates.of
    dsimp only [Proceeds]
    split at h
    . next hinline =>
      obtain ⟨hcode, rfl⟩ := h
      obtain ⟨hloads, hret⟩ := codeAt_append.mp hcode
      rw [List.length_map, codeAt_singleton] at hret
      rw [if_pos hinline]
      refine ⟨p + frame.outputs.length, registers, Nat.lt_succ_self _, hret, ?_,
        runLoads_reaches hloads⟩
      have hinnermost := hscope.innermost (Nat.le_add_right p frame.outputs.length)
        (Nat.lt_succ_self _)
      simpa [ReturnsUnder] using hinnermost
    . next hinline =>
      obtain ⟨hcode, rfl⟩ := h
      rw [if_neg hinline]
      exact ⟨registers, (step_jump hcode).mono (Nat.zero_le _)⟩

/-- The last handler is the one of the statement itself. -/
theorem HandlerAt.simulates (handler : Option (CatchBinding L locals × List (Stmt L C locals)))
    {targets : Targets} {handlers : List ExceptionHandler} {p m q : Nat}
    (h : HandlerAt f.instructions frame targets p m handler q handlers)
    : ∃ hs g, handlers = hs ++ [g] ∧ g.protectedStart = p ∧ g.protectedEnd = m ∧
        CodeAt f.instructions m [.jump q] ∧ (∀ g' ∈ hs, m ≤ g'.protectedStart) ∧
        ∀ stack, Scoped f.exceptionHandlers m q hs stack → ∀ s,
          Simulates f I frame targets stack m q fuel (Registers.cleared V)
            (.running g.continuation s (Registers.cleared V)) (execHandler I fuel handler s) := by
  cases handler with
  | none =>
    rw [HandlerAt] at h
    obtain ⟨hcode, rfl, rfl⟩ := h
    refine ⟨[], .ofSwallow p m m, rfl, rfl, rfl, hcode, by simp, fun stack _ s => ?_⟩
    rw [execHandler]
    exact Simulates.of ⟨_, Kept.refl f _ _ _, (step_jump hcode).mono (Nat.zero_le _)⟩
  | some handler =>
    obtain ⟨binding, body⟩ := handler
    rw [HandlerAt] at h
    obtain ⟨hcode, hs, errorLocal, hbody, rfl⟩ := h
    obtain ⟨hskip, hprologue⟩ := codeAt_cons.mp hcode
    have hle := hbody.le
    refine ⟨hs, .ofCatch p m (m + 1) q errorLocal, rfl, rfl, rfl, codeAt_singleton.mpr hskip, ?_, ?_⟩
    . intro g hg
      have := (hbody.within g hg).start_le
      omega
    . intro stack hscope s
      have hhead := (hscope.head (by omega) fun g hg => (hbody.within g hg).start_le).shrink
        (m + 1) _ (Nat.le_succ m) (Nat.le_refl _)
      have hinner := hscope.shrink (m + 1 + (catchPrologue binding).length) q (by omega)
        (Nat.le_refl q)
      have hrest := (afterLeaves_simulates (I := I) (s := s) hprologue hhead (Nat.le_refl _)
        fun s' => StatementsAt.simulates body hbody hinner s' (Registers.cleared V)).prepend
          (Nat.le_succ m) (Kept.refl f _ _ _)
      cases binding with
      | indirect prologue =>
        rw [execHandler]
        exact hrest
      | plain =>
        rw [execHandler]
        . exact hrest
        . rintro _ ⟨⟩
      | direct slot =>
        rw [execHandler]
        . exact hrest
        . rintro _ ⟨⟩

theorem StatementsAt.simulates (body : List (Stmt L C locals)) {targets : Targets}
    {handlers stack : List ExceptionHandler} {p q : Nat}
    (h : StatementsAt f.instructions frame targets body p q handlers)
    (hscope : Scoped f.exceptionHandlers p q handlers stack) (s : S) (registers : Registers V)
    : Simulates f I frame targets stack p q fuel registers (.running p s registers)
        (execBody I fuel body s) := by
  cases body with
  | nil =>
    rw [StatementsAt] at h
    obtain ⟨rfl, -⟩ := h
    rw [execBody]
    exact Simulates.of ⟨registers, Kept.refl f _ _ _, Reaches.refl f I _⟩
  | cons stmt body =>
    rw [StatementsAt] at h
    obtain ⟨m, hs, hs', hstmt, hbody, rfl⟩ := h
    have hfirst := StatementAt.simulates stmt hstmt
      (hscope.left hbody.le fun g hg => (hbody.within g hg).start_le) s registers
    have hscope' := hscope.right hstmt.le fun g hg => Nat.le_of_lt (hstmt.within g hg).end_lt
    rw [execBody]
    exact hfirst.sequence hstmt.le hbody.le fun s' registers' =>
      StatementsAt.simulates body hbody hscope' s' registers'

theorem BranchesAt.simulates (branches : List (Condition L C × List (Stmt L C locals)))
    {targets : Targets} {handlers stack : List ExceptionHandler} {finish p q : Nat}
    {otherwise : S → Result S} {registers : Registers V}
    (h : BranchesAt f.instructions frame targets finish branches p q handlers)
    (hscope : Scoped f.exceptionHandlers p q handlers stack) (hq : q ≤ finish)
    (hotherwise : ∀ s, Simulates f I frame targets stack q finish fuel registers
      (.running q s registers) (otherwise s))
    (s : S)
    : Simulates f I frame targets stack p finish fuel registers (.running p s registers)
        (execBranches I fuel branches otherwise s) := by
  cases branches with
  | nil =>
    rw [BranchesAt] at h
    obtain ⟨rfl, -⟩ := h
    rw [execBranches]
    exact hotherwise s
  | cons branch branches =>
    obtain ⟨condition, body⟩ := branch
    rw [BranchesAt] at h
    obtain ⟨last, hs, hs', hcondition, hbody, hend, hrest, rfl⟩ := h
    have hle := hbody.le
    have hle' := hrest.le
    have hhead := hscope.head (m := p + condition.operations.length + 1) (by omega) (by
      intro g hg
      rcases List.mem_append.mp hg with hg | hg
      . exact (hbody.within g hg).start_le
      . have := (hrest.within g hg).start_le
        omega)
    have hinner := (hscope.left (m := last) (by omega) fun g hg =>
      Nat.le_of_succ_le (hrest.within g hg).start_le).shrink
        (p + condition.operations.length + 1) last (by omega) (Nat.le_refl last)
    have hothers := hscope.right (m := last + 1) (by omega) fun g hg =>
      Nat.le_of_lt (Nat.lt_succ_of_lt (hbody.within g hg).end_lt)
    have htest := condition_reaches (I := I) (s := s) registers hcondition hhead
    rw [execBranches]
    split
    . next s' heq =>
      rw [heq] at htest
      exact Simulates.of htest
    . next s' heq =>
      rw [heq] at htest
      have hbranch := (StatementsAt.simulates body hbody hinner s' registers).of_reaches htest
      exact (hbranch.thenJump hend (by omega)).prepend (by omega) (Kept.refl f _ _ _)
    . next s' heq =>
      rw [heq] at htest
      have hbranch := (BranchesAt.simulates branches hrest hothers hq hotherwise s').of_reaches htest
      exact hbranch.prepend (by omega) (Kept.refl f _ _ _)

end

/-- A part of a function that no handler protects. -/
theorem scoped_outside {all : List ExceptionHandler} {p q : Nat}
    (houtside : ∀ g ∈ all, g.protectedEnd ≤ p ∨ q ≤ g.protectedStart)
    : Scoped all p q [] [] where
  mem pc hp hq g := by
    constructor
    . rintro ⟨hmem, hg⟩
      have := houtside g hmem
      have := protects_iff.mp hg
      omega
    . simp
  sorted := List.Pairwise.nil

variable {I fuel} {body : List (Stmt L C locals)} {epilogue : Nat}

theorem step_ret {pc : Nat} {s : S} {registers : Registers V}
    (hret : f.instructions[pc]? = some frame.ret)
    : Bytecode.step f I (.running pc s registers) =
        if frame.accepts I s then .returned pc s else f.raise I pc s := by
  rw [Bytecode.step, hret]
  unfold Frame.ret Frame.accepts
  cases frame.variadic <;> simp

theorem FunctionAt.finish_reaches (h : FunctionAt f frame body epilogue) (ending : Ending) (s : S)
    (registers : Registers V)
    : ∃ s' ending', finish I frame ending s = (s', ending') ∧
        (ending' = .raised ∧ Reaches f I 0 (.running epilogue s registers) (.raised s') ∨
          ending' = ending ∧ Reaches f I 0 (.running epilogue s registers)
            (.returned (f.instructions.length - 1) s')) := by
  -- The epilogue is outside of all exception ranges.
  have hscope : Scoped f.exceptionHandlers epilogue f.instructions.length [] [] :=
    scoped_outside fun g hg => .inl (Nat.le_of_lt (h.body.within g hg).end_lt)
  have hlength := h.length
  obtain ⟨hcode, hret⟩ := codeAt_append.mp h.epilogueCode
  obtain ⟨hvalidations, hloads⟩ := codeAt_append.mp hcode
  rw [List.length_append, List.length_map, List.length_map, codeAt_singleton] at hret
  rw [List.length_map] at hloads
  have hleaves := runLeaves_reaches (I := I) (s := s) registers hvalidations
    (hscope.shrink epilogue _ (Nat.le_refl _) (by omega)) (Nat.le_refl _)
  unfold finish
  cases heq : runLeaves I (frame.validations.getD []) s with
  | mk s' completes =>
  rw [heq] at hleaves
  cases completes with
  | false => exact ⟨_, _, rfl, .inl ⟨rfl, hleaves⟩⟩
  | true =>
    have hlast : f.instructions.length - 1 =
        epilogue + ((frame.validations.getD []).length + frame.outputs.length) := by
      omega
    have hrun := hleaves.trans (runLoads_reaches hloads)
    rw [Nat.add_assoc epilogue, ← hlast] at hrun
    rw [← hlast] at hret
    have hstep := (hrun.trans (Reaches.of_step (step_ret (I := I) hret))).mono (Nat.zero_le _)
    cases haccepts : frame.accepts I (runLoads I frame.outputs s') with
    | true =>
      rw [haccepts, if_pos rfl] at hstep
      exact ⟨_, _, rfl, .inr ⟨by simp [haccepts], hstep⟩⟩
    | false =>
      rw [haccepts, if_neg Bool.false_ne_true, Function.raise,
        hscope.innermost (by omega) (by omega)] at hstep
      exact ⟨_, _, rfl, .inl ⟨by simp [haccepts], hstep⟩⟩

/-- How the machine stands after the function ended with `s`. -/
def EndsAs (f : Function L C) (frame : Frame L) (s : S) : Ending → Config V S → Prop
  | .fellOff, c => c = .returned (f.instructions.length - 1) s
  | .returned, c =>
    ∃ pc, c = .returned pc s ∧ (frame.validations.isNone → pc < f.instructions.length - 1)
  | .raised, c => c = .raised s
  | .exhausted, c => ∃ pc registers, c = .running pc s registers

/-- The machine ends as an execution of the function, and with enough steps if that is exhausted. -/
def EndsLike (f : Function L C) (frame : Frame L) (I : Interpretation L C V S) (fuel : Nat)
    (e : Execution S) (c : Config V S) : Prop :=
  ∃ n, (e.ending = .exhausted → fuel ≤ n) ∧ EndsAs f frame e.state e.ending (run f I n c)

/--
How the machine follows an execution of the function: it aborts where a loop goes on after its body
caught an error, and catches the error of a refused return.
-/
def Follows (f : Function L C) (frame : Frame L) (I : Interpretation L C V S) (fuel : Nat)
    (e : Execution S) (c : Config V S) : Prop :=
  if e.resumed then
    ∃ s', Reaches f I 0 c (.aborted s')
  else if e.refused then
    e.ending = .raised ∧
      ∃ pc registers, Reaches f I 0 c (.running pc (I.caught e.state) registers)
  else
    EndsLike f frame I fuel e c

/-- What follows the body, whether it completed or jumped to the epilogue. -/
theorem FunctionAt.finish_follows (h : FunctionAt f frame body epilogue) {c : Config V S} {s : S}
    {ending : Ending} {registers : Registers V}
    (hreaches : Reaches f I 0 c (.running epilogue s registers))
    (hending : ending = .fellOff ∨ ending = .returned ∧ frame.validations.isNone = false)
    : Follows f frame I fuel
        { state := (finish I frame ending s).1, ending := (finish I frame ending s).2,
          resumed := false, refused := false } c := by
  obtain ⟨s', ending', heq, ⟨rfl, hlast⟩ | ⟨rfl, hlast⟩⟩ :=
    h.finish_reaches (I := I) ending s registers
  . obtain ⟨n, -, hrun⟩ := hreaches.trans hlast
    rw [heq]
    exact ⟨n, by simp, hrun⟩
  . obtain ⟨n, -, hrun⟩ := hreaches.trans hlast
    rw [heq]
    rcases hending with rfl | ⟨rfl, hdeferred⟩
    . exact ⟨n, by simp, hrun⟩
    . exact ⟨n, by simp, _, hrun, by simp [hdeferred]⟩

/-- An explicit return with its own epilogue. -/
theorem inlineReturn_follows {c : Config V S} {s : S} {guarded : Bool} {pc : Nat}
    {registers : Registers V} (hinline : frame.validations.isNone = true)
    (hpc : pc < f.instructions.length - 1) (hret : f.instructions[pc]? = some frame.ret)
    (hunder : ReturnsUnder f [] guarded pc)
    (hreaches : Reaches f I 0 c (.running pc (runLoads I frame.outputs s) registers))
    : Follows f frame I fuel
        { state := (finish I frame .returned s).1, ending := (finish I frame .returned s).2,
          resumed := false,
          refused := guarded && frame.validations.isNone
            && !frame.accepts I (runLoads I frame.outputs s) } c := by
  have hfinish : finish I frame .returned s = (runLoads I frame.outputs s,
      if frame.accepts I (runLoads I frame.outputs s) then .returned else .raised) := by
    rw [Option.isNone_iff_eq_none] at hinline
    simp [finish, hinline, runLeaves]
  have hstep := (hreaches.trans (Reaches.of_step (step_ret (I := I) hret))).mono (Nat.zero_le _)
  rw [hfinish, hinline]
  cases haccepts : frame.accepts I (runLoads I frame.outputs s) with
  | true =>
    rw [haccepts, if_pos rfl] at hstep
    obtain ⟨n, -, hrun⟩ := hstep
    simp only [Follows, Bool.not_true, Bool.and_false, Bool.false_eq_true, if_false, if_true]
    exact ⟨n, by simp, pc, hrun, fun _ => hpc⟩
  | false =>
    rw [haccepts, if_neg Bool.false_ne_true, Function.raise] at hstep
    cases guarded with
    | false =>
      rw [show innermostExceptionHandler f.exceptionHandlers pc = none by
        simpa [ReturnsUnder] using hunder] at hstep
      obtain ⟨n, -, hrun⟩ := hstep
      exact ⟨n, by simp, hrun⟩
    | true =>
      obtain ⟨g, hg⟩ := Option.isSome_iff_exists.mp hunder
      rw [hg] at hstep
      exact ⟨rfl, _, _, hstep⟩

variable (I fuel) in
theorem FunctionAt.simulates (h : FunctionAt f frame body epilogue) (s : S)
    : Follows f frame I fuel (execFunction I fuel frame body s)
        (.running 0 s (Registers.cleared V)) := by
  have hlength := h.length
  have hprologue : Scoped f.exceptionHandlers 0 frame.prologue.length [] [] :=
    scoped_outside fun g hg => .inr (h.body.within g hg).start_le
  have hscope : Scoped f.exceptionHandlers frame.prologue.length epilogue f.exceptionHandlers [] := {
    mem := by simp
    sorted := List.Pairwise.nil }
  have hbody : ∀ s', Simulates f I frame ⟨none, epilogue, epilogue⟩ [] (0 + frame.prologue.length) epilogue
      fuel (Registers.cleared V) (.running (0 + frame.prologue.length) s' (Registers.cleared V))
      (execBody I fuel body s') := fun s' =>
    StatementsAt.simulates I fuel body (by simpa using h.body) (by simpa using hscope) s' _
  have hall : Simulates f I frame _ [] 0 epilogue fuel _ (.running 0 s (Registers.cleared V)) _ :=
    afterLeaves_simulates h.prologueCode hprologue (by omega) hbody
  unfold execFunction
  generalize afterLeaves I frame.prologue (execBody I fuel body) s = r at hall ⊢
  obtain ⟨s', outcome, caught, resumed⟩ := r
  cases resumed with
  | true =>
    have haborts := hall.aborts rfl
    cases outcome <;> exact haborts
  | false =>
    have hproceeds := hall.proceeds rfl
    cases outcome with
    | normal =>
      obtain ⟨registers, -, hreaches⟩ := hproceeds
      exact h.finish_follows hreaches (.inl rfl)
    | broke => exact absurd hproceeds.1 (by simp)
    | continued =>
      obtain ⟨_, hloop, -⟩ := hproceeds
      cases hloop
    | returned guarded =>
      dsimp only [Proceeds] at hproceeds
      split at hproceeds
      . next hinline =>
        obtain ⟨pc, registers, hpc, hret, hunder, hreaches⟩ := hproceeds
        exact inlineReturn_follows hinline (by omega) hret hunder hreaches
      . next hdeferred =>
        obtain ⟨registers, hreaches⟩ := hproceeds
        have hdeferred := Bool.eq_false_iff.mpr hdeferred
        have hfollows : Follows f frame I fuel ⟨(finish I frame .returned s').1, (finish I frame .returned s').2,
            false, false⟩ (.running 0 s (Registers.cleared V)) :=
          h.finish_follows hreaches (.inr ⟨rfl, hdeferred⟩)
        simpa [hdeferred] using hfollows
    | raised =>
      obtain ⟨n, -, hrun⟩ := hproceeds
      exact ⟨n, by simp, hrun⟩
    | exhausted =>
      obtain ⟨pc, registers, n, hn, hrun⟩ := hproceeds
      exact ⟨n, fun _ => hn, pc, registers, hrun⟩

end Simulation

section Refinement

variable (f : Function L C) (I : Interpretation L C V S)

variable {f I}

/-- The configuration comes after at least `n` events. -/
def Logs (n : Nat) : Config V (S × List (Event L C V)) → Prop
  | .running _ s _ => n ≤ s.2.length
  | .returned _ s => n ≤ s.2.length
  | .raised s => n ≤ s.2.length
  | .aborted s => n ≤ s.2.length
  | .invalid _ => True

theorem Logs.raise {n pc : Nat} {s : S × List (Event L C V)} (h : n ≤ s.2.length)
    : Logs n (f.raise I.logged pc s) := by
  unfold Function.raise transfer
  cases innermostExceptionHandler f.exceptionHandlers pc with
  | none => exact h
  | some g =>
    simp only [Logs, Interpretation.logged, List.length_append]
    omega

/-- Events are never taken back. -/
theorem Logs.step {n : Nat} {c : Config V (S × List (Event L C V))} (h : Logs n c)
    : Logs n (Bytecode.step f I.logged c) := by
  cases c with
  | running pc s registers =>
    have h : n ≤ s.2.length := h
    have happend : ∀ event : Event L C V, n ≤ (s.2 ++ [event]).length := by
      intro event
      rw [List.length_append]
      omega
    rw [Bytecode.step]
    cases hi : f.instructions[pc]? with
    | none => trivial
    | some i =>
      cases i with
      | leaf operation =>
        have hleaf : n ≤ (I.logged.leaf operation s).1.2.length := happend _
        dsimp only
        rcases heq : I.logged.leaf operation s with ⟨s', _ | _⟩ <;> rw [heq] at hleaf
        . exact Logs.raise hleaf
        . exact hleaf
      | load binding => exact h
      | evaluate dst operation =>
        have hevaluate : n ≤ (I.logged.evaluate operation s).1.2.length := happend _
        dsimp only
        rcases heq : I.logged.evaluate operation s with ⟨s', _ | _⟩ <;> rw [heq] at hevaluate
        . exact Logs.raise hevaluate
        . exact hevaluate
      | loadZero dst => exact h
      | jump target => exact h
      | jumpIfFalse condition target =>
        have htest : n ≤ (I.logged.test condition s).1.2.length := happend _
        dsimp only
        rcases heq : I.logged.test condition s with ⟨s', _ | _ | _⟩ <;> rw [heq] at htest
        . exact Logs.raise htest
        . exact htest
        . exact htest
      | forEach iterable index exit =>
        dsimp only [stepForEach]
        split
        . next value iteration _ _ =>
          have hiterate : n ≤ (I.logged.iterate value iteration s).1.2.length := happend _
          rcases heq : I.logged.iterate value iteration s with ⟨s', _ | _ | _⟩ <;>
            rw [heq] at hiterate
          . exact Logs.raise hiterate
          . exact hiterate
          . exact hiterate
        . exact h
      | ret => exact h
      | retVariadic variadic =>
        dsimp only
        split
        . exact h
        . exact Logs.raise h
  | returned pc s => exact h
  | raised s => exact h
  | aborted s => exact h
  | invalid pc => trivial

theorem Logs.run {n : Nat} {c : Config V (S × List (Event L C V))} (k : Nat) (h : Logs n c)
    : Logs n (Bytecode.run f I.logged k c) := by
  induction k generalizing c with
  | zero => exact h
  | succ k ih => exact ih h.step

variable (f I)

variable {f} {frame : Frame L} {body : List (Stmt L C locals)}

end Refinement

end Lowering
end OpenMat
