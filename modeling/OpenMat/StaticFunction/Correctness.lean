import OpenMat.Numeric.Prune
import OpenMat.Numeric.Integer
import OpenMat.StaticFunction.Conditional

/-!
This module contains the correctness of compiled callbacks: the kernel computes the column that the
direct evaluation of the source computes.
-/

namespace OpenMat
namespace StaticFunction

open Hir

variable {F : Type} [StaticScalar F] {inputs : List F} {v : Nat → F}

section Body

variable {locals : Std.TreeMap String StaticArray} (ctx : Context)

theorem count_bind {α : Type} {k : Compiler F → Compile F α}
    {Q : α → Std.TreeMap String StaticArray → Prop}
    (hk : ∀ s, Advances inputs v locals (k s) Q)
    : Advances inputs v locals
        (do
          let s ← get
          set { s with statements := s.statements + 1 }
          k s) Q := by
  intro s a s' hlocals hrun
  obtain ⟨hpre, hpost⟩ := hk s { s with statements := s.statements + 1 } a s' hlocals hrun
  refine ⟨hpre, ?_⟩
  intro hsolves hknown
  exact hpost hsolves ⟨hknown.length, hknown.value⟩

theorem statement_advances {inner : List Stmt → Compile F Unit}
    (hinner : ∀ statements locals, Advances inputs v locals (inner statements)
      (fun _ locals' => Simulates v (fun env => execBody env statements) locals locals'))
    (stmt : Stmt) (locals : Std.TreeMap String StaticArray)
    : Advances inputs v locals (statement ctx inner stmt)
        (fun _ locals' => Simulates v (fun env => execStmt env stmt) locals locals') := by
  unfold statement
  apply count_bind
  intro s
  apply Advances.ite
  . intro _
    exact Advances.throw_bind
  intro _
  dsimp only
  split
  . next target value _ =>
    apply Advances.emits_bind (expression_emits ctx 129 value)
    intro a
    apply Advances.mono (assignment_advances ctx target a)
    intro _ locals' hassign ha env henv
    obtain ⟨m, hm, hrep⟩ := ha env henv
    obtain ⟨env', hassigned, henv'⟩ := hassign env m henv hrep
    refine ⟨env', ?_, henv'⟩
    dsimp only
    rw [execStmt, hm]
    exact hassigned
  . next loopVariable iterable statements span =>
    exact loopBody_advances ctx hinner loopVariable iterable statements span
  . next branches otherwise span =>
    apply Advances.ite
    . intro _
      exact conditional_advances ctx hinner locals branches otherwise span
    . intro _
      exact Advances.throw
  . exact Advances.throw

theorem execBody_eq_foldlM (env : Env F) (statements : List Stmt)
    : execBody env statements = statements.foldlM execStmt env := by
  induction statements generalizing env with
  | nil => rw [execBody, List.foldlM_nil]; rfl
  | cons stmt statements ih => simp only [execBody, List.foldlM_cons, ih]

theorem body_advances (n : Nat) (statements : List Stmt)
    (locals : Std.TreeMap String StaticArray)
    : Advances inputs v locals (body ctx n statements)
        (fun _ locals' => Simulates v (fun env => execBody env statements) locals locals') := by
  induction n generalizing statements locals with
  | zero => exact Advances.throw
  | succ n ih =>
    unfold body
    simp only [execBody_eq_foldlM]
    exact Advances.forM_simulates statements (statement_advances ctx ih)

end Body

section Arguments

variable (ctx : Context)

def totalWidth (arguments : List (String × Nat)) : Nat := (arguments.map Prod.snd).sum

theorem bindArguments_append (offset : Nat) (arguments : List (String × Nat)) (name : String)
    (width : Nat) (env : Env F)
    : bindArguments inputs offset (arguments ++ [(name, width)]) env =
        (bindArguments inputs offset arguments env).bind name
          (Mat.column ((inputs.drop (offset + totalWidth arguments)).take width)) := by
  induction arguments generalizing offset env with
  | nil => rfl
  | cons argument arguments ih =>
    obtain ⟨name', width'⟩ := argument
    rw [List.cons_append, bindArguments, ih, bindArguments]
    congr 4
    simp [totalWidth, Nat.add_assoc]

theorem range'_map_getD (offset width : Nat) (h : offset + width ≤ inputs.length)
    : (List.range' offset width).map (fun i => inputs.getD i default) =
        (inputs.drop offset).take width := by
  apply List.ext_getElem
  . simp only [List.length_map, List.length_range', List.length_take, List.length_drop]
    omega
  . intro k hk hk'
    simp only [List.length_map, List.length_range'] at hk
    have hlt : offset + k < inputs.length := by omega
    simp [hlt]

theorem bindArgument_advances (span : TextRange) (offset : Nat) (argument : String × Nat)
    (locals : Std.TreeMap String StaticArray)
    : Advances inputs v locals (bindArgument ctx span offset argument)
        (fun offset' locals' => offset' = offset + argument.2 ∧
          (offset' ≤ inputs.length → Simulates v
            (fun env => some (env.bind argument.1
              (Mat.column ((inputs.drop offset).take argument.2)))) locals locals')) := by
  unfold bindArgument
  apply Advances.emits_bind (Emits.mapM _ fun i _ => push_emits ctx _ span)
  intro ids
  apply Advances.bind (bindLocal_advances ctx argument.1 _ span)
  intro _ locals'
  apply Advances.pure
  rintro rfl hids
  refine ⟨rfl, ?_⟩
  intro hlength env henv
  refine ⟨_, rfl, henv.bind argument.1 (Represents.column ?_)⟩
  rw [← range'_map_getD offset argument.2 hlength]
  symm
  exact forall₂_map_eq (fun i id hid => hid.symm) hids

theorem bindArguments_advances (span : TextRange) (arguments : List (String × Nat))
    (locals : Std.TreeMap String StaticArray)
    : Advances inputs v locals (arguments.foldlM (bindArgument ctx span) 0)
        (fun offset locals' => offset = totalWidth arguments ∧
          (offset ≤ inputs.length → Simulates v
            (fun env => some (bindArguments inputs 0 arguments env)) locals locals')) := by
  apply Advances.mono (Advances.foldlM (fun pre offset locals' => offset = totalWidth pre ∧
    (offset ≤ inputs.length → Simulates v
      (fun env => some (bindArguments inputs 0 pre env)) locals locals')) arguments ?_ [] 0)
  . intro offset locals' h
    apply h
    refine ⟨rfl, ?_⟩
    intro _ env henv
    exact ⟨env, rfl, henv⟩
  . intro pre argument offset locals'
    apply Advances.mono (bindArgument_advances ctx span offset argument locals')
    rintro offset' locals'' ⟨rfl, hstep⟩ ⟨rfl, hpre⟩
    refine ⟨by simp [totalWidth], ?_⟩
    intro hlength env henv
    obtain ⟨_, heq, henv'⟩ := hpre (by omega) env henv
    cases heq
    obtain ⟨_, heq', henv''⟩ := hstep hlength _ henv'
    cases heq'
    refine ⟨_, rfl, ?_⟩
    rwa [bindArguments_append, Nat.zero_add]

theorem lowerFunction_advances (signature : Signature F) (name : Option Name) (output : Name)
    (names : List Name) (statements : List Stmt) (span : TextRange)
    : Advances inputs v ∅ (lowerFunction ctx signature output statements span)
        (fun lowered _ => lowered.offset = totalWidth signature.arguments ∧
          lowered.output.values.length = signature.outputWidth ∧
          (lowered.offset ≤ inputs.length →
            ∃ m, evaluateFunction signature (.function name [output] names statements span) inputs =
                some m ∧
              Represents v lowered.output m ∧ (m.cols = 1 ∨ m.numel = 0))) := by
  unfold lowerFunction
  apply Advances.bind (bindArguments_advances ctx span signature.arguments ∅)
  intro offset locals
  apply Advances.emits_bind (Emits.mapM _ fun x _ => push_emits ctx _ span)
  intro parameters
  apply Advances.bind (bindLocal_advances ctx "p" _ span)
  intro _ locals'
  apply Advances.bind (body_advances ctx 17 statements locals')
  intro _ locals''
  apply Advances.emits_bind Emits.get
  intro s
  split
  . exact Advances.throw
  . next a ha =>
    apply Advances.ite
    . intro _
      exact Advances.throw_bind
    intro hwidth
    apply Advances.pure
    rintro ⟨hs, -⟩ hbody rfl hparameters ⟨hoffset, harguments⟩
    simp only [not_or, Decidable.not_not, not_and] at hwidth
    refine ⟨hoffset, hwidth.1, ?_⟩
    intro hlength
    have hempty : EnvRel v ∅ (fun _ => none : Env F) := by
      intro x
      rw [Std.TreeMap.getElem?_emptyc]
      exact .none
    obtain ⟨_, heq, henv⟩ := harguments hlength _ hempty
    cases heq
    have hcolumn : parameters.map v = signature.parameters := by
      have := forall₂_map_eq (f := id) (fun i id hid => hid.symm) hparameters
      simpa using this.symm
    obtain ⟨env, henv', hrel⟩ := hbody _ (henv.bind "p" (Represents.column hcolumn))
    rw [hs] at ha
    obtain ⟨m, hm, hrep⟩ := hrel.lookup ha
    refine ⟨m, ?_, hrep, ?_⟩
    . dsimp only at henv'
      simp [evaluateFunction, henv', hm]
    . by_cases hcols : a.cols = 1
      . exact .inl (hrep.cols ▸ hcols)
      . have := hwidth.2 hcols
        rw [Bool.not_eq_true, Bool.not_eq_false', hrep.isEmpty_iff] at this
        exact .inr (by simpa using this)

end Arguments

section Compile

theorem solves_of_isValuation {inputCount : Nat} {instructions : List (Instruction F)}
    {outputs : List Nat}
    (h : Ssa.IsValuation (dialect inputs)
      (Program.code ⟨inputCount, instructions, outputs, List.replicate instructions.length none⟩) v)
    : Solves inputs v instructions := by
  intro k hk
  rw [h k (by simpa [Program.code] using hk)]
  simp [Program.code, dialect]

omit [StaticScalar F] in
theorem known_initial : Known v (Compiler.initial : Compiler F) := by
  refine ⟨rfl, ?_⟩
  intro k c hk
  simp [Compiler.initial] at hk

theorem compileFunction_correct {ctx : Context} {signature : Signature F} {stmt : Stmt}
    {p : Program F} (h : compileFunction ctx signature stmt = .ok p)
    : p.inputCount = totalWidth signature.arguments ∧ p.outputCount = signature.outputWidth ∧
        ∀ k : ReferenceKernel F, k.program = p → ∀ inputs : List F, inputs.length = p.inputCount →
          ∃ m, evaluateFunction signature stmt inputs = some m ∧ m.numel = signature.outputWidth ∧
            (m.cols = 1 ∨ m.numel = 0) ∧ (k.evaluate inputs p.outputCount).1 = .ok m.toList := by
  unfold compileFunction at h
  split at h
  . next name outputs names statements span =>
    split at h
    . next output =>
      split at h
      . simp at h
      . obtain ⟨⟨lowered, compiler⟩, hrun, hnew⟩ := bind_eq_ok_iff.mp h
        dsimp only at hnew
        split at hnew
        . next q hq =>
          cases hnew
          obtain ⟨hqeq, hverified⟩ := Program.new_eq_ok_iff.mp hq
          have hpost : ∀ inputs : List F, ∀ v, Ssa.IsValuation (dialect inputs) q.code v →
              lowered.offset = totalWidth signature.arguments ∧
                lowered.output.values.length = signature.outputWidth ∧
                (lowered.offset ≤ inputs.length →
                  ∃ m, evaluateFunction signature (.function name [output] names statements span)
                    inputs = some m ∧ Represents v lowered.output m ∧ (m.cols = 1 ∨ m.numel = 0)) := by
            intro inputs v hv
            rw [hqeq] at hv
            have hlower := @lowerFunction_advances _ _ inputs v ctx signature name output names
              statements span
            obtain ⟨-, hadvance⟩ := hlower Compiler.initial lowered compiler rfl hrun
            exact (hadvance (solves_of_isValuation hv) known_initial).2
          have hvaluation := fun inputs : List F =>
            ReferenceKernel.run_isValuation hverified inputs (ReferenceKernel.new q).registers
              (ReferenceKernel.new q).length_registers
          obtain ⟨hoffset, hwidth, -⟩ := hpost [] _ (hvaluation [])
          have hcount : q.inputCount = lowered.offset := by rw [hqeq]
          have houtputs : q.outputs = lowered.output.values := by rw [hqeq]
          have houtputCount : q.pruned.outputCount = q.outputCount := by
            simp [Program.outputCount, Program.pruned]
          refine ⟨hcount.trans hoffset, ?_, ?_⟩
          . rw [houtputCount, Program.outputCount, houtputs, hwidth]
          . intro k hk inputs hinputs
            have hlength : inputs.length = q.inputCount := hinputs
            obtain ⟨-, -, hdirect⟩ := hpost inputs _ (hvaluation inputs)
            obtain ⟨m, hm, hrep, hshape⟩ := hdirect (by omega)
            have hnumel : m.numel = signature.outputWidth := hrep.length.symm.trans hwidth
            refine ⟨m, hm, hnumel, hshape, ?_⟩
            obtain ⟨values, hvalues, hpruned⟩ := Program.pruned_evaluate hverified
              (ReferenceKernel.new q) k rfl hk inputs hlength
            have hreference := ReferenceKernel.evaluate_fst_of_isValuation (ReferenceKernel.new q)
              hverified inputs hlength (hvaluation inputs)
            have hlist : values = m.toList := by
              rw [← hrep.toList, ← houtputs]
              exact Except.ok.inj (hvalues.symm.trans hreference)
            rw [houtputCount, hpruned, hlist]
        . simp at hnew
    . simp at h
  . simp at h

/-- A compiled callback computes, in any kernel, the column that its source evaluates to. -/
theorem compile_correct {front : FrontEnd} {block : String} {callback : Callback}
    {signature : Signature F} {sources : Std.TreeMap String String} {p : Program F}
    (h : compile front block callback signature sources = .ok p)
    : ∃ text, sources[callback.source]? = some text ∧
        p.inputCount = totalWidth signature.arguments ∧ p.outputCount = signature.outputWidth ∧
        ∀ k : ReferenceKernel F, k.program = p → ∀ inputs : List F, inputs.length = p.inputCount →
          ∃ m, evaluateSource front signature text inputs = some m ∧
            m.numel = signature.outputWidth ∧ (m.cols = 1 ∨ m.numel = 0) ∧
            (k.evaluate inputs p.outputCount).1 = .ok m.toList := by
  unfold compile at h
  split at h
  . simp at h
  . next text htext =>
    obtain ⟨_, -, h⟩ := bind_eq_ok_iff.mp h
    split at h
    . simp at h
    . next file hfile =>
      split at h
      . next stmt hstmt =>
        have hevaluate : ∀ inputs, evaluateSource front signature text inputs =
            evaluateFunction signature stmt inputs := by
          intro inputs
          obtain ⟨span, statements⟩ := file
          dsimp only at hstmt
          subst hstmt
          rw [evaluateSource, hfile]
        refine ⟨text, htext, ?_⟩
        simp only [hevaluate]
        exact compileFunction_correct h
      . simp at h

section Accumulator

/-- Integer literals are written in decimal. -/
instance : StaticScalar Int where
  parse text :=
    if text.toList.all Char.isDigit then
      some (text.toList.foldl (fun n c => 10 * n + (c.toNat - 48)) 0)
    else
      none
  ofInt i := i
  toInt v := v
  isIntegral _ := true

def accumulatorSource : String :=
  "function y = accumulate(x, p)\ny = x;\nfor k = 2:-1:1\ny(k) = y(k) * k;\nend\nif y(1)\ny = y';\ny = [y(1); y(2) + p];\nelse\nz = 1;\nend\nend\n"

/-- The parsed source, where all spans are the start of the file. -/
def accumulator : HirFile :=
  let at0 : TextRange := ⟨0, 0⟩
  let x := fun name => Expr.name name at0
  let n := fun text => Expr.number text at0
  let y := fun i => Expr.parenApply (x "y") [i] at0
  {
    span := at0
    statements := [
      .function (some ⟨"accumulate", at0⟩) [⟨"y", at0⟩] [⟨"x", at0⟩, ⟨"p", at0⟩] [
        .assignment (x "y") (x "x") at0,
        .forLoop (x "k") (.range (n "2") (some (.unary .minus (n "1") at0)) (n "1") at0) [
          .assignment (y (x "k")) (.binary .multiply (y (x "k")) (x "k") at0) at0
        ] at0,
        .ifElse [
          .mk (y (n "1")) [
            .assignment (x "y") (.transpose (x "y") at0) at0,
            .assignment (x "y")
              (.matrix [[y (n "1")], [.binary .add (y (n "2")) (x "p") at0]] at0) at0
          ] at0
        ] [
          .assignment (x "z") (n "1") at0
        ] at0
      ] at0
    ]
  }

def accumulatorFrontEnd : FrontEnd where
  lex _ := []
  parse text :=
    if text = accumulatorSource then .ok accumulator else .error (⟨0, 0⟩, "unexpected input")

def accumulatorSignature : Signature Int where
  arguments := [("x", 2)]
  parameters := [5]
  outputWidth := 2
  conditions := true

def accumulatorProgram : Program Int where
  inputCount := 2
  instructions := [.input 0, .input 1, .constant 5, .constant 2, .multiply 1 3, .constant 1,
    .multiply 0 5, .add 4 2, .select 6 7 4]
  outputs := [6, 8]
  guards := List.replicate 9 none

theorem compile_correct_accumulator
    : ∃ m, evaluateSource accumulatorFrontEnd accumulatorSignature accumulatorSource [3, 4] = some m ∧
        ((ReferenceKernel.new accumulatorProgram).evaluate [3, 4] 2).1 = .ok m.toList := by
  have hcompile : compile accumulatorFrontEnd "block" ⟨"accumulate.m", "accumulate"⟩
      accumulatorSignature ((∅ : Std.TreeMap String String).insert "accumulate.m" accumulatorSource) =
        .ok accumulatorProgram := by decide +kernel
  obtain ⟨text, htext, -, -, hcorrect⟩ := compile_correct hcompile
  rw [Std.TreeMap.getElem?_insert_self, Option.some.injEq] at htext
  subst htext
  obtain ⟨m, hm, -, -, heval⟩ :=
    hcorrect (ReferenceKernel.new accumulatorProgram) rfl [3, 4] rfl
  exact ⟨m, hm, heval⟩

end Accumulator

end Compile

end StaticFunction
end OpenMat
