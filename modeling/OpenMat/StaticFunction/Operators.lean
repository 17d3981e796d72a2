import OpenMat.StaticFunction.Emission

/-!
This module contains the correctness of the operators that emit instructions.
-/

namespace OpenMat
namespace StaticFunction

open Hir

variable {F : Type} [StaticScalar F] {inputs : List F} {v : Nat → F}
variable {locals : Std.TreeMap String StaticArray} (ctx : Context)

theorem concatenate_emits (arrays : List StaticArray) (horizontal : Bool) (span : TextRange)
    : Emits inputs v locals (concatenate ctx arrays horizontal span)
        (fun a => ∀ ms, List.Forall₂ (Represents v) arrays ms →
          ∃ m, (if horizontal then Mat.hcat (Mat.parts ms) else Mat.vcat (Mat.parts ms)) = some m ∧
            Represents v a m) := by
  have hparts : ∀ ms, List.Forall₂ (Represents v) arrays ms →
      List.Forall₂ (Represents v) (partsOf arrays) (Mat.parts ms) := fun ms => forall₂_parts
  unfold concatenate
  dsimp only
  split
  . next hempty =>
    apply Emits.pure
    intro ms hms
    have hnil := hparts ms hms
    rw [hempty, List.forall₂_nil_left_iff] at hnil
    refine ⟨Mat.empty, ?_, Represents.empty⟩
    cases horizontal <;> simp [hnil, Mat.hcat, Mat.vcat]
  . next first rest hcons =>
    rw [hcons] at hparts
    apply Emits.ite
    . intro hdirection
      apply Emits.ite
      . intro _
        exact Emits.throw_bind
      intro hrows
      apply Emits.ite
      . intro _
        exact Emits.throw_bind
      intro _
      apply Emits.pure
      intro ms hms
      rw [if_pos hdirection]
      rw [hcons] at hrows ⊢
      simp only [List.any_eq_true, bne_iff_ne, ne_eq, not_exists, not_and, Decidable.not_not]
        at hrows
      exact hcat_represents (hparts ms hms) hrows
    . intro hdirection
      apply Emits.ite
      . intro _
        exact Emits.throw_bind
      intro hcols
      apply Emits.ite
      . intro _
        exact Emits.throw_bind
      intro _
      apply Emits.pure
      intro ms hms
      rw [if_neg hdirection]
      rw [hcons] at hcols ⊢
      simp only [List.any_eq_true, bne_iff_ne, ne_eq, not_exists, not_and, Decidable.not_not]
        at hcols
      exact vcat_represents (hparts ms hms) hcols

section MatrixProduct

/-- The partial sums of one element of a matrix product. -/
def PartialSum (v : Nat → F) (term : Nat → F) (ks : List Nat) : Option Nat → Prop
  | none => ks = []
  | some id => ks ≠ [] ∧ v id = Mat.dot (ks.map term)

theorem dot_append (ts : List F) (hts : ts ≠ []) (t : F)
    : Mat.dot (ts ++ [t]) = Scalar.add (Mat.dot ts) t := by
  cases ts with
  | nil => exact absurd rfl hts
  | cons t' ts => simp [Mat.dot, List.foldl_append]

theorem accumulate_emits (a b : StaticArray) (row col : Nat) (span : TextRange)
    (result : Option Nat) (ks : List Nat) (k : Nat)
    : Emits inputs v locals (accumulate ctx a b row col span result k)
        (fun result' =>
          let term := fun k => Scalar.mul (v (a.values.getD (row + k * a.rows) 0))
            (v (b.values.getD (k + col * b.rows) 0))
          PartialSum v term ks result → PartialSum v term (ks ++ [k]) result') := by
  unfold accumulate
  apply Emits.bind (push_emits ctx _ span)
  intro product
  cases result with
  | none =>
    apply Emits.pure
    intro hproduct term hnil
    simp only [PartialSum] at hnil ⊢
    subst hnil
    exact ⟨by simp, hproduct⟩
  | some sum =>
    apply Emits.bind (push_emits ctx _ span)
    intro sum'
    apply Emits.pure
    intro hsum' hproduct term hsum
    simp only [PartialSum] at hsum ⊢
    refine ⟨by simp, ?_⟩
    rw [List.map_append, List.map_singleton, dot_append _ (by simpa using hsum.1), hsum',
      Instruction.evaluate, hproduct, hsum.2]
    rfl

theorem matmulElement_emits (a b : StaticArray) (span : TextRange) (row col : Nat)
    : Emits inputs v locals (matmulElement ctx a b span row col)
        (fun id => v id = Mat.dot ((List.range a.cols).map fun k =>
          Scalar.mul (v (a.values.getD (row + k * a.rows) 0))
            (v (b.values.getD (k + col * b.rows) 0)))) := by
  unfold matmulElement
  apply Emits.bind
  . apply Emits.foldlM
      (fun ks result => PartialSum v (fun k => Scalar.mul (v (a.values.getD (row + k * a.rows) 0))
        (v (b.values.getD (k + col * b.rows) 0))) ks result) (List.range a.cols) _ [] none
    intro ks k result
    exact accumulate_emits ctx a b row col span result ks k
  . intro result
    cases result with
    | none =>
      apply Emits.mono (push_emits ctx _ span)
      intro id hid hsum
      have hnil : List.range a.cols = [] := hsum rfl
      rw [hnil, hid]
      rfl
    | some id =>
      apply Emits.pure
      intro hsum
      have := (hsum rfl).2
      rwa [List.nil_append] at this

theorem matmul_emits (a b : StaticArray) (span : TextRange)
    : Emits inputs v locals (matmul ctx a b span)
        (fun c => ∀ ma mb, Represents v a ma → Represents v b mb →
          ∃ m, ma.mul mb = some m ∧ Represents v c m) := by
  unfold matmul
  apply Emits.ite
  . intro _
    exact Emits.throw_bind
  intro hshape
  apply Emits.bind (Emits.mapM _ fun p _ => matmulElement_emits ctx a b span p.1 p.2)
  intro values
  apply Emits.pure
  intro hvalues ma mb ha hb
  have hdims : ma.cols = mb.rows := by
    rw [← ha.cols, ← hb.rows]
    exact Decidable.not_not.mp (not_or.mp hshape).1
  refine ⟨_, if_pos hdims, ha.rows, hb.cols, ?_, ?_⟩
  . rw [← hvalues.length_eq, ← ha.rows, ← hb.cols]
    exact length_columnMajor a.rows b.cols (fun row col => (row, col))
  . intro i hi j hj
    dsimp only at hi hj ⊢
    have hpos : i + j * ma.rows < values.length := by
      rw [← hvalues.length_eq, ← ha.rows]
      have := length_columnMajor a.rows b.cols (fun row col => (row, col))
      unfold columnMajor at this
      rw [this]
      apply linear_lt
      . rwa [ha.rows]
      . rwa [hb.cols]
    have hpos' := hvalues.length_eq ▸ hpos
    have hget := (List.forall₂_iff_get.mp hvalues).2 (i + j * ma.rows) hpos' hpos
    have hposition := getD_columnMajor a.rows b.cols (fun row col => (row, col)) (0, 0)
      (ha.rows.symm ▸ hi) (hb.cols.symm ▸ hj)
    unfold columnMajor at hposition
    rw [ha.rows, List.getD_eq_getElem _ _ (by simpa [ha.rows] using hpos')] at hposition
    simp only [List.get_eq_getElem] at hget
    rw [List.getD_eq_getElem _ _ hpos, hget]
    simp only [ha.rows, hposition, ha.cols]
    congr 1
    apply List.map_congr_left
    intro k hk
    have hk' := List.mem_range.mp hk
    rw [ha.entry i hi k hk', hb.rows, hb.entry k (by omega) j hj]

end MatrixProduct

section Elementwise

theorem elementInstruction_evaluate {op : BinaryOp} {x y : Nat} {i : Instruction F}
    (h : elementInstruction op x y = some i)
    : ∃ f, scalarOperator op = some f ∧ i.evaluate inputs v = f (v x) (v y) := by
  cases op <;> simp only [elementInstruction, reduceCtorEq, Option.some.injEq] at h
  all_goals
    subst h
    exact ⟨_, rfl, rfl⟩

theorem binaryElement_emits (op : BinaryOp) (a b : StaticArray) (span : TextRange) (i : Nat)
    : Emits inputs v locals (binaryElement ctx op a b span i)
        (fun id => ∃ f, scalarOperator op = some f ∧
          v id = f (v (a.values.getD (if a.values.length = 1 then 0 else i) 0))
            (v (b.values.getD (if b.values.length = 1 then 0 else i) 0))) := by
  unfold binaryElement
  dsimp only
  split
  . next instruction hinstruction =>
    apply Emits.mono (push_emits ctx instruction span)
    intro id hid
    rw [hid]
    exact elementInstruction_evaluate hinstruction
  . exact Emits.throw

theorem elementwise_represents {op : BinaryOp} {a b : StaticArray} {values : List Nat}
    (hvalues : List.Forall₂ (fun i id => ∃ f, scalarOperator op = some f ∧
        v id = f (v (a.values.getD (if a.values.length = 1 then 0 else i) 0))
          (v (b.values.getD (if b.values.length = 1 then 0 else i) 0)))
      (List.range (if a.values.length = 1 then b else a).values.length) values)
    {ma mb : Mat F} (ha : Represents v a ma) (hb : Represents v b mb)
    (hshape : a.sameShape b = true ∨ a.values.length = 1 ∨ b.values.length = 1)
    : ∃ m, elementwise op ma mb = some m ∧
        Represents v {
          rows := (if a.values.length = 1 then b else a).rows
          cols := (if a.values.length = 1 then b else a).cols
          values := values
        } m := by
  have hbroadcast : ma.isScalar ∨ mb.isScalar ∨ (ma.rows = mb.rows ∧ ma.cols = mb.cols) := by
    rw [ha.sameShape hb, ha.length_eq_one_iff, hb.length_eq_one_iff] at hshape
    rcases hshape with h | h | h
    . exact .inr (.inr h)
    . exact .inl h
    . exact .inr (.inl h)
  have hresult : Represents v (if a.values.length = 1 then b else a)
      (if ma.isScalar then mb else ma) := by
    by_cases hs : a.values.length = 1
    . rw [if_pos hs, if_pos (ha.length_eq_one_iff.mp hs)]
      exact hb
    . rw [if_neg hs, if_neg (fun h => hs (ha.length_eq_one_iff.mpr h))]
      exact ha
  generalize hs : (if a.values.length = 1 then b else a) = shape at *
  generalize hms : (if ma.isScalar then mb else ma) = mshape at *
  have hlength : values.length = mshape.numel := by
    rw [← hvalues.length_eq, List.length_range, hresult.length]
    rfl
  unfold elementwise
  rw [if_pos hbroadcast, hms]
  dsimp only
  split
  . next hzero =>
    refine ⟨mshape, rfl, hresult.rows, hresult.cols, hlength, ?_⟩
    intro i hi j hj
    have := linear_lt hi hj
    unfold Mat.numel at hzero
    omega
  . next hnonzero =>
    have hget : ∀ k (hk : k < values.length), ∃ f, scalarOperator op = some f ∧
        v values[k] = f (v (a.values.getD (if a.values.length = 1 then 0 else k) 0))
          (v (b.values.getD (if b.values.length = 1 then 0 else k) 0)) := by
      intro k hk
      have := (List.forall₂_iff_get.mp hvalues).2 k (by rw [hvalues.length_eq]; exact hk) hk
      simpa using this
    obtain ⟨f, hf, -⟩ := hget 0 (by omega)
    simp only [hf, Option.bind_eq_bind, Option.bind_some, Option.pure_def]
    refine ⟨_, rfl, ?_⟩
    refine Represents.of_linear ?_ ?_ ?_ ?_
    . exact hresult.rows
    . exact hresult.cols
    . exact hlength
    intro k hk
    change k < mshape.numel at hk
    obtain ⟨g, hg, hvalue⟩ := hget k (by omega)
    rw [hf, Option.some.injEq] at hg
    subst hg
    dsimp only [Mat.linear]
    rw [List.getD_eq_getElem _ _ (by omega), hvalue]
    congr 1
    . apply ha.spread hk
      intro hscalar
      rw [← hms, hscalar]
      exact ⟨rfl, rfl⟩
    . apply hb.spread hk
      intro hscalar
      rw [← hms]
      split
      . exact ⟨rfl, rfl⟩
      . next hnot =>
        simp only [hnot, hscalar, Bool.false_eq_true, false_or] at hbroadcast
        exact ⟨hbroadcast.1.symm, hbroadcast.2.symm⟩

theorem binary_emits (op : BinaryOp) (a b : StaticArray) (span : TextRange)
    : Emits inputs v locals (binary ctx op a b span)
        (fun c => ∀ ma mb, Represents v a ma → Represents v b mb →
          ∃ m, binaryValue op ma mb = some m ∧ Represents v c m) := by
  unfold binary
  apply Emits.ite
  . intro _
    exact Emits.throw_bind
  intro _
  apply Emits.ite
  . intro hmul
    apply Emits.mono (matmul_emits ctx a b span)
    intro c hc ma mb ha hb
    have hprod : op = .multiply ∧ !ma.isScalar ∧ !mb.isScalar := by
      simpa [ha.length_eq_one_iff, hb.length_eq_one_iff] using hmul
    unfold binaryValue
    rw [if_pos hprod]
    exact hc ma mb ha hb
  intro hmul
  apply Emits.ite
  . intro _
    exact Emits.throw
  intro hshape
  apply Emits.ite
  . intro _
    exact Emits.throw
  intro hdivide
  dsimp only
  apply Emits.bind (Emits.mapM _ fun i _ => binaryElement_emits ctx op a b span i)
  intro values
  apply Emits.pure
  intro hvalues ma mb ha hb
  have hprod : ¬(op = .multiply ∧ !ma.isScalar ∧ !mb.isScalar) := by
    simpa [ha.length_eq_one_iff, hb.length_eq_one_iff] using hmul
  have hright : ¬(op = .rightDivide ∧ !mb.isScalar) := by
    simpa [hb.length_eq_one_iff] using hdivide
  unfold binaryValue
  rw [if_neg hprod, if_neg hright]
  apply elementwise_represents hvalues ha hb
  by_contra hnot
  simp only [not_or] at hnot
  exact hshape ⟨by simpa using hnot.1, hnot.2.1, hnot.2.2⟩

theorem unaryElement_emits (op : UnaryOp) (z : Nat) (span : TextRange) (value : Nat)
    : Emits inputs v locals (unaryElement ctx op z span value)
        (fun id => (op = .minus ∧ v id = Scalar.neg (v value)) ∨
          (op = .not ∧ v id = Comparison.equal.evaluate (v value) (v z))) := by
  unfold unaryElement
  split
  . apply Emits.mono (push_emits ctx _ span)
    intro id hid
    exact .inl ⟨rfl, hid⟩
  . apply Emits.mono (push_emits ctx _ span)
    intro id hid
    exact .inr ⟨rfl, hid⟩
  . exact Emits.throw

theorem unary_emits (op : UnaryOp) (array : StaticArray) (span : TextRange)
    : Emits inputs v locals (unary ctx op array span)
        (fun a => ∀ m, Represents v array m →
          ∃ m', unaryValue op m = some m' ∧ Represents v a m') := by
  unfold unary
  apply Emits.ite
  . intro _
    exact Emits.throw_bind
  intro _
  apply Emits.ite
  . intro hplus
    apply Emits.pure
    intro m hm
    exact ⟨m, by rw [hplus]; rfl, hm⟩
  intro hplus
  apply Emits.bind (push_emits ctx _ span)
  intro z
  apply Emits.bind (Emits.mapM _ fun value _ => unaryElement_emits ctx op z span value)
  intro values
  apply Emits.pure
  intro hvalues hz m hm
  have hz' : v z = Scalar.zero := hz
  cases op with
  | plus => exact absurd rfl hplus
  | minus =>
    refine ⟨_, rfl, hm.of_forall₂ (hvalues.imp ?_)⟩
    intro old new hnew
    simpa using hnew
  | not =>
    refine ⟨_, rfl, hm.of_forall₂ (hvalues.imp ?_)⟩
    intro old new hnew
    simpa [hz'] using hnew
  | unknown =>
    have hnil : array.values = [] := by
      cases harray : array.values with
      | nil => rfl
      | cons value rest =>
        rw [harray] at hvalues
        cases hvalues with
        | cons hhead _ => simp at hhead
    have hnumel : m.numel = 0 := by
      unfold Mat.numel
      rw [← hm.length, hnil, List.length_nil]
    rw [hnil, List.forall₂_nil_left_iff] at hvalues
    refine ⟨m, if_pos hnumel, hm.rows, hm.cols, ?_, ?_⟩
    . rw [hvalues]
      exact hnumel.symm
    . intro i hi j hj
      have := linear_lt hi hj
      unfold Mat.numel at hnumel
      omega

end Elementwise

end StaticFunction
end OpenMat
