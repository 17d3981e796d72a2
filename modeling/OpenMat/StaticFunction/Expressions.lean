import OpenMat.StaticFunction.Operators

/-!
This module contains the correctness of expressions: the array that an expression compiles to stands
for the matrix that the expression evaluates to.
-/

namespace OpenMat
namespace StaticFunction

open Hir

variable {F : Type} {v : Nat → F} {locals : Std.TreeMap String StaticArray}

/-- The same names are bound, to arrays that stand for the bound matrices. -/
def EnvRel (v : Nat → F) (locals : Std.TreeMap String StaticArray) (env : Env F) : Prop :=
  ∀ name : String, Option.Rel (Represents v) locals[name]? (env name)

namespace EnvRel

variable {env : Env F}

theorem lookup (h : EnvRel v locals env) {name : String} {a : StaticArray}
    (hname : locals[name]? = some a) : ∃ m, env name = some m ∧ Represents v a m := by
  have hrel := h name
  rw [hname] at hrel
  cases henv : env name with
  | none =>
    rw [henv] at hrel
    cases hrel
  | some m =>
    rw [henv] at hrel
    cases hrel with
    | some hm => exact ⟨m, rfl, hm⟩

theorem lookup_none (h : EnvRel v locals env) {name : String} (hname : locals[name]? = none)
    : env name = none := by
  have hrel := h name
  rw [hname] at hrel
  cases henv : env name with
  | none => rfl
  | some m =>
    rw [henv] at hrel
    cases hrel

theorem bind (h : EnvRel v locals env) (name : String) {a : StaticArray} {m : Mat F}
    (hm : Represents v a m) : EnvRel v (locals.insert name a) (env.bind name m) := by
  intro x
  rw [Std.TreeMap.getElem?_insert]
  unfold Env.bind
  by_cases hx : x = name
  . subst hx
    simp only [Std.compare_self, ↓reduceIte]
    exact .some hm
  . have hcompare : compare name x ≠ .eq := by
      intro heq
      exact hx (Std.LawfulEqOrd.eq_of_compare heq).symm
    rw [if_neg hcompare, if_neg hx]
    exact h x

end EnvRel

theorem Represents.replicate {id : Nat} {x : F} (h : v id = x) (rows cols : Nat)
    : Represents v { rows := rows, cols := cols, values := List.replicate (rows * cols) id }
        { rows := rows, cols := cols, entry := fun _ _ => x } := by
  refine ⟨rfl, rfl, List.length_replicate .., ?_⟩
  intro i hi j hj
  dsimp only at hi hj ⊢
  rw [List.getD_eq_getElem?_getD, List.getElem?_replicate, if_pos (linear_lt hi hj)]
  exact h

variable [StaticScalar F] {inputs : List F} (ctx : Context)

def Denotes (v : Nat → F) (locals : Std.TreeMap String StaticArray) (expr : Expr) (a : StaticArray)
    : Prop :=
  ∀ env, EnvRel v locals env → ∃ m, eval env expr = some m ∧ Represents v a m

section Lists

theorem evalList_of_forall₂ {α : Type} {R : α → Mat F → Prop} {env : Env F} {exprs : List Expr}
    {xs : List α}
    (h : List.Forall₂ (fun e x => ∃ m, eval env e = some m ∧ R x m) exprs xs)
    : ∃ ms, evalList env exprs = some ms ∧ List.Forall₂ R xs ms := by
  induction h with
  | nil => exact ⟨[], by rw [evalList], .nil⟩
  | cons hhead _ ih =>
    obtain ⟨m, hm, hR⟩ := hhead
    obtain ⟨ms, hms, hRs⟩ := ih
    refine ⟨m :: ms, ?_, .cons hR hRs⟩
    rw [evalList, hm, Option.bind_eq_bind, Option.bind_some, hms]
    rfl

theorem evalList_singleton {env : Env F} {e : Expr} {m : Mat F} (h : eval env e = some m)
    : evalList env [e] = some [m] := by
  simp [evalList, h]

theorem evalList_pair {env : Env F} {e e' : Expr} {m m' : Mat F} (h : eval env e = some m)
    (h' : eval env e' = some m') : evalList env [e, e'] = some [m, m'] := by
  simp [evalList, h, h']

theorem Denotes.list {exprs : List Expr} {arrays : List StaticArray}
    (h : List.Forall₂ (Denotes v locals) exprs arrays) {env : Env F} (henv : EnvRel v locals env)
    : ∃ ms, evalList env exprs = some ms ∧ List.Forall₂ (Represents v) arrays ms := by
  apply evalList_of_forall₂
  exact h.imp fun e a hea => hea env henv

end Lists

section Integers

/-- The expression evaluates to an integer. -/
def DenotesInt (v : Nat → F) (locals : Std.TreeMap String StaticArray) (expr : Expr) (i : Int)
    : Prop :=
  ∀ env, EnvRel v locals env → ∃ m, eval env expr = some m ∧ m.integer? = some i

variable {nested : Expr → Compile F StaticArray}
variable (hnested : ∀ e, Emits inputs v locals (nested e) (Denotes v locals e))

include hnested

theorem integer_emits (expr : Expr)
    : Emits inputs v locals (integer ctx nested expr) (DenotesInt v locals expr) := by
  unfold integer
  apply Emits.bind (hnested expr)
  intro a
  apply Emits.bind Emits.get
  intro s
  dsimp only
  split
  . next i hi =>
    apply Emits.pure
    intro hs ha env henv
    obtain ⟨m, hm, hrep⟩ := ha env henv
    refine ⟨m, hm, ?_⟩
    split at hi
    . next id hid =>
      obtain ⟨c, hc, hci⟩ := Option.bind_eq_some_iff.mp hi
      rw [Mat.integer?, hrep.scalar? hid, hs.2.value id c hc]
      exact hci
    . simp at hi
  . exact Emits.throw

theorem boundedIndex_emits (argument : Expr) (bound : Nat)
    : Emits inputs v locals (boundedIndex ctx nested argument bound)
        (fun k => ∃ i : Int, DenotesInt v locals argument i ∧ (1 ≤ i ∧ i ≤ bound) ∧
          k = i.toNat - 1) := by
  unfold boundedIndex
  apply Emits.bind (integer_emits ctx hnested argument)
  intro i
  apply Emits.ite
  . intro hi
    apply Emits.pure
    intro hint
    exact ⟨i, hint, hi, rfl⟩
  . intro _
    exact Emits.throw

/-- The position selects an element of every matrix that the array stands for. -/
def Selects (v : Nat → F) (locals : Std.TreeMap String StaticArray) (array : StaticArray)
    (arguments : List Expr) (k : Nat) : Prop :=
  ∀ env, EnvRel v locals env → ∀ m, Represents v array m →
    ∃ ms row col, evalList env arguments = some ms ∧ subscript m ms = some (row, col) ∧
      row < m.rows ∧ col < m.cols ∧ k = row + col * m.rows

theorem index_emits (array : StaticArray) (arguments : List Expr) (span : TextRange)
    : Emits inputs v locals (index ctx nested array arguments span)
        (Selects v locals array arguments) := by
  unfold index
  split
  . next i =>
    apply Emits.mono (boundedIndex_emits ctx hnested i array.values.length)
    rintro k ⟨n, hn, hbound, rfl⟩ env henv m hm
    obtain ⟨mi, hmi, hint⟩ := hn env henv
    rw [hm.length] at hbound
    have hlt : n.toNat - 1 < m.numel := by
      unfold Mat.numel
      omega
    have hrows : 0 < m.rows := by
      unfold Mat.numel at hlt
      have hpos : 0 < m.rows * m.cols := by omega
      exact Nat.pos_of_mul_pos_right hpos
    refine ⟨[mi], (n.toNat - 1) % m.rows, (n.toNat - 1) / m.rows, evalList_singleton hmi, ?_,
      Nat.mod_lt _ hrows, Nat.div_lt_of_lt_mul hlt, ?_⟩
    . simp only [subscript, hint, Option.bind_eq_bind, Option.bind_some]
      exact if_pos hbound
    . exact (mod_add_div_mul _ _).symm
  . next i j =>
    apply Emits.bind (boundedIndex_emits ctx hnested i array.rows)
    intro row
    apply Emits.bind (boundedIndex_emits ctx hnested j array.cols)
    intro col
    apply Emits.pure
    rintro ⟨nj, hnj, hj, rfl⟩ ⟨ni, hni, hi, rfl⟩ env henv m hm
    obtain ⟨mi, hmi, hinti⟩ := hni env henv
    obtain ⟨mj, hmj, hintj⟩ := hnj env henv
    rw [hm.rows] at hi
    rw [hm.cols] at hj
    refine ⟨[mi, mj], ni.toNat - 1, nj.toNat - 1, evalList_pair hmi hmj, ?_, by omega, by omega, ?_⟩
    . simp only [subscript, hinti, hintj, Option.bind_eq_bind, Option.bind_some]
      exact if_pos ⟨hi, hj⟩
    . rw [hm.rows]
  . exact Emits.throw

theorem dimension_emits (expr : Expr)
    : Emits inputs v locals (dimension ctx nested expr)
        (fun n => ∀ env, EnvRel v locals env →
          ∃ m, eval env expr = some m ∧ naturalDimension m = some n) := by
  unfold dimension
  apply Emits.bind (integer_emits ctx hnested expr)
  intro i
  apply Emits.ite
  . intro hi
    apply Emits.pure
    intro hint env henv
    obtain ⟨m, hm, hmi⟩ := hint env henv
    refine ⟨m, hm, ?_⟩
    simp only [naturalDimension, hmi, Option.bind_eq_bind, Option.bind_some]
    exact if_pos hi.1
  . intro _
    exact Emits.throw

theorem dimensions_emits (args : List Expr) (span : TextRange)
    : Emits inputs v locals (dimensions ctx nested args span)
        (fun dims => ∀ env, EnvRel v locals env →
          ∃ ms, evalList env args = some ms ∧ dimensionValues ms = some dims) := by
  unfold dimensions
  apply Emits.ite
  . intro _
    exact Emits.throw_bind
  intro hlength
  apply Emits.bind (Emits.mapM args fun e _ => dimension_emits ctx hnested e)
  intro dims
  dsimp only
  apply Emits.ite
  . intro _
    exact Emits.throw_bind
  intro _
  apply Emits.pure
  intro hdims env henv
  obtain ⟨ms, hms, hvalues⟩ :=
    evalList_of_forall₂ (hdims.imp fun e n hen => hen env henv)
  refine ⟨ms, hms, ?_⟩
  have hcount := hdims.length_eq
  match args, dims, ms, hvalues with
  | [], _, _, _ => simp at hlength
  | [_], [n], [m], .cons hm .nil => simp [dimensionValues, hm]
  | [_, _], [n, n'], [m, m'], .cons hm (.cons hm' .nil) => simp [dimensionValues, hm, hm']
  | _ :: _ :: _ :: _, _, _, _ => simp at hlength

end Integers

section Intrinsics

variable {nested : Expr → Compile F StaticArray}
variable (hnested : ∀ e, Emits inputs v locals (nested e) (Denotes v locals e))

/-- The array stands for the intrinsic applied to the values of the arguments. -/
def Applies (v : Nat → F) (locals : Std.TreeMap String StaticArray) (name : String)
    (args : List Expr) (a : StaticArray) : Prop :=
  ∀ env, EnvRel v locals env → ∃ ms m, evalList env args = some ms ∧
    intrinsicValue name ms = some m ∧ Represents v a m

include hnested

theorem constantArray_emits (x : F) (args : List Expr) (span : TextRange)
    : Emits inputs v locals (constantArray ctx nested x args span)
        (fun a => ∀ env, EnvRel v locals env → ∃ ms m, evalList env args = some ms ∧
          filled x ms = some m ∧ Represents v a m) := by
  unfold constantArray
  apply Emits.bind (dimensions_emits ctx hnested args span)
  intro dims
  apply Emits.bind (push_emits ctx _ span)
  intro id
  apply Emits.pure
  intro hid hdims env henv
  obtain ⟨ms, hms, hvalues⟩ := hdims env henv
  refine ⟨ms, _, hms, ?_, Represents.replicate hid dims.1 dims.2⟩
  simp [filled, hvalues, Instruction.evaluate]

theorem reshape_emits (arg rows cols : Expr) (span : TextRange)
    : Emits inputs v locals (reshape ctx nested arg [rows, cols] span)
        (Applies v locals "reshape" [arg, rows, cols]) := by
  unfold reshape
  apply Emits.bind (hnested arg)
  intro a
  apply Emits.bind (dimensions_emits ctx hnested [rows, cols] span)
  intro dims
  dsimp only
  apply Emits.ite
  . intro _
    exact Emits.throw_bind
  intro hcount
  apply Emits.pure
  intro hdims ha env henv
  obtain ⟨m, hm, hrep⟩ := ha env henv
  obtain ⟨ms, hms, hvalues⟩ := hdims env henv
  simp only [Decidable.not_not, hrep.length] at hcount
  match ms, hvalues with
  | [], hvalues => simp [dimensionValues] at hvalues
  | [mr], hvalues =>
    simp only [evalList, Option.bind_eq_bind, Option.bind_eq_some_iff] at hms
    simp at hms
  | [mr, mc], hvalues =>
    refine ⟨[m, mr, mc], m.reshape dims.1 dims.2, ?_, ?_, hrep.reshape hcount⟩
    . rw [evalList, hm, hms]
      rfl
    . simp only [intrinsicValue, hvalues, Option.bind_eq_bind, Option.bind_some]
      exact if_pos hcount
  | _ :: _ :: _ :: _, hvalues => simp [dimensionValues] at hvalues

omit hnested in
theorem scalarSize_emits (size : Nat) (span : TextRange)
    : Emits inputs v locals (scalarSize ctx size span)
        (fun a => Represents v a (Mat.scalar (StaticScalar.ofInt size))) := by
  unfold scalarSize
  apply Emits.bind (push_emits ctx _ span)
  intro id
  apply Emits.pure
  intro hid
  exact Represents.scalar hid

theorem numel_emits (arg : Expr) (span : TextRange)
    : Emits inputs v locals
        (do
          let a ← nested arg
          scalarSize ctx a.values.length span)
        (Applies v locals "numel" [arg]) := by
  apply Emits.bind (hnested arg)
  intro a
  apply Emits.mono (scalarSize_emits ctx a.values.length span)
  intro b hb ha env henv
  obtain ⟨m, hm, hrep⟩ := ha env henv
  refine ⟨[m], _, evalList_singleton hm, ?_, hb⟩
  rw [hrep.length]
  rfl

theorem sizeAlong_emits (arg dim : Expr) (span : TextRange)
    : Emits inputs v locals (sizeAlong ctx nested arg dim span)
        (Applies v locals "size" [arg, dim]) := by
  unfold sizeAlong
  apply Emits.bind (hnested arg)
  intro a
  apply Emits.bind (integer_emits ctx hnested dim)
  intro i
  split
  . apply Emits.mono (scalarSize_emits ctx a.rows span)
    intro b hb hint ha env henv
    obtain ⟨m, hm, hrep⟩ := ha env henv
    obtain ⟨md, hmd, hd⟩ := hint env henv
    refine ⟨[m, md], _, evalList_pair hm hmd, ?_, hb⟩
    simp [intrinsicValue, hd, hrep.rows]
  . apply Emits.mono (scalarSize_emits ctx a.cols span)
    intro b hb hint ha env henv
    obtain ⟨m, hm, hrep⟩ := ha env henv
    obtain ⟨md, hmd, hd⟩ := hint env henv
    refine ⟨[m, md], _, evalList_pair hm hmd, ?_, hb⟩
    simp [intrinsicValue, hd, hrep.cols]
  . exact Emits.throw

omit hnested in
theorem intrinsicValue_math {name : String} {function : MathFunction}
    (h : mathFunction? name = some function) (m : Mat F)
    : intrinsicValue name [m] = some (m.map (Scalar.math function)) := by
  unfold mathFunction? at h
  split at h <;> cases h <;> rfl

theorem mathIntrinsic_emits (name : String) (args : List Expr) (span : TextRange)
    : Emits inputs v locals (mathIntrinsic ctx nested name args span)
        (Applies v locals name args) := by
  unfold mathIntrinsic
  split
  . exact Emits.throw
  . next function hfunction =>
    split
    . next argument =>
      apply Emits.bind (hnested argument)
      intro a
      apply Emits.bind (Emits.mapM a.values fun value _ => push_emits ctx _ span)
      intro values
      apply Emits.pure
      intro hvalues ha env henv
      obtain ⟨m, hm, hrep⟩ := ha env henv
      exact ⟨[m], _, evalList_singleton hm, intrinsicValue_math hfunction m,
        hrep.of_forall₂ hvalues⟩
    . exact Emits.throw

theorem intrinsic_emits (name : String) (args : List Expr) (span : TextRange)
    : Emits inputs v locals (intrinsic ctx nested name args span)
        (Applies v locals name args) := by
  unfold intrinsic
  split
  . exact constantArray_emits ctx hnested Scalar.zero args span
  . exact constantArray_emits ctx hnested Scalar.one args span
  . exact reshape_emits ctx hnested _ _ _ span
  . exact numel_emits ctx hnested _ span
  . exact sizeAlong_emits ctx hnested _ _ span
  . exact mathIntrinsic_emits ctx hnested name args span

theorem parenApply_emits (target : Expr) (arguments : List Expr) (span range : TextRange)
    : Emits inputs v locals (parenApply ctx nested target arguments span)
        (Denotes v locals (.parenApply target arguments range)) := by
  unfold parenApply
  split
  . next name _ =>
    apply Emits.bind Emits.get
    intro s
    split
    . next a ha =>
      apply Emits.bind (index_emits ctx hnested a arguments span)
      intro k
      apply Emits.pure
      intro hk hs env henv
      rw [hs.1] at ha
      obtain ⟨m, hm, hrep⟩ := henv.lookup ha
      obtain ⟨ms, row, col, hms, hsub, hrow, hcol, rfl⟩ := hk env henv m hrep
      refine ⟨Mat.scalar (m.entry row col), ?_, Represents.scalar (hrep.entry row hrow col hcol)⟩
      rw [eval, hms, Option.bind_eq_bind, Option.bind_some, applyValue, hm]
      dsimp only
      rw [hsub]
      rfl
    . next ha =>
      apply Emits.ite
      . intro _
        exact Emits.throw_bind
      intro _
      apply Emits.mono (intrinsic_emits ctx hnested name arguments span)
      intro a happ hs env henv
      rw [hs.1] at ha
      obtain ⟨ms, m, hms, hm, hrep⟩ := happ env henv
      refine ⟨m, ?_, hrep⟩
      rw [eval, hms, Option.bind_eq_bind, Option.bind_some, applyValue, henv.lookup_none ha]
      exact hm
  . exact Emits.throw

end Intrinsics

section Expression

variable {inner nested : Expr → Compile F StaticArray}

theorem matrixRow_emits (hinner : ∀ e, Emits inputs v locals (inner e) (Denotes v locals e))
    (span : TextRange) (row : List Expr)
    : Emits inputs v locals
        (do
          let items ← row.mapM inner
          concatenate ctx items true span)
        (fun a => ∀ env, EnvRel v locals env → ∃ ms m, evalList env row = some ms ∧
          Mat.hcat (Mat.parts ms) = some m ∧ Represents v a m) := by
  apply Emits.bind (Emits.mapM row fun e _ => hinner e)
  intro items
  apply Emits.mono (concatenate_emits ctx items true span)
  intro a ha hitems env henv
  obtain ⟨ms, hms, hreps⟩ := Denotes.list hitems henv
  obtain ⟨m, hm, hrep⟩ := ha ms hreps
  exact ⟨ms, m, hms, hm, hrep⟩

theorem evalRows_of_forall₂ {env : Env F} {rows : List (List Expr)} {pieces : List StaticArray}
    (h : List.Forall₂ (fun row a => ∃ ms m, evalList env row = some ms ∧
      Mat.hcat (Mat.parts ms) = some m ∧ Represents v a m) rows pieces)
    : ∃ ms, evalRows env rows = some ms ∧ List.Forall₂ (Represents v) pieces ms := by
  induction h with
  | nil => exact ⟨[], by rw [evalRows], .nil⟩
  | cons hhead _ ih =>
    obtain ⟨items, m, hitems, hm, hrep⟩ := hhead
    obtain ⟨ms, hms, hreps⟩ := ih
    refine ⟨m :: ms, ?_, .cons hrep hreps⟩
    simp only [evalRows, hitems, hm, hms, Option.bind_eq_bind, Option.bind_some]

theorem matrix_emits (hinner : ∀ e, Emits inputs v locals (inner e) (Denotes v locals e))
    (rows : List (List Expr)) (span range : TextRange)
    : Emits inputs v locals (matrix ctx inner rows span) (Denotes v locals (.matrix rows range)) := by
  unfold matrix
  apply Emits.bind (Emits.mapM rows fun row _ => matrixRow_emits ctx hinner span row)
  intro pieces
  apply Emits.mono (concatenate_emits ctx pieces false span)
  intro a ha hpieces env henv
  obtain ⟨ms, hms, hreps⟩ := evalRows_of_forall₂ (hpieces.imp fun row a hrow => hrow env henv)
  obtain ⟨m, hm, hrep⟩ := ha ms hreps
  refine ⟨m, ?_, hrep⟩
  rw [eval, hms]
  exact hm

theorem expressionStep_emits
    (hnested : ∀ e, Emits inputs v locals (nested e) (Denotes v locals e))
    (hinner : ∀ e, Emits inputs v locals (inner e) (Denotes v locals e)) (expr : Expr)
    : Emits inputs v locals (expressionStep ctx nested inner expr) (Denotes v locals expr) := by
  unfold expressionStep
  split
  . next number span =>
    split
    . next value hvalue =>
      apply Emits.bind (push_emits ctx _ span)
      intro id
      apply Emits.pure
      intro hid env _
      exact ⟨Mat.scalar value, by rw [eval, hvalue]; rfl, Represents.scalar hid⟩
    . exact Emits.throw
  . next name span =>
    apply Emits.bind Emits.get
    intro s
    split
    . next a ha =>
      apply Emits.pure
      intro hs env henv
      rw [hs.1] at ha
      obtain ⟨m, hm, hrep⟩ := henv.lookup ha
      exact ⟨m, by rw [eval, hm], hrep⟩
    . exact Emits.throw
  . next value _ =>
    apply Emits.mono (hinner value)
    intro a ha env henv
    obtain ⟨m, hm, hrep⟩ := ha env henv
    exact ⟨m, by rw [eval, hm], hrep⟩
  . next operator operand span =>
    apply Emits.bind (hinner operand)
    intro array
    apply Emits.mono (unary_emits ctx operator array span)
    intro a ha harray env henv
    obtain ⟨m, hm, hrep⟩ := harray env henv
    obtain ⟨m', hm', hrep'⟩ := ha m hrep
    refine ⟨m', ?_, hrep'⟩
    rw [eval, hm]
    exact hm'
  . next operator left right span =>
    apply Emits.bind (hinner left)
    intro a
    apply Emits.bind (hinner right)
    intro b
    apply Emits.mono (binary_emits ctx operator a b span)
    intro c hc hb ha env henv
    obtain ⟨ma, hma, hrepa⟩ := ha env henv
    obtain ⟨mb, hmb, hrepb⟩ := hb env henv
    obtain ⟨m, hm, hrep⟩ := hc ma mb hrepa hrepb
    refine ⟨m, ?_, hrep⟩
    rw [eval, hma, hmb]
    exact hm
  . next rows span => exact matrix_emits ctx hinner rows span span
  . next operand _ =>
    apply Emits.bind (hinner operand)
    intro a
    apply Emits.pure
    intro ha env henv
    obtain ⟨m, hm, hrep⟩ := ha env henv
    refine ⟨m.transpose, ?_, hrep.transpose⟩
    rw [eval, hm]
    rfl
  . next target arguments span => exact parenApply_emits ctx hnested target arguments span span
  . exact Emits.throw

theorem tooDeep_emits (expr : Expr)
    : Emits inputs v locals (tooDeep ctx expr) (Denotes v locals expr) := by
  unfold tooDeep
  exact Emits.throw

theorem expression_emits (n : Nat) (expr : Expr)
    : Emits inputs v locals (expression ctx n expr) (Denotes v locals expr) := by
  induction n using expression.induct generalizing expr with
  | case1 => exact tooDeep_emits ctx expr
  | case2 => exact expressionStep_emits ctx (tooDeep_emits ctx) (tooDeep_emits ctx) expr
  | case3 n hnested hinner => exact expressionStep_emits ctx hnested hinner expr

end Expression

end StaticFunction
end OpenMat
