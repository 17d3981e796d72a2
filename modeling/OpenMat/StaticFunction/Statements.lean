import OpenMat.StaticFunction.Expressions

/-!
This module contains the correctness of statements: a compiled statement takes related environments
to related environments.
-/

namespace OpenMat
namespace StaticFunction

open Hir

section Steps

theorem iterations_eq {start step stop : Int} (h : step ≠ 0)
    : iterations start step stop = ((stop - start).fdiv step + 1).toNat := by
  unfold iterations
  split
  . next hforward =>
    rcases hforward with ⟨hpos, hle⟩ | ⟨hneg, hge⟩
    . rw [Int.fdiv_eq_tdiv_of_nonneg (by omega) (by omega)]
    . rw [← Int.neg_fdiv_neg, ← Int.neg_tdiv_neg, Int.fdiv_eq_tdiv_of_nonneg (by omega) (by omega)]
  . next hbackward =>
    simp only [not_or, not_and, Int.not_le] at hbackward
    have hneg : (stop - start).fdiv step < 0 := by
      cases Int.lt_or_gt_of_ne h with
      | inl hstep =>
        rw [← Int.neg_fdiv_neg, Int.fdiv_eq_ediv_of_nonneg _ (by omega)]
        apply Int.ediv_neg_of_neg_of_pos <;> omega
      | inr hstep =>
        rw [Int.fdiv_eq_ediv_of_nonneg _ (by omega)]
        apply Int.ediv_neg_of_neg_of_pos <;> omega
    omega

end Steps

variable {F : Type} [StaticScalar F] (inputs : List F) (v : Nat → F)

/--
The action extends the instructions, and its result and the new locals satisfy `Q` wherever the
extended instructions are solved by `v`.
-/
def Advances {α : Type} (locals : Std.TreeMap String StaticArray) (m : Compile F α)
    (Q : α → Std.TreeMap String StaticArray → Prop) : Prop :=
  ∀ s a s', s.locals = locals → m.run s = .ok (a, s') →
    s.instructions <+: s'.instructions ∧
      (Solves inputs v s'.instructions → Known v s → Known v s' ∧ Q a s'.locals)

/-- The step takes every environment of `locals` to one of `locals'`. -/
def Simulates (step : Env F → Option (Env F)) (locals locals' : Std.TreeMap String StaticArray)
    : Prop :=
  ∀ env, EnvRel v locals env → ∃ env', step env = some env' ∧ EnvRel v locals' env'

variable {inputs v}

namespace Advances

variable {α β : Type} {locals : Std.TreeMap String StaticArray}

theorem pure {a : α} {Q : α → Std.TreeMap String StaticArray → Prop} (h : Q a locals)
    : Advances inputs v locals (Pure.pure a : Compile F α) Q := by
  intro s b s' hlocals hrun
  cases hrun
  exact ⟨List.prefix_rfl, fun _ hknown => ⟨hknown, hlocals ▸ h⟩⟩

theorem throw {e : ModelError} {Q : α → Std.TreeMap String StaticArray → Prop}
    : Advances inputs v locals (MonadExcept.throw e : Compile F α) Q := by
  intro s a s' _ hrun
  simp [MonadExcept.throw, throwThe, MonadExceptOf.throw] at hrun

theorem bind {m : Compile F α} {f : α → Compile F β}
    {P : α → Std.TreeMap String StaticArray → Prop} {Q : β → Std.TreeMap String StaticArray → Prop}
    (hm : Advances inputs v locals m P)
    (hf : ∀ a locals', Advances inputs v locals' (f a) (fun b locals'' => P a locals' → Q b locals''))
    : Advances inputs v locals (m >>= f) Q := by
  intro s b s'' hlocals hrun
  rw [StateT.run_bind] at hrun
  cases hmrun : m.run s with
  | error e => simp [hmrun, Bind.bind, Except.bind] at hrun
  | ok p =>
    obtain ⟨a, s'⟩ := p
    simp only [hmrun, Bind.bind, Except.bind] at hrun
    obtain ⟨hpre, hpost⟩ := hm s a s' hlocals hmrun
    obtain ⟨hpre', hpost'⟩ := hf a s'.locals s' b s'' rfl hrun
    refine ⟨hpre.trans hpre', ?_⟩
    intro hsolves hknown
    obtain ⟨hknown', hP⟩ := hpost (hsolves.of_prefix hpre') hknown
    obtain ⟨hknown'', hQ⟩ := hpost' hsolves hknown'
    exact ⟨hknown'', hQ hP⟩

/-- What only emits can be run first: it keeps the locals. -/
theorem emits_bind {m : Compile F α} {f : α → Compile F β} {P : α → Prop}
    {Q : β → Std.TreeMap String StaticArray → Prop} (hm : Emits inputs v locals m P)
    (hf : ∀ a, Advances inputs v locals (f a) (fun b locals' => P a → Q b locals'))
    : Advances inputs v locals (m >>= f) Q := by
  intro s b s'' hlocals hrun
  rw [StateT.run_bind] at hrun
  cases hmrun : m.run s with
  | error e => simp [hmrun, Bind.bind, Except.bind] at hrun
  | ok p =>
    obtain ⟨a, s'⟩ := p
    simp only [hmrun, Bind.bind, Except.bind] at hrun
    obtain ⟨hlocals', hpre, hpost⟩ := hm s a s' hlocals hmrun
    obtain ⟨hpre', hpost'⟩ := hf a s' b s'' hlocals' hrun
    refine ⟨hpre.trans hpre', ?_⟩
    intro hsolves hknown
    obtain ⟨hknown', hP⟩ := hpost (hsolves.of_prefix hpre') hknown
    obtain ⟨hknown'', hQ⟩ := hpost' hsolves hknown'
    exact ⟨hknown'', hQ hP⟩

theorem mono {m : Compile F α} {P Q : α → Std.TreeMap String StaticArray → Prop}
    (hm : Advances inputs v locals m P) (h : ∀ a locals', P a locals' → Q a locals')
    : Advances inputs v locals m Q := by
  intro s a s' hlocals hrun
  obtain ⟨hpre, hpost⟩ := hm s a s' hlocals hrun
  refine ⟨hpre, ?_⟩
  intro hsolves hknown
  obtain ⟨hknown', hP⟩ := hpost hsolves hknown
  exact ⟨hknown', h a s'.locals hP⟩

theorem ite {c : Prop} [Decidable c] {m m' : Compile F α}
    {Q : α → Std.TreeMap String StaticArray → Prop}
    (hpos : c → Advances inputs v locals m Q) (hneg : ¬c → Advances inputs v locals m' Q)
    : Advances inputs v locals (if c then m else m') Q := by
  split
  . next hc => exact hpos hc
  . next hc => exact hneg hc

theorem throw_bind {e : ModelError} {f : α → Compile F β}
    {Q : β → Std.TreeMap String StaticArray → Prop}
    : Advances inputs v locals (MonadExcept.throw e >>= f) Q := by
  intro s b s' _ hrun
  have herror : Except.error e = Except.ok (b, s') := hrun
  cases herror

theorem mapM {f : α → Compile F β} {R : α → β → Prop} (xs : List α)
    (hf : ∀ x locals, Advances inputs v locals (f x) (fun y _ => R x y))
    : Advances inputs v locals (xs.mapM f) (fun ys _ => List.Forall₂ R xs ys) := by
  induction xs generalizing locals with
  | nil =>
    rw [List.mapM_nil]
    exact pure List.Forall₂.nil
  | cons x xs ih =>
    rw [List.mapM_cons]
    apply bind (hf x locals)
    intro y locals'
    apply bind ih
    intro ys locals''
    apply pure
    intro hxs hx
    exact List.Forall₂.cons hx hxs

theorem forM {f : α → Compile F Unit}
    (inv : List α → Std.TreeMap String StaticArray → Prop) (xs : List α)
    (hf : ∀ pre x, x ∈ xs → ∀ locals, Advances inputs v locals (f x)
      (fun _ locals' => inv pre locals → inv (pre ++ [x]) locals'))
    (pre : List α)
    : Advances inputs v locals (xs.forM f)
        (fun _ locals' => inv pre locals → inv (pre ++ xs) locals') := by
  induction xs generalizing pre locals with
  | nil =>
    apply pure
    intro h
    simpa using h
  | cons x xs ih =>
    apply bind (hf pre x (by simp) locals)
    intro _ locals'
    apply mono (ih (fun pre' x' hx' => hf pre' x' (by simp [hx'])) (pre ++ [x]))
    intro _ locals'' hrest hstep hpre
    have := hrest (hstep hpre)
    simpa using this

theorem foldlM {f : β → α → Compile F β}
    (inv : List α → β → Std.TreeMap String StaticArray → Prop) (xs : List α)
    (hf : ∀ pre x b locals, Advances inputs v locals (f b x)
      (fun b' locals' => inv pre b locals → inv (pre ++ [x]) b' locals'))
    (pre : List α) (b : β)
    : Advances inputs v locals (xs.foldlM f b)
        (fun b' locals' => inv pre b locals → inv (pre ++ xs) b' locals') := by
  induction xs generalizing pre b locals with
  | nil =>
    rw [List.foldlM_nil]
    apply pure
    intro h
    simpa using h
  | cons x xs ih =>
    rw [List.foldlM_cons]
    apply bind (hf pre x b locals)
    intro b' locals'
    apply mono (ih (pre ++ [x]) b')
    intro b'' locals'' hrest hstep hpre
    have := hrest (hstep hpre)
    simpa using this

/-- A loop simulates the fold of its iterations. -/
theorem forM_simulates {f : α → Compile F Unit} {step : α → Env F → Option (Env F)} (xs : List α)
    (hf : ∀ x locals,
      Advances inputs v locals (f x) (fun _ locals' => Simulates v (step x) locals locals'))
    : Advances inputs v locals (xs.forM f)
        (fun _ locals' => Simulates v (fun env => xs.foldlM (fun env x => step x env) env)
          locals locals') := by
  apply mono
    (forM (fun pre locals' => Simulates v
      (fun env => pre.foldlM (fun env x => step x env) env) locals locals') xs ?_ [])
  . intro _ locals' h
    apply h
    intro env henv
    exact ⟨env, rfl, henv⟩
  . intro pre x _ locals'
    apply mono (hf x locals')
    intro _ locals'' hx hpre env henv
    obtain ⟨env', hfold, henv'⟩ := hpre env henv
    obtain ⟨env'', hstep, henv''⟩ := hx env' henv'
    refine ⟨env'', ?_, henv''⟩
    simp [List.foldlM_append, hfold, hstep]

end Advances

section Actions

variable {locals : Std.TreeMap String StaticArray} (ctx : Context)

theorem setLocals_advances (locals' : Std.TreeMap String StaticArray)
    : Advances inputs v locals
        (modify (fun s => { s with locals := locals' }) : Compile F Unit)
        (fun _ locals'' => locals'' = locals') := by
  intro s a s' _ hrun
  cases hrun
  refine ⟨List.prefix_rfl, ?_⟩
  intro _ hknown
  exact ⟨⟨hknown.length, hknown.value⟩, rfl⟩

theorem bindLocal_advances (name : String) (value : StaticArray) (span : TextRange)
    : Advances inputs v locals (bindLocal ctx name value span)
        (fun _ locals' => locals' = locals.insert name value) := by
  intro s a s' hlocals hrun
  unfold bindLocal at hrun
  simp only [StateT.run_bind, StateT.run_get, pure_bind] at hrun
  split at hrun
  . have herror : Except.error _ = Except.ok (a, s') := hrun
    cases herror
  . cases hrun
    subst hlocals
    refine ⟨List.prefix_rfl, ?_⟩
    intro _ hknown
    exact ⟨⟨hknown.length, hknown.value⟩, rfl⟩

theorem assignment_advances (target : Expr) (value : StaticArray)
    : Advances inputs v locals (assignment ctx target value)
        (fun _ locals' => ∀ env m, EnvRel v locals env → Represents v value m →
          ∃ env', assign env target m = some env' ∧ EnvRel v locals' env') := by
  unfold assignment
  split
  . next name span =>
    apply Advances.mono (bindLocal_advances ctx name value span)
    rintro _ _ rfl env m henv hm
    exact ⟨_, rfl, henv.bind name hm⟩
  . next name _ arguments span =>
    apply Advances.emits_bind Emits.get
    intro s
    split
    . next array harray =>
      apply Advances.emits_bind (index_emits ctx (expression_emits ctx 128) array arguments span)
      intro k
      split
      . next id hid =>
        apply Advances.mono (bindLocal_advances ctx name _ span)
        rintro _ _ rfl hselects hs env m henv hm
        rw [hs.1] at harray
        obtain ⟨old, hold, hrep⟩ := henv.lookup harray
        obtain ⟨ms, row, col, hms, hsub, hrow, hcol, rfl⟩ := hselects env henv old hrep
        refine ⟨env.bind name (old.set row col (v id)), ?_,
          henv.bind name (hrep.set hrow hcol rfl)⟩
        simp [assign, hold, hms, hsub, hm.scalar? hid]
      . exact Advances.throw
    . exact Advances.throw
  . exact Advances.throw
  . exact Advances.throw

end Actions

section Loops

theorem stride_emits {locals : Std.TreeMap String StaticArray} (ctx : Context) (step : Option Expr)
    : Emits inputs v locals (stride ctx step)
        (fun k => ∀ env, EnvRel v locals env → evalStride env step = some k) := by
  unfold stride
  split
  . next step =>
    apply Emits.mono (integer_emits ctx (expression_emits ctx 128) step)
    intro k hk env henv
    obtain ⟨m, hm, hmk⟩ := hk env henv
    simp [evalStride, evalInteger, hm, hmk]
  . apply Emits.pure
    intro env _
    rfl

variable {locals : Std.TreeMap String StaticArray} (ctx : Context)
variable {inner : List Stmt → Compile F Unit}
variable (hinner : ∀ statements locals, Advances inputs v locals (inner statements)
  (fun _ locals' => Simulates v (fun env => execBody env statements) locals locals'))

include hinner

theorem iteration_advances (name : String) (span : TextRange) (statements : List Stmt) (k : Int)
    : Advances inputs v locals (iteration ctx inner name span statements k)
        (fun _ locals' => Simulates v
          (fun env => execBody (env.bind name (Mat.scalar (StaticScalar.ofInt k))) statements)
          locals locals') := by
  unfold iteration
  apply Advances.emits_bind (push_emits ctx _ span)
  intro id
  apply Advances.bind (bindLocal_advances ctx name _ span)
  intro _ locals'
  apply Advances.mono (hinner statements locals')
  rintro _ locals'' hbody rfl hid env henv
  exact hbody _ (henv.bind name (Represents.scalar hid))

theorem loopBody_advances (loopVariable iterable : Expr) (statements : List Stmt)
    (span : TextRange)
    : Advances inputs v locals (loopBody ctx inner loopVariable iterable statements)
        (fun _ locals' => Simulates v
          (fun env => execStmt env (.forLoop loopVariable iterable statements span))
          locals locals') := by
  unfold loopBody
  split
  . next name range start step stop loopRange =>
    apply Advances.emits_bind (integer_emits ctx (expression_emits ctx 128) start)
    intro i
    apply Advances.emits_bind (stride_emits ctx step)
    intro k
    apply Advances.emits_bind (integer_emits ctx (expression_emits ctx 128) stop)
    intro j
    apply Advances.ite
    . intro _
      exact Advances.throw_bind
    intro hzero
    dsimp only
    apply Advances.ite
    . intro _
      exact Advances.throw_bind
    intro _
    have hvalues : DenotesInt v locals start i → DenotesInt v locals stop j →
        (∀ env, EnvRel v locals env → evalStride env step = some k) →
        ∀ env, EnvRel v locals env → rangeValues env (.range start step stop loopRange) =
          some ((List.range (iterations i k j)).map fun (n : Nat) => i + n * k) := by
      intro hi hj hk env henv
      obtain ⟨mi, hmi, hinti⟩ := hi env henv
      obtain ⟨mj, hmj, hintj⟩ := hj env henv
      rw [rangeValues]
      simp only [evalInteger, hmi, hinti, hmj, hintj, hk env henv, Option.bind_eq_bind,
        Option.bind_some]
      rw [if_neg hzero, iterations_eq hzero]
      simp only [steps, if_neg hzero]
    apply Advances.bind (Advances.forM_simulates (List.range (iterations i k j))
      (fun n locals => iteration_advances ctx hinner name range statements (i + n * k)))
    intro _ locals'
    apply Advances.ite
    . intro hnone
      apply Advances.mono (bindLocal_advances ctx name _ range)
      rintro _ _ rfl hloop hj hk hi env henv
      rw [hnone] at hloop
      obtain ⟨env', heq, henv'⟩ := hloop env henv
      cases heq
      refine ⟨env.bind name Mat.empty, ?_, henv'.bind name Represents.empty⟩
      dsimp only
      rw [execStmt, hvalues hi hj hk env henv, hnone]
      rfl
    . intro hsome
      apply Advances.pure
      intro hloop hj hk hi env henv
      obtain ⟨env', heq, henv'⟩ := hloop env henv
      refine ⟨env', ?_, henv'⟩
      dsimp only
      rw [execStmt, hvalues hi hj hk env henv]
      simp only [Option.bind_eq_bind, Option.bind_some]
      rw [if_neg (by simpa using hsome), List.foldlM_map]
      exact heq
  . exact Advances.throw
  . exact Advances.throw

end Loops

end StaticFunction
end OpenMat
