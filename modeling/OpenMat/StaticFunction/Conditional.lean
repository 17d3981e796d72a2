import OpenMat.StaticFunction.Statements

/-!
This module contains the correctness of conditionals: all branches are compiled from the same
environment and merged from the last one to the first one.
-/

namespace OpenMat
namespace StaticFunction

open Hir

variable {F : Type} {v : Nat → F}

section Choose

theorem Represents.select {a b : StaticArray} {ma mb : Mat F} {zero : Bool} {values : List Nat}
    (ha : Represents v a ma) (hb : Represents v b mb) (hshape : a.sameShape b = true)
    (hvalues : List.Forall₂ (fun p id => v id = if zero then v p.2 else v p.1)
      (a.values.zip b.values) values)
    : Represents v { a with values := values } (if zero then mb else ma) := by
  have hlength : a.values.length = b.values.length := by
    obtain ⟨hrows, hcols⟩ := (ha.sameShape hb).mp hshape
    rw [ha.length, hb.length, hrows, hcols]
  cases zero with
  | true =>
    have hshape' : a.rows = b.rows ∧ a.cols = b.cols := by
      simpa [StaticArray.sameShape] using hshape
    rw [hshape'.1, hshape'.2]
    apply hb.of_forall₂ (f := id)
    rw [← List.map_snd_zip (Nat.le_of_eq hlength.symm), List.forall₂_map_left_iff]
    exact hvalues
  | false =>
    apply ha.of_forall₂ (f := id)
    rw [← List.map_fst_zip (Nat.le_of_eq hlength), List.forall₂_map_left_iff]
    exact hvalues

/-- The environment after a conditional with two paths. -/
def Env.choose (zero : Bool) (taken rest : Env F) : Env F :=
  if zero then Env.join rest taken else Env.join taken rest

theorem Env.choose_eq_none {zero : Bool} {taken rest : Env F} {name : String}
    (h : taken name = none ∨ rest name = none) : Env.choose zero taken rest name = none := by
  cases zero <;> rcases h with h | h <;> simp [Env.choose, Env.join, h]

theorem Env.choose_eq_some {zero : Bool} {taken rest : Env F} {name : String} {m m' : Mat F}
    (h : taken name = some m) (h' : rest name = some m')
    : Env.choose zero taken rest name = some (if zero then m' else m) := by
  cases zero <;> simp [Env.choose, Env.join, h, h']

/-- The part of an environment that is about the given names. -/
def Env.restrict (env : Env F) (names : List String) : Env F :=
  fun x => if x ∈ names then env x else none

theorem Env.restrict_append (env : Env F) (names : List String) (name : String)
    : env.restrict (names ++ [name]) =
        fun x => if x = name then env name else env.restrict names x := by
  funext x
  unfold Env.restrict
  by_cases hx : x = name
  . simp [hx]
  . simp [hx]

end Choose

variable [StaticScalar F] {inputs : List F}

section Merge

variable {locals : Std.TreeMap String StaticArray} (ctx : Context)

theorem mergeValue_emits (condition : Nat) (span : TextRange) (p : Nat × Nat)
    : Emits inputs v locals (mergeValue ctx condition span p)
        (fun id => v id = if Scalar.isZero (v condition) then v p.2 else v p.1) := by
  unfold mergeValue
  apply Emits.ite
  . intro heq
    apply Emits.pure
    rw [heq, ite_self]
  . intro _
    apply Emits.mono (push_emits ctx _ span)
    intro id hid
    rw [hid, Instruction.evaluate]
    split <;> rfl

theorem mergeLocal_advances (condition : Nat) (taken fallback : Std.TreeMap String StaticArray)
    (span : TextRange) {p : String × StaticArray} (hp : taken[p.1]? = some p.2)
    (names : List String)
    : Advances inputs v locals (mergeLocal ctx condition fallback span p)
        (fun _ locals' => ∀ env env', EnvRel v taken env → EnvRel v fallback env' →
          EnvRel v locals ((Env.choose (Scalar.isZero (v condition)) env env').restrict names) →
          EnvRel v locals'
            ((Env.choose (Scalar.isZero (v condition)) env env').restrict (names ++ [p.1]))) := by
  unfold mergeLocal
  split
  . next hnone =>
    apply Advances.pure
    intro env env' _ henv' hrel
    rw [Env.restrict_append, Env.choose_eq_none (.inr (henv'.lookup_none hnone))]
    have hfree : (Env.choose (Scalar.isZero (v condition)) env env').restrict names p.1 = none := by
      unfold Env.restrict
      split
      . exact Env.choose_eq_none (.inr (henv'.lookup_none hnone))
      . rfl
    intro x
    have := hrel x
    dsimp only
    split
    . next hx =>
      subst hx
      rwa [hfree] at this
    . exact this
  . next b hb =>
    apply Advances.ite
    . intro _
      exact Advances.throw_bind
    intro hshape
    apply Advances.emits_bind (Emits.mapM _ fun q _ => mergeValue_emits ctx condition span q)
    intro values
    apply Advances.mono (bindLocal_advances ctx p.1 _ span)
    rintro _ _ rfl hvalues env env' henv henv' hrel
    obtain ⟨m, hm, hrep⟩ := henv.lookup hp
    obtain ⟨m', hm', hrep'⟩ := henv'.lookup hb
    rw [Env.restrict_append, Env.choose_eq_some hm hm']
    exact hrel.bind p.1 (hrep.select hrep' (by simpa using hshape) hvalues)

theorem merge_advances (c : Case)
    : Advances inputs v locals (merge ctx c)
        (fun _ locals' => ∀ env env', EnvRel v c.locals env → EnvRel v locals env' →
          EnvRel v locals' (Env.choose (Scalar.isZero (v c.condition)) env env')) := by
  unfold merge
  apply Advances.emits_bind Emits.get
  intro s
  apply Advances.bind (setLocals_advances ∅)
  intro _ locals'
  apply Advances.mono (Advances.forM (fun (ps : List (String × StaticArray)) locals'' =>
    ∀ env env', EnvRel v c.locals env → EnvRel v s.locals env' → EnvRel v locals''
      ((Env.choose (Scalar.isZero (v c.condition)) env env').restrict (ps.map Prod.fst)))
    c.locals.toList ?_ [])
  . rintro _ locals'' hmerged rfl ⟨hs, -⟩ env env' henv henv'
    rw [← hs] at henv'
    have hstart : ∀ env env', EnvRel v c.locals env → EnvRel v s.locals env' →
        EnvRel v ∅
          ((Env.choose (Scalar.isZero (v c.condition)) env env').restrict []) := by
      intro env env' _ _ x
      rw [Std.TreeMap.getElem?_emptyc]
      exact .none
    have hall := hmerged hstart env env' henv henv'
    have hrestrict : (Env.choose (Scalar.isZero (v c.condition)) env env').restrict
        (c.locals.toList.map Prod.fst) = Env.choose (Scalar.isZero (v c.condition)) env env' := by
      funext x
      unfold Env.restrict
      split
      . rfl
      . next hx =>
        have hnone : c.locals[x]? = none := by
          rw [Std.TreeMap.map_fst_toList_eq_keys, Std.TreeMap.mem_keys] at hx
          exact Std.TreeMap.getElem?_eq_none hx
        rw [Env.choose_eq_none (.inl (henv.lookup_none hnone))]
    rwa [List.nil_append, hrestrict] at hall
  . intro pre p hp locals''
    have hlookup : c.locals[p.1]? = some p.2 := Std.TreeMap.mem_toList_iff_getElem?_eq_some.mp hp
    apply Advances.mono (mergeLocal_advances ctx c.condition c.locals s.locals c.span hlookup
      (pre.map Prod.fst))
    intro _ locals''' hstep hpre env env' henv henv'
    rw [List.map_append]
    exact hstep env env' henv henv' (hpre env env' henv henv')

end Merge

section Branches

variable (ctx : Context) {inner : List Stmt → Compile F Unit}
variable (hinner : ∀ statements locals, Advances inputs v locals (inner statements)
  (fun _ locals' => Simulates v (fun env => execBody env statements) locals locals'))

/-- The case holds the condition of the branch and the environment after its body. -/
def TakesBranch (v : Nat → F) (incoming : Std.TreeMap String StaticArray)
    : ConditionalBranch → Case → Prop
  | .mk condition statements _, c =>
    Simulates v (fun env => execBody env statements) incoming c.locals ∧
      ∀ env, EnvRel v incoming env →
        ∃ m, eval env condition = some m ∧ m.scalar? = some (v c.condition)

include hinner

theorem branch_advances (incoming locals : Std.TreeMap String StaticArray) (b : ConditionalBranch)
    : Advances inputs v locals (branch ctx inner incoming b)
        (fun c _ => TakesBranch v incoming b c) := by
  cases b with
  | mk condition statements span =>
    apply Advances.bind (setLocals_advances incoming)
    intro _ locals'
    apply Advances.emits_bind (expression_emits ctx 129 condition)
    intro c
    split
    . next id hid =>
      apply Advances.bind (hinner statements locals')
      intro _ locals''
      apply Advances.emits_bind Emits.get
      intro s
      apply Advances.pure
      rintro ⟨rfl, -⟩ hbody hcondition rfl
      refine ⟨hbody, ?_⟩
      intro env henv
      obtain ⟨m, hm, hrep⟩ := hcondition env henv
      exact ⟨m, hm, hrep.scalar? hid⟩
    . exact Advances.throw

omit hinner in
/-- The merges, from the last case to the first one, take the first branch that applies. -/
theorem merges_advances (incoming locals : Std.TreeMap String StaticArray)
    (branches : List ConditionalBranch) (cases : List Case)
    : Advances inputs v locals (cases.reverse.forM (merge ctx))
        (fun _ locals' => List.Forall₂ (TakesBranch v incoming) branches cases →
          ∀ env rest, EnvRel v incoming env → EnvRel v locals rest →
            ∃ env', execIf env (some rest) branches = some env' ∧ EnvRel v locals' env') := by
  induction cases generalizing branches with
  | nil =>
    apply Advances.pure
    intro hcases env rest _ hrest
    rw [List.forall₂_nil_right_iff] at hcases
    subst hcases
    exact ⟨rest, by rw [execIf], hrest⟩
  | cons c cases ih =>
    rw [List.reverse_cons, List.forM_eq_forM, List.forM_append]
    cases branches with
    | nil =>
      apply Advances.bind (ih [])
      intro _ locals'
      rw [List.forM_cons]
      apply Advances.bind (merge_advances ctx c)
      intro _ locals''
      apply Advances.pure
      intro _ _ hcases
      cases hcases
    | cons b branches =>
      apply Advances.bind (ih branches)
      intro _ locals'
      rw [List.forM_cons]
      apply Advances.bind (merge_advances ctx c)
      intro _ locals''
      apply Advances.pure
      intro hmerge hcases hall env rest henv hrest
      cases hall with
      | cons hbranch htail =>
        obtain ⟨rest', hrest', hrel⟩ := hcases htail env rest henv hrest
        cases b with
        | mk condition statements span =>
          obtain ⟨hbody, hcondition⟩ := hbranch
          obtain ⟨m, hm, hscalar⟩ := hcondition env henv
          obtain ⟨taken, htaken, hrel'⟩ := hbody env henv
          refine ⟨Env.choose (Scalar.isZero (v c.condition)) taken rest', ?_,
            hmerge taken rest' hrel' hrel⟩
          simp only [execIf, hm, hscalar, htaken, hrest', Option.bind_eq_bind, Option.bind_some]
          unfold Env.choose
          split <;> rfl

theorem conditional_advances (locals : Std.TreeMap String StaticArray)
    (branches : List ConditionalBranch) (otherwise : List Stmt) (span : TextRange)
    : Advances inputs v locals (conditional ctx inner branches otherwise)
        (fun _ locals' => Simulates v
          (fun env => execStmt env (.ifElse branches otherwise span)) locals locals') := by
  unfold conditional
  apply Advances.emits_bind Emits.get
  intro s
  apply Advances.bind (Advances.mapM branches fun b locals =>
    branch_advances ctx hinner s.locals locals b)
  intro cases locals'
  apply Advances.bind (setLocals_advances s.locals)
  intro _ locals''
  apply Advances.bind (hinner otherwise locals'')
  intro _ locals'''
  apply Advances.mono (merges_advances ctx s.locals locals''' branches cases)
  rintro _ final hmerges hotherwise rfl hcases ⟨hs, -⟩ env henv
  rw [← hs] at henv
  obtain ⟨rest, hrest, hrel⟩ := hotherwise env henv
  obtain ⟨env', henv', hrel'⟩ := hmerges hcases env rest henv hrel
  dsimp only at hrest ⊢
  exact ⟨env', by rw [execStmt, hrest, henv'], hrel'⟩

end Branches

end StaticFunction
end OpenMat
