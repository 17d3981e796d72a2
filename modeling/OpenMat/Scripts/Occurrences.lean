import Mathlib.Data.List.Nodup
import OpenMat.Scripts.BareSites

/-!
This module contains the statement positions of a source unit, and which bare names among them the collection records.
-/

namespace OpenMat
namespace Scripts

open Std
open Hir (Expr Name TextRange)

/-- A body of a statement: the function that it belongs to, and whether it belongs to a switch. -/
structure Body where
  statements : List Stmt
  function : Option FunctionDef
  inSwitch : Bool

/-- Every body of a statement, of whatever form it is. -/
def Stmt.bodies : Stmt → List Body
  | expr _ => []
  | command _ _ => []
  | ifElse branches elseBody =>
    branches.map (fun branch => ⟨branch.body, none, false⟩) ++ [⟨elseBody, none, false⟩]
  | forLoop _ _ body => [⟨body, none, false⟩]
  | whileLoop _ body => [⟨body, none, false⟩]
  | tryCatch body handler =>
    ⟨body, none, false⟩ :: handler.toList.map fun handler => ⟨handler.body, none, false⟩
  | switch _ cases otherwise =>
    cases.map (fun case => ⟨case.body, none, true⟩) ++
      otherwise.toList.map fun otherwise => ⟨otherwise.body, none, true⟩
  | function definition => [⟨definition.body, some definition, false⟩]
  | classDef methodBlocks =>
    methodBlocks.flatMap fun block => block.methods.map fun method => ⟨method.body, some method, false⟩
  | other => []

/-- A statement occurs in a list of statements, at any depth: the innermost function that encloses it there, and
whether a switch does. -/
inductive Occurs (statement : Stmt) : (region : Option FunctionDef) → (inSwitch : Bool) → List Stmt → Prop where
  | here {statements : List Stmt} (hmem : statement ∈ statements) : Occurs statement none false statements
  | within {statements : List Stmt} {enclosing : Stmt} {body : Body} {region : Option FunctionDef} {inSwitch : Bool}
      (hmem : enclosing ∈ statements) (hbody : body ∈ enclosing.bodies)
      (h : Occurs statement region inSwitch body.statements)
      : Occurs statement (region.or body.function) (inSwitch || body.inSwitch) statements

/-- An occurrence of a bare name, with what surrounds it. -/
structure BareStatement where
  name : String
  span : TextRange
  region : Option FunctionDef
  inSwitch : Bool

/-- The bare name that a statement itself is. -/
def Stmt.ownName (region : Option FunctionDef) (inSwitch : Bool) : Stmt → List BareStatement
  | expr (.name text span) => [⟨text, span, region, inSwitch⟩]
  | _ => []

theorem mem_ownName {bare : BareStatement} {region : Option FunctionDef} {inSwitch : Bool} {statement : Stmt}
    : bare ∈ statement.ownName region inSwitch ↔
        .expr (.name bare.name bare.span) = statement ∧ bare.region = region ∧ bare.inSwitch = inSwitch := by
  cases bare
  unfold Stmt.ownName
  split
  . simp [and_assoc]
  . next hother =>
    simp only [List.not_mem_nil, false_iff, not_and]
    intro h
    exact absurd h.symm (hother _ _)

theorem sizeOf_body_lt {statement : Stmt} {body : Body} (h : body ∈ statement.bodies)
    : sizeOf body.statements < sizeOf statement := by
  cases statement with
  | expr | command | other => simp [Stmt.bodies] at h
  | forLoop | whileLoop =>
    simp only [Stmt.bodies, List.mem_singleton] at h
    subst h
    simp only [Stmt.forLoop.sizeOf_spec, Stmt.whileLoop.sizeOf_spec]
    omega
  | function definition =>
    simp only [Stmt.bodies, List.mem_singleton] at h
    subst h
    cases definition
    simp [FunctionDef.body]
    omega
  | ifElse branches elseBody =>
    simp only [Stmt.bodies, List.mem_append, List.mem_map, List.mem_singleton] at h
    rcases h with ⟨⟨condition, inner⟩, hmem, rfl⟩ | rfl
    . have := List.sizeOf_lt_of_mem hmem
      simp [ConditionalBranch.body] at this ⊢
      omega
    . rw [Stmt.ifElse.sizeOf_spec]
      show sizeOf elseBody < _
      omega
  | tryCatch inner handler =>
    simp only [Stmt.bodies, List.mem_cons, List.mem_map, Option.mem_toList] at h
    rcases h with rfl | ⟨⟨exceptionName, inner⟩, rfl, rfl⟩
    . rw [Stmt.tryCatch.sizeOf_spec]
      show sizeOf inner < _
      omega
    . simp [CatchClause.body]
      omega
  | switch selector cases otherwise =>
    simp only [Stmt.bodies, List.mem_append, List.mem_map, Option.mem_toList] at h
    rcases h with ⟨⟨expression, inner⟩, hmem, rfl⟩ | ⟨⟨inner⟩, rfl, rfl⟩
    . have := List.sizeOf_lt_of_mem hmem
      simp [SwitchCase.body] at this ⊢
      omega
    . simp [OtherwiseBranch.body]
      omega
  | classDef methodBlocks =>
    simp only [Stmt.bodies, List.mem_flatMap, List.mem_map] at h
    obtain ⟨⟨methods⟩, hblock, ⟨name, inner⟩, hmethod, rfl⟩ := h
    have := List.sizeOf_lt_of_mem hblock
    have := List.sizeOf_lt_of_mem hmethod
    simp [MethodBlock.methods, FunctionDef.body] at *
    omega

/-- The bare names of a unit, at any depth. -/
def bareStatements (region : Option FunctionDef) (inSwitch : Bool) : List Stmt → List BareStatement
  | [] => []
  | statement :: statements =>
    statement.ownName region inSwitch ++
      statement.bodies.attach.flatMap (fun body =>
        bareStatements (body.1.function.or region) (inSwitch || body.1.inSwitch) body.1.statements) ++
      bareStatements region inSwitch statements
termination_by statements => sizeOf statements
decreasing_by
  . have := sizeOf_body_lt body.2
    simp only [List.cons.sizeOf_spec]
    omega
  . simp only [List.cons.sizeOf_spec]
    omega

theorem bareStatements_cons (region : Option FunctionDef) (inSwitch : Bool) (statement : Stmt) (statements : List Stmt)
    : bareStatements region inSwitch (statement :: statements) =
        statement.ownName region inSwitch ++
          statement.bodies.flatMap (fun body =>
            bareStatements (body.function.or region) (inSwitch || body.inSwitch) body.statements) ++
          bareStatements region inSwitch statements := by
  rw [bareStatements]
  simp [List.flatMap_def]

theorem Occurs.cons {statement first : Stmt} {statements : List Stmt} {region : Option FunctionDef} {inSwitch : Bool}
    (h : Occurs statement region inSwitch statements)
    : Occurs statement region inSwitch (first :: statements) := by
  cases h with
  | here hmem => exact .here (List.mem_cons_of_mem _ hmem)
  | within hmem hbody h => exact .within (List.mem_cons_of_mem _ hmem) hbody h

/-- An occurrence in a list is one in its first statement, or one in the others. -/
theorem occurs_cons_iff {statement first : Stmt} {statements : List Stmt} {region : Option FunctionDef} {inSwitch : Bool}
    : Occurs statement region inSwitch (first :: statements) ↔
        (statement = first ∧ region = none ∧ inSwitch = false) ∨
        (∃ body ∈ first.bodies, ∃ inner within, Occurs statement inner within body.statements ∧
          region = inner.or body.function ∧ inSwitch = (within || body.inSwitch)) ∨
        Occurs statement region inSwitch statements := by
  constructor
  . intro h
    cases h with
    | here hmem =>
      rcases List.mem_cons.mp hmem with rfl | hmem
      . exact .inl ⟨rfl, rfl, rfl⟩
      . exact .inr (.inr (.here hmem))
    | within hmem hbody h =>
      rcases List.mem_cons.mp hmem with rfl | hmem
      . exact .inr (.inl ⟨_, hbody, _, _, h, rfl, rfl⟩)
      . exact .inr (.inr (.within hmem hbody h))
  . rintro (⟨rfl, rfl, rfl⟩ | ⟨body, hbody, inner, within, h, rfl, rfl⟩ | h)
    . exact .here List.mem_cons_self
    . exact .within List.mem_cons_self hbody h
    . exact h.cons

/-- The bare names of a unit are the statements that occur in it and are a name. -/
theorem mem_bareStatements {bare : BareStatement} {region : Option FunctionDef} {inSwitch : Bool}
    {statements : List Stmt}
    : bare ∈ bareStatements region inSwitch statements ↔
        ∃ inner within, Occurs (.expr (.name bare.name bare.span)) inner within statements ∧
          bare.region = inner.or region ∧ bare.inSwitch = (within || inSwitch) := by
  induction region, inSwitch, statements using bareStatements.induct with
  | case1 region inSwitch =>
    rw [bareStatements]
    constructor
    . simp
    . rintro ⟨inner, within, h, -⟩
      cases h with
      | here hmem => simp at hmem
      | within hmem hbody h => simp at hmem
  | case2 region inSwitch statement statements hbodies hrest =>
    rw [bareStatements_cons, List.mem_append, List.mem_append, hrest, mem_ownName, List.mem_flatMap]
    constructor
    . rintro ((⟨hstatement, hregion, hswitch⟩ | ⟨body, hbody, hmem⟩) | ⟨inner, within, h, hregion, hswitch⟩)
      . subst hstatement
        exact ⟨none, false, .here List.mem_cons_self, by simp [hregion], by simp [hswitch]⟩
      . obtain ⟨inner, within, h, hregion, hswitch⟩ := (hbodies ⟨body, hbody⟩).mp hmem
        refine ⟨_, _, occurs_cons_iff.mpr (.inr (.inl ⟨body, hbody, inner, within, h, rfl, rfl⟩)), ?_, ?_⟩
        . rw [hregion, Option.or_assoc]
        . rw [hswitch, Bool.or_assoc, Bool.or_comm inSwitch]
      . exact ⟨inner, within, h.cons, hregion, hswitch⟩
    . rintro ⟨outer, within, h, hregion, hswitch⟩
      rcases occurs_cons_iff.mp h with ⟨hstatement, rfl, rfl⟩ | ⟨body, hbody, inner, inside, hinner, rfl, rfl⟩ |
        hlater
      . rw [Option.none_or] at hregion
        rw [Bool.false_or] at hswitch
        exact .inl (.inl ⟨hstatement, hregion, hswitch⟩)
      . refine .inl (.inr ⟨body, hbody, (hbodies ⟨body, hbody⟩).mpr ⟨inner, inside, hinner, ?_, ?_⟩⟩)
        . rw [hregion, Option.or_assoc]
        . rw [hswitch, Bool.or_assoc, Bool.or_comm inSwitch]
      . exact .inr ⟨outer, within, hlater, hregion, hswitch⟩

/-- The bare names that no switch encloses, of a list of statements and of the bodies of one statement. -/
def reached (region : Option FunctionDef) (statements : List Stmt) : List BareStatement :=
  (bareStatements region false statements).filter (!·.inSwitch)

def reachedBodies (region : Option FunctionDef) (bodies : List Body) : List BareStatement :=
  (bodies.flatMap fun body =>
    bareStatements (body.function.or region) body.inSwitch body.statements).filter (!·.inSwitch)

def recordSite (sourceId : Nat) (sites : BareScriptSites) (bare : BareStatement) : BareScriptSites :=
  sites.insert (siteOf sourceId bare.span) ⟨bare.name, bare.region.isNone⟩

@[simp]
theorem reached_nil (region : Option FunctionDef) : reached region [] = [] := by
  simp [reached, bareStatements]

@[simp]
theorem reachedBodies_nil (region : Option FunctionDef) : reachedBodies region [] = [] := rfl

theorem reached_cons (region : Option FunctionDef) (statement : Stmt) (statements : List Stmt)
    : reached region (statement :: statements) =
        statement.ownName region false ++
          reachedBodies region statement.bodies ++ reached region statements := by
  rw [reached, bareStatements_cons, List.filter_append, List.filter_append, reachedBodies, reached]
  congr 2
  rw [List.filter_eq_self]
  intro bare hmem
  rw [(mem_ownName.mp hmem).2.2]
  rfl

theorem reachedBodies_append (region : Option FunctionDef) (bodies others : List Body)
    : reachedBodies region (bodies ++ others) =
        reachedBodies region bodies ++ reachedBodies region others := by
  simp [reachedBodies]

@[simp]
theorem reachedBodies_cons (region : Option FunctionDef) (statements : List Stmt) (function : Option FunctionDef)
    (bodies : List Body)
    : reachedBodies region (⟨statements, function, false⟩ :: bodies) =
        reached (function.or region) statements ++ reachedBodies region bodies := by
  simp [reachedBodies, reached]

/-- Nothing in the bodies of a switch is reached. -/
theorem reachedBodies_switch (region : Option FunctionDef) {bodies : List Body}
    (h : ∀ body ∈ bodies, body.inSwitch = true)
    : reachedBodies region bodies = [] := by
  rw [reachedBodies, List.filter_eq_nil_iff]
  intro bare hmem
  rw [List.mem_flatMap] at hmem
  obtain ⟨body, hbody, hmem⟩ := hmem
  obtain ⟨_, _, _, _, hswitch⟩ := mem_bareStatements.mp hmem
  simp [hswitch, h body hbody]

theorem collectBareName_eq (sourceId : Nat) (region : Option FunctionDef) (expression : Expr) (sites : BareScriptSites)
    : collectBareName sourceId region.isNone expression sites =
        ((Stmt.expr expression).ownName region false).foldl (recordSite sourceId) sites := by
  cases expression <;> rfl

mutual

/-- The collection records the bare names that no switch encloses. -/
theorem collectBareScriptStatements_eq (sourceId : Nat) (region : Option FunctionDef) (statements : List Stmt)
    (sites : BareScriptSites)
    : collectBareScriptStatements sourceId region.isNone statements sites =
        (reached region statements).foldl (recordSite sourceId) sites := by
  cases statements with
  | nil => simp [collectBareScriptStatements]
  | cons statement statements =>
    rw [collectBareScriptStatements, collectBareScriptStatement_eq sourceId region statement,
      collectBareScriptStatements_eq sourceId region statements, reached_cons]
    simp only [List.foldl_append]

theorem collectBareScriptStatement_eq (sourceId : Nat) (region : Option FunctionDef) (statement : Stmt)
    (sites : BareScriptSites)
    : collectBareScriptStatement sourceId region.isNone statement sites =
        (statement.ownName region false ++
          reachedBodies region statement.bodies).foldl (recordSite sourceId) sites := by
  cases statement with
  | expr expression =>
    rw [collectBareScriptStatement, collectBareName_eq]
    simp [Stmt.bodies]
  | ifElse branches elseBody =>
    rw [collectBareScriptStatement, collectBranches_eq sourceId region branches,
      collectBareScriptStatements_eq sourceId region elseBody]
    simp [Stmt.bodies, Stmt.ownName, reachedBodies_append]
  | forLoop loopVariable iterable body =>
    rw [collectBareScriptStatement, collectBareScriptStatements_eq sourceId region body]
    simp [Stmt.bodies, Stmt.ownName]
  | whileLoop condition body =>
    rw [collectBareScriptStatement, collectBareScriptStatements_eq sourceId region body]
    simp [Stmt.bodies, Stmt.ownName]
  | tryCatch body handler =>
    rw [collectBareScriptStatement, collectBareScriptStatements_eq sourceId region body,
      collectHandler_eq sourceId region handler]
    simp [Stmt.bodies, Stmt.ownName]
  | switch selector cases otherwise =>
    rw [collectBareScriptStatement, reachedBodies_switch]
    . simp [Stmt.ownName]
    . simp only [Stmt.bodies, List.mem_append, List.mem_map]
      rintro body (⟨_, _, rfl⟩ | ⟨_, _, rfl⟩) <;> rfl
  | function definition =>
    rw [collectBareScriptStatement, collectFunction_eq sourceId definition]
    simp [Stmt.bodies, Stmt.ownName]
  | classDef methodBlocks =>
    rw [collectBareScriptStatement, collectMethodBlocks_eq sourceId region methodBlocks]
    simp [Stmt.bodies, Stmt.ownName]
  | command | other => simp [collectBareScriptStatement, Stmt.bodies, Stmt.ownName]

theorem collectBranches_eq (sourceId : Nat) (region : Option FunctionDef) (branches : List ConditionalBranch)
    (sites : BareScriptSites)
    : collectBranches sourceId region.isNone branches sites =
        (reachedBodies region (branches.map fun branch => ⟨branch.body, none, false⟩)).foldl
          (recordSite sourceId) sites := by
  cases branches with
  | nil => simp [collectBranches]
  | cons branch branches =>
    cases branch with
    | mk condition body =>
      rw [collectBranches, collectBareScriptStatements_eq sourceId region body,
        collectBranches_eq sourceId region branches]
      simp [ConditionalBranch.body]

theorem collectHandler_eq (sourceId : Nat) (region : Option FunctionDef) (handler : Option CatchClause)
    (sites : BareScriptSites)
    : collectHandler sourceId region.isNone handler sites =
        (reachedBodies region (handler.toList.map fun handler => ⟨handler.body, none, false⟩)).foldl
          (recordSite sourceId) sites := by
  cases handler with
  | none => simp [collectHandler]
  | some handler =>
    cases handler with
    | mk exceptionName body =>
      rw [collectHandler, collectBareScriptStatements_eq sourceId region body]
      simp [CatchClause.body]

theorem collectFunction_eq (sourceId : Nat) (definition : FunctionDef) (sites : BareScriptSites)
    : collectFunction sourceId definition sites =
        (reached (some definition) definition.body).foldl (recordSite sourceId) sites := by
  cases definition with
  | mk name body =>
    rw [collectFunction, FunctionDef.body]
    exact collectBareScriptStatements_eq sourceId (some (.mk name body)) body sites

theorem collectMethods_eq (sourceId : Nat) (region : Option FunctionDef) (methods : List FunctionDef)
    (sites : BareScriptSites)
    : collectMethods sourceId methods sites =
        (reachedBodies region (methods.map fun method => ⟨method.body, some method, false⟩)).foldl
          (recordSite sourceId) sites := by
  cases methods with
  | nil => simp [collectMethods]
  | cons method methods =>
    rw [collectMethods, collectFunction_eq sourceId method, collectMethods_eq sourceId region methods]
    simp

theorem collectMethodBlocks_eq (sourceId : Nat) (region : Option FunctionDef) (blocks : List MethodBlock)
    (sites : BareScriptSites)
    : collectMethodBlocks sourceId blocks sites =
        (reachedBodies region (blocks.flatMap fun block =>
          block.methods.map fun method => ⟨method.body, some method, false⟩)).foldl (recordSite sourceId) sites := by
  cases blocks with
  | nil => simp [collectMethodBlocks]
  | cons block blocks =>
    cases block with
    | mk methods =>
      rw [collectMethodBlocks, collectMethods_eq sourceId region methods,
        collectMethodBlocks_eq sourceId region blocks]
      simp [MethodBlock.methods, reachedBodies_append]

end

/-- Every bare name of a unit has a place of its own, as the parser gives it. -/
def HirFile.Distinct (file : HirFile) : Prop :=
  ((bareStatements none false file.statements).map (·.span)).Nodup

end Scripts
end OpenMat
