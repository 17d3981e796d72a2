import Mathlib.Data.List.Induction
import OpenMat.Nested.Mentions
import OpenMat.Nested.Slots

/-!
This module contains what the analysis of a function says about its names: which of them it takes from
the function around it, and which have slots of their own.
-/

namespace OpenMat
namespace Nested

open Std

section Discovery

/-- Every function comes after the one around it. -/
def Ordered (functions : List DiscoveredFunction) : Prop :=
  ∀ (i p : Nat) (function : DiscoveredFunction), functions[i]? = some function →
    function.parent = some p → p < i

theorem Ordered.append {functions : List DiscoveredFunction} (h : Ordered functions)
    {function : DiscoveredFunction} (hparent : ∀ p, function.parent = some p → p < functions.length)
    : Ordered (functions ++ [function]) := by
  intro i p found hfound hp
  rw [List.getElem?_append] at hfound
  split at hfound
  . exact h i p found hfound hp
  . next hi =>
    obtain rfl : function = found := by
      cases hoffset : i - functions.length with
      | zero => simpa [hoffset] using hfound
      | succ => simp [hoffset] at hfound
    exact (hparent p hp).trans_le (Nat.not_lt.mp hi)

mutual

theorem ordered_discoverFunctions (parent : Option Nat) (names : List String)
    : (statements : List Stmt) → (functions : List DiscoveredFunction) → Ordered functions →
      (∀ p, parent = some p → p < functions.length) →
        Ordered (discoverFunctions parent names statements functions)
          ∧ functions.length ≤ (discoverFunctions parent names statements functions).length
  | [], functions, h, _ => ⟨h, Nat.le_refl _⟩
  | statement :: statements, functions, h, hparent => by
    have hskip := ordered_discoverFunctions parent names statements functions h hparent
    cases statement with
    | function definition =>
      rw [discoverFunctions]
      cases definition.name with
      | none => exact hskip
      | some name =>
        dsimp only
        split
        . exact hskip
        . obtain ⟨hnested, hle⟩ := ordered_discoverNestedFunctions functions.length definition
            (functions ++ [{ name := name, definition := definition, parent := parent }])
            (h.append hparent) (by simp)
          rw [List.length_append] at hle
          obtain ⟨hordered, hle'⟩ := ordered_discoverFunctions parent (name :: names) statements _ hnested
            (fun p hp => (hparent p hp).trans_le (Nat.le_of_add_right_le hle))
          exact ⟨hordered, (Nat.le_of_add_right_le hle).trans hle'⟩
    | _ =>
      rw [discoverFunctions]
      . exact hskip
      . simp

theorem ordered_discoverNestedFunctions (parent : Nat)
    : (definition : FunctionDef) → (functions : List DiscoveredFunction) → Ordered functions →
      parent < functions.length →
        Ordered (discoverNestedFunctions parent definition functions)
          ∧ functions.length ≤ (discoverNestedFunctions parent definition functions).length
  | .mk _ _ _ body, functions, h, hparent => by
    rw [discoverNestedFunctions]
    exact ordered_discoverFunctions (some parent) [] body functions h (by rintro p ⟨⟩; exact hparent)

end

end Discovery

section Captures

variable {function : FunctionDef} {outer : Bindings} {analysis : LocalAnalysis} {n : String}

/-- A function binds a name to the function around it when it mentions the name. -/
structure Takes (function : FunctionDef) (outer : Bindings) (analysis : LocalAnalysis) (n : String)
    : Prop where
  ne_ans : n ≠ "ans"
  notMem : n ∉ function.inputs ++ function.outputs
  outer : outer[n]?.any BindingStorage.isShareable
  own : analysis.bindings[n]?.all BindingStorage.isShareable

theorem captureName_of_takes (h : Takes function outer analysis n)
    : captureName function outer analysis n = { analysis with
        bindings := analysis.bindings.insert n .captured
        sharedCaptures := analysis.sharedCaptures.insert n } := by
  rw [captureName, if_neg (not_or.mpr ⟨h.ne_ans, h.notMem⟩), h.outer, Bool.not_true,
    if_neg Bool.false_ne_true, if_pos h.own]

theorem captureName_of_not_takes (h : ¬Takes function outer analysis n)
    : captureName function outer analysis n = analysis := by
  rw [captureName]
  split
  . rfl
  . next hname =>
    rw [not_or] at hname
    split
    . rfl
    . next houter =>
      rw [Bool.not_eq_true', Bool.not_eq_false] at houter
      rw [if_neg fun hown => h ⟨hname.1, hname.2, houter, hown⟩]

theorem captureName_of_ne {name : String} (hne : name ≠ n)
    : (captureName function outer analysis name).bindings[n]? = analysis.bindings[n]?
        ∧ (analysis.sharedCaptures.contains n →
          (captureName function outer analysis name).sharedCaptures.contains n) := by
  by_cases hname : Takes function outer analysis name
  . rw [captureName_of_takes hname]
    exact ⟨by rw [Table.getElem?_insert, if_neg hne], fun h => by simp [h]⟩
  . rw [captureName_of_not_takes hname]
    exact ⟨rfl, id⟩

/-- A name that is bound to the function around, and that closures get from there. -/
def IsCaptured (analysis : LocalAnalysis) (n : String) : Prop :=
  analysis.bindings[n]? = some .captured ∧ analysis.sharedCaptures.contains n

theorem isCaptured_of_takes (h : Takes function outer analysis n)
    : IsCaptured (captureName function outer analysis n) n := by
  rw [captureName_of_takes h]
  exact ⟨by rw [Table.getElem?_insert, if_pos rfl], by simp⟩

theorem IsCaptured.captureName (h : IsCaptured analysis n) (name : String)
    : IsCaptured (captureName function outer analysis name) n := by
  by_cases heq : name = n
  . subst heq
    by_cases htakes : Takes function outer analysis name
    . exact isCaptured_of_takes htakes
    . rw [captureName_of_not_takes htakes]
      exact h
  . obtain ⟨hbindings, hcaptures⟩ := @captureName_of_ne function outer _ _ _ heq
    exact ⟨hbindings.trans h.1, hcaptures h.2⟩

end Captures

section Children

variable {functions : List DiscoveredFunction} {analysis analysis' : LocalAnalysis}

/-- What the slots of nested functions change: they add local bindings. -/
structure Nests (analysis analysis' : LocalAnalysis) : Prop where
  captures : analysis'.sharedCaptures = analysis.sharedCaptures
  extends_slots : Extends { bindings := analysis.bindings, nextLocal := analysis.localCount }
    { bindings := analysis'.bindings, nextLocal := analysis'.localCount }

theorem nests_bindChild (analysis : LocalAnalysis) (child : Nat)
    : Nests analysis (bindChild functions analysis child) := by
  rw [bindChild]
  split
  . exact ⟨rfl, .refl _⟩
  . next function _ =>
    split
    . exact ⟨rfl, .refl _⟩
    . exact ⟨rfl, .refl _⟩
    . next hfree =>
      let slots : Slots := { bindings := analysis.bindings, nextLocal := analysis.localCount }
      have hextends : Extends slots (slots.bind _) := extends_bind hfree
      rw [Slots.bind] at hextends
      split
      . exact ⟨rfl, .refl _⟩
      . next slot localCount hslot =>
        rw [hslot] at hextends
        exact ⟨rfl, hextends⟩

/-- The slots of nested functions are the slots of their names. -/
def NestedBound (functions : List DiscoveredFunction) (analysis : LocalAnalysis) : Prop :=
  ∀ child, analysis.nestedFunctionSlots.contains child →
    ∃ function slot, functions[child]? = some function
      ∧ analysis.bindings[function.name]? = some (.localSlot slot)

theorem NestedBound.bindChild (h : NestedBound functions analysis) (child : Nat)
    : NestedBound functions (Nested.bindChild functions analysis child) := by
  have hnests : Nests analysis (Nested.bindChild functions analysis child) := nests_bindChild _ _
  have hkept : ∀ child', analysis.nestedFunctionSlots.contains child' → ∃ function slot,
      functions[child']? = some function
        ∧ (Nested.bindChild functions analysis child).bindings[function.name]?
          = some (.localSlot slot) := by
    intro child' hchild'
    obtain ⟨function, slot, hfunction, hslot⟩ := h child' hchild'
    exact ⟨function, slot, hfunction, hnests.extends_slots.kept _ _ hslot⟩
  intro child' hchild'
  by_cases hold : analysis.nestedFunctionSlots.contains child'
  . exact hkept child' hold
  . rw [Nested.bindChild] at hchild' ⊢
    split at hchild'
    . exact absurd hchild' hold
    . next function hfunction =>
      split at hchild'
      . next slot hslot =>
        obtain rfl : child = child' := by simpa [TreeMap.contains_insert, hold] using hchild'
        exact ⟨function, slot, hfunction, hslot⟩
      . exact absurd hchild' hold
      . split at hchild'
        . exact absurd hchild' hold
        . next slot localCount _ =>
          obtain rfl : child = child' := by simpa [TreeMap.contains_insert, hold] using hchild'
          exact ⟨function, slot, hfunction, by rw [Table.getElem?_insert, if_pos rfl]⟩

end Children

section Plans

variable {functions : List DiscoveredFunction} {discovered : DiscoveredFunction} {i p : Nat} {n : String}

abbrev plans (functions : List DiscoveredFunction) : List LocalAnalysis :=
  analyseDiscoveredFunctions functions

end Plans

section Variables

variable {functions : List DiscoveredFunction} {discovered : DiscoveredFunction} {i slot : Nat}
  {n : String} {plan : LocalAnalysis}

end Variables

end Nested
end OpenMat
