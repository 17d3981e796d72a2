import Mathlib.Data.Finset.Basic
import OpenMat.Nested.Names
import Std.Data.TreeMap.Lemmas

/-!
This module contains the names that an anonymous function captures: the ones that are free in its body.
-/

namespace OpenMat
namespace Nested

open Std

structure AnonymousFreeName where
  name : String
  tombstoneIfMissing : Bool
  deriving DecidableEq, Repr

/-- The names in the order in which they were found, with the place of each. -/
structure FoundNames where
  seen : TreeMap String Nat
  names : List AnonymousFreeName

/-- The placeholders of a missing name and of an ignored parameter are no names. -/
def isPlaceholder (text : String) : Bool := text = "" || text = "~"

def FoundNames.record (found : FoundNames) (name : String) (tombstoneIfMissing : Bool) : FoundNames :=
  match found.seen[name]? with
  | some index =>
    if tombstoneIfMissing then
      { found with names := found.names.modify index fun free => { free with tombstoneIfMissing := true } }
    else
      found
  | none =>
    { seen := found.seen.insert name found.names.length
      names := found.names ++ [⟨name, tombstoneIfMissing⟩] }

def addFreeName (name : String) (tombstoneIfMissing : Bool) (bound : Finset String) (found : FoundNames)
    : FoundNames :=
  if isPlaceholder name ∨ name ∈ bound then
    found
  else
    found.record name tombstoneIfMissing

/-- The parameters that were not bound before, and the names that are bound with them. -/
def bindParameters : List String → Finset String → List String × Finset String
  | [], bound => ([], bound)
  | parameter :: parameters, bound =>
    if isPlaceholder parameter ∨ parameter ∈ bound then
      bindParameters parameters bound
    else
      let (added, bound) := bindParameters parameters (insert parameter bound)
      (parameter :: added, bound)

def Expr.name? : Expr → Option String
  | .name text => some text
  | _ => none

/-- The bound names are one set that is passed along, and changed in the body of an anonymous function. -/
def collectFreeNames : Expr → Finset String → FoundNames → Finset String × FoundNames
  | .name text, bound, found => (bound, addFreeName text true bound found)
  | .anonymousFunction parameters body, bound, found =>
    let (added, bound) := bindParameters parameters bound
    let (bound, found) := collectFreeNames body bound found
    (added.foldl Finset.erase bound, found)
  | .paren inner, bound, found => collectFreeNames inner bound found
  | .parenApply target arguments, bound, found =>
    let (bound, found) :=
      match target.name? with
      | some text => (bound, addFreeName text false bound found)
      | none => collectFreeNames target bound found
    collectExpressions arguments bound found
  | .braceApply target arguments, bound, found =>
    let (bound, found) := collectFreeNames target bound found
    collectExpressions arguments bound found
  | .superclassConstructorCall object arguments, bound, found =>
    let (bound, found) := collectFreeNames object bound found
    collectExpressions arguments bound found
  | .field target, bound, found => collectFreeNames target bound found
  | .dynamicField target name, bound, found =>
    let (bound, found) := collectFreeNames target bound found
    collectFreeNames name bound found
  | .unary operand, bound, found => collectFreeNames operand bound found
  | .transpose operand, bound, found => collectFreeNames operand bound found
  | .binary left right, bound, found =>
    let (bound, found) := collectFreeNames left bound found
    collectFreeNames right bound found
  | .range start step stop, bound, found =>
    let (bound, found) := collectFreeNames start bound found
    let (bound, found) := collectOption step bound found
    collectFreeNames stop bound found
  | .matrix elements, bound, found => collectExpressions elements bound found
  | .cell elements, bound, found => collectExpressions elements bound found
  | .functionHandle _, bound, found => (bound, found)
  | .other, bound, found => (bound, found)
where
  collectExpressions : List Expr → Finset String → FoundNames → Finset String × FoundNames
    | [], bound, found => (bound, found)
    | expression :: expressions, bound, found =>
      let (bound, found) := collectFreeNames expression bound found
      collectExpressions expressions bound found
  collectOption : Option Expr → Finset String → FoundNames → Finset String × FoundNames
    | none, bound, found => (bound, found)
    | some expression, bound, found => collectFreeNames expression bound found

def anonymousFreeNames (parameters : List String) (body : Expr) : List AnonymousFreeName :=
  let bound := (parameters.filter fun parameter => !isPlaceholder parameter).toFinset
  (collectFreeNames body bound ⟨∅, []⟩).2.names

/-- The free occurrences of names in an expression, in their order, with whether one is more than the target of a
call. A function handle refers to a function, not to a name of its surroundings. -/
def freeOccurrences : Expr → List (String × Bool)
  | .name text => [(text, true)]
  | .anonymousFunction parameters body =>
    (freeOccurrences body).filter fun occurrence => occurrence.1 ∉ parameters
  | .paren inner => freeOccurrences inner
  | .parenApply target arguments =>
    (match target.name? with
      | some text => [(text, false)]
      | none => freeOccurrences target) ++ ofExpressions arguments
  | .braceApply target arguments => freeOccurrences target ++ ofExpressions arguments
  | .superclassConstructorCall object arguments => freeOccurrences object ++ ofExpressions arguments
  | .field target => freeOccurrences target
  | .dynamicField target name => freeOccurrences target ++ freeOccurrences name
  | .unary operand => freeOccurrences operand
  | .transpose operand => freeOccurrences operand
  | .binary left right => freeOccurrences left ++ freeOccurrences right
  | .range start step stop => freeOccurrences start ++ ofOption step ++ freeOccurrences stop
  | .matrix elements => ofExpressions elements
  | .cell elements => ofExpressions elements
  | .functionHandle _ => []
  | .other => []
where
  ofExpressions : List Expr → List (String × Bool)
    | [] => []
    | expression :: expressions => freeOccurrences expression ++ ofExpressions expressions
  ofOption : Option Expr → List (String × Bool)
    | none => []
    | some expression => freeOccurrences expression

section Binding

variable {parameters : List String} {bound : Finset String}

theorem foldl_erase (added : List String) (bound : Finset String)
    : added.foldl Finset.erase bound = bound.filter (· ∉ added) := by
  induction added generalizing bound with
  | nil => simp
  | cons name added ih =>
    rw [List.foldl_cons, ih]
    ext other
    simp only [Finset.mem_filter, Finset.mem_erase, List.mem_cons, not_or]
    tauto

theorem bindParameters_spec (parameters : List String) (bound : Finset String)
    : (∀ name, name ∈ (bindParameters parameters bound).2 ↔
          name ∈ bound ∨ name ∈ parameters ∧ isPlaceholder name = false) ∧
        ∀ name, name ∈ (bindParameters parameters bound).1 ↔
          name ∈ (bindParameters parameters bound).2 ∧ name ∉ bound := by
  induction parameters generalizing bound with
  | nil => simp [bindParameters]
  | cons parameter parameters ih =>
    rw [bindParameters]
    split
    . next hskip =>
      obtain ⟨hbound, hadded⟩ := ih bound
      refine ⟨fun name => ?_, hadded⟩
      rw [hbound, List.mem_cons]
      constructor
      . rintro (h | ⟨h, hname⟩)
        . exact .inl h
        . exact .inr ⟨.inr h, hname⟩
      . rintro (h | ⟨rfl | h, hname⟩)
        . exact .inl h
        . rw [hname, Bool.false_eq_true, false_or] at hskip
          exact .inl hskip
        . exact .inr ⟨h, hname⟩
    . next hnew =>
      rw [not_or, Bool.not_eq_true] at hnew
      obtain ⟨hbound, hadded⟩ := ih (insert parameter bound)
      dsimp only
      constructor
      . intro name
        rw [hbound, Finset.mem_insert, List.mem_cons]
        constructor
        . rintro ((rfl | h) | ⟨h, hname⟩)
          . exact .inr ⟨.inl rfl, hnew.1⟩
          . exact .inl h
          . exact .inr ⟨.inr h, hname⟩
        . rintro (h | ⟨rfl | h, hname⟩)
          . exact .inl (.inr h)
          . exact .inl (.inl rfl)
          . exact .inr ⟨h, hname⟩
      . intro name
        rw [List.mem_cons, hadded, Finset.mem_insert, not_or]
        constructor
        . rintro (rfl | ⟨hin, -, hnot⟩)
          . exact ⟨(hbound _).mpr (.inl (Finset.mem_insert_self ..)), hnew.2⟩
          . exact ⟨hin, hnot⟩
        . rintro ⟨hin, hnot⟩
          by_cases heq : name = parameter
          . exact .inl heq
          . exact .inr ⟨hin, heq, hnot⟩

/-- What was bound for the body is unbound again. -/
theorem foldl_erase_bindParameters (parameters : List String) (bound : Finset String)
    : (bindParameters parameters bound).1.foldl Finset.erase (bindParameters parameters bound).2 = bound := by
  obtain ⟨hbound, hadded⟩ := bindParameters_spec parameters bound
  rw [foldl_erase]
  ext name
  rw [Finset.mem_filter, hadded, hbound]
  tauto

end Binding

section Collecting

/-- The occurrences that are found where some names are bound. -/
def visible (bound : Finset String) (occurrences : List (String × Bool)) : List (String × Bool) :=
  occurrences.filter fun occurrence => !isPlaceholder occurrence.1 && decide (occurrence.1 ∉ bound)

def FoundNames.recordAll (found : FoundNames) (occurrences : List (String × Bool)) : FoundNames :=
  occurrences.foldl (fun found occurrence => found.record occurrence.1 occurrence.2) found

variable {bound : Finset String} {found : FoundNames}

theorem visible_append (earlier later : List (String × Bool))
    : visible bound (earlier ++ later) = visible bound earlier ++ visible bound later :=
  List.filter_append ..

theorem recordAll_append (earlier later : List (String × Bool))
    : found.recordAll (earlier ++ later) = (found.recordAll earlier).recordAll later :=
  List.foldl_append ..

theorem addFreeName_eq (name : String) (isVariable : Bool)
    : addFreeName name isVariable bound found = found.recordAll (visible bound [(name, isVariable)]) := by
  unfold addFreeName visible
  cases hplaceholder : isPlaceholder name with
  | true => simp [hplaceholder, FoundNames.recordAll]
  | false =>
    by_cases hbound : name ∈ bound
    . simp [hplaceholder, hbound, FoundNames.recordAll]
    . simp [hplaceholder, hbound, FoundNames.recordAll]

/-- In a body, what the parameters bind is invisible. -/
theorem visible_bindParameters (parameters : List String) (occurrences : List (String × Bool))
    : visible (bindParameters parameters bound).2 occurrences =
        visible bound (occurrences.filter fun occurrence => occurrence.1 ∉ parameters) := by
  unfold visible
  rw [List.filter_filter]
  apply List.filter_congr
  rintro ⟨name, isVariable⟩ -
  have hbound := (bindParameters_spec parameters bound).1 name
  cases hplaceholder : isPlaceholder name with
  | true => simp
  | false =>
    rw [hplaceholder, eq_self, and_true] at hbound
    simp [hbound]

mutual

theorem collectFreeNames_eq : (expression : Expr) → (bound : Finset String) → (found : FoundNames) →
    collectFreeNames expression bound found =
      (bound, found.recordAll (visible bound (freeOccurrences expression)))
  | .name text, bound, found => by
    rw [collectFreeNames, freeOccurrences, addFreeName_eq]
  | .anonymousFunction parameters body, bound, found => by
    rw [collectFreeNames, freeOccurrences]
    dsimp only
    rw [collectFreeNames_eq body, foldl_erase_bindParameters, visible_bindParameters]
  | .paren inner, bound, found => by
    rw [collectFreeNames, freeOccurrences, collectFreeNames_eq inner]
  | .parenApply target arguments, bound, found => by
    rw [collectFreeNames, freeOccurrences, visible_append, recordAll_append]
    cases target.name? with
    | some text =>
      dsimp only
      rw [addFreeName_eq, collectExpressions_eq arguments]
    | none =>
      dsimp only
      rw [collectFreeNames_eq target, collectExpressions_eq arguments]
  | .braceApply target arguments, bound, found => by
    rw [collectFreeNames, freeOccurrences, visible_append, recordAll_append, collectFreeNames_eq target]
    dsimp only
    rw [collectExpressions_eq arguments]
  | .superclassConstructorCall object arguments, bound, found => by
    rw [collectFreeNames, freeOccurrences, visible_append, recordAll_append, collectFreeNames_eq object]
    dsimp only
    rw [collectExpressions_eq arguments]
  | .field target, bound, found => by
    rw [collectFreeNames, freeOccurrences, collectFreeNames_eq target]
  | .dynamicField target name, bound, found => by
    rw [collectFreeNames, freeOccurrences, visible_append, recordAll_append, collectFreeNames_eq target]
    dsimp only
    rw [collectFreeNames_eq name]
  | .unary operand, bound, found => by
    rw [collectFreeNames, freeOccurrences, collectFreeNames_eq operand]
  | .transpose operand, bound, found => by
    rw [collectFreeNames, freeOccurrences, collectFreeNames_eq operand]
  | .binary left right, bound, found => by
    rw [collectFreeNames, freeOccurrences, visible_append, recordAll_append, collectFreeNames_eq left]
    dsimp only
    rw [collectFreeNames_eq right]
  | .range start step stop, bound, found => by
    rw [collectFreeNames, freeOccurrences, visible_append, visible_append, recordAll_append, recordAll_append,
      collectFreeNames_eq start]
    dsimp only
    rw [collectOption_eq step]
    dsimp only
    rw [collectFreeNames_eq stop]
  | .matrix elements, bound, found => by
    rw [collectFreeNames, freeOccurrences, collectExpressions_eq elements]
  | .cell elements, bound, found => by
    rw [collectFreeNames, freeOccurrences, collectExpressions_eq elements]
  | .functionHandle _, bound, found => by
    rw [collectFreeNames, freeOccurrences]
    rfl
  | .other, bound, found => by
    rw [collectFreeNames, freeOccurrences]
    rfl

theorem collectExpressions_eq : (expressions : List Expr) → (bound : Finset String) → (found : FoundNames) →
    collectFreeNames.collectExpressions expressions bound found =
      (bound, found.recordAll (visible bound (freeOccurrences.ofExpressions expressions)))
  | [], bound, found => by
    rw [collectFreeNames.collectExpressions, freeOccurrences.ofExpressions]
    rfl
  | expression :: expressions, bound, found => by
    rw [collectFreeNames.collectExpressions, freeOccurrences.ofExpressions, visible_append, recordAll_append,
      collectFreeNames_eq expression]
    dsimp only
    rw [collectExpressions_eq expressions]

theorem collectOption_eq : (expression : Option Expr) → (bound : Finset String) → (found : FoundNames) →
    collectFreeNames.collectOption expression bound found =
      (bound, found.recordAll (visible bound (freeOccurrences.ofOption expression)))
  | none, bound, found => by
    rw [collectFreeNames.collectOption, freeOccurrences.ofOption]
    rfl
  | some expression, bound, found => by
    rw [collectFreeNames.collectOption, freeOccurrences.ofOption, collectFreeNames_eq expression]

end

end Collecting

section Recording

/-- What has been found are the names of some occurrences, each at its place. -/
structure Records (found : FoundNames) (occurrences : List (String × Bool)) : Prop where
  seen : ∀ (name : String) (index : Nat), found.seen[name]? = some index ↔ (found.names.map (·.name))[index]? = some name
  mem : ∀ name : String, name ∈ found.names.map (·.name) ↔ name ∈ occurrences.map (·.1)
  order : (found.names.map (·.name)).Pairwise fun earlier later =>
    (occurrences.map (·.1)).idxOf earlier < (occurrences.map (·.1)).idxOf later
  flags : ∀ free ∈ found.names, free.tombstoneIfMissing = true ↔ (free.name, true) ∈ occurrences

variable {found : FoundNames} {occurrences : List (String × Bool)}

theorem records_nil : Records ⟨∅, []⟩ [] where
  seen := by simp
  mem := by simp
  order := List.Pairwise.nil
  flags := by simp

theorem Records.order_append (h : Records found occurrences) (later : List (String × Bool))
    : (found.names.map (·.name)).Pairwise fun earlier other =>
        ((occurrences ++ later).map (·.1)).idxOf earlier < ((occurrences ++ later).map (·.1)).idxOf other := by
  refine List.Pairwise.imp_of_mem ?_ h.order
  intro earlier other hearlier hother hlt
  rwa [List.map_append, List.idxOf_append_of_mem ((h.mem _).mp hearlier),
    List.idxOf_append_of_mem ((h.mem _).mp hother)]

theorem map_name_modify (names : List AnonymousFreeName) (index : Nat)
    : (names.modify index fun free => { free with tombstoneIfMissing := true }).map (·.name) =
        names.map (·.name) := by
  apply List.ext_getElem?
  intro i
  rw [List.getElem?_map, List.getElem?_modify, List.getElem?_map]
  split
  . cases names[i]? <;> rfl
  . cases names[i]? <;> rfl

theorem Records.record_found (h : Records found occurrences) {name : String} {isVariable : Bool} {index : Nat}
    (hindex : found.seen[name]? = some index)
    : Records (found.record name isVariable) (occurrences ++ [(name, isVariable)]) := by
  have hname := (h.seen name index).mp hindex
  have hmem : name ∈ occurrences.map (·.1) := (h.mem name).mp (List.mem_of_getElem? hname)
  have hsame : ∀ other, other ∈ found.names.map (·.name) ↔
      other ∈ (occurrences ++ [(name, isVariable)]).map (·.1) := by
    intro other
    rw [h.mem, List.map_append, List.mem_append, List.map_singleton, List.mem_singleton]
    constructor
    . exact .inl
    . rintro (hother | rfl)
      . exact hother
      . exact hmem
  rw [FoundNames.record, hindex]
  cases isVariable with
  | false =>
    refine ⟨h.seen, hsame, h.order_append _, fun free hfree => ?_⟩
    rw [h.flags free hfree, List.mem_append, List.mem_singleton, Prod.mk.injEq]
    simp
  | true =>
    dsimp only
    rw [if_pos rfl]
    refine ⟨?_, ?_, ?_, fun free hfree => ?_⟩
    . dsimp only
      rw [map_name_modify]
      exact h.seen
    . dsimp only
      rw [map_name_modify]
      exact hsame
    . dsimp only
      rw [map_name_modify]
      exact h.order_append _
    . obtain ⟨i, hi⟩ := List.getElem?_of_mem hfree
      rw [List.getElem?_modify] at hi
      rw [List.getElem?_map, Option.map_eq_some_iff] at hname
      obtain ⟨old, hold, hold'⟩ := hname
      rw [List.mem_append, List.mem_singleton, Prod.mk.injEq]
      split at hi
      . next heq =>
        subst heq
        rw [hold] at hi
        obtain rfl := Option.some.inj hi
        exact ⟨fun _ => .inr ⟨hold', rfl⟩, fun _ => rfl⟩
      . next hne =>
        simp only [Option.map_eq_map, Option.map_id_fun', id_eq] at hi
        rw [h.flags free (List.mem_of_getElem? hi)]
        refine ⟨.inl, fun hor => hor.resolve_right ?_⟩
        rintro ⟨hfreeName, -⟩
        have hget : (found.names.map (·.name))[i]? = some name := by
          rw [List.getElem?_map, hi, Option.map_some, hfreeName]
        rw [(h.seen name i).mpr hget] at hindex
        exact hne (Option.some.inj hindex).symm

theorem Records.record_new (h : Records found occurrences) {name : String} {isVariable : Bool}
    (hnew : found.seen[name]? = none)
    : Records (found.record name isVariable) (occurrences ++ [(name, isVariable)]) := by
  have hnotFound : name ∉ found.names.map (·.name) := by
    intro hmem
    obtain ⟨index, hindex⟩ := List.getElem?_of_mem hmem
    rw [(h.seen name index).mpr hindex] at hnew
    cases hnew
  have hnot : name ∉ occurrences.map (·.1) := fun hmem => hnotFound ((h.mem name).mpr hmem)
  rw [FoundNames.record, hnew]
  dsimp only
  refine ⟨fun other index => ?_, fun other => ?_, ?_, fun free hfree => ?_⟩
  . dsimp only
    rw [TreeMap.getElem?_insert, List.map_append, List.map_singleton]
    split
    . next heq =>
      obtain rfl := LawfulEqCmp.eq_of_compare heq
      rw [Option.some.injEq]
      constructor
      . rintro rfl
        rw [← List.length_map (·.name), List.getElem?_concat_length]
      . intro hget
        rcases Nat.lt_or_ge index (found.names.map (·.name)).length with hlt | hge
        . rw [List.getElem?_append_left hlt] at hget
          exact absurd (List.mem_of_getElem? hget) hnotFound
        . have hlast := (List.getElem?_eq_some_iff.mp hget).1
          rw [List.length_append, List.length_singleton] at hlast
          rw [List.length_map] at hge hlast
          omega
    . next hne =>
      rw [h.seen]
      rcases Nat.lt_or_ge index (found.names.map (·.name)).length with hlt | hge
      . rw [List.getElem?_append_left hlt]
      . rw [List.getElem?_eq_none hge, List.getElem?_append_right hge]
        constructor
        . intro hcontra
          cases hcontra
        . intro hget
          have hmem := List.mem_singleton.mp (List.mem_of_getElem? hget)
          exact absurd (by rw [hmem]; exact ReflCmp.compare_self) hne
  . rw [List.map_append, List.map_append, List.mem_append, List.mem_append, h.mem]
    rfl
  . have hnames : (found.names ++ [(⟨name, isVariable⟩ : AnonymousFreeName)]).map (·.name) =
        found.names.map (·.name) ++ [name] := List.map_append
    dsimp only
    rw [hnames, List.pairwise_append]
    refine ⟨h.order_append _, List.pairwise_singleton .., fun earlier hearlier later hlater => ?_⟩
    obtain rfl := List.mem_singleton.mp hlater
    have hbefore := (h.mem earlier).mp hearlier
    rw [List.map_append, List.idxOf_append_of_mem hbefore, List.idxOf_append_of_notMem hnot]
    exact Nat.lt_add_right _ (List.idxOf_lt_length_iff.mpr hbefore)
  . rw [List.mem_append, List.mem_singleton, Prod.mk.injEq]
    rcases List.mem_append.mp hfree with hold | hlast
    . rw [h.flags free hold]
      refine ⟨.inl, fun hor => hor.resolve_right ?_⟩
      rintro ⟨hfreeName, -⟩
      exact hnotFound (hfreeName ▸ List.mem_map_of_mem hold)
    . obtain rfl := List.mem_singleton.mp hlast
      dsimp only
      refine ⟨fun hflag => .inr ⟨rfl, hflag.symm⟩, fun hor => ?_⟩
      rcases hor with hin | ⟨-, hflag⟩
      . exact absurd (List.mem_map_of_mem hin) hnot
      . exact hflag.symm

theorem Records.recordAll (h : Records found occurrences) (later : List (String × Bool))
    : Records (found.recordAll later) (occurrences ++ later) := by
  induction later generalizing found occurrences with
  | nil => rwa [List.append_nil]
  | cons occurrence later ih =>
    obtain ⟨name, isVariable⟩ := occurrence
    have hstep : Records (found.record name isVariable) (occurrences ++ [(name, isVariable)]) := by
      cases hseen : found.seen[name]? with
      | some index => exact h.record_found hseen
      | none => exact h.record_new hseen
    have hall := ih hstep
    rwa [List.append_assoc] at hall

end Recording

/-- The occurrences in a body of the names that the parameters do not bind. -/
def capturedOccurrences (parameters : List String) (body : Expr) : List (String × Bool) :=
  (freeOccurrences body).filter fun occurrence =>
    !isPlaceholder occurrence.1 && decide (occurrence.1 ∉ parameters)

theorem records_anonymousFreeNames (parameters : List String) (body : Expr)
    : ∃ seen, Records ⟨seen, anonymousFreeNames parameters body⟩ (capturedOccurrences parameters body) := by
  have hvisible : visible (parameters.filter fun parameter => !isPlaceholder parameter).toFinset
      (freeOccurrences body) = capturedOccurrences parameters body := by
    unfold visible capturedOccurrences
    apply List.filter_congr
    rintro ⟨name, isVariable⟩ -
    cases hplaceholder : isPlaceholder name with
    | true => simp
    | false => simp [hplaceholder]
  have hrecords := records_nil.recordAll (capturedOccurrences parameters body)
  rw [List.nil_append] at hrecords
  refine ⟨(FoundNames.recordAll ⟨∅, []⟩ (capturedOccurrences parameters body)).seen, ?_⟩
  rw [anonymousFreeNames, collectFreeNames_eq, hvisible]
  exact hrecords

theorem mem_map_capturedOccurrences {parameters : List String} {body : Expr} {name : String}
    : name ∈ (capturedOccurrences parameters body).map (·.1) ↔
        name ∈ (freeOccurrences body).map (·.1) ∧ isPlaceholder name = false ∧ name ∉ parameters := by
  simp only [capturedOccurrences, List.mem_map, List.mem_filter, Bool.and_eq_true, Bool.not_eq_true',
    decide_eq_true_eq]
  constructor
  . rintro ⟨occurrence, ⟨hin, hname, hnot⟩, rfl⟩
    exact ⟨⟨occurrence, hin, rfl⟩, hname, hnot⟩
  . rintro ⟨⟨occurrence, hin, rfl⟩, hname, hnot⟩
    exact ⟨occurrence, ⟨hin, hname, hnot⟩, rfl⟩

theorem idxOf_lt_of_filter {l : List String} {p : String → Bool} {a b : String} (ha : p a = true) (hb : p b = true)
    (h : (l.filter p).idxOf a < (l.filter p).idxOf b)
    : l.idxOf a < l.idxOf b := by
  induction l with
  | nil => exact absurd h (Nat.lt_irrefl _)
  | cons c l ih =>
    cases hc : p c with
    | true =>
      rw [List.filter_cons_of_pos hc, List.idxOf_cons, List.idxOf_cons] at h
      rw [List.idxOf_cons, List.idxOf_cons]
      cases hca : c == a with
      | true =>
        cases hcb : c == b with
        | true => simp [hca, hcb] at h
        | false => exact Nat.succ_pos _
      | false =>
        cases hcb : c == b with
        | true => simp [hca, hcb] at h
        | false =>
          simp only [hca, hcb, cond_false, Nat.add_lt_add_iff_right] at h ⊢
          exact ih h
    | false =>
      rw [List.filter_cons_of_neg (by simp [hc])] at h
      have hca : c ≠ a := by
        rintro rfl
        rw [ha] at hc
        cases hc
      have hcb : c ≠ b := by
        rintro rfl
        rw [hb] at hc
        cases hc
      rw [List.idxOf_cons_ne _ hca, List.idxOf_cons_ne _ hcb]
      exact Nat.succ_lt_succ (ih h)

/-- Without repetition and in the order of their first occurrences, the names that are free in the body; each
with whether it occurs as more than the target of a call. The bound names are left as they were. -/
theorem anonymousFreeNames_correct (parameters : List String) (body : Expr)
    : ((anonymousFreeNames parameters body).map (·.name)).Nodup ∧
      (∀ name, name ∈ (anonymousFreeNames parameters body).map (·.name) ↔
        name ∈ (freeOccurrences body).map (·.1) ∧ isPlaceholder name = false ∧ name ∉ parameters) ∧
      ((anonymousFreeNames parameters body).map (·.name)).Pairwise (fun earlier later =>
        ((freeOccurrences body).map (·.1)).idxOf earlier < ((freeOccurrences body).map (·.1)).idxOf later) ∧
      (∀ free ∈ anonymousFreeNames parameters body,
        free.tombstoneIfMissing = true ↔ (free.name, true) ∈ freeOccurrences body) ∧
      ∀ bound found, (collectFreeNames body bound found).1 = bound := by
  obtain ⟨seen, hrecords⟩ := records_anonymousFreeNames parameters body
  have hmem (name : String) := (hrecords.mem name).trans mem_map_capturedOccurrences
  have hfilter : (capturedOccurrences parameters body).map (·.1) = ((freeOccurrences body).map (·.1)).filter
      fun name => !isPlaceholder name && decide (name ∉ parameters) := by
    rw [List.filter_map]
    rfl
  have horder := hrecords.order
  dsimp only at horder hmem
  refine ⟨horder.imp fun hlt heq => ?_, hmem, ?_, fun free hfree => ?_, fun bound found => ?_⟩
  . rw [heq] at hlt
    exact Nat.lt_irrefl _ hlt
  . refine List.Pairwise.imp_of_mem ?_ horder
    intro earlier later hearlier hlater hlt
    obtain ⟨-, hearlier⟩ := (hmem earlier).mp hearlier
    obtain ⟨-, hlater⟩ := (hmem later).mp hlater
    rw [hfilter] at hlt
    exact idxOf_lt_of_filter (by simp [hearlier]) (by simp [hlater]) hlt
  . have hname := (hmem free.name).mp (List.mem_map_of_mem hfree)
    rw [hrecords.flags free hfree, capturedOccurrences, List.mem_filter]
    simp [hname]
  . rw [collectFreeNames_eq]

end Nested
end OpenMat
