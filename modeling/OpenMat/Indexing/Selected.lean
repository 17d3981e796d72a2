import Mathlib.Algebra.BigOperators.Ring.List
import Mathlib.Tactic.FinCases
import OpenMat.Indexing.Resolve

/-!
This module contains the correctness of the resolution of subscripts: which lists of subscripts resolve, and
that they select the tuples of their indices in column-major order.
-/

namespace OpenMat
namespace Indexing

open Arrays (Shape DenseArray ArrayError)
open Arrays.Shape (InRange viewExtents)
open Floats (FloatFormat FloatValue)
open Sequence

variable {P : Payloads}

section Selection

variable {shape : Shape} {arguments : List (IndexInput P)} {selections : List DimensionSelection}

/-- The subscripts with the extents that they range over. -/
def inputsOf (shape : Shape) (arguments : List (IndexInput P)) : List (IndexInput P × Nat) :=
  arguments.zip (viewExtents shape.dimensions arguments.length)

/-- The collapsed dimensions, and the result of more than one subscript, are not too large. -/
def SizesFit (shape : Shape) (count : Nat) (selected : List (List Nat)) : Prop :=
  1 < count → (count < shape.ndims → Fits (shape.dimensions.drop (count - 1))) ∧
    Fits (selected.map List.length)

/-- The offsets of the selected elements, in column-major order. -/
def offsetsOf (shape : Shape) (selected : List (List Nat)) : List Nat :=
  (columnMajor selected).map fun subscripts =>
    offsetOf (subscripts.map (· - 1)) (viewExtents shape.dimensions selected.length)

/--
No number is too large to be represented where its replacement would be in range, and no true element
stands over an extent of zero beside a subscript that selects nothing.
-/
def Plain (inputs : List (IndexInput P × Nat)) : Prop :=
  (∀ p ∈ inputs, ¬ Saturates p.1 p.2) ∧
    ¬ ((∃ p ∈ inputs, TrueOverNothing p.1 p.2) ∧ ∃ p ∈ inputs, Selects p.1 p.2 [])

theorem map_snd_inputsOf (h : arguments ≠ [])
    : (inputsOf shape arguments).map Prod.snd = viewExtents shape.dimensions arguments.length := by
  rw [inputsOf, List.map_snd_zip]
  exact Nat.le_of_eq (Shape.length_viewExtents _ (List.length_pos_iff.mpr h))

theorem length_inputsOf (h : arguments ≠ [])
    : (inputsOf shape arguments).length = arguments.length := by
  rw [inputsOf, List.length_zip, Shape.length_viewExtents _ (List.length_pos_iff.mpr h), Nat.min_self]

theorem resolveIndices_eq_ok_iff (h : arguments ≠ []) (hsmall : ∀ p ∈ inputsOf shape arguments, ¬ Saturates p.1 p.2)
    {selection : ResolvedSelection}
    : resolveIndices shape arguments false = .ok selection ↔
        (1 < arguments.length → arguments.length < shape.ndims →
          Fits (shape.dimensions.drop (arguments.length - 1))) ∧
        ∃ selections, List.Forall₂ Resolved (inputsOf shape arguments) selections ∧
          Shape.new (resultDimensions shape selections) = .ok selection.shape ∧
          selectionOffsets shape selections selection.shape.numel false = .ok selection.offsets := by
  have hcount := List.length_pos_iff.mpr h
  rw [resolveIndices, bind_eq_ok_iff, ← exists_effectiveDimensions_iff hcount]
  simp only [ensure_eq_ok_iff, bind_eq_ok_iff, mapError_eq_ok_iff, checkCancelled_false, exists_const]
  constructor
  . rintro ⟨-, extents, hextents, -, selections, hselections, result, hresult, -, offsets, hoffsets, hok⟩
    obtain rfl := (Shape.effectiveDimensions_eq_ok hextents).2
    cases hok
    exact ⟨⟨_, hextents⟩, selections, (resolveDimensions_eq_ok_iff hsmall).mp hselections, hresult, hoffsets⟩
  . rintro ⟨⟨extents, hextents⟩, selections, hselections, hresult, hoffsets⟩
    obtain rfl := (Shape.effectiveDimensions_eq_ok hextents).2
    exact ⟨h, _, hextents, ⟨⟩, selections, (resolveDimensions_eq_ok_iff hsmall).mpr hselections, _, hresult, ⟨⟩,
      _, hoffsets, rfl⟩

theorem inRange_of_mem_columnMajor {extents : List Nat} {selected : List (List Nat)}
    (h : List.Forall₂ (fun extent indices => ∀ index ∈ indices, 0 < index ∧ index ≤ extent) extents selected)
    {subscripts : List Nat} (hmem : subscripts ∈ columnMajor selected)
    : InRange subscripts extents := by
  rw [mem_columnMajor] at hmem
  induction h generalizing subscripts with
  | nil =>
    cases hmem
    exact .nil
  | cons hrange _ ih =>
    obtain _ | ⟨hindex, hrest⟩ := hmem
    exact .cons (hrange _ hindex) (ih hrest)

theorem ranges_of_selects (h : arguments ≠ []) {selected : List (List Nat)}
    (hselects : List.Forall₂ (fun p indices => Selects p.1 p.2 indices) (inputsOf shape arguments) selected)
    : List.Forall₂ (fun extent indices => ∀ index ∈ indices, 0 < index ∧ index ≤ extent)
        (viewExtents shape.dimensions arguments.length) selected := by
  rw [← map_snd_inputsOf h, List.forall₂_map_left_iff]
  exact hselects.imp fun _ _ h => h.2

theorem offsetForSubscripts_of_mem_columnMajor (h : arguments ≠ []) {selected : List (List Nat)}
    (hselects : List.Forall₂ (fun p indices => Selects p.1 p.2 indices) (inputsOf shape arguments) selected)
    {subscripts : List Nat} (hmem : subscripts ∈ columnMajor selected)
    : shape.offsetForSubscripts subscripts =
        .ok (offsetOf (subscripts.map (· - 1)) (viewExtents shape.dimensions selected.length)) := by
  have hlength : selected.length = arguments.length := by rw [← hselects.length_eq, length_inputsOf h]
  rw [hlength]
  exact Shape.offsetForSubscripts_of_inRange (List.length_pos_iff.mpr h)
    (inRange_of_mem_columnMajor (ranges_of_selects h hselects) hmem)

/-- Valid subscripts select the tuples of their indices. -/
theorem selectionOffsets_of_selects (h : arguments ≠ [])
    (hselects : List.Forall₂ (fun p indices => Selects p.1 p.2 indices) (inputsOf shape arguments)
      (selections.map DimensionSelection.indices))
    : selectionOffsets shape selections (selections.map fun selection => selection.indices.length).prod
        false = .ok (offsetsOf shape (selections.map DimensionSelection.indices)) := by
  have hoffset subscripts (hmem : subscripts ∈ columnMajor (selections.map DimensionSelection.indices)) :=
    offsetForSubscripts_of_mem_columnMajor h hselects hmem
  rw [selectionOffsets.eq_def]
  split
  . next selection =>
    rw [List.map_singleton] at hselects hoffset
    have hranges := ranges_of_selects h hselects
    have hlength : arguments.length = 1 := by rw [← length_inputsOf h, hselects.length_eq]; rfl
    have hview : viewExtents shape.dimensions 1 = [shape.numel] := by
      simp [viewExtents, Shape.numel]
    rw [hlength, hview] at hranges
    refine linearOffsets_eq_ok_iff.mpr ⟨(List.forall₂_cons.mp hranges).1, ?_⟩
    rw [List.map_singleton, offsetsOf, columnMajor_singleton, List.map_map, List.length_singleton, hview]
    simp [Function.comp_def, offsetOf]
  . rw [productOffsets_range_eq_ok_iff, offsetsOf, List.forall₂_map_right_iff, List.forall₂_same]
    exact hoffset

theorem resultDimensions_of_ne (h : ∀ selection, selections ≠ [selection])
    : resultDimensions shape selections = selections.map fun selection => selection.indices.length := by
  rw [resultDimensions.eq_def]
  split
  . exact absurd rfl (h _)
  . rfl

/-- The result has as many elements as there are tuples. -/
theorem exists_result_shape (h : arguments ≠ [])
    (hresolved : List.Forall₂ Resolved (inputsOf shape arguments) selections)
    (hfits : 1 < arguments.length → Fits (selections.map fun selection => selection.indices.length))
    : ∃ result, Shape.new (resultDimensions shape selections) = .ok result ∧
        result.numel = (selections.map fun selection => selection.indices.length).prod := by
  have hlength : arguments.length = selections.length := by
    rw [← length_inputsOf h, hresolved.length_eq]
  by_cases hsingle : ∃ selection, selections = [selection]
  . obtain ⟨selection, rfl⟩ := hsingle
    obtain ⟨p, hp, hinputs⟩ : ∃ p, Resolved p selection ∧ inputsOf shape arguments = [p] := by
      obtain ⟨p, _, hp, hnil, hinputs⟩ := List.forall₂_cons_right_iff.mp hresolved
      rw [List.forall₂_nil_right_iff] at hnil
      exact ⟨p, hp, by rw [hinputs, hnil]⟩
    have hextents := @map_snd_inputsOf _ shape _ h
    rw [hinputs, hlength] at hextents
    have hextent : p.2 = shape.numel := by simpa [viewExtents, Shape.numel] using hextents
    have hlt : p.2 < 2 ^ 64 := hextent ▸ shape.numel_lt
    rw [resultDimensions, List.map_singleton, List.prod_singleton]
    exact hp.exists_linear_shape hlt
  . have hne selection (heq : selections = [selection]) := hsingle ⟨selection, heq⟩
    have hmany : 1 < arguments.length := by
      rw [hlength]
      rcases selections with _ | ⟨selection, _ | _⟩
      . exact absurd (List.length_eq_zero_iff.mp hlength) h
      . exact absurd rfl (hne selection)
      . simp
    rw [resultDimensions_of_ne hne]
    exact exists_new_numel (hfits hmany)

/-- Elements are selected only where there are elements. -/
theorem numel_pos_of_selectionOffsets {offsets : List Nat}
    (h : selectionOffsets shape selections
      (selections.map fun selection => selection.indices.length).prod false = .ok offsets)
    (hselections : selections ≠ []) (hnonempty : ∀ selection ∈ selections, selection.indices ≠ [])
    : 0 < shape.numel := by
  rw [selectionOffsets.eq_def] at h
  split at h
  . next selection =>
    obtain ⟨index, hindex⟩ := List.exists_mem_of_ne_nil _ (hnonempty selection List.mem_cons_self)
    have := (linearOffsets_eq_ok_iff.mp h).1 index hindex
    omega
  . have hoffsets := productOffsets_range_eq_ok_iff.mp h
    -- there is a tuple, and its offset is below the number of elements
    have hpos : 0 < (columnMajor (selections.map DimensionSelection.indices)).length := by
      rw [length_columnMajor, List.map_map, Nat.pos_iff_ne_zero]
      apply List.prod_ne_zero
      simpa using hnonempty
    have hpos' : 0 < offsets.length := hoffsets.length_eq ▸ hpos
    exact Nat.zero_lt_of_lt (Shape.offsetForSubscripts_lt (hoffsets.get hpos hpos'))

/-- Where the resolution succeeds no mask has been overlooked. -/
theorem selects_of_selectionOffsets (h : arguments ≠ []) (hplain : Plain (inputsOf shape arguments))
    (hresolved : List.Forall₂ Resolved (inputsOf shape arguments) selections) {offsets : List Nat}
    (hoffsets : selectionOffsets shape selections
      (selections.map fun selection => selection.indices.length).prod false = .ok offsets)
    : List.Forall₂ (fun p indices => Selects p.1 p.2 indices) (inputsOf shape arguments)
        (selections.map DimensionSelection.indices) := by
  have hmask : ∀ p ∈ inputsOf shape arguments, ¬ TrueOverNothing p.1 p.2 := by
    by_cases hempty : ∃ selection ∈ selections, selection.indices = []
    . obtain ⟨selection, hmem, hindices⟩ := hempty
      obtain ⟨p, hp, hlists, -, -⟩ := exists_of_mem_right hresolved hmem
      rw [hindices] at hlists
      exact fun q hq htrue => hplain.2 ⟨⟨q, hq, htrue⟩, p, hp, hlists, nofun⟩
    . have hselections : selections ≠ [] := by
        rintro rfl
        have := hresolved.length_eq
        rw [length_inputsOf h] at this
        exact h (List.length_eq_zero_iff.mp this)
      have hpos := numel_pos_of_selectionOffsets hoffsets hselections
        fun selection hmem hindices => hempty ⟨selection, hmem, hindices⟩
      rw [Shape.numel, ← Shape.prod_viewExtents _ arguments.length, ← map_snd_inputsOf h] at hpos
      intro p hp htrue
      have hzero : 0 ∈ (inputsOf shape arguments).map Prod.snd := List.mem_map.mpr ⟨p, hp, htrue.1⟩
      rw [List.prod_eq_zero hzero] at hpos
      exact Nat.lt_irrefl 0 hpos
  rw [List.forall₂_map_right_iff]
  exact imp_of_mem_left hresolved fun p hp selection hselection => hselection.selects (hmask p hp)

theorem length_offsetsOf (shape : Shape) (selected : List (List Nat))
    : (offsetsOf shape selected).length = (selected.map List.length).prod := by
  rw [offsetsOf, List.length_map, length_columnMajor]

theorem length_indices (selections : List DimensionSelection)
    : (selections.map DimensionSelection.indices).map List.length =
        selections.map fun selection => selection.indices.length := by
  rw [List.map_map]
  rfl

/-- All subscripts are valid for the extents that they range over. -/
def Valid (shape : Shape) (arguments : List (IndexInput P)) (selected : List (List Nat)) : Prop :=
  List.Forall₂ (fun p indices => Selects p.1 p.2 indices) (inputsOf shape arguments) selected

/-- What is selected has an element of the result for each tuple. -/
theorem numel_result (h : arguments ≠ [])
    (hresolved : List.Forall₂ Resolved (inputsOf shape arguments) selections) {result : Shape}
    (hresult : Shape.new (resultDimensions shape selections) = .ok result)
    : result.numel = (selections.map fun selection => selection.indices.length).prod ∧
        (1 < arguments.length → Fits (selections.map fun selection => selection.indices.length)) := by
  have hfits : 1 < arguments.length → Fits (selections.map fun selection => selection.indices.length) := by
    intro hmany
    have hne selection : selections ≠ [selection] := by
      rintro rfl
      have hlength := hresolved.length_eq
      rw [length_inputsOf h, List.length_singleton] at hlength
      omega
    rw [resultDimensions_of_ne hne] at hresult
    exact Shape.exists_new_iff.mp ⟨result, hresult⟩
  obtain ⟨result', hresult', hnumel⟩ := exists_result_shape h hresolved hfits
  rw [hresult] at hresult'
  cases hresult'
  exact ⟨hnumel, hfits⟩

/-- Whatever is resolved has been selected by valid subscripts. -/
theorem valid_of_resolveIndices (h : arguments ≠ []) (hplain : Plain (inputsOf shape arguments))
    {selection : ResolvedSelection} (hok : resolveIndices shape arguments false = .ok selection)
    : ∃ selected, Valid shape arguments selected ∧ SizesFit shape arguments.length selected ∧
        selection.offsets = offsetsOf shape selected ∧
        selection.shape.numel = (selected.map List.length).prod := by
  obtain ⟨hextents, selections, hresolved, hresult, hoffsets⟩ := (resolveIndices_eq_ok_iff h hplain.1).mp hok
  obtain ⟨hnumel, hfits⟩ := numel_result h hresolved hresult
  rw [hnumel] at hoffsets
  have hvalid := selects_of_selectionOffsets h hplain hresolved hoffsets
  rw [selectionOffsets_of_selects h hvalid, Except.ok.injEq] at hoffsets
  refine ⟨_, hvalid, ?_, hoffsets.symm, by rw [hnumel, length_indices]⟩
  rw [SizesFit, length_indices]
  exact fun hmany => ⟨hextents hmany, hfits hmany⟩

theorem exists_resolveIndices (h : arguments ≠ []) (hplain : Plain (inputsOf shape arguments))
    {selected : List (List Nat)} (hvalid : Valid shape arguments selected)
    (hsizes : SizesFit shape arguments.length selected)
    : ∃ selection, resolveIndices shape arguments false = .ok selection := by
  obtain ⟨selections, hresolved, rfl⟩ : ∃ selections,
      List.Forall₂ Resolved (inputsOf shape arguments) selections ∧
        selections.map DimensionSelection.indices = selected := by
    refine ⟨List.zipWith (fun p indices => selectionOf p.1 p.2 indices) (inputsOf shape arguments) selected,
      ?_, ?_⟩
    . exact forall₂_zipWith_right hvalid fun _ _ hselects => .of_selects hselects
    . rw [List.map_zipWith]
      simp only [indices_selectionOf]
      exact zipWith_right hvalid.length_eq
  rw [SizesFit, length_indices] at hsizes
  obtain ⟨result, hresult, hnumel⟩ := exists_result_shape h hresolved fun hmany => (hsizes hmany).2
  have hoffsets := selectionOffsets_of_selects h hvalid
  rw [← hnumel] at hoffsets
  exact ⟨⟨_, result⟩, (resolveIndices_eq_ok_iff h hplain.1).mpr
    ⟨fun hmany => (hsizes hmany).1, selections, hresolved, hresult, hoffsets⟩⟩

theorem offsetsOf_lt (h : arguments ≠ []) {selected : List (List Nat)}
    (hvalid : Valid shape arguments selected)
    : ∀ offset ∈ offsetsOf shape selected, offset < shape.numel := by
  intro offset hoffset
  obtain ⟨subscripts, hmem, rfl⟩ := List.mem_map.mp hoffset
  exact Shape.offsetForSubscripts_lt (offsetForSubscripts_of_mem_columnMajor h hvalid hmem)

end Selection

/--
Subscripts resolve wherever they are valid and the sizes fit, and the offsets are those of the tuples of
the selected indices in column-major order: one for each element of the result, all of them in the array.
-/
theorem resolveIndices_correct (shape : Shape) (arguments : List (IndexInput P)) (h : arguments ≠ [])
    (hplain : Plain (inputsOf shape arguments))
    : ((∃ selection, resolveIndices shape arguments false = .ok selection) ↔
        ∃ selected, Valid shape arguments selected ∧ SizesFit shape arguments.length selected) ∧
      ∀ selection, resolveIndices shape arguments false = .ok selection →
        ∃ selected, Valid shape arguments selected ∧ selection.offsets = offsetsOf shape selected ∧
          (∀ offset ∈ selection.offsets, offset < shape.numel) ∧
          selection.offsets.length = selection.shape.numel := by
  refine ⟨⟨?_, ?_⟩, ?_⟩
  . rintro ⟨selection, hok⟩
    obtain ⟨selected, hvalid, hsizes, -⟩ := valid_of_resolveIndices h hplain hok
    exact ⟨selected, hvalid, hsizes⟩
  . rintro ⟨selected, hvalid, hsizes⟩
    exact exists_resolveIndices h hplain hvalid hsizes
  . intro selection hok
    obtain ⟨selected, hvalid, -, hoffsets, hnumel⟩ := valid_of_resolveIndices h hplain hok
    refine ⟨selected, hvalid, hoffsets, ?_, ?_⟩
    . rw [hoffsets]
      exact offsetsOf_lt h hvalid
    . rw [hoffsets, length_offsetsOf, hnumel]

def threeByTwo : Shape := .matrix 3 2

def threeByOne : Shape := .matrix 3 1

def twoByTwo : Shape := .matrix 2 2

def oneByTwo : Shape := .matrix 1 2

/-- A mask of the first row and the last one, and both columns in the reverse order. -/
def rowsAndColumns : List (IndexInput noPayloads) :=
  [.value (.array (.logical ⟨threeByOne, [true, false, true], by decide⟩)),
    .value (.array (.f64 ⟨oneByTwo, [0x4000000000000000, 0x3ff0000000000000], by decide⟩))]

theorem resolveIndices_correct_rowsAndColumns
    : ∃ selection, resolveIndices threeByTwo rowsAndColumns false = .ok selection ∧
        selection.offsets = [3, 5, 0, 2] ∧ selection.offsets.length = selection.shape.numel ∧
        ∃ selected, Valid threeByTwo rowsAndColumns selected := by
  have hplain : Plain (inputsOf threeByTwo rowsAndColumns) := by
    constructor
    . rintro p hp ⟨hextent, -⟩
      fin_cases hp <;> exact absurd hextent (by decide)
    . rintro ⟨⟨p, hp, hextent, -⟩, -⟩
      fin_cases hp <;> exact absurd hextent (by decide)
  have hok : resolveIndices threeByTwo rowsAndColumns false = .ok ⟨[3, 5, 0, 2], twoByTwo⟩ := by rfl
  obtain ⟨-, hselected⟩ := resolveIndices_correct threeByTwo rowsAndColumns (List.cons_ne_nil _ _) hplain
  obtain ⟨selected, hvalid, -, -, hlength⟩ := hselected _ hok
  exact ⟨_, hok, rfl, hlength, selected, hvalid⟩

def zeroByZero : Shape := .matrix 0 0

def emptySubscript : IndexInput noPayloads := .value (.array (.f64 ⟨zeroByZero, [], by decide⟩))

theorem selects_emptySubscript (extent : Nat)
    : Selects emptySubscript extent [] :=
  ⟨⟨_, rfl, .nil⟩, nofun⟩

def oneByZero : Shape := .matrix 1 0

/-- Without elements, but with more than two dimensions that are large. -/
def hollow : Shape where
  dimensions := [0, 2 ^ 40, 2 ^ 40]
  canonical := by decide
  products_lt := Arrays.products_lt_iff.mpr (by decide)

def noRows : Shape := .matrix 0 5

def noColumns : Shape where
  dimensions := [2 ^ 64 - 1, 0]
  canonical := by decide
  products_lt := Arrays.products_lt_iff.mpr (by decide)

/--
The sizes can be too large for subscripts that are valid. A true element passes over an extent of zero, and a
number that cannot be represented passes over the largest extent, where another subscript is empty.
-/
theorem resolveIndices_counterexample
    : (Valid hollow [emptySubscript, emptySubscript] [[], []] ∧
        resolveIndices hollow [emptySubscript, emptySubscript] false = .error arraySizeError) ∧
      ((∃ selection, resolveIndices noRows [.value (.logical true), emptySubscript] false = .ok selection) ∧
        ¬ ∃ selected, Valid noRows [.value (.logical true), emptySubscript] selected) ∧
      ((∃ selection, resolveIndices noColumns [.value (.double 0x43f0000000000000), emptySubscript] false =
          .ok selection) ∧
        ¬ ∃ selected, Valid noColumns [.value (.double 0x43f0000000000000), emptySubscript] selected) := by
  refine ⟨⟨?_, rfl⟩, ⟨⟨⟨[], oneByZero⟩, rfl⟩, ?_⟩, ⟨⟨⟨[], oneByZero⟩, rfl⟩, ?_⟩⟩
  . exact .cons (selects_emptySubscript _) (.cons (selects_emptySubscript _) .nil)
  . rintro ⟨selected, h⟩
    obtain ⟨indices, -, ⟨⟨view, hview, hlists⟩, hrange⟩, -, -⟩ := List.forall₂_cons_left_iff.mp h
    cases hview
    obtain ⟨-, rfl⟩ := hlists
    exact absurd (hrange 1 (by decide)).2 (by decide)
  . rintro ⟨selected, h⟩
    obtain ⟨indices, -, ⟨⟨view, hview, hlists⟩, hrange⟩, -, -⟩ := List.forall₂_cons_left_iff.mp h
    cases hview
    obtain ⟨index, _, ⟨number, hnumber, his⟩, _, rfl⟩ := List.forall₂_cons_left_iff.mp hlists
    cases hnumber
    have hindex := (hrange index List.mem_cons_self).2
    have hdecode : FloatFormat.double.decode (0x43f0000000000000 : Values.F64).toNat =
        .finite false (2 ^ 64) 0 := by decide
    have heq : 2 ^ 64 = index * 2 ^ 0 := (hdecode ▸ his).2
    have hextent : index ≤ 2 ^ 64 - 1 := hindex
    omega

end Indexing
end OpenMat
