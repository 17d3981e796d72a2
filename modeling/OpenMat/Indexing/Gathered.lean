import OpenMat.Arrays.Elements
import OpenMat.Indexing.Assigned

/-!
This module contains the correctness of indexing: what is gathered, and that it is what has been assigned with
the same subscripts.
-/

namespace OpenMat
namespace Indexing

open Arrays (Shape DenseArray)
open Values (F32 F64 ComplexValue CharCodeUnit IntegerType IntegerArrayData ArrayData)
open Sequence (writeAll columnMajor length_columnMajor writeAll_append_cons)

variable {P : Payloads} {α : Type}

/-- What is gathered has the elements at the selected offsets. -/
structure Gathered (held : Contents) (selection : ResolvedSelection) (gathered : Contents) : Prop where
  elementClass : gathered.elementClass = held.elementClass
  complex : gathered.complex = held.complex
  shape : gathered.shape = selection.shape
  elements (position : Nat) : gathered.elements[position]? =
    selection.offsets[position]?.bind fun offset => held.elements[offset]?

section Gathered

variable {selection : ResolvedSelection} (cls : ElementClass) (complex : Bool) (read : α → Element)
  {array : DenseArray α}

theorem exists_gatherElements {source : Nat → Except RuntimeErrorKind α} {offsets : List Nat}
    (h : ∀ offset ∈ offsets, ∃ value, source offset = .ok value)
    : ∃ values, gatherElements source false offsets = .ok values ∧
        List.Forall₂ (fun offset value => source offset = .ok value) offsets values := by
  have hloop : gatherElements source false offsets = offsets.zipIdx.mapM fun p => source p.1 := by
    rw [gatherElements]
    simp only [checkCancelled_false]
    rfl
  have hzip : ∀ p ∈ offsets.zipIdx, ∃ value, source p.1 = .ok value := by
    intro p hp
    exact h p.1 (List.fst_mem_of_mem_zipIdx hp)
  obtain ⟨values, hvalues⟩ := exists_mapM_eq_ok hzip
  refine ⟨values, hloop.trans hvalues, ?_⟩
  rw [← List.zipIdx_map_fst 0 offsets, List.forall₂_map_left_iff]
  exact forall₂_of_mapM_eq_ok.mp hvalues

/-- The elements at the offsets that have been read. -/
theorem gathered_of_forall₂ {values : List α}
    (h : List.Forall₂ (fun offset value => elementAt array offset = .ok value) selection.offsets values)
    (hnumel : selection.offsets.length = selection.shape.numel)
    : ∃ result, withShape selection.shape values = .ok result ∧
        Gathered (denseContents cls complex read array) selection (denseContents cls complex read result) := by
  have hlength : values.length = selection.shape.numel := h.length_eq ▸ hnumel
  refine ⟨⟨selection.shape, values, hlength⟩, mapError_eq_ok_iff.mpr (dif_pos hlength), rfl, rfl, rfl, ?_⟩
  intro position
  show (values.map read)[position]? = selection.offsets[position]?.bind fun offset => (array.data.map read)[offset]?
  rw [List.getElem?_map]
  by_cases hlt : position < selection.offsets.length
  . have hlt' : position < values.length := h.length_eq ▸ hlt
    have hat := okOr_eq_ok_iff.mp (h.get hlt hlt')
    rw [List.getElem?_eq_getElem hlt, List.getElem?_eq_getElem hlt', Option.bind_some, List.getElem?_map]
    rw [List.get_eq_getElem, List.get_eq_getElem] at hat
    rw [hat]
  . rw [List.getElem?_eq_none (Nat.le_of_not_lt hlt),
      List.getElem?_eq_none (h.length_eq ▸ Nat.le_of_not_lt hlt)]
    rfl

theorem exists_gatherExactArray (hoffsets : ∀ offset ∈ selection.offsets, offset < array.shape.numel)
    (hnumel : selection.offsets.length = selection.shape.numel)
    : ∃ result, gatherExactArray array selection false = .ok result ∧
        Gathered (denseContents cls complex read array) selection (denseContents cls complex read result) := by
  have hsource : ∀ offset ∈ selection.offsets, ∃ value, elementAt array offset = .ok value := by
    intro offset hoffset
    obtain ⟨a, ha⟩ := exists_getElem? array (hoffsets offset hoffset)
    exact ⟨a, by rw [elementAt, ha]; rfl⟩
  obtain ⟨values, hvalues, hread⟩ := exists_gatherElements hsource
  obtain ⟨result, hresult, hgathered⟩ := gathered_of_forall₂ cls complex read hread hnumel
  refine ⟨result, ?_, hgathered⟩
  rw [gatherExactArray, checkCancelled_false]
  simp only [bind, Except.bind, hvalues]
  exact hresult

/-- A single element is read as a scalar. -/
theorem exists_scalar {offset : Nat} (hoffset : selection.offsets = [offset]) (hlt : offset < array.shape.numel)
    (hnumel : selection.offsets.length = selection.shape.numel)
    : ∃ a, elementAt array offset = .ok a ∧
        Gathered (denseContents cls complex read array) selection (denseContents cls complex read (scalarArray a)) := by
  obtain ⟨a, ha⟩ := exists_getElem? array hlt
  have hat : elementAt array offset = .ok a := by rw [elementAt, ha]; rfl
  have hone : selection.shape.numel = 1 := by rw [← hnumel, hoffset]; rfl
  refine ⟨a, hat, ?_⟩
  have hread : List.Forall₂ (fun offset value => elementAt array offset = .ok value) selection.offsets [a] := by
    rw [hoffset]
    exact .cons hat .nil
  obtain ⟨result, hresult, hgathered⟩ := gathered_of_forall₂ cls complex read hread hnumel
  have hscalar : result = scalarArray a := by
    obtain ⟨hshape, hdata⟩ := DenseArray.fromVec_eq_ok_iff.mp (mapError_eq_ok_iff.mp hresult)
    exact DenseArray.ext (hshape.trans (Shape.eq_scalar_of_numel hone)) hdata
  rwa [hscalar] at hgathered

/-- A scalar is read at its only offset. -/
theorem exists_gatherFilled (value : α) (hoffsets : ∀ offset ∈ selection.offsets, offset < 1)
    (hnumel : selection.offsets.length = selection.shape.numel)
    : ∃ result, gatherFilled value selection false = .ok result ∧
        Gathered (denseContents cls complex read (scalarArray value)) selection
          (denseContents cls complex read result) := by
  have hread : List.Forall₂ (fun offset a => elementAt (scalarArray value) offset = .ok a) selection.offsets
      (List.replicate selection.offsets.length value) := by
    rw [List.forall₂_iff_get]
    refine ⟨by rw [List.length_replicate], fun i hi _ => ?_⟩
    have hzero := hoffsets _ (List.get_mem selection.offsets ⟨i, hi⟩)
    obtain hzero := Nat.lt_one_iff.mp hzero
    rw [hzero, List.get_eq_getElem, List.getElem_replicate]
    rfl
  exact gathered_of_forall₂ cls complex read hread hnumel

/-- Numbers and logical values are read as scalars where one element is selected. -/
theorem exists_gather {view : NumericView} (scalar : α → Value P) (dense : DenseArray α → ArrayData)
    (many : ResolvedSelection → Except RuntimeErrorKind (DenseArray α))
    (hscalar : ∀ a, contents (scalar a) = some (denseContents cls complex read (scalarArray a)))
    (hdense : ∀ array, arrayContents (dense array) = denseContents cls complex read array)
    (hone : ∀ offset shape, offset < array.shape.numel →
      gather view ⟨[offset], shape⟩ false = (elementAt array offset).map scalar)
    (hnone : ∀ shape, gather view ⟨[], shape⟩ false =
      (many ⟨[], shape⟩).map fun array => (.array (dense array) : Value P))
    (hmany : ∀ first second rest shape, gather view ⟨first :: second :: rest, shape⟩ false =
      (many ⟨first :: second :: rest, shape⟩).map fun array => (.array (dense array) : Value P))
    (hoffsets : ∀ offset ∈ selection.offsets, offset < array.shape.numel)
    (hnumel : selection.offsets.length = selection.shape.numel)
    (hgathered : ∃ result, many selection = .ok result ∧
      Gathered (denseContents cls complex read array) selection (denseContents cls complex read result))
    : ∃ result gathered, gather view selection false = .ok (result : Value P) ∧ contents result = some gathered ∧
        Gathered (denseContents cls complex read array) selection gathered := by
  obtain ⟨result, hresult, hgathered⟩ := hgathered
  have harray : contents (.array (dense result) : Value P) = some (denseContents cls complex read result) := by
    rw [contents, hdense]
  obtain ⟨offsets, shape⟩ := selection
  rcases offsets with _ | ⟨first, _ | ⟨second, rest⟩⟩
  . exact ⟨_, _, by rw [hnone, hresult]; rfl, harray, hgathered⟩
  . have hlt : first < array.shape.numel := hoffsets first List.mem_cons_self
    obtain ⟨a, ha, hsingle⟩ := exists_scalar cls complex read rfl hlt hnumel
    exact ⟨scalar a, _, by rw [hone first shape hlt, ha]; rfl, hscalar a, hsingle⟩
  . exact ⟨_, _, by rw [hmany, hresult]; rfl, harray, hgathered⟩

end Gathered

/-! The values of each class. -/

section Views

variable {selection : ResolvedSelection}

theorem exists_gathered_view (view : NumericView) (hoffsets : ∀ offset ∈ selection.offsets, offset < view.shape.numel)
    (hnumel : selection.offsets.length = selection.shape.numel)
    : ∃ result gathered, gather view selection false = .ok (result : Value P) ∧ contents result = some gathered ∧
        Gathered (arrayContents view.stored) selection gathered := by
  cases view with
  | logicalScalar value =>
    refine exists_gather .logical false .logical .logical .logical (gatherFilled value · false)
      (fun _ => rfl) (fun _ => rfl) ?_ (fun _ => rfl) (fun _ _ _ _ => rfl) hoffsets hnumel
      (exists_gatherFilled _ _ _ value hoffsets hnumel)
    intro offset shape hlt
    obtain rfl := Nat.lt_one_iff.mp hlt
    rfl
  | realScalar value =>
    refine exists_gather .double false realDouble .double .f64 (gatherFilled value · false)
      (fun _ => rfl) (fun _ => rfl) ?_ (fun _ => rfl) (fun _ _ _ _ => rfl) hoffsets hnumel
      (exists_gatherFilled _ _ _ value hoffsets hnumel)
    intro offset shape hlt
    obtain rfl := Nat.lt_one_iff.mp hlt
    rfl
  | complexScalar value =>
    refine exists_gather .double true .double .complex .complexF64 (gatherFilled value · false)
      (fun _ => rfl) (fun _ => rfl) ?_ (fun _ => rfl) (fun _ _ _ _ => rfl) hoffsets hnumel
      (exists_gatherFilled _ _ _ value hoffsets hnumel)
    intro offset shape hlt
    obtain rfl := Nat.lt_one_iff.mp hlt
    rfl
  | logicalArray array =>
    exact exists_gather .logical false .logical .logical .logical (gatherExactArray array · false)
      (fun _ => rfl) (fun _ => rfl) (fun _ _ _ => rfl) (fun _ => rfl) (fun _ _ _ _ => rfl) hoffsets hnumel
      (exists_gatherExactArray _ _ _ hoffsets hnumel)
  | realArray array =>
    exact exists_gather .double false realDouble .double .f64 (gatherExactArray array · false)
      (fun _ => rfl) (fun _ => rfl) (fun _ _ _ => rfl) (fun _ => rfl) (fun _ _ _ _ => rfl) hoffsets hnumel
      (exists_gatherExactArray _ _ _ hoffsets hnumel)
  | complexArray array =>
    exact exists_gather .double true .double .complex .complexF64 (gatherExactArray array · false)
      (fun _ => rfl) (fun _ => rfl) (fun _ _ _ => rfl) (fun _ => rfl) (fun _ _ _ _ => rfl) hoffsets hnumel
      (exists_gatherExactArray _ _ _ hoffsets hnumel)

/-- The values that are read as arrays, whatever is selected. -/
theorem exists_gathered_array {cls : ElementClass} {complex : Bool} {read : α → Element} {array : DenseArray α}
    {wrap : DenseArray α → Value P} {outcome : Except RuntimeErrorKind (Value P)}
    (houtcome : outcome = (gatherExactArray array selection false).map wrap)
    (hwrap : ∀ array, contents (wrap array) = some (denseContents cls complex read array))
    (hoffsets : ∀ offset ∈ selection.offsets, offset < array.shape.numel)
    (hnumel : selection.offsets.length = selection.shape.numel)
    : ∃ result gathered, outcome = .ok result ∧ contents result = some gathered ∧
        Gathered (denseContents cls complex read array) selection gathered := by
  obtain ⟨result, hresult, hgathered⟩ := exists_gatherExactArray cls complex read hoffsets hnumel
  exact ⟨wrap result, _, by rw [houtcome, hresult]; rfl, hwrap result, hgathered⟩

theorem exists_gatherString (strings : StringValue)
    (hoffsets : ∀ offset ∈ selection.offsets, offset < strings.owned.shape.numel)
    (hnumel : selection.offsets.length = selection.shape.numel)
    : ∃ result, gatherString strings selection false = .ok result ∧
        Gathered (denseContents .string false .string strings.owned) selection
          (denseContents .string false .string result.owned) := by
  have hsource : strings.elementOrPanic = elementAt strings.owned := funext (element_owned strings)
  obtain ⟨result, hresult, hgathered⟩ := exists_gatherExactArray .string false Element.string hoffsets hnumel
  have hmany : (do
      checkCancelled false 0
      let output ← gatherElements strings.elementOrPanic false selection.offsets
      let array ← withShape selection.shape output
      return .array array) = (gatherExactArray strings.owned selection false).map StringValue.array := by
    rw [hsource, gatherExactArray]
    cases gatherElements (elementAt strings.owned) false selection.offsets <;> rfl
  rw [gatherString.eq_def]
  split
  . next offset hoffset =>
    have hlt : offset < strings.owned.shape.numel := hoffsets offset (by rw [hoffset]; exact List.mem_cons_self)
    obtain ⟨a, ha, hsingle⟩ := exists_scalar .string false Element.string hoffset hlt hnumel
    exact ⟨.scalar a, by rw [hsource, ha]; rfl, hsingle⟩
  . exact ⟨.array result, by rw [hmany, hresult]; rfl, hgathered⟩

def ArrayView.contents : ArrayView → Contents
  | .numeric view => arrayContents view.stored
  | .singleReal array => arrayContents (.f32 array)
  | .singleComplex array => arrayContents (.complexF32 array)
  | .char array => arrayContents (.char array)
  | .integer integers => arrayContents (.integer integers)
  | .string strings => denseContents .string false .string strings.owned

theorem exists_gatherValue (view : ArrayView)
    (hoffsets : ∀ offset ∈ selection.offsets, offset < view.contents.shape.numel)
    (hnumel : selection.offsets.length = selection.shape.numel)
    : ∃ result gathered, gatherValue view selection false = .ok (result : Value P) ∧
        contents result = some gathered ∧ Gathered view.contents selection gathered := by
  cases view with
  | numeric view =>
    apply exists_gathered_view view ?_ hnumel
    cases view <;> exact hoffsets
  | singleReal array => exact exists_gathered_array rfl (fun _ => rfl) hoffsets hnumel
  | singleComplex array => exact exists_gathered_array rfl (fun _ => rfl) hoffsets hnumel
  | char array => exact exists_gathered_array rfl (fun _ => rfl) hoffsets hnumel
  | integer integers =>
    cases integers with
    | real type array => exact exists_gathered_array rfl (fun _ => rfl) hoffsets hnumel
    | complex type array => exact exists_gathered_array rfl (fun _ => rfl) hoffsets hnumel
  | string strings =>
    obtain ⟨result, hresult, hgathered⟩ := exists_gatherString strings hoffsets hnumel
    refine ⟨.string result, _, ?_, rfl, hgathered⟩
    rw [gatherValue, hresult]
    rfl

end Views

/-! As many elements are selected as the result has. -/

section Sizes

variable {shape : Shape} {arguments : List (IndexInput P)}

/-- Numbers are as many as their array has elements. -/
theorem length_of_resolveDimension {input : IndexInput P} {extent argument : Nat} {selection : DimensionSelection}
    (h : resolveDimension input extent argument false = .ok selection) (hcolon : selection.colon = false)
    (hlogical : selection.logical = false)
    : selection.sourceShape.prod = selection.indices.length := by
  cases input with
  | colon =>
    obtain ⟨_, -, h⟩ := bind_eq_ok_iff.mp h
    obtain ⟨indices, -, h⟩ := bind_eq_ok_iff.mp h
    cases h
    cases hcolon
  | value value =>
    obtain ⟨view, -, h⟩ := bind_eq_ok_iff.mp h
    obtain ⟨indices, hindices, h⟩ := bind_eq_ok_iff.mp h
    cases h
    have hnumeric : ¬ view.isLogical = true := Bool.eq_false_iff.mp hlogical
    rw [resolveView, if_neg hnumeric, checkCancelled_false] at hindices
    obtain ⟨_, -, hindices⟩ := bind_eq_ok_iff.mp hindices
    rw [numericIndices, forall₂_of_mapM_eq_ok] at hindices
    rw [← hindices.length_eq, List.length_range]
    rfl

theorem prod_linearResultDimensions {selection : DimensionSelection}
    (h : selection.colon = false → selection.logical = false → selection.sourceShape.prod = selection.indices.length)
    : (linearResultDimensions shape selection).prod = selection.indices.length := by
  rw [linearResultDimensions]
  split
  . simp
  . next hcolon =>
    split
    . split <;> simp
    . split
      . simp
      . next hlogical => exact h (by simpa using hcolon) (by simpa using hlogical)

theorem exists_resolveDimension {inputs : List (IndexInput P × Nat)} {argument : Nat}
    {selection : DimensionSelection} (h : resolveDimensions false argument inputs = .ok [selection])
    : ∃ (input : IndexInput P) (extent : Nat), resolveDimension input extent argument false = .ok selection := by
  cases inputs with
  | nil => cases h
  | cons p inputs =>
    obtain ⟨input, extent⟩ := p
    obtain ⟨first, hfirst, h⟩ := bind_eq_ok_iff.mp h
    obtain ⟨rest, -, h⟩ := bind_eq_ok_iff.mp h
    cases h
    exact ⟨input, extent, hfirst⟩

theorem length_offsets {selection : ResolvedSelection} (h : resolveIndices shape arguments false = .ok selection)
    : selection.offsets.length = selection.shape.numel := by
  obtain ⟨selections, hselections, hshape, hoffsets⟩ := resolveIndices_eq_ok h
  have hnumel : selection.shape.numel = (resultDimensions shape selections).prod := by
    rw [Shape.numel, Shape.new_eq_ok_iff.mp hshape, Arrays.prod_canonicalDimensions]
  by_cases hsingle : ∃ single, selections = [single]
  . obtain ⟨single, rfl⟩ := hsingle
    obtain ⟨input, extent, hresolved⟩ := exists_resolveDimension hselections
    obtain ⟨-, hlinear⟩ := linearOffsets_eq_ok_iff.mp hoffsets
    rw [hnumel, hlinear, List.length_map, resultDimensions,
      prod_linearResultDimensions (length_of_resolveDimension hresolved)]
  . have hne single (heq : selections = [single]) := hsingle ⟨single, heq⟩
    rw [resultDimensions_of_ne hne] at hnumel
    rw [hnumel, selectionOffsets.eq_def] at hoffsets
    split at hoffsets
    . exact absurd rfl (hne _)
    . rw [productOffsets_range_eq_ok_iff] at hoffsets
      rw [hnumel, ← hoffsets.length_eq, length_columnMajor, List.map_map]
      rfl

end Sizes

/-! What is read after an assignment. -/

/-- The position is the last one at which its element is selected. -/
def IsLast (offsets : List Nat) (position : Nat) : Prop :=
  ∃ offset, offsets[position]? = some offset ∧ offset ∉ offsets.drop (position + 1)

theorem zipIdx_split {l : List α} {i : Nat} (h : i < l.length)
    : l.zipIdx = (l.take i).zipIdx ++ (l[i], i) :: (l.drop (i + 1)).zipIdx (i + 1) := by
  have hlength : (l.take i).length = i := List.length_take_of_le (Nat.le_of_lt h)
  have hsplit : l = l.take i ++ l[i] :: l.drop (i + 1) := by
    rw [List.getElem_cons_drop, List.take_append_drop]
  conv_lhs => rw [hsplit, List.zipIdx_append, List.zipIdx_cons, hlength, Nat.zero_add]

/-- The last write to an element stays. -/
theorem writeAll_writesOf (contents : Nat → Option Element) (cls : ElementClass) (supplied : List Element)
    {offsets : List Nat} {position offset : Nat} (hoffset : offsets[position]? = some offset)
    (hlast : offset ∉ offsets.drop (position + 1))
    : writeAll contents (writesOf cls supplied offsets) offset =
        (suppliedAt supplied position).map (convertTo cls) := by
  obtain ⟨hlt, rfl⟩ := List.getElem?_eq_some_iff.mp hoffset
  rw [writesOf, zipIdx_split hlt, List.map_append, List.map_cons]
  apply writeAll_append_cons
  intro w hw heq
  obtain ⟨p, hp, rfl⟩ := List.mem_map.mp hw
  exact hlast (Eq.subst heq (List.fst_mem_of_mem_zipIdx hp))

theorem exists_arrayView {target : Value P} {held : Contents} (h : contents target = some held)
    (indexSparse : P.sparse → List (IndexInput P) → Bool → Except RuntimeErrorKind (Value P))
    (arguments : List (IndexInput P))
    : ∃ view : ArrayView, view.contents = held ∧ index indexSparse target arguments false =
        resolveIndices held.shape arguments false >>= fun selection => gatherValue view selection false := by
  simp only [← resolveIndexSelection_dimensions]
  cases target with
  | logical value =>
    cases h
    exact ⟨.numeric (.logicalScalar value), rfl, rfl⟩
  | double value =>
    cases h
    exact ⟨.numeric (.realScalar value), rfl, rfl⟩
  | complex value =>
    cases h
    exact ⟨.numeric (.complexScalar value), rfl, rfl⟩
  | string strings =>
    cases h
    exact ⟨.string strings, rfl, by cases strings <;> rfl⟩
  | array data =>
    cases h
    cases data with
    | f32 array => exact ⟨.singleReal array, rfl, rfl⟩
    | complexF32 array => exact ⟨.singleComplex array, rfl, rfl⟩
    | f64 array => exact ⟨.numeric (.realArray array), rfl, rfl⟩
    | complexF64 array => exact ⟨.numeric (.complexArray array), rfl, rfl⟩
    | logical array => exact ⟨.numeric (.logicalArray array), rfl, rfl⟩
    | char array => exact ⟨.char array, rfl, rfl⟩
    | integer integers => exact ⟨.integer integers, rfl, by cases integers <;> rfl⟩
  | _ => cases h

theorem exists_index {target : Value P} {held : Contents} (h : contents target = some held)
    (indexSparse : P.sparse → List (IndexInput P) → Bool → Except RuntimeErrorKind (Value P))
    {arguments : List (IndexInput P)} {selection : ResolvedSelection}
    (hselection : resolveIndices held.shape arguments false = .ok selection)
    : ∃ result gathered, index indexSparse target arguments false = .ok result ∧
        contents result = some gathered ∧ Gathered held selection gathered := by
  obtain ⟨view, rfl, hindex⟩ := exists_arrayView h indexSparse arguments
  rw [hindex, hselection]
  exact exists_gatherValue view (offsets_lt hselection) (length_offsets hselection)

/--
Indexing succeeds exactly where the subscripts resolve, and reads the elements at the selected offsets. After an
assignment with the same subscripts it reads, wherever an element is selected for the last time, the element
that has been supplied there, as the class stores it.
-/
theorem index_correct (indexSparse : P.sparse → List (IndexInput P) → Bool → Except RuntimeErrorKind (Value P))
    (target value : Value P) (arguments : List (IndexInput P)) {held : Contents} (h : contents target = some held)
    : ((∃ result, index indexSparse target arguments false = .ok result) ↔
        ∃ selection, resolveIndices held.shape arguments false = .ok selection) ∧
      ∀ selection, resolveIndices held.shape arguments false = .ok selection →
        (∃ result gathered, index indexSparse target arguments false = .ok result ∧
          contents result = some gathered ∧ Gathered held selection gathered) ∧
        ∀ assigned, indexAssign target arguments value false = .ok assigned →
          ∃ supplied result gathered, contents value = some supplied ∧
            index indexSparse assigned arguments false = .ok result ∧ contents result = some gathered ∧
            gathered.shape = selection.shape ∧ ∀ position, IsLast selection.offsets position →
              gathered.elements[position]? =
                (suppliedAt supplied.elements position).map (convertTo held.elementClass) := by
  refine ⟨⟨?_, ?_⟩, ?_⟩
  . rintro ⟨result, hresult⟩
    obtain ⟨view, rfl, hindex⟩ := exists_arrayView h indexSparse arguments
    rw [hindex] at hresult
    obtain ⟨selection, hselection, -⟩ := bind_eq_ok_iff.mp hresult
    exact ⟨selection, hselection⟩
  . rintro ⟨selection, hselection⟩
    obtain ⟨result, -, hresult, -⟩ := exists_index h indexSparse hselection
    exact ⟨result, hresult⟩
  . intro selection hselection
    refine ⟨exists_index h indexSparse hselection, ?_⟩
    intro assigned hassigned
    rw [indexAssign_contents h, hselection] at hassigned
    have hmeets : Meets held value selection.offsets (assignSelected target selection value false) :=
      meets_assignSelected h (offsets_lt hselection)
    obtain ⟨supplied, after, hsupplied, -, -, hafter, hspec⟩ := hmeets.assigned assigned hassigned
    rw [← hspec.shape] at hselection
    obtain ⟨result, gathered, hresult, hgathered, hread⟩ := exists_index hafter indexSparse hselection
    refine ⟨supplied, result, gathered, hsupplied, hresult, hgathered, hread.shape, ?_⟩
    rintro position ⟨offset, hoffset, hlast⟩
    rw [hread.elements, hoffset, Option.bind_some, hspec.elements]
    exact writeAll_writesOf _ _ _ hoffset hlast

def fourPowers : DenseArray F64 :=
  ⟨twoByTwo, [0x3ff0000000000000, 0x4000000000000000, 0x4010000000000000, 0x4020000000000000], by decide⟩

theorem index_correct_rowsAndColumns
    : ∃ assigned result gathered,
        indexAssign (.array (.f64 sixZeros)) rowsAndColumns (.array (.f64 fourPowers)) false = .ok assigned ∧
        index (fun sparse _ _ => Empty.elim sparse) assigned rowsAndColumns false = .ok result ∧
        contents result = some gathered ∧ gathered.elements[1]? = some (realDouble 0x4000000000000000) := by
  have hok : resolveIndices threeByTwo rowsAndColumns false = .ok ⟨[3, 5, 0, 2], twoByTwo⟩ := by rfl
  obtain ⟨assigned, hassigned⟩ : ∃ assigned,
      indexAssign (.array (.f64 sixZeros)) rowsAndColumns (.array (.f64 fourPowers)) false = .ok assigned :=
    ⟨_, rfl⟩
  obtain ⟨-, hread⟩ := index_correct (fun sparse _ _ => Empty.elim sparse) (.array (.f64 sixZeros))
    (.array (.f64 fourPowers)) rowsAndColumns rfl
  obtain ⟨supplied, result, gathered, hsupplied, hresult, hgathered, -, helements⟩ :=
    (hread _ hok).2 assigned hassigned
  refine ⟨assigned, result, gathered, hassigned, hresult, hgathered, ?_⟩
  rw [helements 1 ⟨5, rfl, by decide⟩]
  cases hsupplied
  rfl

end Indexing
end OpenMat
