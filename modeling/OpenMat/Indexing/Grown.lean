import OpenMat.Arrays.Elements
import OpenMat.Indexing.Gathered

/-!
This module contains the growth of a real array by an assignment beyond its end, and its correctness: the
elements keep their subscripts, and the other ones are zero until they are assigned.
-/

namespace OpenMat
namespace Indexing

open Arrays (Shape DenseArray canonicalDimensions canonicalDimensions_append)
open Arrays.Shape (InRange viewExtents)
open Values (F64)
open Sequence

variable {P : Payloads}

/-- `object` is an error of the assignment to objects. -/
inductive GrowthError where
  | runtime (kind : RuntimeErrorKind)
  | invalidState (message : String)
  | object (message : String)

/-- The largest of the numbers, unless there are none. -/
def numericAssignmentExtent (value : Value P) (cancelled : Bool) : Except RuntimeErrorKind (Option Nat) :=
  match IndexView.new value with
  | none => .ok none
  | some view =>
    if view.isLogical = true ∨ view.numel = 0 then
      .ok none
    else do
      let indices ← numericIndices view u64Max 0 cancelled
      return some (indices.foldl max 0)

/-- The product of the extents, unless it is zero. -/
def growthBase (operation : String) (extents : List Nat) : Except GrowthError Nat :=
  okOr ((extents.foldlM (checkedMul 64) 1).filter (· ≠ 0)) (.runtime (.array (.invalidOperand operation .array)))

def grownDimensions (dimensions : List Nat) (index : Nat) (operation : String) : Except GrowthError (List Nat) :=
  match dimensions with
  | [rows, columns] =>
    if rows = 0 ∧ columns = 0 then
      .ok [1, index]
    else if rows = 0 then
      .ok [1, max columns index]
    else if columns = 0 then
      .ok [max rows index, 1]
    else if rows = 1 then
      .ok [1, max columns index]
    else if columns = 1 then
      .ok [max rows index, 1]
    else
      .ok [rows, max columns (divCeil index rows)]
  | dimensions => do
    let last := dimensions.length - 1
    let base ← growthBase operation (dimensions.take last)
    return dimensions.set last (max (dimensions.getD last 1) (divCeil index base))

/-- The shape that has an element at a linear index. -/
def grownShape (shape : Shape) (index : Nat) (operation : String) : Except GrowthError Shape := do
  let dimensions ← grownDimensions shape.dimensions index operation
  let grown ← (Shape.new dimensions).mapError fun _ => .runtime arraySizeError
  ensure (¬ grown.numel ≤ shape.numel) (.invalidState "aggregate growth did not increase the target shape")
  return grown

/-- The loop over the subscripts with their extents. -/
def grownExtents (cancelled : Bool) : List (IndexInput P × Nat) → Except RuntimeErrorKind (Option (List Nat))
  | [] => .ok (some [])
  | (.colon, extent) :: inputs => do
    let extents ← grownExtents cancelled inputs
    return extents.map (extent :: ·)
  | (.value value, extent) :: inputs => do
    match ← numericAssignmentExtent value cancelled with
    | none => return none
    | some index =>
      let extents ← grownExtents cancelled inputs
      return extents.map (max extent index :: ·)

def grownShapeForScalarAndColon (shape : Shape) (arguments : List (IndexInput P)) (cancelled : Bool)
    : Except GrowthError (Option Shape) :=
  match arguments with
  | [.value value] => do
    match ← (numericAssignmentExtent value cancelled).mapError .runtime with
    | none => return none
    | some maximum =>
      if shape.numel < maximum then
        (grownShape shape maximum "indexed assignment growth").map some
      else
        return none
  | arguments =>
    if arguments.length < shape.ndims ∨ arguments.length ≤ 1 then
      .ok none
    else do
      let dimensions := shape.dimensions ++ List.replicate (arguments.length - shape.ndims) 1
      match ← (grownExtents cancelled (arguments.zip dimensions)).mapError .runtime with
      | none => return none
      | some extents =>
        if extents = dimensions then
          return none
        else
          ((Shape.new extents).mapError fun _ => .runtime arraySizeError).map some

/-- An element keeps its subscripts. -/
def placeElement (source shape : Shape) (values : List F64) (value : F64) (offset : Nat)
    : Except GrowthError (List F64) := do
  let subscripts ← (source.subscriptsForLinearIndex (offset + 1) shape.ndims).mapError
    fun _ => .runtime arraySizeError
  let destination ← (shape.offsetForSubscripts subscripts).mapError fun _ => .runtime arraySizeError
  ensure (destination < values.length) (.runtime .panics)
  return values.set destination value

/-- The loop over the elements. -/
def growDoubleArray (array : DenseArray F64) (shape : Shape) : Except GrowthError (DenseArray F64) := do
  let values ← array.data.zipIdx.foldlM (fun values p => placeElement array.shape shape values p.1 p.2)
    (List.replicate shape.numel 0)
  (DenseArray.fromVec shape values).mapError fun _ => .runtime arraySizeError

def isObjectValue : Value P → Bool
  | .table _ => true
  | .object _ => true
  | .objectArray _ => true
  | .graphics _ => true
  | .graphicsArray _ => true
  | _ => false

/-- An assignment to elements, which is neither one to objects nor one to a sparse array. -/
def assignsElements (target value : Value P) : Bool :=
  match target with
  | .sparse _ => false
  | .nothing => !isObjectValue value
  | target => !isObjectValue target

/-- A real array grows where the assignment to its elements fails. -/
def assignElements (target : Value P) (arguments : List (IndexInput P)) (value : Value P) (cancelled : Bool)
    : Except GrowthError (Value P) :=
  match indexAssign target arguments value cancelled with
  | .ok assigned => .ok assigned
  | .error original =>
    match target with
    | .array (.f64 target) => do
      match ← grownShapeForScalarAndColon target.shape arguments cancelled with
      | none => .error (.runtime original)
      | some shape =>
        let grown ← growDoubleArray target shape
        (indexAssign (.array (.f64 grown)) arguments value cancelled).mapError .runtime
    | _ => .error (.runtime original)

section Assignment

variable (indexAssignObject : Value P → List (IndexInput P) → Value P → Except GrowthError (Value P))
variable (assignSparse : P.sparse → List (IndexInput P) → Value P → Bool → Except RuntimeErrorKind (Value P))

/-- Objects and sparse arrays are assigned to in their own ways, which are left open. -/
def indexAssignValue (target : Value P) (arguments : List (IndexInput P)) (value : Value P) (cancelled : Bool)
    : Except GrowthError (Value P) :=
  if isObjectValue target || (target matches .nothing) && isObjectValue value then
    indexAssignObject target arguments value
  else
    match target with
    | .sparse sparse => (assignSparse sparse arguments value cancelled).mapError .runtime
    | target => assignElements target arguments value cancelled

theorem indexAssignValue_of_assignsElements {target value : Value P} (h : assignsElements target value = true)
    (arguments : List (IndexInput P)) (cancelled : Bool)
    : indexAssignValue indexAssignObject assignSparse target arguments value cancelled =
        assignElements target arguments value cancelled := by
  cases target <;> simp_all [indexAssignValue, assignsElements, isObjectValue]

end Assignment

/-! The grown shapes. -/

section Shapes

variable {shape grown : Shape} {dimensions extents : List Nat}

/-- No extent shrinks. -/
def Covers (shape grown : Shape) : Prop :=
  ∀ dimension, shape.extent dimension ≤ grown.extent dimension

theorem getD_append_ones (dimensions : List Nat) (count k : Nat)
    : (dimensions ++ List.replicate count 1).getD k 1 = dimensions.getD k 1 := by
  rw [List.getD_eq_getElem?_getD, List.getD_eq_getElem?_getD, List.getElem?_append]
  split
  . rfl
  . next hge =>
    rw [List.getElem?_eq_none (Nat.le_of_not_lt hge), List.getElem?_replicate]
    split <;> rfl

theorem extent_new (h : Shape.new dimensions = .ok shape) (hlength : 2 ≤ dimensions.length) (dimension : Nat)
    : shape.extent dimension = dimensions.getD dimension 1 := by
  obtain ⟨count, hcount⟩ := canonicalDimensions_append hlength
  rw [Shape.extent, Shape.new_eq_ok_iff.mp h]
  conv_rhs => rw [← hcount]
  exact (getD_append_ones _ _ _).symm

theorem covers_new (h : Shape.new dimensions = .ok grown) (hlength : 2 ≤ dimensions.length)
    (hle : ∀ dimension, shape.extent dimension ≤ dimensions.getD dimension 1)
    : Covers shape grown := by
  intro dimension
  rw [extent_new h hlength]
  exact hle dimension

theorem le_mul_divCeil (a : Nat) {b : Nat} (hb : 0 < b)
    : a ≤ b * divCeil a b := by
  have hmod := Nat.div_add_mod a b
  have hlt := Nat.mod_lt a hb
  rw [divCeil]
  split
  . rw [Nat.mul_add]
    omega
  . omega

theorem foldlM_checkedMul_eq_some {init product : Nat}
    (h : extents.foldlM (checkedMul 64) init = some product)
    : product = init * extents.prod := by
  induction extents generalizing init with
  | nil =>
    cases h
    exact (Nat.mul_one _).symm
  | cons extent extents ih =>
    rw [List.foldlM_cons] at h
    obtain ⟨next, hnext, h⟩ := Option.bind_eq_some_iff.mp h
    rw [ih h, ← (checkedMul_eq_some_iff.mp hnext).2, List.prod_cons, Nat.mul_assoc]

theorem grownDimensions_spec {index : Nat} {operation : String} (hlength : 2 ≤ extents.length)
    (h : grownDimensions extents index operation = .ok dimensions)
    : dimensions.length = extents.length ∧ (∀ k, extents.getD k 1 ≤ dimensions.getD k 1) ∧
        index ≤ dimensions.prod := by
  rw [grownDimensions.eq_def] at h
  split at h
  . next rows columns =>
    have hceil : rows ≠ 0 → index ≤ rows * max columns (divCeil index rows) := fun hrows =>
      Nat.le_trans (le_mul_divCeil index (Nat.pos_of_ne_zero hrows)) (Nat.mul_le_mul_left _ (Nat.le_max_right _ _))
    repeat' split at h
    all_goals
      cases h
      refine ⟨rfl, fun k => ?_, ?_⟩
      . rcases k with _ | _ | k <;> simp <;> omega
      . simp <;> omega
  . obtain ⟨base, hbase, h⟩ := bind_eq_ok_iff.mp h
    cases h
    have hlast : extents.length - 1 < extents.length := by omega
    obtain ⟨hproduct, hpos⟩ := Option.filter_eq_some_iff.mp (okOr_eq_ok_iff.mp hbase)
    have hprod := foldlM_checkedMul_eq_some hproduct
    rw [Nat.one_mul] at hprod
    refine ⟨List.length_set, fun k => ?_, ?_⟩
    . rw [List.getD_eq_getElem?_getD, List.getD_eq_getElem?_getD]
      by_cases hk : extents.length - 1 = k
      . subst hk
        rw [List.getElem?_set_self hlast, ← List.getD_eq_getElem?_getD]
        exact Nat.le_max_left _ _
      . rw [List.getElem?_set_ne hk]
    . rw [List.set_eq_take_append_cons_drop, if_pos hlast, List.prod_append, List.prod_cons, ← hprod,
        List.drop_of_length_le (by omega), List.prod_nil, Nat.mul_one]
      refine Nat.le_trans (le_mul_divCeil index (Nat.pos_of_ne_zero (of_decide_eq_true hpos))) ?_
      exact Nat.mul_le_mul_left _ (Nat.le_max_right _ _)

theorem grownShape_spec {index : Nat} {operation : String} (h : grownShape shape index operation = .ok grown)
    : Covers shape grown ∧ index ≤ grown.numel := by
  obtain ⟨dimensions, hdimensions, h⟩ := bind_eq_ok_iff.mp h
  obtain ⟨new, hnew, h⟩ := bind_eq_ok_iff.mp h
  obtain ⟨_, -, h⟩ := bind_eq_ok_iff.mp h
  cases h
  have hnew := mapError_eq_ok_iff.mp hnew
  obtain ⟨hlength, hle, hindex⟩ := grownDimensions_spec shape.two_le_ndims hdimensions
  rw [← Arrays.prod_canonicalDimensions, ← Shape.new_eq_ok_iff.mp hnew] at hindex
  exact ⟨covers_new hnew (hlength ▸ shape.two_le_ndims) hle, hindex⟩

/-- The extent that a subscript needs. -/
def Needs (p : IndexInput P × Nat) (extent : Nat) : Prop :=
  match p.1 with
  | .colon => extent = p.2
  | .value value => ∃ index, numericAssignmentExtent value false = .ok (some index) ∧ extent = max p.2 index

theorem Needs.le {p : IndexInput P × Nat} {extent : Nat} (h : Needs p extent)
    : p.2 ≤ extent := by
  obtain ⟨input, old⟩ := p
  cases input with
  | colon => exact Nat.le_of_eq h.symm
  | value value =>
    obtain ⟨index, -, rfl⟩ := h
    exact Nat.le_max_left _ _

theorem grownExtents_spec {inputs : List (IndexInput P × Nat)}
    (h : grownExtents false inputs = .ok (some extents))
    : List.Forall₂ Needs inputs extents := by
  induction inputs generalizing extents with
  | nil =>
    cases h
    exact .nil
  | cons p inputs ih =>
    obtain ⟨input, extent⟩ := p
    cases input with
    | colon =>
      obtain ⟨rest, hrest, h⟩ := bind_eq_ok_iff.mp h
      obtain ⟨rest, rfl, rfl⟩ := Option.map_eq_some_iff.mp (Except.ok.inj h)
      exact .cons rfl (ih hrest)
    | value value =>
      obtain ⟨index, hindex, h⟩ := bind_eq_ok_iff.mp h
      cases index with
      | none => cases h
      | some index =>
        obtain ⟨rest, hrest, h⟩ := bind_eq_ok_iff.mp h
        obtain ⟨rest, rfl, rfl⟩ := Option.map_eq_some_iff.mp (Except.ok.inj h)
        exact .cons ⟨index, hindex, rfl⟩ (ih hrest)

theorem getD_le_of_forall₂ (h : List.Forall₂ (· ≤ ·) dimensions extents) (k : Nat)
    : dimensions.getD k 1 ≤ extents.getD k 1 := by
  induction h generalizing k with
  | nil => exact Nat.le_refl _
  | cons hle _ ih =>
    cases k with
    | zero => exact hle
    | succ k => exact ih k

/-- The shape has what the subscripts need: no less, and with more than one subscript no more. -/
structure GrownFor (arguments : List (IndexInput P)) (shape grown : Shape) : Prop where
  covers : Covers shape grown
  linear (value : Value P) (h : arguments = [.value value])
    : ∃ maximum, numericAssignmentExtent value false = .ok (some maximum) ∧ shape.numel < maximum ∧
        maximum ≤ grown.numel
  extents (h : arguments.length ≠ 1)
    : List.Forall₂ Needs (arguments.zip (padded shape.dimensions arguments.length))
        (padded grown.dimensions arguments.length)

theorem grownFor_linear {value : Value P} {maximum : Nat}
    (hmaximum : numericAssignmentExtent value false = .ok (some maximum)) (hlt : shape.numel < maximum)
    (h : grownShape shape maximum "indexed assignment growth" = .ok grown)
    : GrownFor [.value value] shape grown := by
  obtain ⟨hcovers, hle⟩ := grownShape_spec h
  refine ⟨hcovers, ?_, fun hone => absurd rfl hone⟩
  rintro _ ⟨⟩
  exact ⟨maximum, hmaximum, hlt, hle⟩

theorem grownFor_extents {arguments : List (IndexInput P)} (hcount : shape.ndims ≤ arguments.length)
    (hextents : List.Forall₂ Needs (arguments.zip (padded shape.dimensions arguments.length)) extents)
    (hnew : Shape.new extents = .ok grown)
    : GrownFor arguments shape grown := by
  have htwo := shape.two_le_ndims
  have hlength : extents.length = arguments.length := by
    rw [← hextents.length_eq, List.length_zip, length_padded, Nat.min_self]
  have hpadded : padded grown.dimensions arguments.length = extents := by
    rw [Shape.new_eq_ok_iff.mp hnew, ← hlength, Arrays.padded_canonicalDimensions (by omega)]
  refine ⟨covers_new hnew (by omega) fun k => ?_, ?_, fun _ => hpadded.symm ▸ hextents⟩
  . have hle : List.Forall₂ (· ≤ ·) (padded shape.dimensions arguments.length) extents := by
      rw [← @List.map_snd_zip _ _ arguments (padded shape.dimensions arguments.length) (by rw [length_padded]),
        List.forall₂_map_left_iff]
      exact hextents.imp fun _ _ h => h.le
    have hk := getD_le_of_forall₂ hle k
    rwa [padded_eq_append hcount, getD_append_ones] at hk
  . rintro value rfl
    rw [List.length_singleton] at hcount
    omega

theorem grownFor_of_grown {arguments : List (IndexInput P)}
    (h : grownShapeForScalarAndColon shape arguments false = .ok (some grown))
    : GrownFor arguments shape grown := by
  rw [grownShapeForScalarAndColon.eq_def] at h
  split at h
  . obtain ⟨maximum, hmaximum, h⟩ := bind_eq_ok_iff.mp h
    cases maximum with
    | none => cases h
    | some maximum =>
      simp only at h
      split at h
      . next hlt =>
        cases hgrown : grownShape shape maximum "indexed assignment growth" with
        | error error =>
          rw [hgrown] at h
          cases h
        | ok new =>
          rw [hgrown] at h
          cases h
          exact grownFor_linear (mapError_eq_ok_iff.mp hmaximum) hlt hgrown
      . cases h
  . split at h
    . cases h
    . next hcount =>
      obtain ⟨found, hfound, h⟩ := bind_eq_ok_iff.mp h
      cases found with
      | none => cases h
      | some extents =>
        simp only at h
        split at h
        . cases h
        . have hrank : shape.ndims ≤ arguments.length := by omega
          have hextents := grownExtents_spec (mapError_eq_ok_iff.mp hfound)
          have hpadded : shape.dimensions ++ List.replicate (arguments.length - shape.ndims) 1 =
              padded shape.dimensions arguments.length := (padded_eq_append hrank).symm
          rw [hpadded] at hextents
          cases hnew : Shape.new extents with
          | error error =>
            rw [hnew] at h
            cases h
          | ok new =>
            rw [hnew] at h
            cases h
            exact grownFor_extents hrank hextents hnew

/-- Where there are elements no dimension is dropped. -/
theorem ndims_le_of_covers (h : Covers shape grown) (hpos : 0 < shape.numel)
    : shape.ndims ≤ grown.ndims := by
  by_contra hlt
  rw [Nat.not_le] at hlt
  have htwo := grown.two_le_ndims
  have hlast : shape.dimensions.length - 1 < shape.dimensions.length := by
    simp only [Shape.ndims] at hlt
    omega
  have hone : shape.dimensions[shape.dimensions.length - 1] = 1 := by
    have hle := h (shape.dimensions.length - 1)
    have hne : shape.dimensions[shape.dimensions.length - 1] ≠ 0 := fun hzero =>
      absurd (List.prod_eq_zero (hzero ▸ List.getElem_mem hlast)) (Nat.ne_of_gt hpos)
    rw [Shape.extent, Shape.extent, List.getD_eq_getElem _ _ hlast, List.getD_eq_default] at hle
    . omega
    . simp only [Shape.ndims] at hlt
      omega
  -- the last extent would have been dropped
  have hsplit := (List.dropLast_append_getLast (List.ne_nil_of_length_pos (Nat.zero_lt_of_lt hlast))).symm
  rw [List.getLast_eq_getElem, hone] at hsplit
  have hdrop : 2 ≤ shape.dimensions.dropLast.length := by
    rw [List.length_dropLast]
    simp only [Shape.ndims] at hlt htwo
    omega
  have hlength := Arrays.length_canonicalDimensions_le hdrop
  rw [← Arrays.canonicalDimensions_append_ones hdrop 1, List.replicate_one, ← hsplit, shape.canonical,
    List.length_dropLast] at hlength
  omega

end Shapes

/-! The grown array. -/

section Elements

variable {shape grown : Shape} {offset : Nat} {coordinates : List Nat}

/-- The offset of an element in the grown array. -/
def destination (shape grown : Shape) (offset : Nat) : Nat :=
  offsetOf (coordinatesOf (padded shape.dimensions grown.ndims) offset) grown.dimensions

theorem padded_dimensions (shape : Shape)
    : padded shape.dimensions shape.ndims = shape.dimensions := by
  have hzero : shape.ndims - shape.dimensions.length = 0 := Nat.sub_self _
  have hlength : shape.dimensions.length ≤ shape.ndims := Nat.le_refl _
  rw [padded_eq_append hlength, hzero, List.replicate_zero, List.append_nil]

theorem ndims_pos (shape : Shape)
    : 0 < shape.ndims :=
  Nat.lt_of_lt_of_le Nat.two_pos shape.two_le_ndims

theorem viewExtents_dimensions (shape : Shape)
    : viewExtents shape.dimensions shape.ndims = shape.dimensions := by
  rw [Shape.viewExtents_eq_padded (ndims_pos shape) (Nat.le_refl _), padded_dimensions]

theorem forall₂_lt_of_le {extents extents' : List Nat} (h : List.Forall₂ (· < ·) coordinates extents)
    (hle : List.Forall₂ (· ≤ ·) extents extents')
    : List.Forall₂ (· < ·) coordinates extents' := by
  induction h generalizing extents' with
  | nil =>
    cases hle
    exact .nil
  | cons hlt _ ih =>
    obtain _ | ⟨hle, hrest⟩ := hle
    exact .cons (Nat.lt_of_lt_of_le hlt hle) (ih hrest)

theorem lt_grown (hcovers : Covers shape grown)
    (h : List.Forall₂ (· < ·) coordinates (padded shape.dimensions grown.ndims))
    : List.Forall₂ (· < ·) coordinates grown.dimensions := by
  have hle : List.Forall₂ (· ≤ ·) (padded shape.dimensions grown.ndims) (padded grown.dimensions grown.ndims) := by
    rw [padded, padded, List.forall₂_map_left_iff, List.forall₂_map_right_iff, List.forall₂_same]
    exact fun k _ => hcovers k
  rw [padded_dimensions] at hle
  exact forall₂_lt_of_le h hle

theorem coordinates_lt (hcovers : Covers shape grown) (hoffset : offset < shape.numel)
    : List.Forall₂ (· < ·) (coordinatesOf (padded shape.dimensions grown.ndims) offset)
        (padded shape.dimensions grown.ndims) := by
  apply coordinatesOf_lt
  rw [prod_padded (ndims_le_of_covers hcovers (Nat.zero_lt_of_lt hoffset))]
  exact hoffset

theorem exists_destination (hcovers : Covers shape grown) (hoffset : offset < shape.numel)
    : ∃ subscripts, shape.subscriptsForLinearIndex (offset + 1) grown.ndims = .ok subscripts ∧
        grown.offsetForSubscripts subscripts = .ok (destination shape grown offset) ∧
        destination shape grown offset < grown.numel := by
  have hlt := lt_grown hcovers (coordinates_lt hcovers hoffset)
  have hrange := Shape.inRange_succ hlt
  rw [← viewExtents_dimensions grown] at hrange
  have hrank := ndims_le_of_covers hcovers (Nat.zero_lt_of_lt hoffset)
  refine ⟨_, Shape.subscriptsForLinearIndex_of_le (ndims_pos grown) (Nat.succ_pos _) hoffset, ?_, offsetOf_lt hlt⟩
  rw [Shape.viewExtents_eq_padded (ndims_pos grown) hrank, Nat.add_sub_cancel,
    Shape.offsetForSubscripts_of_inRange (ndims_pos grown) hrange, viewExtents_dimensions, List.map_map]
  simp only [Function.comp_def, Nat.add_sub_cancel, List.map_id']
  rfl

theorem coordinates_of_destination (hcovers : Covers shape grown) (hoffset : offset < shape.numel)
    (h : List.Forall₂ (· < ·) coordinates grown.dimensions)
    (heq : destination shape grown offset = offsetOf coordinates grown.dimensions)
    : coordinatesOf (padded shape.dimensions grown.ndims) offset = coordinates := by
  rw [destination] at heq
  rw [← coordinatesOf_offsetOf (lt_grown hcovers (coordinates_lt hcovers hoffset)), heq, coordinatesOf_offsetOf h]

/-- Every element is written to its destination. -/
theorem exists_growDoubleArray {array : DenseArray F64} (hcovers : Covers array.shape shape)
    : ∃ grown, growDoubleArray array shape = .ok grown ∧ grown.shape = shape ∧
        (grown.data[·]?) = writeAll ((List.replicate shape.numel (0 : F64))[·]?)
          (array.data.zipIdx.map fun p => (destination array.shape shape p.2, some p.1)) := by
  obtain ⟨values, hvalues, hlength, hdata⟩ : ∃ values,
      array.data.zipIdx.foldlM (fun values p => placeElement array.shape shape values p.1 p.2)
        (List.replicate shape.numel 0) = .ok values ∧ values.length = shape.numel ∧
        (values[·]?) = writeAll ((List.replicate shape.numel (0 : F64))[·]?)
          (array.data.zipIdx.map fun p => (destination array.shape shape p.2, some p.1)) := by
    refine exists_foldlM_eq_ok (fun (done : List (F64 × Nat)) (values : List F64) => values.length = shape.numel ∧
      (values[·]?) = writeAll ((List.replicate shape.numel (0 : F64))[·]?)
        (done.map fun p => (destination array.shape shape p.2, some p.1))) ⟨List.length_replicate, rfl⟩ ?_
    rintro done ⟨value, offset⟩ values hmem ⟨hlength, hdata⟩
    obtain ⟨hlt, -⟩ := List.mem_zipIdx' hmem
    rw [array.length_data] at hlt
    obtain ⟨subscripts, hsubscripts, hdestination, hbound⟩ := exists_destination hcovers hlt
    rw [← hlength] at hbound
    refine ⟨values.set (destination array.shape shape offset) value, ?_, List.length_set.trans hlength, ?_⟩
    . simp only [placeElement, hsubscripts, Except.mapError, bind, Except.bind, hdestination, ensure_pos hbound]
      rfl
    . rw [getElem?_set_update hbound, hdata, List.map_append, List.map_singleton, writeAll_concat]
  refine ⟨⟨shape, values, hlength⟩, ?_, rfl, hdata⟩
  rw [growDoubleArray, hvalues]
  exact mapError_eq_ok_iff.mpr (dif_pos hlength)

/-- The elements keep their subscripts, and the other ones are zero. -/
structure Grown (array grown : DenseArray F64) : Prop where
  kept (subscripts : List Nat) (hpos : 0 < array.shape.numel)
    (h : InRange subscripts (padded array.shape.dimensions grown.shape.ndims))
    : grown.elementAt subscripts = array.elementAt subscripts
  fresh (subscripts : List Nat) (h : InRange subscripts grown.shape.dimensions)
    (hnew : 0 < array.shape.numel → ¬ InRange subscripts (padded array.shape.dimensions grown.shape.ndims))
    : grown.elementAt subscripts = some 0

theorem elementAt_dimensions (array : DenseArray F64) {subscripts : List Nat}
    (h : InRange subscripts array.shape.dimensions)
    : array.elementAt subscripts = array.data[offsetOf (subscripts.map (· - 1)) array.shape.dimensions]? := by
  have hpadded := padded_dimensions array.shape
  have hat := @DenseArray.elementAt_eq _ array subscripts array.shape.ndims (Nat.le_refl _) (hpadded.symm ▸ h)
  rwa [hpadded] at hat

theorem growDoubleArray_spec {array : DenseArray F64} (hcovers : Covers array.shape shape)
    : ∃ grown, growDoubleArray array shape = .ok grown ∧ grown.shape = shape ∧ Grown array grown := by
  obtain ⟨grown, hgrown, rfl, hdata⟩ := exists_growDoubleArray hcovers
  refine ⟨grown, hgrown, rfl, ?_, ?_⟩
  . intro subscripts hpos h
    obtain ⟨hcoordinates, hpositive⟩ := Shape.inRange_iff.mp h
    have hrank := ndims_le_of_covers hcovers hpos
    have hlt := DenseArray.offsetOf_lt_length hrank h
    have hgrownRange : InRange subscripts grown.shape.dimensions :=
      Shape.inRange_iff.mpr ⟨lt_grown hcovers hcoordinates, hpositive⟩
    rw [DenseArray.elementAt_eq hrank h, elementAt_dimensions grown hgrownRange, List.getElem?_eq_getElem hlt]
    refine (congrFun hdata _).trans ?_
    have hdestination : destination array.shape grown.shape
        (offsetOf (subscripts.map (· - 1)) (padded array.shape.dimensions grown.shape.ndims)) =
          offsetOf (subscripts.map (· - 1)) grown.shape.dimensions := by
      rw [destination, coordinatesOf_offsetOf hcoordinates]
    rw [zipIdx_split hlt, List.map_append, List.map_cons, hdestination]
    apply writeAll_append_cons
    intro w hw heq
    obtain ⟨⟨a, i⟩, hp, rfl⟩ := List.mem_map.mp hw
    obtain ⟨hle, hi, -⟩ := List.mem_zipIdx hp
    have hi' : i < array.shape.numel := by
      rw [List.length_drop] at hi
      rw [← array.length_data]
      omega
    -- the destinations of two elements differ
    have hsame := coordinates_of_destination hcovers hi' (lt_grown hcovers hcoordinates) heq
    have hoffset : i < (padded array.shape.dimensions grown.shape.ndims).prod := by
      rw [prod_padded hrank]
      exact hi'
    rw [← hsame, offsetOf_coordinatesOf hoffset] at hle
    omega
  . intro subscripts h hnew
    obtain ⟨hcoordinates, hpositive⟩ := Shape.inRange_iff.mp h
    rw [elementAt_dimensions grown h]
    refine (congrFun hdata _).trans ?_
    rw [writeAll_of_forall_ne]
    . have hlt : offsetOf (subscripts.map (· - 1)) grown.shape.dimensions < grown.shape.numel :=
        offsetOf_lt hcoordinates
      rw [List.getElem?_replicate, if_pos hlt]
    . intro w hw heq
      obtain ⟨⟨a, i⟩, hp, rfl⟩ := List.mem_map.mp hw
      obtain ⟨hlt, -⟩ := List.mem_zipIdx' hp
      rw [array.length_data] at hlt
      have hin := coordinates_lt hcovers hlt
      have hsame := coordinates_of_destination hcovers hlt hcoordinates heq
      rw [hsame] at hin
      exact hnew (Nat.zero_lt_of_lt hlt) (Shape.inRange_iff.mpr ⟨hin, hpositive⟩)

end Elements

/-- What an assignment beyond the end does. -/
theorem assigned_of_grown {target : DenseArray F64} {arguments : List (IndexInput P)} {value result : Value P}
    {error : RuntimeErrorKind} (herror : indexAssign (.array (.f64 target)) arguments value false = .error error)
    (hresult : assignElements (.array (.f64 target)) arguments value false = .ok result)
    : ∃ grown selection supplied assigned, GrownFor arguments target.shape grown.shape ∧ Grown target grown ∧
        resolveIndices grown.shape arguments false = .ok selection ∧ contents value = some supplied ∧
        contents result = some assigned ∧
        Assigned (arrayContents (.f64 grown)) supplied selection.offsets assigned := by
  rw [assignElements, herror] at hresult
  obtain ⟨shape, hshape, hresult⟩ := bind_eq_ok_iff.mp hresult
  cases shape with
  | none => cases hresult
  | some shape =>
    have hneeds := grownFor_of_grown hshape
    obtain ⟨grown, hgrown, rfl, hspec⟩ := growDoubleArray_spec hneeds.covers
    simp only [hgrown] at hresult
    have hassign : indexAssign (.array (.f64 grown)) arguments value false = .ok result :=
      mapError_eq_ok_iff.mp hresult
    have hcontents : contents (.array (.f64 grown) : Value P) = some (arrayContents (.f64 grown)) := rfl
    rw [indexAssign_contents hcontents] at hassign
    obtain ⟨selection, hselection, hassign⟩ := bind_eq_ok_iff.mp hassign
    have hmeets : Meets (arrayContents (.f64 grown)) value selection.offsets
        (assignSelected (.array (.f64 grown)) selection value false) :=
      meets_assignSelected hcontents (offsets_lt hselection)
    obtain ⟨supplied, assigned, hsupplied, -, -, hassigned, hwritten⟩ := hmeets.assigned result hassign
    exact ⟨grown, selection, supplied, assigned, hneeds, hspec, hselection, hsupplied, hassigned, hwritten⟩

section Assignment

variable (indexAssignObject : Value P → List (IndexInput P) → Value P → Except GrowthError (Value P))
variable (assignSparse : P.sparse → List (IndexInput P) → Value P → Bool → Except RuntimeErrorKind (Value P))

/--
An assignment to elements that succeeds is not changed by growth. Where it fails only a real array grows, as far
as the subscripts need: the elements keep their subscripts, the other ones are zero, and the assignment is that
to the grown array.
-/
theorem indexAssignValue_correct (target value : Value P) (arguments : List (IndexInput P))
    (h : assignsElements target value = true)
    : (∀ result, indexAssign target arguments value false = .ok result →
        indexAssignValue indexAssignObject assignSparse target arguments value false = .ok result) ∧
      ∀ error result, indexAssign target arguments value false = .error error →
        indexAssignValue indexAssignObject assignSparse target arguments value false = .ok result →
        ∃ array grown selection supplied assigned, target = .array (.f64 array) ∧
          GrownFor arguments array.shape grown.shape ∧ Grown array grown ∧
          resolveIndices grown.shape arguments false = .ok selection ∧ contents value = some supplied ∧
          contents result = some assigned ∧
          Assigned (arrayContents (.f64 grown)) supplied selection.offsets assigned := by
  rw [indexAssignValue_of_assignsElements indexAssignObject assignSparse h]
  refine ⟨?_, ?_⟩
  . intro result hresult
    rw [assignElements, hresult]
  . intro error result herror hresult
    by_cases h : ∃ array, target = .array (.f64 array)
    . obtain ⟨array, rfl⟩ := h
      obtain ⟨grown, selection, supplied, assigned, hspec⟩ := assigned_of_grown herror hresult
      exact ⟨array, grown, selection, supplied, assigned, rfl, hspec⟩
    . rw [assignElements, herror] at hresult
      simp only at hresult
      split at hresult
      . exact absurd ⟨_, rfl⟩ h
      . cases hresult

end Assignment

def fourthRow : List (IndexInput noPayloads) := [.value (.double 0x4010000000000000), .colon]

def fourByTwo : Shape := .matrix 4 2

/-- The assignment of one to the fourth row of an array with three rows. -/
theorem indexAssignValue_correct_fourthRow
    : indexAssignValue (fun _ _ _ => .error (.object "no objects")) (fun sparse _ _ _ => Empty.elim sparse)
          (.array (.f64 sixZeros)) fourthRow (.double 0x3ff0000000000000) false =
        .ok (.array (.f64 ⟨fourByTwo, [0, 0, 0, 0x3ff0000000000000, 0, 0, 0, 0x3ff0000000000000], rfl⟩)) ∧
      ∃ grown, GrownFor fourthRow threeByTwo grown.shape ∧ Grown sixZeros grown := by
  have hassigned : indexAssignValue (fun _ _ _ => .error (.object "no objects"))
      (fun sparse _ _ _ => Empty.elim sparse) (.array (.f64 sixZeros)) fourthRow
      (.double 0x3ff0000000000000) false =
        .ok (.array (.f64 ⟨fourByTwo, [0, 0, 0, 0x3ff0000000000000, 0, 0, 0, 0x3ff0000000000000], rfl⟩)) := rfl
  obtain ⟨error, herror⟩ : ∃ error,
      indexAssign (.array (.f64 sixZeros)) fourthRow (.double 0x3ff0000000000000) false = .error error := ⟨_, rfl⟩
  obtain ⟨array, grown, -, -, -, ⟨⟩, hneeds, hgrown, -⟩ :=
    (indexAssignValue_correct _ _ (.array (.f64 sixZeros)) (.double 0x3ff0000000000000) fourthRow rfl).2
      error _ herror hassigned
  exact ⟨hassigned, grown, hneeds, hgrown⟩

end Indexing
end OpenMat
