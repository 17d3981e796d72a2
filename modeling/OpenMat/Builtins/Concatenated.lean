import OpenMat.Arrays.Elements
import OpenMat.Builtins.Concatenate
import OpenMat.Builtins.Membership

/-!
This module contains the proof that a concatenation puts its inputs side by side along the axis, and converts their
elements to the class of the output.
-/

namespace OpenMat
namespace Builtins

open Arrays (Shape DenseArray)
open Indexing (Value Payloads IndexView noPayloads)
open Sequence
open Values (F32 F64 ComplexValue CharCodeUnit IntegerType IntegerArrayData ArrayData SourceComponent)

variable {P : Payloads} {T : Type}

def extentOf (value : Value P) (k : Nat) : Nat := ((valueDimensions value).getD []).getD k 1

/-- Where the interval of the axis after the inputs starts. -/
def endOf (axis : Nat) (inputs : List (Value P)) : Nat := (inputs.map (extentOf · axis)).sum

/-- The interval of the axis that an input fills contains the subscript. -/
structure Fills (axis : Nat) (inputs before : List (Value P)) (input : Value P) (s : List Nat) : Prop where
  split : ∃ after, inputs = before ++ input :: after
  start_lt : endOf axis before < s.getD axis 1
  le_end : s.getD axis 1 ≤ endOf axis before + extentOf input axis

/-- The array has the inputs side by side, their elements converted. -/
structure Joins (axis : Nat) (inputs : List (Value P)) (convert : Value P → Nat → Except Failure T)
    (array : DenseArray T) : Prop where
  along : array.shape.extent axis = endOf axis inputs
  across : ∀ input ∈ inputs, ∀ k, k ≠ axis → array.shape.extent k = extentOf input k
  filled : ∀ n s, concatRank axis inputs ≤ n → Shape.InRange s (padded array.shape.dimensions n) →
    ∃ before input, Fills axis inputs before input s
  elements : ∀ n s, concatRank axis inputs ≤ n → Shape.InRange s (padded array.shape.dimensions n) →
    ∀ before input, Fills axis inputs before input s →
      ∃ view index element, IndexView.new input = some view ∧
        view.shape.linearIndexForSubscripts (s.set axis (s.getD axis 1 - endOf axis before)) = .ok index ∧
        convert input (index - 1) = .ok element ∧ array.elementAt s = some element

/-- Arrays that agree outside the axis. -/
structure Agree (axis : Nat) (inputs : List (Value P)) : Prop where
  dense : ∀ input ∈ inputs, ∃ view, IndexView.new input = some view
  across : ∀ input ∈ inputs, ∀ other ∈ inputs, ∀ k, k ≠ axis → extentOf input k = extentOf other k

section Offsets

theorem outputCoordinates_eq {extents : List Nat} {offset : Nat} (h : ∀ extent ∈ extents, 0 < extent)
    : outputCoordinates extents offset = coordinatesOf extents offset := by
  induction extents generalizing offset with
  | nil => rfl
  | cons extent extents ih =>
    rw [List.forall_mem_cons] at h
    rw [outputCoordinates, splitOffset, if_neg h.1.ne', coordinatesOf]
    show _ :: outputCoordinates extents (offset / extent) = _
    rw [ih h.2]

/-- The offset does not overflow where the products of the extents do not. -/
theorem inputOffset_eq {coordinates extents : List Nat} {offset stride : Nat}
    (hin : List.Forall₂ (· < ·) coordinates extents) (hstrides : ∀ n, stride * (extents.take n).prod < 2 ^ 64)
    (hoffset : offset < stride)
    : inputOffset coordinates extents offset stride = some (offset + stride * offsetOf coordinates extents) := by
  induction hin generalizing offset stride with
  | nil => simp [inputOffset, offsetOf]
  | @cons coordinate extent coordinates extents hlt hrest ih =>
    have hnext : stride * extent < 2 ^ 64 := by simpa using hstrides 1
    have hbound : (coordinate + 1) * stride ≤ extent * stride := Nat.mul_le_mul_right _ hlt
    rw [Nat.add_mul, Nat.one_mul, Nat.mul_comm extent] at hbound
    have hdistance : checkedMul 64 coordinate stride = some (coordinate * stride) :=
      checkedMul_eq_some_iff.mpr ⟨by omega, rfl⟩
    have hadd : checkedAdd 64 offset (coordinate * stride) = some (offset + coordinate * stride) :=
      checkedAdd_eq_some_iff.mpr ⟨by omega, rfl⟩
    have hstride : checkedMul 64 stride extent = some (stride * extent) :=
      checkedMul_eq_some_iff.mpr ⟨hnext, rfl⟩
    have htail := @ih (offset + coordinate * stride) (stride * extent) (by
      intro n
      have hn := hstrides (n + 1)
      rwa [List.take_succ_cons, List.prod_cons, ← mul_assoc] at hn) (by omega)
    rw [inputOffset, hdistance, Option.bind_eq_bind, Option.bind_some, hadd, Option.bind_some, hstride,
      Option.bind_some, htail, offsetOf]
    congr 1
    ring

/-- More extents are ones. -/
theorem padded_append {extents : List Nat} {m n : Nat} (hlength : extents.length ≤ m) (hle : m ≤ n)
    : padded extents n = padded extents m ++ List.replicate (n - m) 1 := by
  rw [padded_eq_append (Nat.le_trans hlength hle), padded_eq_append hlength, List.append_assoc,
    List.replicate_append_replicate]
  congr 2
  omega

end Offsets

section Places

variable {name : String} {axis rank : Nat} {inputs : List (Value P)}

theorem valueDimensions_eq {value : Value P} {view : IndexView} (h : IndexView.new value = some view)
    : valueDimensions value = some view.shape.dimensions := by
  rw [valueDimensions, h]
  rfl

theorem extentOf_eq {value : Value P} {view : IndexView} (h : IndexView.new value = some view) (k : Nat)
    : extentOf value k = view.shape.extent k := by
  rw [extentOf, valueDimensions_eq h]
  rfl

/-- The inputs with their intervals, one after the other. -/
def placed (axis rank : Nat) : Nat → List (Value P) → List (ConcatInput P)
  | _, [] => []
  | start, value :: values =>
    ⟨value, padded ((valueDimensions value).getD []) rank, start, start + extentOf value axis⟩ ::
      placed axis rank (start + extentOf value axis) values

theorem endOf_cons (axis : Nat) (value : Value P) (values : List (Value P))
    : endOf axis (value :: values) = extentOf value axis + endOf axis values := by
  rw [endOf, List.map_cons, List.sum_cons, endOf]

theorem placeInputs_eq {outputDimensions : List Nat} {index start : Nat} (haxis : axis < rank)
    (hdense : ∀ input ∈ inputs, ∃ view, IndexView.new input = some view)
    (hacross : ∀ input ∈ inputs, ∀ k, k ≠ axis → k < rank → extentOf input k = outputDimensions.getD k 1)
    (hfits : start + endOf axis inputs < 2 ^ 64)
    : placeInputs name axis rank outputDimensions index start inputs =
        .ok (placed axis rank start inputs, start + endOf axis inputs) := by
  induction inputs generalizing index start with
  | nil => rfl
  | cons value values ih =>
    rw [List.forall_mem_cons] at hdense hacross
    rw [endOf_cons, ← Nat.add_assoc] at hfits
    obtain ⟨view, hview⟩ := hdense.1
    have hdimensions := valueDimensions_eq hview
    have hget : ∀ k < rank, (padded view.shape.dimensions rank).getD k 1 = extentOf value k := by
      intro k hk
      rw [extentOf_eq hview, List.getD_eq_getElem?_getD,
        List.getElem?_eq_getElem (by rwa [length_padded]), Option.getD_some, getElem_padded]
      rfl
    have hagree : ∀ k < rank, k ≠ axis →
        (padded view.shape.dimensions rank).getD k 1 = outputDimensions.getD k 1 := by
      intro k hk hne
      rw [hget k hk, hacross.1 k hne hk]
    have hadd : checkedAdd 64 start (extentOf value axis) = some (start + extentOf value axis) :=
      checkedAdd_eq_some_iff.mpr ⟨by omega, rfl⟩
    have hrest := @ih (index + 1) (start + extentOf value axis) hdense.2 hacross.2 hfits
    rw [placeInputs, hdimensions, okOr]
    simp only [bind, Except.bind, ensure_pos hagree, hget axis haxis, hadd, okOr, hrest, pure, Except.pure]
    rw [placed, hdimensions, endOf_cons, Nat.add_assoc]
    rfl

/-- The input whose interval contains a coordinate is found: the ones before end before. -/
theorem find?_placed {start coordinate : Nat} {before after : List (Value P)} {value : Value P}
    (hle : start + endOf axis before ≤ coordinate)
    (hlt : coordinate < start + endOf axis before + extentOf value axis)
    : (placed axis rank start (before ++ value :: after)).find?
          (fun input => input.axisStart ≤ coordinate && coordinate < input.axisEnd) =
        some ⟨value, padded ((valueDimensions value).getD []) rank, start + endOf axis before,
          start + endOf axis before + extentOf value axis⟩ := by
  induction before generalizing start with
  | nil =>
    rw [List.nil_append, placed, List.find?_cons_of_pos]
    . rfl
    . rw [Bool.and_eq_true, decide_eq_true_iff, decide_eq_true_iff]
      exact ⟨hle, hlt⟩
  | cons first before ih =>
    rw [endOf_cons, ← Nat.add_assoc] at hle hlt
    rw [List.cons_append, placed, List.find?_cons_of_neg]
    . rw [ih hle hlt, endOf_cons, Nat.add_assoc]
    . rw [Bool.and_eq_true, decide_eq_true_iff, decide_eq_true_iff]
      show ¬(start ≤ coordinate ∧ coordinate < start + extentOf first axis)
      omega

/-- Some interval contains a coordinate before the end. -/
theorem exists_split {coordinate : Nat} (h : coordinate < endOf axis inputs)
    : ∃ before input after, inputs = before ++ input :: after ∧ endOf axis before ≤ coordinate ∧
        coordinate < endOf axis before + extentOf input axis := by
  induction inputs generalizing coordinate with
  | nil => exact (Nat.not_lt_zero _ h).elim
  | cons value values ih =>
    rw [endOf_cons] at h
    rcases Nat.lt_or_ge coordinate (extentOf value axis) with hlt | hge
    . refine ⟨[], value, values, rfl, Nat.zero_le _, ?_⟩
      rwa [endOf, List.map_nil, List.sum_nil, Nat.zero_add]
    . obtain ⟨before, input, after, rfl, hle, hlt⟩ := @ih (coordinate - extentOf value axis) (by omega)
      refine ⟨value :: before, input, after, rfl, ?_, ?_⟩ <;> rw [endOf_cons] <;> omega

end Places

section Plan

variable {name : String} {axis : Nat} {inputs : List (Value P)}

theorem lt_concatRank (axis : Nat) (inputs : List (Value P))
    : axis < concatRank axis inputs :=
  Nat.le_max_right _ _

theorem ndims_le_concatRank {input : Value P} {view : IndexView} (hmem : input ∈ inputs)
    (h : IndexView.new input = some view)
    : view.shape.ndims ≤ concatRank axis inputs := by
  have hlength : view.shape.ndims ∈ (inputs.filterMap valueDimensions).map (·.length) :=
    List.mem_map.mpr ⟨_, List.mem_filterMap.mpr ⟨input, hmem, valueDimensions_eq h⟩, rfl⟩
  rw [concatRank]
  apply Nat.le_trans _ (Nat.le_max_left _ _)
  cases hmax : ((inputs.filterMap valueDimensions).map (·.length)).max? with
  | none => rw [List.max?_eq_none_iff.mp hmax] at hlength; cases hlength
  | some greatest => exact (List.max?_eq_some_iff.mp hmax).2 _ hlength

/-- The dimensions of the output: those of the first input, but along the axis. -/
def joinedDimensions (axis : Nat) (inputs : List (Value P)) : List Nat :=
  (padded ((inputs.head?.bind valueDimensions).getD []) (concatRank axis inputs)).set axis (endOf axis inputs)

theorem length_joinedDimensions (axis : Nat) (inputs : List (Value P))
    : (joinedDimensions axis inputs).length = concatRank axis inputs := by
  rw [joinedDimensions, List.length_set, length_padded]

theorem getD_joinedDimensions {input : Value P} (hagree : Agree axis inputs) (hmem : input ∈ inputs) {k : Nat}
    (hk : k < concatRank axis inputs)
    : (joinedDimensions axis inputs).getD k 1 = if k = axis then endOf axis inputs else extentOf input k := by
  rcases inputs with - | ⟨first, rest⟩
  . cases hmem
  rw [joinedDimensions, List.getD_eq_getElem?_getD,
    List.getElem?_eq_getElem (by rwa [List.length_set, length_padded]), Option.getD_some, List.getElem_set]
  split
  . next heq => rw [if_pos heq.symm]
  . next hne =>
    rw [if_neg (Ne.symm hne), getElem_padded,
      hagree.across input hmem first List.mem_cons_self k (Ne.symm hne)]
    rfl

/-- The plan of inputs that agree. -/
theorem concatPlan_eq {dimension : Nat} {shape : Shape} (hne : inputs ≠ [])
    (hagree : Agree (dimension - 1) inputs) (hfits : endOf (dimension - 1) inputs < 2 ^ 64)
    (hshape : Shape.new (joinedDimensions (dimension - 1) inputs) = .ok shape)
    : concatPlan name dimension inputs = .ok
        ⟨placed (dimension - 1) (concatRank (dimension - 1) inputs) 0 inputs, shape,
          joinedDimensions (dimension - 1) inputs, dimension - 1⟩ := by
  rcases inputs with - | ⟨first, rest⟩
  . exact (hne rfl).elim
  obtain ⟨view, hview⟩ := hagree.dense first List.mem_cons_self
  have hfirst : ((first :: rest).head?.bind valueDimensions) = some view.shape.dimensions := valueDimensions_eq hview
  have hplace := @placeInputs_eq P name (dimension - 1) (concatRank (dimension - 1) (first :: rest)) (first :: rest)
    (padded view.shape.dimensions (concatRank (dimension - 1) (first :: rest))) 0 0
    (lt_concatRank _ _) hagree.dense (by
      intro input hinput k hk hlt
      rw [hagree.across input hinput first List.mem_cons_self k hk, extentOf_eq hview, List.getD_eq_getElem?_getD,
        List.getElem?_eq_getElem (by rwa [length_padded]), Option.getD_some, getElem_padded]
      rfl) (by rwa [Nat.zero_add])
  rw [joinedDimensions, hfirst, Option.getD_some] at hshape ⊢
  rw [concatPlan, hfirst]
  simp only [okOr, bind, Except.bind, hplace, Nat.zero_add, hshape, Except.mapError, pure, Except.pure]

variable {shape : Shape} (hagree : Agree axis inputs) (hne : inputs ≠ [])
  (hshape : Shape.new (joinedDimensions axis inputs) = .ok shape)

section

include hagree hne

theorem two_le_concatRank
    : 2 ≤ concatRank axis inputs := by
  obtain ⟨first, hfirst⟩ := List.exists_mem_of_ne_nil inputs hne
  obtain ⟨view, hview⟩ := hagree.dense first hfirst
  exact Nat.le_trans view.shape.two_le_ndims (ndims_le_concatRank hfirst hview)

include hshape

theorem ndims_le_rank
    : shape.dimensions.length ≤ concatRank axis inputs := by
  have hlength := length_joinedDimensions axis inputs
  rw [Shape.new_eq_ok_iff.mp hshape, ← hlength]
  exact Arrays.length_canonicalDimensions_le (hlength ▸ two_le_concatRank hagree hne)

theorem padded_rank
    : padded shape.dimensions (concatRank axis inputs) = joinedDimensions axis inputs := by
  have hlength := length_joinedDimensions axis inputs
  have hpadded := @Arrays.padded_canonicalDimensions (joinedDimensions axis inputs)
    (hlength ▸ two_le_concatRank hagree hne)
  rwa [hlength, ← Shape.new_eq_ok_iff.mp hshape] at hpadded

theorem padded_shape_eq {n : Nat} (hn : concatRank axis inputs ≤ n)
    : padded shape.dimensions n =
        joinedDimensions axis inputs ++ List.replicate (n - concatRank axis inputs) 1 := by
  rw [padded_append (ndims_le_rank hagree hne hshape) hn, padded_rank hagree hne hshape]

theorem extent_shape {input : Value P} (hmem : input ∈ inputs) (k : Nat)
    : shape.extent k = if k = axis then endOf axis inputs else extentOf input k := by
  rcases Nat.lt_or_ge k (concatRank axis inputs) with hlt | hge
  . rw [← getD_joinedDimensions hagree hmem hlt, ← padded_rank hagree hne hshape, List.getD_eq_getElem?_getD,
      List.getElem?_eq_getElem (by rwa [length_padded]), Option.getD_some, getElem_padded]
    rfl
  . obtain ⟨view, hview⟩ := hagree.dense input hmem
    have hne : k ≠ axis := by
      have := lt_concatRank axis inputs
      omega
    have hone : ∀ t : Shape, t.dimensions.length ≤ k → t.extent k = 1 := by
      intro t ht
      rw [Shape.extent, List.getD_eq_getElem?_getD, List.getElem?_eq_none ht, Option.getD_none]
    rw [if_neg hne, extentOf_eq hview, hone _ (Nat.le_trans (ndims_le_concatRank hmem hview) hge),
      hone _ (Nat.le_trans (ndims_le_rank hagree ‹_› hshape) hge)]

end

/-- The subscripts of the input that fills the place. -/
def sourceOf (axis start : Nat) (s : List Nat) : List Nat := s.set axis (s.getD axis 1 - start)

theorem length_subscripts {n : Nat} {s dimensions : List Nat} (hs : Shape.InRange s (padded dimensions n))
    : s.length = n := by
  rw [List.Forall₂.length_eq hs, length_padded]

theorem getD_subscripts {n : Nat} {s : List Nat} (hs : Shape.InRange s (padded shape.dimensions n)) {k : Nat}
    (hk : k < n)
    : 0 < s.getD k 1 ∧ s.getD k 1 ≤ shape.extent k := by
  have hlength := length_subscripts hs
  have hget := List.Forall₂.get hs (hlength.symm ▸ hk) (by rwa [length_padded])
  simp only [List.get_eq_getElem, getElem_padded] at hget
  rw [List.getD_eq_getElem?_getD, List.getElem?_eq_getElem (hlength.symm ▸ hk), Option.getD_some]
  exact hget

section Element

include hagree hne hshape

variable {n : Nat} {s : List Nat} {before : List (Value P)} {input : Value P} {view : IndexView}
  (hn : concatRank axis inputs ≤ n) (hs : Shape.InRange s (padded shape.dimensions n))
  (hfills : Fills axis inputs before input s) (hview : IndexView.new input = some view)

include hn hs hfills hview

omit hn in
theorem inRange_sourceOf
    : Shape.InRange (sourceOf axis (endOf axis before) s) (padded view.shape.dimensions n) := by
  have hlength := length_subscripts hs
  obtain ⟨after, hsplit⟩ := hfills.split
  have hmem : input ∈ inputs := by
    rw [hsplit]
    exact List.mem_append_right _ List.mem_cons_self
  rw [Shape.InRange, List.forall₂_iff_get]
  refine ⟨by rw [sourceOf, List.length_set, length_padded, hlength], fun k hk hk' => ?_⟩
  rw [length_padded] at hk'
  have hextent : view.shape.dimensions.getD k 1 = extentOf input k := (extentOf_eq hview k).symm
  simp only [List.get_eq_getElem, sourceOf, List.getElem_set, getElem_padded, hextent]
  split
  . next heq =>
    subst heq
    have hstart := hfills.start_lt
    have hend := hfills.le_end
    omega
  . next hneq =>
    have hbounds := getD_subscripts hs hk'
    rw [extent_shape hagree hne hshape hmem, if_neg (Ne.symm hneq), List.getD_eq_getElem?_getD,
      List.getElem?_eq_getElem (hlength.symm ▸ hk'), Option.getD_some] at hbounds
    exact hbounds

/-- The element at subscripts of the output is the one of the input that fills the place. -/
theorem concatElement_eq {convert : Value P → Nat → Except Failure T}
    : concatElement name ⟨placed axis (concatRank axis inputs) 0 inputs, shape, joinedDimensions axis inputs, axis⟩
          convert (offsetOf (s.map (· - 1)) (padded shape.dimensions n)) =
        convert input (offsetOf ((sourceOf axis (endOf axis before) s).map (· - 1))
          (padded view.shape.dimensions n)) := by
  have hlength := length_subscripts hs
  have haxis := lt_concatRank axis inputs
  have hcoordinates := (Shape.inRange_iff.mp hs).1
  have hsource := (Shape.inRange_iff.mp (inRange_sourceOf hagree hne hshape hs hfills hview)).1
  obtain ⟨after, hsplit⟩ := hfills.split
  have hmem : input ∈ inputs := by
    rw [hsplit]
    exact List.mem_append_right _ List.mem_cons_self
  have hrank : view.shape.ndims ≤ concatRank axis inputs := ndims_le_concatRank hmem hview
  -- the coordinates are the digits of the offset, and zeros beyond the rank
  have hdigits := coordinatesOf_offsetOf hcoordinates
  rw [padded_shape_eq hagree hne hshape hn, coordinatesOf_append, coordinatesOf_ones,
    ← padded_shape_eq hagree hne hshape hn] at hdigits
  have hpositive : ∀ extent ∈ joinedDimensions axis inputs, 0 < extent := by
    intro extent hextent
    rw [padded_shape_eq hagree hne hshape hn] at hcoordinates
    have hprod := prod_pos_of_forall₂_lt hcoordinates
    apply Nat.pos_of_ne_zero
    intro hzero
    rw [List.prod_append, List.prod_eq_zero (hzero ▸ hextent), Nat.zero_mul] at hprod
    exact absurd hprod (Nat.lt_irrefl 0)
  generalize hoffset : offsetOf (s.map (· - 1)) (padded shape.dimensions n) = offset at hdigits
  have hcount : (coordinatesOf (joinedDimensions axis inputs) offset).length = concatRank axis inputs := by
    rw [length_coordinatesOf, length_joinedDimensions]
  have hcoordinate : (coordinatesOf (joinedDimensions axis inputs) offset).getD axis 0 = s.getD axis 1 - 1 := by
    have hget : (s.map (· - 1))[axis]? = (coordinatesOf (joinedDimensions axis inputs) offset)[axis]? := by
      rw [← hdigits, List.getElem?_append_left (hcount.symm ▸ haxis)]
    have hlt : axis < s.length := by omega
    rw [List.getD_eq_getElem?_getD, ← hget, List.getElem?_map, List.getD_eq_getElem?_getD,
      List.getElem?_eq_getElem hlt]
    rfl
  have hsourceDigits : (sourceOf axis (endOf axis before) s).map (· - 1) =
      (coordinatesOf (joinedDimensions axis inputs) offset).set axis (s.getD axis 1 - 1 - endOf axis before) ++
        List.replicate (n - concatRank axis inputs) 0 := by
    rw [sourceOf, List.map_set, ← hdigits, List.set_append_left _ _ (hcount.symm ▸ haxis), Nat.sub_right_comm]
  have hstart := hfills.start_lt
  have hend := hfills.le_end
  have hfound := @find?_placed P axis (concatRank axis inputs) 0 (s.getD axis 1 - 1) before after input
    (by omega) (by omega)
  rw [← hsplit, valueDimensions_eq hview, Option.getD_some, Nat.zero_add] at hfound
  have hpaddedView := padded_append hrank hn
  rw [hsourceDigits, hpaddedView] at hsource ⊢
  have hlengths : ((coordinatesOf (joinedDimensions axis inputs) offset).set axis
      (s.getD axis 1 - 1 - endOf axis before)).length = concatRank axis inputs := by
    rw [List.length_set, hcount]
  have hinput := List.forall₂_take (concatRank axis inputs) hsource
  rw [List.take_append_of_le_length (Nat.le_of_eq hlengths.symm), List.take_of_length_le (Nat.le_of_eq hlengths),
    List.take_append_of_le_length (by rw [length_padded]), List.take_of_length_le (by rw [length_padded])] at hinput
  have hmapped := @inputOffset_eq _ _ 0 1 hinput (by
    intro k
    rw [Nat.one_mul, prod_take_padded hrank]
    exact view.shape.products_lt k) Nat.one_pos
  rw [concatElement, outputCoordinates_eq hpositive, hcoordinate]
  simp only [hfound, okOr, bind, Except.bind, hmapped]
  rw [offsetOf_append (by rw [hlengths, length_padded]), offsetOf_zeros, Nat.mul_zero, Nat.add_zero, Nat.one_mul,
    Nat.zero_add]

end Element

include hagree hne hshape

/-- Every subscript is in the interval of an input. -/
theorem exists_fills {n : Nat} {s : List Nat} (hn : concatRank axis inputs ≤ n)
    (hs : Shape.InRange s (padded shape.dimensions n))
    : ∃ before input, input ∈ inputs ∧ Fills axis inputs before input s := by
  obtain ⟨first, hfirst⟩ := List.exists_mem_of_ne_nil inputs hne
  have hbounds := getD_subscripts hs (Nat.lt_of_lt_of_le (lt_concatRank axis inputs) hn)
  rw [extent_shape hagree hne hshape hfirst, if_pos rfl] at hbounds
  obtain ⟨before, input, after, hsplit, hle, hlt⟩ := @exists_split P axis inputs (s.getD axis 1 - 1) (by omega)
  refine ⟨before, input, ?_, ⟨after, hsplit⟩, by omega, by omega⟩
  rw [hsplit]
  exact List.mem_append_right _ List.mem_cons_self

theorem exists_concatDense {convert : Value P → Nat → Except Failure T}
    (hconvert : ∀ input ∈ inputs, ∀ view, IndexView.new input = some view → ∀ offset < view.shape.numel,
      ∃ element, convert input offset = .ok element)
    : ∃ array, concatDense name
          ⟨placed axis (concatRank axis inputs) 0 inputs, shape, joinedDimensions axis inputs, axis⟩ convert =
            .ok array ∧
        Joins axis inputs convert array := by
  have hrank := ndims_le_rank hagree hne hshape
  have helement : ∀ n s, concatRank axis inputs ≤ n → Shape.InRange s (padded shape.dimensions n) →
      ∀ before input, Fills axis inputs before input s → ∃ view index element, IndexView.new input = some view ∧
        view.shape.linearIndexForSubscripts (sourceOf axis (endOf axis before) s) = .ok index ∧
        convert input (index - 1) = .ok element ∧
        concatElement name ⟨placed axis (concatRank axis inputs) 0 inputs, shape, joinedDimensions axis inputs, axis⟩
          convert (offsetOf (s.map (· - 1)) (padded shape.dimensions n)) = .ok element := by
    intro n s hn hs before input hfills
    obtain ⟨after, hsplit⟩ := hfills.split
    have hmem : input ∈ inputs := by
      rw [hsplit]
      exact List.mem_append_right _ List.mem_cons_self
    obtain ⟨view, hview⟩ := hagree.dense input hmem
    have hrank : view.shape.ndims ≤ concatRank axis inputs := ndims_le_concatRank hmem hview
    have hndims := Nat.le_trans hrank hn
    have hin := inRange_sourceOf hagree hne hshape hs hfills hview
    have hpos : 0 < n := Nat.lt_of_lt_of_le (Nat.zero_lt_of_lt (lt_concatRank axis inputs)) hn
    have hlt := offsetOf_lt (Shape.inRange_iff.mp hin).1
    rw [prod_padded hndims] at hlt
    obtain ⟨element, hok⟩ := hconvert input hmem view hview _ hlt
    have hindex := @Shape.linearIndexForSubscripts_of_inRange view.shape n
      (sourceOf axis (endOf axis before) s) hpos (by rwa [Shape.viewExtents_eq_padded hpos hndims])
    rw [Shape.viewExtents_eq_padded hpos hndims] at hindex
    refine ⟨view, _, element, hview, hindex, hok, ?_⟩
    rw [concatElement_eq hagree hne hshape hn hs hfills hview, hok]
  obtain ⟨values, hvalues⟩ := @exists_mapM_eq_ok _ _ _ (concatElement name
    ⟨placed axis (concatRank axis inputs) 0 inputs, shape, joinedDimensions axis inputs, axis⟩ convert)
    (List.range shape.numel) (by
      intro offset hoffset
      have hlt : offset < (padded shape.dimensions (concatRank axis inputs)).prod := by
        rw [prod_padded hrank]
        exact List.mem_range.mp hoffset
      have hs := Shape.inRange_succ (coordinatesOf_lt hlt)
      obtain ⟨before, input, -, hfills⟩ := exists_fills hagree hne hshape le_rfl hs
      obtain ⟨view, index, element, -, -, -, hok⟩ := helement _ _ le_rfl hs before input hfills
      have hid : ((fun x => x - 1) ∘ fun x => x + 1) = (id : Nat → Nat) := rfl
      rw [List.map_map, hid, List.map_id, offsetOf_coordinatesOf hlt] at hok
      exact ⟨element, hok⟩)
  have hforall := forall₂_of_mapM_eq_ok.mp hvalues
  have hlength : values.length = shape.numel := by rw [← hforall.length_eq, List.length_range]
  refine ⟨⟨shape, values, hlength⟩, ?_, ?_, ?_, ?_, ?_⟩
  . rw [concatDense, concatMap, hvalues]
    simp only [bind, Except.bind, DenseArray.fromVec, dif_pos hlength, Except.mapError]
  . obtain ⟨first, hfirst⟩ := List.exists_mem_of_ne_nil inputs hne
    show shape.extent axis = _
    rw [extent_shape hagree hne hshape hfirst, if_pos rfl]
  . intro input hmem k hk
    show shape.extent k = _
    rw [extent_shape hagree hne hshape hmem, if_neg hk]
  . intro n s hn hs
    obtain ⟨before, input, -, hfills⟩ := exists_fills hagree hne hshape hn hs
    exact ⟨before, input, hfills⟩
  . intro n s hn hs before input hfills
    obtain ⟨view, index, element, hview, hindex, hok, hvalue⟩ := helement n s hn hs before input hfills
    refine ⟨view, index, element, hview, hindex, hok, ?_⟩
    have hlt : offsetOf (s.map (· - 1)) (padded shape.dimensions n) < shape.numel := by
      rw [Shape.numel, ← prod_padded (Nat.le_trans hrank hn)]
      exact offsetOf_lt (Shape.inRange_iff.mp hs).1
    have hget := hforall.get (by simpa using hlt) (hlength.symm ▸ hlt)
    simp only [List.get_eq_getElem, List.getElem_range] at hget
    rw [hvalue, Except.ok.injEq] at hget
    rw [DenseArray.elementAt_eq (Nat.le_trans hrank hn) hs, List.getElem?_eq_getElem (hlength.symm ▸ hlt), hget]

end Plan

section Conversion

variable {name : String} {value : Value P} {view : IndexView} {offset : Nat}

theorem exists_data {α : Type} {array : DenseArray α} {failure : Failure} (h : offset < array.shape.numel)
    : ∃ element, okOr array.data[offset]? failure = .ok element := by
  rw [← array.length_data] at h
  exact ⟨_, okOr_eq_ok_iff.mpr (List.getElem?_eq_getElem h)⟩

/-- The elements of a dense value are numbers, and they have an imaginary part only where the class is complex. -/
theorem exists_numericElement (hview : IndexView.new value = some view) (hoffset : offset < view.shape.numel)
    : ∃ element, numericElement name value offset = .ok element ∧
        (isComplexNumeric value = false → element.imaginary = none) := by
  have hzero : view.shape.numel = 1 → offset = 0 := by omega
  cases value with
  | logical value =>
    cases hview
    exact ⟨_, if_pos (hzero rfl), fun _ => rfl⟩
  | double value =>
    cases hview
    exact ⟨_, if_pos (hzero rfl), fun _ => rfl⟩
  | complex value =>
    cases hview
    exact ⟨_, if_pos (hzero rfl), nofun⟩
  | array data =>
    cases data with
    | f32 array =>
      cases hview
      obtain ⟨element, helement⟩ := @exists_data offset _ array (Rearrangement.mappingError name) hoffset
      rw [numericElement, helement]
      exact ⟨_, rfl, fun _ => rfl⟩
    | complexF32 array =>
      cases hview
      obtain ⟨element, helement⟩ := @exists_data offset _ array (Rearrangement.mappingError name) hoffset
      rw [numericElement, helement]
      exact ⟨_, rfl, nofun⟩
    | f64 array =>
      cases hview
      obtain ⟨element, helement⟩ := @exists_data offset _ array (Rearrangement.mappingError name) hoffset
      rw [numericElement, helement]
      exact ⟨_, rfl, fun _ => rfl⟩
    | complexF64 array =>
      cases hview
      obtain ⟨element, helement⟩ := @exists_data offset _ array (Rearrangement.mappingError name) hoffset
      rw [numericElement, helement]
      exact ⟨_, rfl, nofun⟩
    | logical array =>
      cases hview
      obtain ⟨element, helement⟩ := @exists_data offset _ array (Rearrangement.mappingError name) hoffset
      rw [numericElement, helement]
      exact ⟨_, rfl, fun _ => rfl⟩
    | char array =>
      cases hview
      obtain ⟨element, helement⟩ := @exists_data offset _ array (Rearrangement.mappingError name) hoffset
      rw [numericElement, helement]
      exact ⟨_, rfl, fun _ => rfl⟩
    | integer data =>
      cases data with
      | real type array =>
        cases hview
        obtain ⟨element, helement⟩ := @exists_data offset _ array (Rearrangement.mappingError name) hoffset
        rw [numericElement, helement]
        exact ⟨_, rfl, fun _ => rfl⟩
      | complex type array =>
        cases hview
        obtain ⟨element, helement⟩ := @exists_data offset _ array (Rearrangement.mappingError name) hoffset
        rw [numericElement, helement]
        exact ⟨_, rfl, nofun⟩
  | nothing => cases hview
  | string value => cases hview
  | sparse value => cases hview
  | cell value => cases hview
  | struct value => cases hview
  | table value => cases hview
  | object value => cases hview
  | objectArray value => cases hview
  | graphics value => cases hview
  | graphicsArray value => cases hview
  | function value => cases hview

theorem exists_realComponent (hview : IndexView.new value = some view) (hoffset : offset < view.shape.numel)
    (hreal : isComplexNumeric value = false)
    : ∃ component, realComponent name value offset = .ok component := by
  obtain ⟨element, helement, himaginary⟩ := @exists_numericElement P name value view offset hview hoffset
  have hnone : element.imaginary.isNone = true := by rw [himaginary hreal]; rfl
  refine ⟨element.real, ?_⟩
  rw [realComponent, helement]
  exact bind_eq_ok_iff.mpr ⟨element, rfl, bind_eq_ok_iff.mpr ⟨(), ensure_pos hnone, rfl⟩⟩

theorem exists_logicalElement (hview : IndexView.new value = some view) (hoffset : offset < view.shape.numel)
    (hlogical : isLogical value = true)
    : ∃ element, logicalElement name value offset = .ok element := by
  have hzero : view.shape.numel = 1 → offset = 0 := by omega
  rw [isLogical.eq_def] at hlogical
  split at hlogical
  . cases hview
    exact ⟨_, if_pos (hzero rfl)⟩
  . cases hview
    exact exists_data hoffset
  . cases hlogical

theorem exists_charElement (hview : IndexView.new value = some view) (hoffset : offset < view.shape.numel)
    (hreal : isComplexNumeric value = false)
    : ∃ element, charElement name value offset = .ok element := by
  rw [charElement.eq_def]
  split
  . cases hview
    exact exists_data hoffset
  . obtain ⟨component, hcomponent⟩ := @exists_realComponent P name value view offset hview hoffset hreal
    rw [hcomponent]
    exact ⟨_, rfl⟩

end Conversion

/-- The class of the output, and that all inputs convert to it. -/
structure Combines (name : String) (inputs : List (Value P)) (target : TargetClass) : Prop where
  classified : targetClass name inputs = .ok target
  logical : target = .logical → ∀ input ∈ inputs, isLogical input = true

/-- The inputs joined in an array of the class. -/
def Joined (name : String) (axis : Nat) (inputs : List (Value P)) (data : ArrayData) : TargetClass → Prop
  | .logical => ∃ array, data = .logical array ∧ Joins axis inputs (logicalElement name) array
  | .double false => ∃ array, data = .f64 array ∧ Joins axis inputs (doubleElement name) array
  | .double true => ∃ array, data = .complexF64 array ∧ Joins axis inputs (complexDoubleElement name) array
  | .single false => ∃ array, data = .f32 array ∧ Joins axis inputs (singleElement name) array
  | .single true => ∃ array, data = .complexF32 array ∧ Joins axis inputs (complexSingleElement name) array
  | .char => ∃ array, data = .char array ∧ Joins axis inputs (charElement name) array
  | .integer type => ∃ array, data = .integer (.real type array) ∧ Joins axis inputs (integerElement name type) array

section Target

variable {name : String} {inputs : List (Value P)} {target : TargetClass}

/-- Only the complex classes take complex inputs. -/
theorem real_of_targetClass (h : targetClass name inputs = .ok target)
    (hreal : target = .double false ∨ target = .single false ∨ target = .char ∨ ∃ type, target = .integer type)
    : ∀ input ∈ inputs, isComplexNumeric input = false := by
  have hnone : inputs.any isComplexNumeric = false := by
    cases hcomplex : inputs.any isComplexNumeric with
    | false => rfl
    | true =>
      rw [targetClass, hcomplex] at h
      rcases hreal with rfl | rfl | rfl | ⟨type, rfl⟩ <;> simp only [Bool.or_true, if_true] at h <;>
        split at h <;> try cases h
      all_goals
        split at h <;> try cases h
        split at h <;> try cases h
        split at h <;> cases h
  intro input hmem
  exact Bool.eq_false_of_not_eq_true fun htrue => by
    rw [List.any_eq_false] at hnone
    exact hnone input hmem htrue

theorem exists_concatTarget {axis : Nat} {shape : Shape} (hagree : Agree axis inputs) (hne : inputs ≠ [])
    (hshape : Shape.new (joinedDimensions axis inputs) = .ok shape) (hcombines : Combines name inputs target)
    : ∃ data, concatTarget name
          ⟨placed axis (concatRank axis inputs) 0 inputs, shape, joinedDimensions axis inputs, axis⟩ target = .ok data ∧
        Joined name axis inputs data target := by
  have hreal := real_of_targetClass hcombines.classified
  cases target with
  | logical =>
    obtain ⟨array, harray, hjoins⟩ := @exists_concatDense P _ name axis inputs shape hagree hne hshape
      (logicalElement name) fun input hmem view hview offset hoffset =>
        exists_logicalElement hview hoffset (hcombines.logical rfl input hmem)
    exact ⟨_, by rw [concatTarget, harray]; rfl, array, rfl, hjoins⟩
  | double complex =>
    cases complex with
    | false =>
      obtain ⟨array, harray, hjoins⟩ := @exists_concatDense P _ name axis inputs shape hagree hne hshape
        (doubleElement name) fun input hmem view hview offset hoffset => by
          obtain ⟨component, hcomponent⟩ := @exists_realComponent P name input view offset hview hoffset
            (hreal (.inl rfl) input hmem)
          rw [doubleElement, hcomponent]
          exact ⟨_, rfl⟩
      exact ⟨_, by rw [concatTarget, harray]; rfl, array, rfl, hjoins⟩
    | true =>
      obtain ⟨array, harray, hjoins⟩ := @exists_concatDense P _ name axis inputs shape hagree hne hshape
        (complexDoubleElement name) fun input hmem view hview offset hoffset => by
          obtain ⟨element, helement, -⟩ := @exists_numericElement P name input view offset hview hoffset
          rw [complexDoubleElement, helement]
          exact ⟨_, rfl⟩
      exact ⟨_, by rw [concatTarget, harray]; rfl, array, rfl, hjoins⟩
  | single complex =>
    cases complex with
    | false =>
      obtain ⟨array, harray, hjoins⟩ := @exists_concatDense P _ name axis inputs shape hagree hne hshape
        (singleElement name) fun input hmem view hview offset hoffset => by
          obtain ⟨component, hcomponent⟩ := @exists_realComponent P name input view offset hview hoffset
            (hreal (.inr (.inl rfl)) input hmem)
          rw [singleElement, hcomponent]
          exact ⟨_, rfl⟩
      exact ⟨_, by rw [concatTarget, harray]; rfl, array, rfl, hjoins⟩
    | true =>
      obtain ⟨array, harray, hjoins⟩ := @exists_concatDense P _ name axis inputs shape hagree hne hshape
        (complexSingleElement name) fun input hmem view hview offset hoffset => by
          obtain ⟨element, helement, -⟩ := @exists_numericElement P name input view offset hview hoffset
          rw [complexSingleElement, helement]
          exact ⟨_, rfl⟩
      exact ⟨_, by rw [concatTarget, harray]; rfl, array, rfl, hjoins⟩
  | char =>
    obtain ⟨array, harray, hjoins⟩ := @exists_concatDense P _ name axis inputs shape hagree hne hshape
      (charElement name) fun input hmem view hview offset hoffset =>
        exists_charElement hview hoffset (hreal (.inr (.inr (.inl rfl))) input hmem)
    exact ⟨_, by rw [concatTarget, harray]; rfl, array, rfl, hjoins⟩
  | integer type =>
    obtain ⟨array, harray, hjoins⟩ := @exists_concatDense P _ name axis inputs shape hagree hne hshape
      (integerElement name type) fun input hmem view hview offset hoffset => by
        obtain ⟨component, hcomponent⟩ := @exists_realComponent P name input view offset hview hoffset
          (hreal (.inr (.inr (.inr ⟨type, rfl⟩))) input hmem)
        rw [integerElement, hcomponent]
        exact ⟨_, rfl⟩
    exact ⟨_, by rw [concatTarget, harray]; rfl, array, rfl, hjoins⟩

end Target

theorem validateInputs_eq {name : String} {axis : Nat} {inputs : List (Value P)} (hagree : Agree axis inputs)
    : validateInputs name inputs = .ok () := by
  rw [validateInputs, forM_eq_ok_iff]
  rintro ⟨value, index⟩ hmem
  obtain ⟨view, hview⟩ := hagree.dense value (List.fst_mem_of_mem_zipIdx hmem)
  exact ensure_pos (by rw [hview]; rfl)

/-- The inputs are joined along the axis, and what is converted to integers is rounded to the nearest one. -/
theorem concatenation_correct (name : String) (axis : Nat)
    : (∀ (inputs : List (Value P)) target shape, 2 ≤ inputs.length → Agree axis inputs →
        Combines name inputs target → endOf axis inputs < 2 ^ 64 →
        Shape.new (joinedDimensions axis inputs) = .ok shape →
        ∃ data, concatenate name (axis + 1) inputs = .ok (.array data) ∧ Joined name axis inputs data target) ∧
      (∀ input : Value P, Agree axis [input] → concatenate name (axis + 1) [input] = .ok input) ∧
      ∀ type : IntegerType,
        (∀ value, (type.convert (.signed value)).val = type.saturate value) ∧
        (∀ value, (type.convert (.unsigned value)).val = type.saturate value) ∧
        (∀ value, (type.convert (.float value)).val = type.nearest value.decode.number) ∧
        ∀ value, type.minimum ≤ value → value ≤ type.maximum → type.saturate value = value := by
  refine ⟨?_, ?_, ?_⟩
  . intro inputs target shape hlength hagree hcombines hfits hshape
    have hne : inputs ≠ [] := by
      rintro rfl
      cases hlength
    obtain ⟨data, hdata, hjoined⟩ := exists_concatTarget hagree hne hshape hcombines
    refine ⟨data, ?_, hjoined⟩
    have hplan := @concatPlan_eq P name inputs (axis + 1) shape hne hagree hfits hshape
    rw [Nat.add_sub_cancel] at hplan
    rcases inputs with - | ⟨first, - | ⟨second, rest⟩⟩
    . cases hlength
    . exact absurd hlength (by simp)
    . rw [concatenate, validateInputs_eq hagree, hplan, hcombines.classified]
      simp only [bind, Except.bind, hdata, pure, Except.pure]
      all_goals simp
  . intro input hagree
    rw [concatenate, validateInputs_eq hagree]
    rfl
  . intro type
    exact ⟨type.convert_signed, type.convert_unsigned, type.convert_float, fun _ => IntegerType.saturate_of_bounds⟩

def truths : List (Value noPayloads) := [.logical true, .logical false]

theorem truths_agree : Agree 1 truths where
  dense := by
    intro input hmem
    rcases List.mem_cons.mp hmem with rfl | hmem
    . exact ⟨_, rfl⟩
    . cases List.mem_singleton.mp hmem
      exact ⟨_, rfl⟩
  across := by
    have hextent : ∀ input ∈ truths, ∀ k, extentOf input k = Shape.scalar.extent k := by
      intro input hmem k
      rcases List.mem_cons.mp hmem with rfl | hmem
      . rfl
      . cases List.mem_singleton.mp hmem
        rfl
    intro input hmem other hother k _
    rw [hextent input hmem, hextent other hother]

theorem truths_combine : Combines "horzcat" truths .logical where
  classified := rfl
  logical := by
    intro _ input hmem
    rcases List.mem_cons.mp hmem with rfl | hmem
    . rfl
    . cases List.mem_singleton.mp hmem
      rfl

theorem concatenation_correct_truths
    : ∃ data, horzcat truths = .ok (.array data) ∧ Joined "horzcat" 1 truths data .logical :=
  (concatenation_correct "horzcat" 1).1 truths .logical pairShape (by decide)
    truths_agree truths_combine (by decide) (Shape.new_eq_ok_iff.mpr rfl)

/-- No elements, but as many rows as half the range of an extent. -/
def tall : Value noPayloads :=
  .array (.logical ⟨⟨[2 ^ 63, 0], by decide, Arrays.products_lt_iff.mpr (by decide)⟩, [], by simp [Shape.numel]⟩)

def letter : Value noPayloads := .array (.char ⟨.scalar, [97], rfl⟩)

/-- The extents of two empty arrays overflow, a letter and a truth value have no common class, and the array for no
inputs has the extent one beyond its dimensions. -/
theorem concatenation_refused
    : vertcat [tall, tall] = .error (Rearrangement.mappingError "vertcat") ∧
        horzcat [letter, .logical true] = .error (Concatenation.conversionError "horzcat") ∧
        cat 3 [] = .ok (emptyDouble : Value noPayloads) ∧
        extentOf (emptyDouble : Value noPayloads) 2 ≠ endOf 2 ([] : List (Value noPayloads)) := by
  refine ⟨rfl, rfl, rfl, by decide⟩

end Builtins
end OpenMat
