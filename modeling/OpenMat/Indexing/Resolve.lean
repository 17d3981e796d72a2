import OpenMat.Indexing.Selection
import OpenMat.Sequence.Related

/-!
This module contains the resolution of single subscripts: which indices a subscript lists, when it is valid
for an extent, and what is stored of it.
-/

namespace OpenMat
namespace Indexing

open Arrays (Shape DenseArray ArrayError)
open Arrays.Shape (InRange viewExtents)
open Floats (FloatFormat FloatValue)
open Sequence

variable {P : Payloads}

/-- What a number is as an index: the positive integer that it is, but not more than can be represented. -/
def Indexes (value : FloatValue) (index : Nat) : Prop :=
  ∃ n, 0 < n ∧ value.Is n ∧ index = min n u64Max

theorem saturate_eq {value : FloatValue} {n : Nat} (h : value.Is n) (hpos : 0 < n)
    : (if value.isAtLeast (2 ^ 64) then u64Max else n) = min n u64Max := by
  have hbound : value.isAtLeast (2 ^ 64) = true ↔ 2 ^ 64 ≤ n := h.isAtLeast_iff hpos
  by_cases hle : value.isAtLeast (2 ^ 64) = true
  . have := hbound.mp hle
    rw [if_pos hle, Nat.min_eq_right (by rw [u64Max]; omega)]
  . have : ¬ 2 ^ 64 ≤ n := fun h => hle (hbound.mpr h)
    rw [if_neg hle, Nat.min_eq_left (by rw [u64Max]; omega)]

theorem checkedFloatIndex_eq_ok_iff {value : FloatValue} {invalid : IndexErrorKind → RuntimeErrorKind}
    {index : Nat}
    : checkedFloatIndex value invalid = .ok index ↔ Indexes value index := by
  rw [checkedFloatIndex]
  simp only [bind_eq_ok_iff, ensure_eq_ok_iff, exists_const, pure, Except.pure, Except.ok.injEq]
  constructor
  . rintro ⟨hfinite, hfraction, hpositive, rfl⟩
    have hpos : 0 < value.truncate := FloatValue.truncate_pos hfinite hfraction hpositive
    have his := (FloatValue.is_iff hpos).mpr ⟨hfinite, hfraction, hpositive, rfl⟩
    exact ⟨value.truncate, hpos, his, saturate_eq his hpos⟩
  . rintro ⟨n, hpos, his, rfl⟩
    obtain ⟨hfinite, hfraction, hpositive, htruncate⟩ := (FloatValue.is_iff hpos).mp his
    exact ⟨hfinite, hfraction, hpositive, by rw [htruncate, saturate_eq his hpos]⟩

/-- The number of a character or of an integer. -/
theorem indexes_integer_iff {value : Int} {index : Nat} (hlt : value < 2 ^ 64)
    : Indexes (.finite (value < 0) value.natAbs 0) index ↔ 0 < value ∧ index = value.toNat := by
  simp only [Indexes, FloatValue.Is, pow_zero, mul_one, decide_eq_false_iff_not, u64Max]
  constructor
  . rintro ⟨n, hpos, ⟨hsign, hn⟩, rfl⟩
    omega
  . rintro ⟨hpos, rfl⟩
    exact ⟨value.toNat, by omega, by omega, by omega⟩

theorem element_lt {type : Values.IntegerType} (value : type.Element)
    : value.val < 2 ^ 64 := by
  have hlt := value.property.2
  cases type
  all_goals exact Int.lt_of_lt_of_le hlt (by decide)

theorem indexAt_eq_ok_iff {view : IndexView} {offset argument extent index : Nat} (hindex : index ≠ 0)
    : indexAt view offset argument extent = .ok index ↔
        ∃ value, view.numberAt offset = some value ∧ Indexes value index := by
  match view with
  | .realScalar value =>
    simp only [indexAt, IndexView.numberAt]
    split <;> simp [checkedFloatIndex_eq_ok_iff]
  | .realArray array =>
    simp only [indexAt, IndexView.numberAt, bind_eq_ok_iff, okOr_eq_ok_iff, checkedFloatIndex_eq_ok_iff,
      Option.map_eq_some_iff, exists_exists_and_eq_and]
  | .singleRealArray array =>
    simp only [indexAt, IndexView.numberAt, bind_eq_ok_iff, okOr_eq_ok_iff, checkedFloatIndex_eq_ok_iff,
      Option.map_eq_some_iff, exists_exists_and_eq_and]
  | .char array =>
    simp only [indexAt, IndexView.numberAt, bind_eq_ok_iff, okOr_eq_ok_iff, pure, Except.pure,
      Except.ok.injEq, Option.map_eq_some_iff, exists_exists_and_eq_and]
    apply exists_congr
    intro value
    apply and_congr_right
    intro _
    have hlt := value.isLt
    have hinteger := @indexes_integer_iff (value.toNat : Int) index (by omega)
    simp only [Int.natAbs_natCast, Int.toNat_natCast] at hinteger
    have hsign : decide ((value.toNat : Int) < 0) = false := decide_eq_false (by omega)
    rw [hsign] at hinteger
    rw [hinteger]
    omega
  | .integer (.real _ array) =>
    simp only [indexAt, IndexView.numberAt, bind_eq_ok_iff, okOr_eq_ok_iff, ensure_eq_ok_iff, exists_const,
      tryFrom_eq_some_iff, Option.map_eq_some_iff, exists_exists_and_eq_and]
    apply exists_congr
    intro value
    apply and_congr_right
    intro _
    have hlt := element_lt value
    rw [indexes_integer_iff hlt]
    omega
  | .complexScalar | .complexArray _ | .singleComplexArray _ | .integer (.complex _ _)
  | .logicalScalar _ | .logicalArray _ => simp [indexAt, IndexView.numberAt]

theorem checkedIndexAt_eq_ok_iff {view : IndexView} {offset argument extent index : Nat}
    : checkedIndexAt view offset argument extent = .ok index ↔
        (∃ value, view.numberAt offset = some value ∧ Indexes value index) ∧ index ≤ extent := by
  rw [checkedIndexAt]
  simp only [bind_eq_ok_iff, ensure_eq_ok_iff, exists_const, pure, Except.pure, Except.ok.injEq]
  constructor
  . rintro ⟨_, hindex, hne, hle, rfl⟩
    exact ⟨(indexAt_eq_ok_iff hne).mp hindex, hle⟩
  . rintro ⟨⟨value, hvalue, n, hpos, his, rfl⟩, hle⟩
    have hne : min n u64Max ≠ 0 := by
      rw [u64Max]
      omega
    exact ⟨_, (indexAt_eq_ok_iff hne).mpr ⟨value, hvalue, n, hpos, his, rfl⟩, hne, hle, rfl⟩

/-- The view of a subscript that is a value. -/
def IndexInput.view : IndexInput P → Option IndexView
  | .value supplied => IndexView.new supplied
  | .colon => none

/-- The one-based positions of the true elements of a mask. -/
def IndexView.truePositions (view : IndexView) : List Nat :=
  ((List.range view.numel).filter fun offset => view.logicalAt offset = some true).map (· + 1)

/-- The indices that a subscript lists. -/
def Lists (input : IndexInput P) (extent : Nat) (indices : List Nat) : Prop :=
  match input with
  | .colon => indices = (List.range extent).map (· + 1)
  | .value value => ∃ view, IndexView.new value = some view ∧
      if view.isLogical then
        (view.numel = extent ∨ view.numel = 1) ∧ indices = view.truePositions
      else
        List.Forall₂ (fun offset index => ∃ number, view.numberAt offset = some number ∧ number.Is index)
          (List.range view.numel) indices

/-- A subscript is valid for an extent if all indices that it lists are in range. -/
def Selects (input : IndexInput P) (extent : Nat) (indices : List Nat) : Prop :=
  Lists input extent indices ∧ ∀ index ∈ indices, 0 < index ∧ index ≤ extent

/-- A number that cannot be represented, where the number that replaces it is in range. -/
def Saturates (input : IndexInput P) (extent : Nat) : Prop :=
  u64Max ≤ extent ∧ ∃ view, input.view = some view ∧
    ∃ offset number n, view.numberAt offset = some number ∧ u64Max < n ∧ number.Is n

/-- A single true element, where there is nothing to be selected. -/
def TrueOverNothing (input : IndexInput P) (extent : Nat) : Prop :=
  extent = 0 ∧ ∃ view, input.view = some view ∧ view.isLogical = true ∧ view.numel = 1 ∧
    view.logicalAt 0 = some true

theorem maskIndices_eq_ok (view : IndexView) (hlogical : view.isLogical = true) {offsets : List Nat}
    (h : ∀ offset ∈ offsets, offset < view.numel)
    : maskIndices view false offsets =
        .ok ((offsets.filter fun offset => view.logicalAt offset = some true).map (· + 1)) := by
  induction offsets with
  | nil => rfl
  | cons offset offsets ih =>
    obtain ⟨hoffset, hoffsets⟩ := List.forall_mem_cons.mp h
    obtain ⟨value, hvalue⟩ := view.exists_logicalAt hlogical hoffset
    rw [maskIndices, checkCancelled_false, hvalue, ih hoffsets, List.filter_cons, hvalue]
    cases value <;> rfl

theorem colonIndices_false (extent : Nat)
    : colonIndices extent false = .ok ((List.range extent).map (· + 1)) := by
  rw [colonIndices, forall₂_of_mapM_eq_ok, List.forall₂_map_right_iff, List.forall₂_same]
  intro index _
  rw [checkCancelled_false]
  rfl

/-- What is stored of a subscript. -/
def selectionOf (input : IndexInput P) (extent : Nat) (indices : List Nat) : DimensionSelection :=
  match input.view with
  | none => { indices := indices, sourceShape := [extent, 1], colon := true, logical := false }
  | some view =>
    { indices := indices, sourceShape := view.dimensions, colon := false, logical := view.isLogical }

/-- An index that is not too large is the number itself. -/
theorem indexes_iff_of_not_saturates {input : IndexInput P} {extent : Nat} (h : ¬ Saturates input extent)
    {view : IndexView} (hview : input.view = some view) {offset : Nat} {number : FloatValue}
    (hnumber : view.numberAt offset = some number) {index : Nat}
    : Indexes number index ∧ index ≤ extent ↔ number.Is index ∧ 0 < index ∧ index ≤ extent := by
  have hsmall n (his : number.Is n) (hle : u64Max ≤ extent) : n ≤ u64Max :=
    Nat.le_of_not_lt fun hlt => h ⟨hle, view, hview, offset, number, n, hnumber, hlt, his⟩
  constructor
  . rintro ⟨⟨n, hpos, his, rfl⟩, hle⟩
    have hmin : min n u64Max = n := by
      rcases Nat.le_total n u64Max with hn | hn
      . exact Nat.min_eq_left hn
      . exact Nat.min_eq_left (hsmall n his (Nat.min_eq_right hn ▸ hle))
    rw [hmin] at hle ⊢
    exact ⟨his, hpos, hle⟩
  . rintro ⟨his, hpos, hle⟩
    refine ⟨⟨index, hpos, his, (Nat.min_eq_left ?_).symm⟩, hle⟩
    rcases Nat.le_total index u64Max with hindex | hindex
    . exact hindex
    . exact hsmall index his (Nat.le_trans hindex hle)

theorem numericIndices_eq_ok_iff {input : IndexInput P} {extent argument : Nat}
    (h : ¬ Saturates input extent) {view : IndexView} (hview : input.view = some view) {indices : List Nat}
    : numericIndices view extent argument false = .ok indices ↔
        List.Forall₂ (fun offset index => ∃ number, view.numberAt offset = some number ∧ number.Is index)
          (List.range view.numel) indices ∧ ∀ index ∈ indices, 0 < index ∧ index ≤ extent := by
  rw [numericIndices, forall₂_of_mapM_eq_ok]
  have hstep offset index : (do
      checkCancelled false offset
      checkedIndexAt view offset argument extent) = .ok index ↔
        (∃ number, view.numberAt offset = some number ∧ number.Is index) ∧ 0 < index ∧ index ≤ extent := by
    rw [checkCancelled_false]
    constructor
    . intro hindex
      obtain ⟨⟨number, hnumber, hindexes⟩, hle⟩ := checkedIndexAt_eq_ok_iff.mp hindex
      obtain ⟨his, hrange⟩ := (indexes_iff_of_not_saturates h hview hnumber).mp ⟨hindexes, hle⟩
      exact ⟨⟨number, hnumber, his⟩, hrange⟩
    . rintro ⟨⟨number, hnumber, his⟩, hrange⟩
      obtain ⟨hindexes, hle⟩ := (indexes_iff_of_not_saturates h hview hnumber).mpr ⟨his, hrange⟩
      exact checkedIndexAt_eq_ok_iff.mpr ⟨⟨number, hnumber, hindexes⟩, hle⟩
  simp only [hstep]
  exact forall₂_and_right_iff

theorem resolveView_mask_eq_ok_iff {view : IndexView} {extent argument : Nat}
    (hlogical : view.isLogical = true) {indices : List Nat}
    : resolveView view extent argument false = .ok indices ↔
        (view.numel = extent ∨ view.numel = 1) ∧ indices = view.truePositions := by
  have hmask := maskIndices_eq_ok view hlogical fun offset hoffset => List.mem_range.mp hoffset
  rw [resolveView, if_pos hlogical, checkCancelled_false, hmask, bind_eq_ok_iff]
  simp only [ensure_eq_ok_iff, exists_const]
  apply and_congr_right
  intro _
  constructor
  . intro h
    cases h
    rfl
  . rintro rfl
    rfl

theorem resolveView_numeric_eq_ok_iff {input : IndexInput P} {extent argument : Nat}
    (h : ¬ Saturates input extent) {view : IndexView} (hview : input.view = some view)
    (hlogical : ¬ view.isLogical = true) {indices : List Nat}
    : resolveView view extent argument false = .ok indices ↔
        List.Forall₂ (fun offset index => ∃ number, view.numberAt offset = some number ∧ number.Is index)
          (List.range view.numel) indices ∧ ∀ index ∈ indices, 0 < index ∧ index ≤ extent := by
  rw [resolveView, if_neg hlogical, checkCancelled_false]
  exact numericIndices_eq_ok_iff h hview

/-- A subscript resolves to the indices that it lists, unless one of its numbers is out of range. -/
theorem resolveDimension_eq_ok_iff {input : IndexInput P} {extent argument : Nat}
    (h : ¬ Saturates input extent) {selection : DimensionSelection}
    : resolveDimension input extent argument false = .ok selection ↔
        ∃ indices, Lists input extent indices ∧ selection = selectionOf input extent indices ∧
          (selection.logical = false → ∀ index ∈ indices, 0 < index ∧ index ≤ extent) := by
  cases input with
  | colon =>
    rw [resolveDimension, checkCancelled_false, colonIndices_false]
    simp only [Lists, exists_eq_left]
    constructor
    . intro hok
      cases hok
      refine ⟨rfl, fun _ index hindex => ?_⟩
      simp only [List.mem_map, List.mem_range] at hindex
      omega
    . rintro ⟨rfl, -⟩
      rfl
  | value value =>
    rw [resolveDimension, bind_eq_ok_iff]
    simp only [okOr_eq_ok_iff]
    cases hview : IndexView.new value with
    | none => simp [Lists, hview]
    | some view =>
      have hstored indices : selectionOf (.value value : IndexInput P) extent indices =
          ⟨indices, view.dimensions, false, view.isLogical⟩ := by
        rw [selectionOf, IndexInput.view, hview]
      simp only [Lists, hview, Option.some.injEq, exists_eq_left', hstored, bind_eq_ok_iff]
      by_cases hlogical : view.isLogical = true
      . simp only [resolveView_mask_eq_ok_iff hlogical, if_pos hlogical]
        constructor
        . rintro ⟨indices, hindices, hselection⟩
          cases hselection
          exact ⟨indices, hindices, rfl, fun hfalse => by rw [hlogical] at hfalse; cases hfalse⟩
        . rintro ⟨indices, hindices, rfl, -⟩
          exact ⟨indices, hindices, rfl⟩
      . simp only [resolveView_numeric_eq_ok_iff h hview hlogical, if_neg hlogical]
        constructor
        . rintro ⟨indices, ⟨hnumbers, hrange⟩, hselection⟩
          cases hselection
          exact ⟨indices, hnumbers, rfl, fun _ => hrange⟩
        . rintro ⟨indices, hnumbers, rfl, hrange⟩
          exact ⟨indices, ⟨hnumbers, hrange (Bool.eq_false_iff.mpr hlogical)⟩, rfl⟩

@[simp]
theorem indices_selectionOf (input : IndexInput P) (extent : Nat) (indices : List Nat)
    : (selectionOf input extent indices).indices = indices := by
  rw [selectionOf]
  cases input.view <;> rfl

/-- What holds of a subscript that has been resolved. -/
def Resolved (p : IndexInput P × Nat) (selection : DimensionSelection) : Prop :=
  Lists p.1 p.2 selection.indices ∧ selection = selectionOf p.1 p.2 selection.indices ∧
    (selection.logical = false → ∀ index ∈ selection.indices, 0 < index ∧ index ≤ p.2)

theorem resolveDimensions_eq_ok_iff {argument : Nat} {inputs : List (IndexInput P × Nat)}
    (h : ∀ p ∈ inputs, ¬ Saturates p.1 p.2) {selections : List DimensionSelection}
    : resolveDimensions false argument inputs = .ok selections ↔ List.Forall₂ Resolved inputs selections := by
  induction inputs generalizing argument selections with
  | nil => simp [resolveDimensions, eq_comm]
  | cons p inputs ih =>
    obtain ⟨hp, hinputs⟩ := List.forall_mem_cons.mp h
    have hresolved selection : resolveDimension p.1 p.2 argument false = .ok selection ↔
        Resolved p selection := by
      rw [resolveDimension_eq_ok_iff hp, Resolved]
      constructor
      . rintro ⟨indices, hlists, hselection, hrange⟩
        have hindices : selection.indices = indices := by rw [hselection, indices_selectionOf]
        rw [hindices]
        exact ⟨hlists, hselection, hrange⟩
      . intro h
        exact ⟨_, h⟩
    rw [resolveDimensions, bind_eq_ok_iff, List.forall₂_cons_left_iff]
    simp only [hresolved, bind_eq_ok_iff, ih hinputs, pure, Except.pure, Except.ok.injEq]
    constructor
    . rintro ⟨selection, hselection, selections, hselections, rfl⟩
      exact ⟨selection, selections, hselection, hselections, rfl⟩
    . rintro ⟨selection, selections, hselection, hselections, rfl⟩
      exact ⟨selection, hselection, selections, hselections, rfl⟩

theorem Resolved.of_selects {p : IndexInput P × Nat} {indices : List Nat} (h : Selects p.1 p.2 indices)
    : Resolved p (selectionOf p.1 p.2 indices) := by
  rw [Resolved, indices_selectionOf]
  exact ⟨h.1, rfl, fun _ => h.2⟩

/-- A mask that is not longer than the extent has no element beyond it. -/
theorem Resolved.selects {p : IndexInput P × Nat} {selection : DimensionSelection}
    (h : Resolved p selection) (hmask : ¬ TrueOverNothing p.1 p.2)
    : Selects p.1 p.2 selection.indices := by
  obtain ⟨hlists, hselection, hrange⟩ := h
  refine ⟨hlists, ?_⟩
  cases hlogical : selection.logical with
  | false => exact hrange hlogical
  | true =>
    obtain ⟨input, extent⟩ := p
    cases input with
    | colon =>
      rw [hselection] at hlogical
      cases hlogical
    | value value =>
      obtain ⟨view, hview, hlists⟩ := hlists
      have hviewLogical : view.isLogical = true := by
        rw [hselection, selectionOf, IndexInput.view, hview] at hlogical
        exact hlogical
      rw [if_pos hviewLogical] at hlists
      obtain ⟨hlength, hindices⟩ := hlists
      intro index hindex
      rw [hindices, IndexView.truePositions] at hindex
      obtain ⟨offset, hoffset, rfl⟩ := List.mem_map.mp hindex
      obtain ⟨hlt, htrue⟩ := List.mem_filter.mp hoffset
      rw [List.mem_range] at hlt
      refine ⟨Nat.succ_pos _, ?_⟩
      rcases hlength with hlength | hone
      . exact hlength ▸ hlt
      . have hzero : offset = 0 := by omega
        subst hzero
        refine Nat.pos_of_ne_zero fun hextent => hmask ⟨hextent, view, hview, hviewLogical, hone, ?_⟩
        exact of_decide_eq_true htrue

theorem linearOffsets_eq_ok_iff {shape : Shape} {indices offsets : List Nat}
    : linearOffsets shape false indices = .ok offsets ↔
        (∀ index ∈ indices, 0 < index ∧ index ≤ shape.numel) ∧ offsets = indices.map (· - 1) := by
  have hstep (p : Nat × Nat) offset : (do
      checkCancelled false p.2
      ensure (¬ (p.1 = 0 ∨ p.1 > shape.numel)) (.array (.indexOutOfBounds 0 p.1 shape.numel))
      return p.1 - 1 : Except RuntimeErrorKind Nat) = .ok offset ↔
        (0 < p.1 ∧ p.1 ≤ shape.numel) ∧ p.1 - 1 = offset := by
    simp only [checkCancelled_false, bind_eq_ok_iff, ensure_eq_ok_iff, exists_const, pure, Except.pure,
      Except.ok.injEq, true_and]
    omega
  have hfst : List.Forall₂ (fun p offset => (0 < p.1 ∧ p.1 ≤ shape.numel) ∧ p.1 - 1 = offset)
      indices.zipIdx offsets ↔
        List.Forall₂ (fun index offset => (0 < index ∧ index ≤ shape.numel) ∧ index - 1 = offset)
          (indices.zipIdx.map Prod.fst) offsets := by
    rw [List.forall₂_map_left_iff]
  have hmap : List.Forall₂ (fun index offset => index - 1 = offset) indices offsets ↔
      List.Forall₂ Eq (indices.map (· - 1)) offsets := by
    rw [List.forall₂_map_left_iff]
  rw [linearOffsets, forall₂_of_mapM_eq_ok]
  simp only [hstep]
  rw [hfst, List.zipIdx_map_fst, List.forall₂_and_left, hmap, List.forall₂_eq_eq_eq, @eq_comm _ offsets]

/-- The loop of the decoding takes the components of the tuple at the position. -/
theorem subscriptsAt_eq_ok {selections : List DimensionSelection} {position : Nat} {tuple : List Nat}
    (h : (columnMajor (selections.map DimensionSelection.indices))[position]? = some tuple)
    : subscriptsAt selections position = .ok tuple := by
  induction selections generalizing position tuple with
  | nil =>
    rw [List.map_nil, columnMajor, List.getElem?_singleton] at h
    split at h
    . cases h
      rfl
    . cases h
  | cons selection selections ih =>
    rw [List.map_cons] at h
    by_cases hempty : selection.indices.length = 0
    . rw [List.length_eq_zero_iff.mp hempty, columnMajor] at h
      simp at h
    . rw [getElem?_columnMajor_cons (Nat.pos_of_ne_zero hempty), Option.bind_eq_some_iff] at h
      obtain ⟨rest, hrest, hindex⟩ := h
      obtain ⟨index, hget, rfl⟩ := Option.map_eq_some_iff.mp hindex
      rw [subscriptsAt, if_neg hempty, hget, ih hrest]
      rfl

theorem productOffsets_eq_ok_iff {shape : Shape} {selections : List DimensionSelection}
    {linears offsets : List Nat}
    (h : ∀ linear ∈ linears, linear < (columnMajor (selections.map DimensionSelection.indices)).length)
    : productOffsets shape selections false linears = .ok offsets ↔
        List.Forall₂ (fun linear offset => ∃ tuple,
          (columnMajor (selections.map DimensionSelection.indices))[linear]? = some tuple ∧
            shape.offsetForSubscripts tuple = .ok offset) linears offsets := by
  induction linears generalizing offsets with
  | nil => simp [productOffsets, eq_comm]
  | cons linear linears ih =>
    obtain ⟨hlinear, hlinears⟩ := List.forall_mem_cons.mp h
    have htuple := List.getElem?_eq_getElem hlinear
    have hlength := length_of_mem_columnMajor (List.getElem_mem hlinear)
    rw [List.length_map] at hlength
    rw [productOffsets, checkCancelled_false, subscriptsAt_eq_ok htuple, List.forall₂_cons_left_iff, htuple]
    simp only [bind, Except.bind, hlength, if_true, Option.some.injEq, exists_eq_left']
    constructor
    . intro h
      obtain ⟨offset, hoffset, h⟩ := bind_eq_ok_iff.mp h
      obtain ⟨rest, hrest, h⟩ := bind_eq_ok_iff.mp h
      cases h
      exact ⟨offset, rest, mapError_eq_ok_iff.mp hoffset, (ih hlinears).mp hrest, rfl⟩
    . rintro ⟨offset, rest, hoffset, hrest, rfl⟩
      refine bind_eq_ok_iff.mpr ⟨offset, mapError_eq_ok_iff.mpr hoffset, ?_⟩
      exact bind_eq_ok_iff.mpr ⟨rest, (ih hlinears).mpr hrest, rfl⟩

/-- The offset of each tuple. -/
theorem productOffsets_range_eq_ok_iff {shape : Shape} {selections : List DimensionSelection}
    {offsets : List Nat}
    : productOffsets shape selections false
        (List.range (selections.map fun selection => selection.indices.length).prod) = .ok offsets ↔
        List.Forall₂ (fun tuple offset => shape.offsetForSubscripts tuple = .ok offset)
          (columnMajor (selections.map DimensionSelection.indices)) offsets := by
  have hlength : (selections.map fun selection => selection.indices.length).prod =
      (columnMajor (selections.map DimensionSelection.indices)).length := by
    rw [length_columnMajor, List.map_map]
    rfl
  rw [hlength, productOffsets_eq_ok_iff fun linear hlinear => List.mem_range.mp hlinear]
  exact forall₂_range_iff

/-- The extents that can be computed. -/
theorem exists_effectiveDimensions_iff {shape : Shape} {count : Nat} (hcount : 0 < count)
    : (∃ extents, shape.effectiveDimensions count = .ok extents) ↔
        (1 < count → count < shape.ndims → Fits (shape.dimensions.drop (count - 1))) := by
  rw [Shape.effectiveDimensions, if_neg (by omega)]
  by_cases hone : count = 1
  . rw [if_pos hone]
    exact ⟨fun _ _ => by omega, fun _ => ⟨_, rfl⟩⟩
  rw [if_neg hone]
  by_cases hlt : count < shape.ndims
  . rw [if_pos hlt]
    have hchecked product := @Arrays.checkProducts_eq_ok_iff (count - 1) 1 product
      (shape.dimensions.drop (count - 1)) (by decide)
    simp only [one_mul] at hchecked
    constructor
    . rintro ⟨extents, h⟩ _ _
      obtain ⟨product, hproduct, -⟩ := bind_eq_ok_iff.mp h
      exact ((hchecked product).mp hproduct).1
    . intro h
      exact ⟨_, bind_eq_ok_iff.mpr ⟨_, (hchecked _).mpr ⟨h (by omega) hlt, rfl⟩, rfl⟩⟩
  . rw [if_neg hlt]
    exact ⟨fun _ _ h => absurd h hlt, fun _ => ⟨_, rfl⟩⟩

theorem exists_new_numel {dimensions : List Nat} (h : Fits dimensions)
    : ∃ shape, Shape.new dimensions = .ok shape ∧ shape.numel = dimensions.prod := by
  obtain ⟨shape, hshape⟩ := Shape.exists_new_iff.mpr h
  exact ⟨shape, hshape, by rw [Shape.numel, Shape.new_eq_ok_iff.mp hshape, Arrays.prod_canonicalDimensions]⟩

theorem exists_new_vector {length : Nat} (h : length < 2 ^ 64) {dimensions : List Nat}
    (hdimensions : dimensions = [length, 1] ∨ dimensions = [1, length])
    : ∃ shape, Shape.new dimensions = .ok shape ∧ shape.numel = length := by
  have hprod : dimensions.prod = length := by
    rcases hdimensions with rfl | rfl <;> simp
  rw [← hprod]
  apply exists_new_numel
  intro n
  rcases hdimensions with rfl | rfl
  . rcases n with _ | _ | n
    . simp
    . simpa using h
    . simpa using h
  . rcases n with _ | _ | n
    . simp
    . simp
    . simpa using h

theorem Lists.length_lt {input : IndexInput P} {extent : Nat} {indices : List Nat}
    (h : Lists input extent indices) (hextent : extent < 2 ^ 64)
    : indices.length < 2 ^ 64 := by
  cases input with
  | colon =>
    cases h
    rwa [List.length_map, List.length_range]
  | value value =>
    obtain ⟨view, -, h⟩ := h
    have hnumel := view.numel_lt
    split at h
    . obtain ⟨-, rfl⟩ := h
      rw [IndexView.truePositions, List.length_map]
      have := List.length_filter_le (fun offset => view.logicalAt offset = some true) (List.range view.numel)
      rw [List.length_range] at this
      omega
    . rw [← h.length_eq, List.length_range]
      exact hnumel

/-- The result of a single subscript has an element for each index. -/
theorem Resolved.exists_linear_shape {shape : Shape} {p : IndexInput P × Nat} {selection : DimensionSelection}
    (h : Resolved p selection) (hextent : p.2 < 2 ^ 64)
    : ∃ result, Shape.new (linearResultDimensions shape selection) = .ok result ∧
        result.numel = selection.indices.length := by
  have hlt := h.1.length_lt hextent
  rw [linearResultDimensions]
  split
  . exact exists_new_vector hlt (.inl rfl)
  . rename_i hcolon
    split
    . split
      . exact exists_new_vector hlt (.inr rfl)
      . exact exists_new_vector hlt (.inl rfl)
    . split
      . exact exists_new_vector hlt (.inl rfl)
      . rename_i hlogical
        -- the result has the shape of the numbers
        obtain ⟨hlists, hselection, -⟩ := h
        obtain ⟨input, extent⟩ := p
        cases input with
        | colon =>
          rw [hselection] at hcolon
          exact absurd rfl hcolon
        | value value =>
          obtain ⟨view, hview, hlists⟩ := hlists
          have hstored : selection = ⟨selection.indices, view.dimensions, false, view.isLogical⟩ := by
            rw [selectionOf, IndexInput.view, hview] at hselection
            exact hselection
          have hnumeric : ¬ view.isLogical = true := by
            rw [hstored] at hlogical
            exact hlogical
          rw [if_neg hnumeric] at hlists
          have hsource : selection.sourceShape = view.dimensions := by rw [hstored]
          rw [hsource]
          refine ⟨view.shape, Shape.new_dimensions _, ?_⟩
          rw [← hlists.length_eq, List.length_range, IndexView.numel]

end Indexing
end OpenMat
