import OpenMat.Arrays.Subscripts
import OpenMat.Builtins.Grouped
import Mathlib.Data.List.Perm.Subperm

/-!
This module contains the outputs of the distinct elements: the elements, their first positions, and the groups
of all positions.
-/

namespace OpenMat
namespace Builtins

open Arrays

section Columns

variable {T : Type} {input : DenseArray T}

/-- The outputs of the distinct elements, as far as they are requested. -/
structure UniqueArrays (T : Type) where
  values : DenseArray T
  indices : DenseArray Nat
  inverse : DenseArray Nat

def UniqueArrays.outputs (arrays : UniqueArrays T) : List (UniqueOutput T) :=
  [.values arrays.values, .positions arrays.indices, .positions arrays.inverse]

theorem exists_new_pair {m n : Nat} (hm : m < 2 ^ 64) (hmn : m * n < 2 ^ 64)
    : ∃ shape, Shape.new [m, n] = .ok shape ∧ shape.dimensions = [m, n] := by
  obtain ⟨shape, hshape⟩ := (@Shape.exists_new_iff [m, n]).mpr fun k => by
    rcases k with _ | _ | k
    . exact Nat.one_lt_two_pow (by decide)
    . simpa using hm
    . simpa using hmn
  exact ⟨shape, hshape, by simpa [canonicalDimensions] using Shape.new_eq_ok_iff.mp hshape⟩

theorem numel_pair {shape : Shape} {m n : Nat} (h : shape.dimensions = [m, n])
    : shape.numel = m * n := by
  rw [Shape.numel, h, List.prod_cons, List.prod_singleton]

theorem exists_indexColumn {values : List Nat} (h : values.length < 2 ^ 64)
    : ∃ column, indexColumn values = .ok column ∧ column.data = values ∧
        column.shape.dimensions = [values.length, 1] := by
  obtain ⟨shape, hshape, hdimensions⟩ := exists_new_pair h (by rwa [Nat.mul_one])
  have hlength : values.length = shape.numel := by rw [numel_pair hdimensions, Nat.mul_one]
  refine ⟨⟨shape, values, hlength⟩, ?_, rfl, hdimensions⟩
  rw [indexColumn, hshape, Except.mapError]
  simp only [bind, Except.bind, DenseArray.fromVec, dif_pos hlength, Except.mapError]

theorem exists_buildSelected {values : List T} (h : values.length ≤ input.data.length)
    : ∃ selected, buildSelected input.shape values = .ok selected ∧ selected.data = values := by
  have hfits := input.shape.numel_lt
  rw [← input.length_data] at hfits
  have hshape : ∃ shape, uniqueShape input.shape values.length = .ok shape ∧ values.length = shape.numel := by
    rw [uniqueShape]
    split
    . rename_i hempty
      obtain ⟨shape, hshape, hdimensions⟩ := @exists_new_pair 0 0 (by decide) (by decide)
      refine ⟨shape, by rw [hshape]; rfl, ?_⟩
      rw [numel_pair hdimensions]
      rw [input.length_data, hempty.1] at h
      omega
    . split
      . obtain ⟨shape, hshape, hdimensions⟩ := @exists_new_pair 1 values.length (by decide) (by omega)
        exact ⟨shape, by rw [hshape]; rfl, by rw [numel_pair hdimensions, Nat.one_mul]⟩
      . obtain ⟨shape, hshape, hdimensions⟩ := @exists_new_pair values.length 1 (by omega) (by omega)
        exact ⟨shape, by rw [hshape]; rfl, by rw [numel_pair hdimensions, Nat.mul_one]⟩
  obtain ⟨shape, hshape, hlength⟩ := hshape
  refine ⟨⟨shape, values, hlength⟩, ?_, rfl⟩
  rw [buildSelected, hshape]
  simp only [bind, Except.bind, DenseArray.fromVec, dif_pos hlength, Except.mapError]

theorem uniqueOutputs_eq {result : UniqueResult T} {values : DenseArray T} {indices inverse : DenseArray Nat}
    (hindices : indexColumn result.indices = .ok indices)
    (hinverse : indexColumn result.inverse = .ok inverse)
    (hlength : result.inverse.length = input.shape.numel) (requested : Nat)
    : uniqueOutputs values input.shape result.indices result.inverse requested =
        .ok ((UniqueArrays.mk values indices inverse).outputs.take requested) := by
  have hcolumn : inverseColumn input.shape result.inverse = .ok inverse := by
    rw [inverseColumn, ensure_pos hlength]
    exact hinverse
  rw [uniqueOutputs, hindices, hcolumn]
  rcases requested with _ | _ | _ | requested
  . rfl
  . rfl
  . rfl
  . have hone : decide (1 < requested + 3) = true := by simp
    have htwo : decide (2 < requested + 3) = true := by simp
    rw [positionsIf, positionsIf, hone, htwo]
    simp [bind, Except.bind, UniqueArrays.outputs]

end Columns

variable {T : Type} [SetElement T]

/-- What the outputs say of the elements of the array. Positions count from one. -/
structure IsUnique (order : UniqueOrder) (input : DenseArray T) (arrays : UniqueArrays T) : Prop where
  columns : arrays.indices.shape.dimensions = [arrays.values.data.length, 1] ∧
    arrays.inverse.shape.dimensions = [input.data.length, 1]
  selected : ∀ j < arrays.values.data.length, ∃ i < input.data.length,
    arrays.indices.data[j]? = some (i + 1) ∧ arrays.values.data[j]? = input.data[i]?
  restored : ∀ (k : Nat) (a : T), input.data[k]? = some a → ∃ (j : Nat) (c : T),
    arrays.inverse.data[k]? = some (j + 1) ∧ arrays.values.data[j]? = some c ∧
      (SetElement.setEqual a c = true ∨ IsMissing a ∧ arrays.indices.data[j]? = some (k + 1))
  distinct : ∀ (i j : Nat) (a b : T), arrays.values.data[i]? = some a → arrays.values.data[j]? = some b →
    SetElement.setEqual a b = true → i = j
  first : ∀ (j : Nat) (c : T) (i : Nat), arrays.values.data[j]? = some c →
    arrays.indices.data[j]? = some (i + 1) →
    ∀ (k : Nat) (a : T), k < i → input.data[k]? = some a → SetElement.setEqual a c = false
  sorted : order = .sorted → arrays.values.data.Pairwise fun a b => SetElement.setCompare a b ≠ .gt
  increasing : order = .stable → arrays.indices.data.Pairwise (· < ·)

section Outputs

variable {input : DenseArray T} {result : UniqueResult T}

theorem Grouped.length_le (hgrouped : Grouped input.data.zipIdx result)
    : result.values.length ≤ input.data.length := by
  have hsubset : result.indices ⊆ (List.range input.data.length).map (· + 1) := by
    intro k hk
    obtain ⟨j, hj⟩ := List.getElem?_of_mem hk
    obtain ⟨p, hp, -, rfl⟩ := hgrouped.position hj
    exact List.mem_map.mpr ⟨p.2, List.mem_range.mpr (mem_zipIdx_lt hp), rfl⟩
  have := (hgrouped.nodup.subperm hsubset).length_le
  rw [List.length_map, List.length_range] at this
  rwa [← hgrouped.length_indices]

/-- The outputs of one order, from the groups that it finds. -/
theorem exists_uniqueArrays {order : UniqueOrder} (hresult : uniqueDense input order = .ok result)
    (hinverse : result.inverse.length = input.data.length) (hgrouped : Grouped input.data.zipIdx result)
    (hsorted : order = .sorted → result.values.Pairwise fun a b => SetElement.setCompare a b ≠ .gt)
    (hincreasing : order = .stable → result.indices.Pairwise (· < ·))
    : ∃ arrays : UniqueArrays T,
        (∀ requested, uniqueArray input order requested = .ok (arrays.outputs.take requested)) ∧
        IsUnique order input arrays ∧ arrays.values.data = result.values := by
  have hfits := input.shape.numel_lt
  rw [← input.length_data] at hfits
  have hle := hgrouped.length_le
  obtain ⟨values, hvalues, hvaluesData⟩ := exists_buildSelected hle
  obtain ⟨indices, hindices, hindicesData, hindicesShape⟩ :=
    @exists_indexColumn result.indices (by rw [hgrouped.length_indices]; omega)
  obtain ⟨inverse, hinverseColumn, hinverseData, hinverseShape⟩ := @exists_indexColumn result.inverse (by omega)
  refine ⟨⟨values, indices, inverse⟩, fun requested => ?_, ?_, hvaluesData⟩
  . rw [uniqueArray, hresult]
    simp only [bind, Except.bind, hvalues]
    exact uniqueOutputs_eq hindices hinverseColumn (by rw [hinverse, input.length_data]) requested
  . refine ⟨⟨?_, ?_⟩, fun j hj => ?_, fun k a ha => ?_, ?_, ?_, ?_, ?_⟩
    . rw [hindicesShape, hvaluesData, hgrouped.length_indices]
    . rw [hinverseShape, hinverse]
    . rw [hvaluesData] at hj
      obtain ⟨p, hp, hvalue, hindex⟩ := hgrouped.selected j hj
      refine ⟨p.2, mem_zipIdx_lt hp, by rw [hindicesData, hindex], ?_⟩
      rw [hvaluesData, hvalue, List.mem_zipIdx_iff_getElem?.mp hp]
    . rw [hinverseData, hvaluesData, hindicesData]
      exact hgrouped.restored (a, k) (List.mem_zipIdx_iff_getElem?.mpr ha)
    . rw [hvaluesData]
      exact hgrouped.distinct
    . rw [hvaluesData, hindicesData]
      intro j c i hc hi k a hk ha
      exact hgrouped.first j c i hc hi (a, k) (List.mem_zipIdx_iff_getElem?.mpr ha) hk
    . rw [hvaluesData]
      exact hsorted
    . rw [hindicesData]
      exact hincreasing

/-- The groups start at the elements that no element before equals. -/
theorem Grouped.mem_indices_iff (h : TiesAreEqual T) (hgrouped : Grouped input.data.zipIdx result) {k : Nat}
    : k + 1 ∈ result.indices ↔ ∃ a, input.data[k]? = some a ∧
        ∀ i b, i < k → input.data[i]? = some b → SetElement.setEqual b a = false := by
  constructor
  . intro hk
    obtain ⟨j, hj⟩ := List.getElem?_of_mem hk
    obtain ⟨p, hp, hvalue, hindex⟩ := hgrouped.position hj
    obtain rfl : k = p.2 := by omega
    refine ⟨p.1, List.mem_zipIdx_iff_getElem?.mp hp, fun i b hi hb => ?_⟩
    exact hgrouped.first j p.1 p.2 hvalue hj (b, i) (List.mem_zipIdx_iff_getElem?.mpr hb) hi
  . rintro ⟨a, ha, hfirst⟩
    obtain ⟨j, c, -, hc, hequal | hmissing⟩ := hgrouped.restored (a, k) (List.mem_zipIdx_iff_getElem?.mpr ha)
    . obtain ⟨p, hp, hvalue, hindex⟩ := hgrouped.selected j (List.getElem?_eq_some_iff.mp hc).1
      obtain rfl : c = p.1 := by rwa [hc, Option.some.injEq] at hvalue
      have hat := List.mem_zipIdx_iff_getElem?.mp hp
      rcases Nat.lt_trichotomy k p.2 with hlt | rfl | hgt
      . -- an element before the start of its group differs from it
        have := hgrouped.first j p.1 p.2 hc hindex (a, k) (List.mem_zipIdx_iff_getElem?.mpr ha) hlt
        rw [hequal] at this
        cases this
      . exact List.mem_of_getElem? hindex
      . have := hfirst p.2 p.1 hgt hat
        rw [setEqual_symm h hequal] at this
        cases this
    . exact List.mem_of_getElem? hmissing.2

theorem Grouped.values_eq (hgrouped : Grouped input.data.zipIdx result)
    : result.values.map some = result.indices.map fun k => input.data[k - 1]? := by
  apply List.ext_getElem? 
  intro j
  rw [List.getElem?_map, List.getElem?_map]
  cases hj : result.indices[j]? with
  | none =>
    rw [List.getElem?_eq_none_iff, hgrouped.length_indices] at hj
    rw [List.getElem?_eq_none hj]
    rfl
  | some k =>
    obtain ⟨p, hp, hvalue, rfl⟩ := hgrouped.position hj
    rw [hvalue]
    exact congrArg some (List.mem_zipIdx_iff_getElem?.mp hp).symm

/-- The groups of the elements do not depend on the order in which they are found. -/
theorem Grouped.perm (h : TiesAreEqual T) {result' : UniqueResult T}
    (hgrouped : Grouped input.data.zipIdx result) (hgrouped' : Grouped input.data.zipIdx result')
    : result.values.Perm result'.values := by
  have hindices : result.indices.Perm result'.indices := by
    rw [List.perm_ext_iff_of_nodup hgrouped.nodup hgrouped'.nodup]
    intro k
    cases k with
    | zero =>
      have hzero {r : UniqueResult T} (hr : Grouped input.data.zipIdx r) : 0 ∉ r.indices := by
        intro hmem
        obtain ⟨j, hj⟩ := List.getElem?_of_mem hmem
        obtain ⟨p, -, -, hp⟩ := hr.position hj
        omega
      exact iff_of_false (hzero hgrouped) (hzero hgrouped')
    | succ k => rw [hgrouped.mem_indices_iff h, hgrouped'.mem_indices_iff h]
  have hmap := hindices.map fun k => input.data[k - 1]?
  rw [← hgrouped.values_eq, ← hgrouped'.values_eq] at hmap
  exact (List.map_perm_map_iff (Option.some_injective T)).mp hmap

/-- Both orders give the distinct elements with the positions that select and restore them. -/
def FindsUnique (input : DenseArray T) : Prop :=
  ∃ sorted stable : UniqueArrays T,
    (∀ requested, uniqueArray input .sorted requested = .ok (sorted.outputs.take requested)) ∧
    (∀ requested, uniqueArray input .stable requested = .ok (stable.outputs.take requested)) ∧
    IsUnique .sorted input sorted ∧ IsUnique .stable input stable ∧
    sorted.values.data.Perm stable.values.data

theorem uniqueArray_correct (input : DenseArray T) (h : TiesAreEqual T)
    : FindsUnique input := by
  obtain ⟨result, hresult, hinverse, hgrouped, hsorted⟩ := @uniqueDense_sorted T _ input h
  obtain ⟨result', hresult', hinverse', hgrouped', hincreasing⟩ := @uniqueDense_stable T _ input h
  obtain ⟨sorted, houtputs, hunique, hvalues⟩ :=
    exists_uniqueArrays hresult hinverse hgrouped (fun _ => hsorted) nofun
  obtain ⟨stable, houtputs', hunique', hvalues'⟩ :=
    exists_uniqueArrays hresult' hinverse' hgrouped' nofun (fun _ => hincreasing)
  refine ⟨sorted, stable, houtputs, houtputs', hunique, hunique', ?_⟩
  rw [hvalues, hvalues']
  exact hgrouped.perm h hgrouped'

end Outputs

def repeatedLogicals : DenseArray Bool := ⟨.matrix 3 1, [true, false, true], by decide⟩

theorem uniqueArray_correct_logicals
    : FindsUnique repeatedLogicals :=
  uniqueArray_correct repeatedLogicals ⟨by decide, by decide, by decide, by decide⟩

end Builtins
end OpenMat
