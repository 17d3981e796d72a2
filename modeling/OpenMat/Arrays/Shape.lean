import Mathlib.Algebra.BigOperators.Group.List.Basic
import Mathlib.Data.List.DropRight
import OpenMat.Fallible.Basic

/-!
This module contains the shapes of dense arrays: canonical dimension lists whose column-major strides
fit in 64 bits.
-/

namespace OpenMat
namespace Arrays

inductive ArrayError where
  | sizeOverflow (dimension product extent : Nat)
  | offsetOverflow
  | hostLengthOverflow (numel : Nat)
  | dataLengthMismatch (expected actual : Nat)
  | noSubscripts
  | indexOutOfBounds (dimension index extent : Nat)
  | linearIndexOutOfBounds (index numel : Nat)
  deriving DecidableEq, Repr

def ArrayError.text : ArrayError → String
  | .sizeOverflow dimension product extent =>
    "shape product overflows at dimension " ++ toString dimension ++ ": " ++ toString product ++ " * "
      ++ toString extent
  | .offsetOverflow => "array offset computation overflowed"
  | .hostLengthOverflow numel => "array length " ++ toString numel ++ " does not fit this host"
  | .dataLengthMismatch expected actual =>
    "array shape requires " ++ toString expected ++ " elements but buffer contains " ++ toString actual
  | .noSubscripts => "at least one subscript is required"
  | .indexOutOfBounds dimension index extent =>
    "index " ++ toString index ++ " is outside dimension " ++ toString dimension ++ " with extent "
      ++ toString extent
  | .linearIndexOutOfBounds index numel =>
    "linear index " ++ toString index ++ " is outside an array with " ++ toString numel ++ " elements"

/-- At least two dimensions, and no trailing singleton beyond the second one. -/
def canonicalDimensions : List Nat → List Nat
  | [] => [1, 1]
  | [n] => [n, 1]
  | m :: n :: rest => m :: n :: rest.rdropWhile (· = 1)

theorem canonicalDimensions_canonicalDimensions (dimensions : List Nat)
    : canonicalDimensions (canonicalDimensions dimensions) = canonicalDimensions dimensions := by
  match dimensions with
  | [] => rfl
  | [_] => rfl
  | _ :: _ :: _ => simp only [canonicalDimensions, List.rdropWhile_idempotent]

theorem two_le_length_canonicalDimensions (dimensions : List Nat)
    : 2 ≤ (canonicalDimensions dimensions).length := by
  match dimensions with
  | [] => simp [canonicalDimensions]
  | [_] => simp [canonicalDimensions]
  | _ :: _ :: _ => simp [canonicalDimensions]

/-- The strides are the products of the dimensions before: all of them are computed. -/
def checkProducts (dimension cumulative : Nat) : List Nat → Except ArrayError Nat
  | [] => .ok cumulative
  | extent :: rest => do
    let cumulative' ← okOr (checkedMul 64 cumulative extent)
      (.sizeOverflow dimension cumulative extent)
    checkProducts (dimension + 1) cumulative' rest

theorem checkProducts_eq_ok_iff {dimension cumulative numel : Nat} {dimensions : List Nat}
    (h : cumulative < 2 ^ 64)
    : checkProducts dimension cumulative dimensions = .ok numel ↔
        (∀ n, cumulative * (dimensions.take n).prod < 2 ^ 64) ∧ numel = cumulative * dimensions.prod := by
  induction dimensions generalizing dimension cumulative with
  | nil =>
    simp only [checkProducts, Except.ok.injEq, List.take_nil, List.prod_nil, mul_one, h, implies_true,
      true_and, eq_comm]
  | cons extent rest ih =>
    rw [checkProducts, bind_eq_ok_iff]
    simp only [okOr_eq_ok_iff, checkedMul_eq_some_iff]
    constructor
    . rintro ⟨_, ⟨hlt, rfl⟩, hrest⟩
      obtain ⟨hall, hnumel⟩ := (ih hlt).mp hrest
      refine ⟨fun n => ?_, by rw [hnumel, List.prod_cons, mul_assoc]⟩
      cases n with
      | zero => simpa using h
      | succ n => simpa only [List.take_succ_cons, List.prod_cons, ← mul_assoc] using hall n
    . rintro ⟨hall, hnumel⟩
      have hlt : cumulative * extent < 2 ^ 64 := by simpa using hall 1
      refine ⟨_, ⟨hlt, rfl⟩, (ih hlt).mpr ⟨fun n => ?_, ?_⟩⟩
      . simpa only [List.take_succ_cons, List.prod_cons, ← mul_assoc] using hall (n + 1)
      . rw [hnumel, List.prod_cons, mul_assoc]

/-- The products of a list are the ones of its prefixes. -/
theorem products_lt_iff {dimensions : List Nat}
    : (∀ n, (dimensions.take n).prod < 2 ^ 64) ↔
        ∀ n ∈ List.range (dimensions.length + 1), (dimensions.take n).prod < 2 ^ 64 := by
  constructor
  . exact fun h n _ => h n
  . intro h n
    rcases Nat.le_total n dimensions.length with hle | hle
    . exact h n (List.mem_range.mpr (by omega))
    . have := h dimensions.length (List.mem_range.mpr (by omega))
      rwa [List.take_length, ← List.take_of_length_le hle] at this

structure Shape where
  dimensions : List Nat
  canonical : canonicalDimensions dimensions = dimensions
  products_lt : ∀ n, (dimensions.take n).prod < 2 ^ 64

namespace Shape

def numel (shape : Shape) : Nat := shape.dimensions.prod

def ndims (shape : Shape) : Nat := shape.dimensions.length

/-- One beyond the last dimension. -/
def extent (shape : Shape) (dimension : Nat) : Nat := shape.dimensions.getD dimension 1

def new (dimensions : List Nat) : Except ArrayError Shape :=
  match h : checkProducts 0 1 (canonicalDimensions dimensions) with
  | .error e => .error e
  | .ok _ => .ok {
      dimensions := canonicalDimensions dimensions
      canonical := canonicalDimensions_canonicalDimensions dimensions
      products_lt := by simpa using ((checkProducts_eq_ok_iff (by decide)).mp h).1 }

@[ext]
theorem ext {s t : Shape} (h : s.dimensions = t.dimensions)
    : s = t := by
  cases s
  cases t
  cases h
  rfl

instance : DecidableEq Shape := fun s t =>
  decidable_of_iff (s.dimensions = t.dimensions) ⟨ext, fun h => h ▸ rfl⟩

theorem new_eq_ok_iff {dimensions : List Nat} {shape : Shape}
    : new dimensions = .ok shape ↔ shape.dimensions = canonicalDimensions dimensions := by
  have hcheck numel : checkProducts 0 1 (canonicalDimensions dimensions) = .ok numel ↔ _ :=
    checkProducts_eq_ok_iff (by decide)
  rw [new]
  split
  . rename_i e he
    refine ⟨nofun, fun h => ?_⟩
    have hok := ((hcheck _).mpr ⟨fun n => by rw [one_mul, ← h]; exact shape.products_lt n, rfl⟩)
    rw [he] at hok
    cases hok
  . rw [Except.ok.injEq]
    exact ⟨fun h => h ▸ rfl, fun h => ext h.symm⟩

/-- What an array shows of its shape describes the shape. -/
theorem new_dimensions (shape : Shape)
    : new shape.dimensions = .ok shape := by
  rw [new_eq_ok_iff, shape.canonical]

theorem numel_of_ndims_eq_two {shape : Shape} (h : shape.ndims = 2)
    : shape.numel = shape.extent 0 * shape.extent 1 := by
  obtain ⟨rows, columns, hdimensions⟩ := List.length_eq_two.mp h
  rw [numel, extent, extent, hdimensions, List.prod_cons, List.prod_singleton]
  rfl

theorem two_le_ndims (shape : Shape)
    : 2 ≤ shape.ndims := by
  rw [ndims, ← shape.canonical]
  exact two_le_length_canonicalDimensions _

theorem numel_lt (shape : Shape)
    : shape.numel < 2 ^ 64 := by
  simpa only [List.take_length, numel] using shape.products_lt shape.dimensions.length

def scalar : Shape where
  dimensions := [1, 1]
  canonical := rfl
  products_lt := products_lt_iff.mpr (by decide)

/-- Few rows and columns always form a shape. -/
def matrix (rows columns : UInt8) : Shape where
  dimensions := [rows.toNat, columns.toNat]
  canonical := rfl
  products_lt n := by
    have hrows := rows.toNat_lt
    have hproduct : rows.toNat * columns.toNat ≤ 256 * 256 :=
      Nat.mul_le_mul rows.toNat_lt.le columns.toNat_lt.le
    match n with
    | 0 => simp
    | 1 =>
      rw [List.take_succ_cons, List.take_zero, List.prod_singleton]
      omega
    | n + 2 =>
      rw [List.take_of_length_le (by simp), List.prod_cons, List.prod_singleton]
      omega

@[simp]
theorem numel_scalar
    : scalar.numel = 1 :=
  rfl

/-! Subscripts. -/

def effectiveDimensions (shape : Shape) (subscriptCount : Nat) : Except ArrayError (List Nat) :=
  if subscriptCount = 0 then
    .error .noSubscripts
  else if subscriptCount = 1 then
    .ok [shape.numel]
  else if subscriptCount < shape.ndims then do
    -- the last subscript runs over all dimensions that are left
    let collapsed ← checkProducts (subscriptCount - 1) 1 (shape.dimensions.drop (subscriptCount - 1))
    .ok (shape.dimensions.take (subscriptCount - 1) ++ [collapsed])
  else
    .ok (shape.dimensions ++ List.replicate (subscriptCount - shape.ndims) 1)

def linearOffset (shape : Shape) (oneBasedIndex : Nat) : Except ArrayError Nat :=
  if oneBasedIndex = 0 ∨ oneBasedIndex > shape.numel then
    .error (.linearIndexOutOfBounds oneBasedIndex shape.numel)
  else
    .ok (oneBasedIndex - 1)

/-- The loop over the subscripts, which are taken as long as there are extents. -/
def addContributions (dimension stride offset : Nat) : List Nat → List Nat → Except ArrayError Nat
  | index :: subscripts, extent :: extents => do
    ensure (index ≠ 0 ∧ index ≤ extent) (.indexOutOfBounds dimension index extent)
    let contribution ← okOr (checkedMul 64 (index - 1) stride) .offsetOverflow
    let offset ← okOr (checkedAdd 64 offset contribution) .offsetOverflow
    let stride ← okOr (checkedMul 64 stride extent) .offsetOverflow
    addContributions (dimension + 1) stride offset subscripts extents
  | _, _ => .ok offset

def offsetForSubscripts (shape : Shape) (subscripts : List Nat) : Except ArrayError Nat :=
  match subscripts with
  | [index] => shape.linearOffset index
  | _ => do
    let dimensions ← shape.effectiveDimensions subscripts.length
    addContributions 0 1 0 subscripts dimensions

def linearIndexForSubscripts (shape : Shape) (subscripts : List Nat) : Except ArrayError Nat := do
  let offset ← shape.offsetForSubscripts subscripts
  okOr (checkedAdd 64 offset 1) .offsetOverflow

theorem linearOffset_eq_ok_iff {shape : Shape} {index offset : Nat}
    : shape.linearOffset index = .ok offset ↔ 0 < index ∧ index ≤ shape.numel ∧ offset = index - 1 := by
  rw [linearOffset]
  split
  . simp only [reduceCtorEq, false_iff]
    omega
  . simp only [Except.ok.injEq]
    omega

theorem addContributions_lt {dimension stride offset result : Nat} {subscripts extents : List Nat}
    (h : addContributions dimension stride offset subscripts extents = .ok result)
    (hlength : subscripts.length = extents.length) (hoffset : offset < stride)
    : result < stride * extents.prod := by
  induction subscripts generalizing dimension stride offset extents with
  | nil =>
    cases List.length_eq_zero_iff.mp hlength.symm
    cases h
    simpa using hoffset
  | cons index subscripts ih =>
    cases extents with
    | nil => cases hlength
    | cons extent extents =>
      rw [addContributions, bind_eq_ok_iff] at h
      obtain ⟨_, hindex, h⟩ := h
      obtain ⟨hzero, hle⟩ := ensure_eq_ok_iff.mp hindex
      obtain ⟨_, hcontribution, h⟩ := bind_eq_ok_iff.mp h
      obtain ⟨_, rfl⟩ := checkedMul_eq_some_iff.mp (okOr_eq_ok_iff.mp hcontribution)
      obtain ⟨_, hadd, h⟩ := bind_eq_ok_iff.mp h
      obtain ⟨_, rfl⟩ := checkedAdd_eq_some_iff.mp (okOr_eq_ok_iff.mp hadd)
      obtain ⟨_, hstride, h⟩ := bind_eq_ok_iff.mp h
      obtain ⟨_, rfl⟩ := checkedMul_eq_some_iff.mp (okOr_eq_ok_iff.mp hstride)
      rw [List.prod_cons, ← mul_assoc]
      refine ih h (by simpa using hlength) ?_
      -- one more index leaves room for the offset below the next stride
      have hbound : (index - 1 + 1) * stride ≤ extent * stride := Nat.mul_le_mul_right _ (by omega)
      calc offset + (index - 1) * stride < stride + (index - 1) * stride := by omega
        _ = (index - 1 + 1) * stride := by rw [add_comm stride, Nat.add_mul, one_mul]
        _ ≤ extent * stride := hbound
        _ = stride * extent := mul_comm _ _

theorem prod_effectiveDimensions {shape : Shape} {count : Nat} {dimensions : List Nat}
    (h : shape.effectiveDimensions count = .ok dimensions)
    : dimensions.prod = shape.numel ∧ dimensions.length = count := by
  rw [effectiveDimensions] at h
  split at h
  . cases h
  split at h
  . rename_i hone
    cases h
    simp [hone]
  split at h
  . rename_i hlt
    obtain ⟨collapsed, hcollapsed, h⟩ := bind_eq_ok_iff.mp h
    obtain ⟨_, rfl⟩ := (checkProducts_eq_ok_iff (by decide)).mp hcollapsed
    cases h
    rw [ndims] at hlt
    refine ⟨?_, by simp; omega⟩
    rw [List.prod_append, List.prod_singleton, one_mul, ← List.prod_append, List.take_append_drop, numel]
  . rename_i hlt
    cases h
    rw [ndims] at hlt
    refine ⟨by simp [numel], by simp [ndims]; omega⟩

theorem offsetForSubscripts_lt {shape : Shape} {subscripts : List Nat} {offset : Nat}
    (h : shape.offsetForSubscripts subscripts = .ok offset)
    : offset < shape.numel := by
  rw [offsetForSubscripts.eq_def] at h
  split at h
  . obtain ⟨hpos, hle, rfl⟩ := linearOffset_eq_ok_iff.mp h
    omega
  . obtain ⟨dimensions, hdimensions, h⟩ := bind_eq_ok_iff.mp h
    obtain ⟨hprod, hlength⟩ := prod_effectiveDimensions hdimensions
    rw [← hprod]
    simpa using addContributions_lt h hlength.symm (by decide)

end Shape

end Arrays
end OpenMat
