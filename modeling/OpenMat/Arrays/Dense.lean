import OpenMat.Arrays.Shape

/-!
This module contains dense arrays: a shape and as many elements as it has, in column-major order.
-/

namespace OpenMat
namespace Arrays

structure DenseArray (α : Type) where
  shape : Shape
  data : List α
  length_data : data.length = shape.numel

namespace DenseArray

variable {α β : Type}

@[ext]
theorem ext {a b : DenseArray α} (hshape : a.shape = b.shape) (hdata : a.data = b.data)
    : a = b := by
  cases a
  cases b
  cases hshape
  cases hdata
  rfl

def fromVec (shape : Shape) (data : List α) : Except ArrayError (DenseArray α) :=
  if h : data.length = shape.numel then
    .ok ⟨shape, data, h⟩
  else
    .error (.dataLengthMismatch shape.numel data.length)

theorem fromVec_eq_ok_iff {shape : Shape} {data : List α} {array : DenseArray α}
    : fromVec shape data = .ok array ↔ array.shape = shape ∧ array.data = data := by
  rw [fromVec]
  split
  . rw [Except.ok.injEq]
    refine ⟨fun h => h ▸ ⟨rfl, rfl⟩, fun h => ext h.1.symm h.2.symm⟩
  . rename_i h
    refine ⟨nofun, ?_⟩
    rintro ⟨rfl, rfl⟩
    exact absurd array.length_data h

theorem fromVec_data (array : DenseArray α)
    : fromVec array.shape array.data = .ok array :=
  fromVec_eq_ok_iff.mpr ⟨rfl, rfl⟩

def map (f : α → β) (array : DenseArray α) : DenseArray β where
  shape := array.shape
  data := array.data.map f
  length_data := by rw [List.length_map, array.length_data]

/-- The write through the mutable access at an index. -/
def setLinear (array : DenseArray α) (oneBasedIndex : Nat) (value : α)
    : Except ArrayError (DenseArray α) := do
  let offset ← array.shape.linearOffset oneBasedIndex
  .ok {
    shape := array.shape
    data := array.data.set offset value
    length_data := by rw [List.length_set, array.length_data] }

/-- A write at an index of the array does not fail, and writes one element. -/
theorem setLinear_eq_ok {array : DenseArray α} {index : Nat} (value : α) (hpos : 0 < index)
    (hle : index ≤ array.shape.numel)
    : ∃ result, array.setLinear index value = .ok result ∧ result.shape = array.shape ∧
        result.data = array.data.set (index - 1) value := by
  refine ⟨⟨array.shape, array.data.set (index - 1) value, by rw [List.length_set, array.length_data]⟩,
    ?_, rfl, rfl⟩
  rw [setLinear, Shape.linearOffset_eq_ok_iff.mpr ⟨hpos, hle, rfl⟩]
  rfl

end DenseArray

end Arrays
end OpenMat
