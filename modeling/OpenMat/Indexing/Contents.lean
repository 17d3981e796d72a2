import OpenMat.Indexing.FastPath
import OpenMat.Indexing.Selected
import OpenMat.Sequence.LastWrite

/-!
This module contains what arrays hold, whatever the way in which they are stored, and what is read and
written at the selected offsets.
-/

namespace OpenMat
namespace Indexing

open Arrays (Shape DenseArray)
open Values (F32 F64 ComplexValue CharCodeUnit IntegerType IntegerArrayData ArrayData)
open Sequence (writeAll writeAll_concat)

variable {P : Payloads} {α : Type}

inductive ElementClass where
  | logical
  | double
  | single
  | char
  | integer (type : IntegerType)
  | string
  deriving DecidableEq

/-- A real number is a complex one without an imaginary part. -/
inductive Element where
  | logical (value : Bool)
  | double (value : ComplexValue F64)
  | single (value : ComplexValue F32)
  | char (unit : CharCodeUnit)
  | integer (type : IntegerType) (value : ComplexValue type.Element)
  | string (element : StringElement)

structure Contents where
  elementClass : ElementClass
  complex : Bool
  shape : Shape
  elements : List Element

def denseContents (elementClass : ElementClass) (complex : Bool) (read : α → Element) (array : DenseArray α)
    : Contents where
  elementClass := elementClass
  complex := complex
  shape := array.shape
  elements := array.data.map read

def realDouble (value : F64) : Element := .double ⟨value, 0⟩

def realSingle (value : F32) : Element := .single ⟨value, 0⟩

def realInteger {type : IntegerType} (value : type.Element) : Element := .integer type ⟨value, integerZero type⟩

def arrayContents : ArrayData → Contents
  | .f32 array => denseContents .single false realSingle array
  | .complexF32 array => denseContents .single true .single array
  | .f64 array => denseContents .double false realDouble array
  | .complexF64 array => denseContents .double true .double array
  | .logical array => denseContents .logical false .logical array
  | .char array => denseContents .char false .char array
  | .integer (.real type array) => denseContents (.integer type) false realInteger array
  | .integer (.complex type array) => denseContents (.integer type) true (.integer type) array

/-- What is held by scalars, arrays and strings. -/
def contents : Value P → Option Contents
  | .logical value => some (arrayContents (.logical (scalarArray value)))
  | .double value => some (arrayContents (.f64 (scalarArray value)))
  | .complex value => some (arrayContents (.complexF64 (scalarArray value)))
  | .array data => some (arrayContents data)
  | .string value => some (denseContents .string false .string value.owned)
  | .nothing | .sparse _ | .cell _ | .struct _ | .table _ | .object _ | .objectArray _ | .graphics _
  | .graphicsArray _ | .function _ => none

/-- The classes of which elements can be assigned. -/
def Accepts : ElementClass → ElementClass → Prop
  | .logical, supplied | .double, supplied => supplied = .logical ∨ supplied = .double
  | target, supplied => supplied = target

/-- The element as it is stored. -/
def convertTo : ElementClass → Element → Element
  | .double, .logical value => realDouble (doubleOfLogical value)
  | .logical, .double value => .logical (nonzero value)
  | _, element => element

/-- A scalar is supplied for all positions. -/
def suppliedAt (elements : List Element) (position : Nat) : Option Element :=
  elements[if elements.length = 1 then 0 else position]?

/-- The writes to the selected offsets. -/
def writesOf (target : ElementClass) (supplied : List Element) (offsets : List Nat)
    : List (Nat × Option Element) :=
  offsets.zipIdx.map fun p => (p.1, (suppliedAt supplied p.2).map (convertTo target))

/-- Every selected element is replaced by the last one that is written to it. -/
structure Assigned (target supplied : Contents) (offsets : List Nat) (result : Contents) : Prop where
  elementClass : result.elementClass = target.elementClass
  complex : result.complex = (target.complex ||
    (supplied.complex && decide (target.elementClass ≠ .logical) && !offsets.isEmpty))
  shape : result.shape = target.shape
  elements (offset : Nat) : result.elements[offset]? =
    writeAll (target.elements[·]?) (writesOf target.elementClass supplied.elements offsets) offset

/-! The loops. -/

section Loops

variable {source : Nat → Except RuntimeErrorKind α} {read : α → Element} {array : DenseArray α}
  {offsets : List Nat}

theorem setElement_data {assigned : DenseArray α} {offset : Nat} {value : α}
    (h : setElement array (offset + 1) value = .ok assigned)
    : assigned.shape = array.shape ∧ assigned.data = array.data.set offset value := by
  rw [setElement, mapError_eq_ok_iff, DenseArray.setLinear, bind_eq_ok_iff] at h
  obtain ⟨offset', hoffset, h⟩ := h
  obtain ⟨-, -, rfl⟩ := Shape.linearOffset_eq_ok_iff.mp hoffset
  cases h
  exact ⟨rfl, rfl⟩

theorem getElem?_set_update {data : List α} {offset : Nat} (hlt : offset < data.length) (value : α)
    : ((data.set offset value)[·]?) = Function.update (data[·]?) offset (some value) := by
  funext k
  by_cases h : k = offset
  . subst h
    rw [Function.update_self, List.getElem?_set_self hlt]
  . rw [Function.update_of_ne h, List.getElem?_set_ne (fun heq => h heq.symm)]

/-- The loop does the writes, if there is an element for each of them. -/
theorem writeElements_spec (cls : ElementClass) {supplied : List Element}
    (hsource : ∀ n, n < supplied.length →
      ∃ value, source n = .ok value ∧ supplied[n]?.map (convertTo cls) = some (read value))
    (hlength : supplied.length = 1 ∨ supplied.length = offsets.length)
    (hoffsets : ∀ offset ∈ offsets, offset < array.shape.numel)
    : ∃ assigned, writeElements source supplied.length false array offsets = .ok assigned ∧
        assigned.shape = array.shape ∧
        ((assigned.data.map read)[·]?) =
          writeAll ((array.data.map read)[·]?) (writesOf cls supplied offsets) := by
  rw [writeElements, writesOf]
  refine exists_foldlM_eq_ok (fun (done : List (Nat × Nat)) (assigned : DenseArray α) => assigned.shape = array.shape ∧
    ((assigned.data.map read)[·]?) = writeAll ((array.data.map read)[·]?)
      (done.map fun p => (p.1, (suppliedAt supplied p.2).map (convertTo cls)))) ⟨rfl, rfl⟩ ?_
  rintro done ⟨offset, position⟩ assigned hmem ⟨hshape, hdata⟩
  obtain ⟨hposition, hoffset⟩ := List.mem_zipIdx' hmem
  have hlt : (if supplied.length = 1 then 0 else position) < supplied.length := by
    split <;> omega
  obtain ⟨value, hvalue, hread⟩ := hsource _ hlt
  have hnumel : offset < assigned.shape.numel := by
    rw [hshape, hoffset]
    exact hoffsets _ (List.getElem_mem hposition)
  obtain ⟨result, hresult⟩ := @setElement_eq_ok _ assigned _ value (Nat.succ_pos offset) hnumel
  obtain ⟨hresultShape, hresultData⟩ := setElement_data hresult
  refine ⟨result, ?_, hresultShape.trans hshape, ?_⟩
  . simp only [checkCancelled_false, bind, Except.bind, hvalue]
    exact hresult
  . rw [← assigned.length_data] at hnumel
    rw [hresultData, List.map_set, getElem?_set_update (by simpa using hnumel), hdata, List.map_append,
      List.map_singleton, writeAll_concat]
    simp only [suppliedAt, hread]

end Loops

end Indexing
end OpenMat
