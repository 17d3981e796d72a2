import OpenMat.Builtins.Expanded

/-!
This module contains the proof that the bitwise functions compute what they are for, for all elements of arrays.
-/

namespace OpenMat
namespace Builtins
namespace Bitwise

open Arrays (Shape DenseArray)
open Floats (Significant)
open Indexing (Value Payloads scalarArray)
open Values (F64 IntegerType)

variable {P : Payloads} {t : IntegerType}

/-! Operands and results. -/

def integers (v : DenseArray t.Element) : Value P := .array (.integer (.real t v))

/-- The doubles of a double value. -/
def doubles? : Value P → Option (DenseArray F64)
  | .double value => some (scalarArray value)
  | .array (.f64 array) => some array
  | _ => none

/-- The doubles have the values of the elements. -/
structure Carries (xs : DenseArray F64) (v : DenseArray t.Element) : Prop where
  shape : xs.shape = v.shape
  values : ∀ (i : Nat) (x : t.Element), v.data[i]? = some x → ∃ value : F64, xs.data[i]? = some value ∧
    value.decode.number = some (.rational x.val)

/-- The doubles that are nearest to the elements. -/
def rounded (v : DenseArray t.Element) : DenseArray F64 := v.map fun x => F64.ofInt x.val

/-- A function maps the integers of a class, and the doubles that have their values. -/
structure Computes (run : Value P → Except Failure (Value P)) (assumed : Option IntegerType)
    (v out : DenseArray t.Element) : Prop where
  integers : (∀ type ∈ assumed, type = t) → run (integers v) = .ok (integers out)
  doubles : assumed.getD .u64 = t → ∀ x xs, doubles? x = some xs → Carries xs v →
    ∃ y, run x = .ok y ∧ doubles? y = some (rounded out)

/-- The class that an argument names, where there is one. -/
inductive Assumes (name : String) (position : Nat) : Option (Value P) → Option IntegerType → Prop
  | none : Assumes name position none none
  | some {text : Value P} {type : IntegerType} (h : assumedType name position text = .ok type)
    : Assumes name position (some text) (some type)

/-- A property of all numbers of an operand. -/
def All (control : RealControlView) (R : Nat → RealNumber → Prop) : Prop :=
  ∀ i < control.shape.numel, ∃ number, control.number? i = some number ∧ R i number

section Exact

variable {xs : DenseArray F64} {v out : DenseArray t.Element}

theorem Carries.significant (h : Carries xs v) {x : t.Element} (hx : x ∈ v.data)
    : Significant x.val := by
  obtain ⟨i, hi⟩ := List.mem_iff_getElem?.mp hx
  obtain ⟨value, -, hvalue⟩ := h.values i x hi
  exact significant_of_number hvalue

theorem carries_rounded (h : ∀ x ∈ out.data, Significant x.val)
    : Carries (rounded out) out where
  shape := rfl
  values i x hx := by
    refine ⟨F64.ofInt x.val, ?_, number_ofInt (h x (List.mem_of_getElem? hx))⟩
    show (out.data.map _)[i]? = _
    rw [List.getElem?_map, hx]
    rfl

end Exact

section Mapping

variable {name : String} {assumed : Option IntegerType} {controls : List RealControlView} {operation : Operation}
variable {v : DenseArray t.Element} {shape : Shape}

theorem fromVec_range {α : Type} (shape : Shape) (f : Nat → α)
    : ∃ array : DenseArray α, DenseArray.fromVec shape ((List.range shape.numel).map f) = .ok array ∧
        array.shape = shape ∧ array.data = (List.range shape.numel).map f := by
  refine ⟨⟨shape, (List.range shape.numel).map f, by rw [List.length_map, List.length_range]⟩, ?_, rfl, rfl⟩
  exact DenseArray.fromVec_eq_ok_iff.mpr ⟨rfl, rfl⟩

/-- What is computed at the offsets, one after the other. -/
structure Steps (name : String) (v : DenseArray t.Element) (shape : Shape) (controls : List RealControlView)
    (operation : Operation) (z : Nat → t.Element) : Prop where
  expands : Expands (v.shape :: controls.map RealControlView.shape) shape
  step : ∀ i < shape.numel, ∃ x numbers result, v.data[expanded v.shape i]? = some x ∧
    controlValues name controls i = .ok numbers ∧ operation (toRaw x) t numbers = .ok result ∧ fromRaw t result = z i

theorem mapIntegerPrimary_eq {z : Nat → t.Element} {out : DenseArray t.Element}
    (h : Steps name v shape controls operation z) (hassumed : ∀ type ∈ assumed, type = t) (hshape : out.shape = shape)
    (hdata : out.data = (List.range shape.numel).map z)
    : mapIntegerPrimary name t v assumed controls operation = .ok out := by
  have hoffsets : ∀ offset ∈ List.range shape.numel, (do
      let controlValues ← controlValues name controls offset
      let value ← okOr v.data[if v.data.length = 1 then 0 else offset]? (mappingError name)
      let result ← operation (toRaw value) t controlValues
      return fromRaw t (result &&& mask t)) = Except.ok (z offset) := by
    intro offset hoffset
    obtain ⟨x, numbers, result, hx, hnumbers, hresult, hz⟩ := h.step offset (List.mem_range.mp hoffset)
    rw [expanded, ← v.length_data] at hx
    rw [hnumbers, hx, ← hz, ← fromRaw_and_mask]
    show (do
      let result ← operation (toRaw x) t numbers
      return fromRaw t (result &&& mask t)) = _
    rw [hresult]
    rfl
  rw [mapIntegerPrimary, ensure_pos hassumed, scalarExpansionShape_eq h.expands]
  show (do
    let output ← (List.range shape.numel).mapM fun offset => do
      let controlValues ← controlValues name controls offset
      let value ← okOr v.data[if v.data.length = 1 then 0 else offset]? (mappingError name)
      let result ← operation (toRaw value) t controlValues
      return fromRaw t (result &&& mask t)
    (DenseArray.fromVec shape output).mapError fun _ => allocationError name) = _
  rw [mapM_eq_ok hoffsets]
  exact mapError_eq_ok_iff.mpr (DenseArray.fromVec_eq_ok_iff.mpr ⟨hshape, hdata⟩)

/-- A scalar result is the one of the array of one element. -/
theorem denseDouble_eq {name : String} {ys : DenseArray F64} {scalarVariant : Bool}
    (hscalar : scalarVariant = true → ys.shape = .scalar)
    : ∃ y : Value P, denseDouble name ys.shape ys.data scalarVariant = .ok y ∧ doubles? y = some ys := by
  rw [denseDouble]
  split
  . next h =>
    have hlength := ys.length_data
    rw [hscalar h, Shape.numel_scalar] at hlength
    obtain ⟨value, hvalue⟩ := List.length_eq_one_iff.mp hlength
    refine ⟨.double value, by rw [hvalue]; rfl, ?_⟩
    rw [doubles?, Option.some.injEq]
    exact DenseArray.ext (hscalar h).symm hvalue.symm
  . refine ⟨.array (.f64 ys), ?_, rfl⟩
    rw [DenseArray.fromVec_data]
    rfl

theorem mapDoublePrimary_eq {z : Nat → t.Element} {out : DenseArray t.Element} {xs : DenseArray F64}
    {scalarVariant : Bool} (h : Steps name v shape controls operation z) (hxs : Carries xs v)
    (hshape : out.shape = shape) (hdata : out.data = (List.range shape.numel).map z)
    (hscalar : scalarVariant = true → xs.shape = .scalar)
    : ∃ y : Value P, mapDoublePrimary name xs scalarVariant t controls operation = .ok y ∧
        doubles? y = some (rounded out) := by
  have hlength : xs.data.length = v.data.length := by rw [xs.length_data, v.length_data, hxs.shape]
  have hvalid : xs.data.forM (fun value => do
      let _ ← doubleToRaw name 1 value t false) = .ok () := by
    rw [forM_eq_ok_iff]
    intro value hvalue
    obtain ⟨i, hi⟩ := List.mem_iff_getElem?.mp hvalue
    have hlt : i < v.data.length := hlength ▸ (List.getElem?_eq_some_iff.mp hi).1
    obtain ⟨value', hvalue', hnumber⟩ := hxs.values i _ (List.getElem?_eq_getElem hlt)
    rw [hi] at hvalue'
    cases hvalue'
    rw [doubleToRaw_eq hnumber]
    rfl
  have hoffsets : ∀ offset ∈ List.range shape.numel, (do
      let controlValues ← controlValues name controls offset
      let value ← okOr xs.data[if xs.data.length = 1 then 0 else offset]? (mappingError name)
      let raw ← doubleToRaw name 1 value t false
      let result ← operation raw t controlValues
      return decodeF64 t (result &&& mask t)) = Except.ok (F64.ofInt (z offset).val) := by
    intro offset hoffset
    obtain ⟨x, numbers, result, hx, hnumbers, hresult, hz⟩ := h.step offset (List.mem_range.mp hoffset)
    obtain ⟨value, hvalue, hnumber⟩ := hxs.values _ x hx
    rw [expanded, ← v.length_data, ← hlength] at hvalue
    rw [hnumbers, hvalue, ← hz, ← fromRaw_and_mask, ← decodeF64_eq]
    show (do
      let raw ← doubleToRaw name 1 value t false
      let result ← operation raw t numbers
      return decodeF64 t (result &&& mask t)) = _
    rw [doubleToRaw_eq hnumber]
    show (do
      let result ← operation (toRaw x) t numbers
      return decodeF64 t (result &&& mask t)) = _
    rw [hresult]
    rfl
  have hscalars : (scalarVariant && controls.all RealControlView.scalarVariant) = true → (rounded out).shape = .scalar := by
    rw [Bool.and_eq_true, List.all_eq_true]
    rintro ⟨hprimary, hcontrols⟩
    show out.shape = .scalar
    rw [hshape]
    rcases List.mem_cons.mp h.expands.mem with hmem | hmem
    . rw [hmem, ← hxs.shape, hscalar hprimary]
    . obtain ⟨control, hcontrol, hmem⟩ := List.mem_map.mp hmem
      rw [← hmem]
      have hvariant := hcontrols control hcontrol
      cases control with
      | doubleScalar value => rfl
      | double array => cases hvariant
      | single array => cases hvariant
      | integer type array => cases hvariant
  have hexpands := h.expands
  rw [← hxs.shape] at hexpands
  have hresult : (rounded out).data = (List.range shape.numel).map fun i => F64.ofInt (z i).val := by
    show out.data.map _ = _
    rw [hdata, List.map_map]
    rfl
  obtain ⟨y, hy, hys⟩ := @denseDouble_eq P name _ _ hscalars
  refine ⟨y, ?_, hys⟩
  rw [mapDoublePrimary, hvalid]
  show (do
    let shape ← scalarExpansionShape name xs.shape.dimensions controls
    let output ← (List.range shape.numel).mapM fun offset => do
      let controlValues ← controlValues name controls offset
      let value ← okOr xs.data[if xs.data.length = 1 then 0 else offset]? (mappingError name)
      let raw ← doubleToRaw name 1 value t false
      let result ← operation raw t controlValues
      return decodeF64 t (result &&& mask t)
    denseDouble name shape output (scalarVariant && controls.all RealControlView.scalarVariant)) = _
  rw [scalarExpansionShape_eq hexpands]
  show (do
    let output ← (List.range shape.numel).mapM fun offset => do
      let controlValues ← controlValues name controls offset
      let value ← okOr xs.data[if xs.data.length = 1 then 0 else offset]? (mappingError name)
      let raw ← doubleToRaw name 1 value t false
      let result ← operation raw t controlValues
      return decodeF64 t (result &&& mask t)
    denseDouble name shape output (scalarVariant && controls.all RealControlView.scalarVariant)) = _
  rw [mapM_eq_ok hoffsets]
  rw [hresult] at hy
  rw [← hshape]
  rw [← hshape] at hy
  exact hy

/-- The word of an element is computed at every offset of the output. -/
theorem mapPrimary_computes {R : Nat → t.Element → t.Element → Prop}
    (hshape : Expands (v.shape :: controls.map RealControlView.shape) shape)
    (hoperation : ∀ i < shape.numel, ∀ x, v.data[expanded v.shape i]? = some x →
      ∃ numbers result, controlValues name controls i = .ok numbers ∧
        operation (toRaw x) t numbers = .ok result ∧ R i x (fromRaw t result))
    : ∃ out : DenseArray t.Element, out.shape = shape ∧
        (∀ i < shape.numel, ∃ x z, v.data[expanded v.shape i]? = some x ∧ out.data[i]? = some z ∧ R i x z) ∧
        Computes (fun primary : Value P => mapPrimary name primary assumed controls operation) assumed v out := by
  have hstep : ∀ i, ∃ z : t.Element, i < shape.numel → ∃ x numbers result, v.data[expanded v.shape i]? = some x ∧
      controlValues name controls i = .ok numbers ∧ operation (toRaw x) t numbers = .ok result ∧
        fromRaw t result = z ∧ R i x z := by
    intro i
    by_cases hi : i < shape.numel
    . have hlt := expanded_lt (hshape.agree v.shape (List.mem_cons_self)) hi
      rw [← v.length_data] at hlt
      have hx := List.getElem?_eq_getElem hlt
      obtain ⟨numbers, result, hnumbers, hresult, hR⟩ := hoperation i hi _ hx
      exact ⟨fromRaw t result, fun _ => ⟨_, numbers, result, hx, hnumbers, hresult, rfl, hR⟩⟩
    . exact ⟨t.wrap 0, fun h => absurd h hi⟩
  choose z hz using hstep
  obtain ⟨out, -, hout, hdata⟩ := fromVec_range shape z
  have hsteps : Steps name v shape controls operation z := by
    refine ⟨hshape, fun i hi => ?_⟩
    obtain ⟨x, numbers, result, hx, hnumbers, hresult, hvalue, -⟩ := hz i hi
    exact ⟨x, numbers, result, hx, hnumbers, hresult, hvalue⟩
  refine ⟨out, hout, fun i hi => ?_, ⟨fun hassumed => ?_, fun hassumed x xs hxs hcarries => ?_⟩⟩
  . obtain ⟨x, numbers, result, hx, -, -, -, hR⟩ := hz i hi
    refine ⟨x, z i, hx, ?_, hR⟩
    rw [hdata, List.getElem?_map, List.getElem?_range hi]
    rfl
  . show (do
      let output ← mapIntegerPrimary name t v assumed controls operation
      return Value.array (.integer (.real t output))) = _
    rw [mapIntegerPrimary_eq hsteps hassumed hout hdata]
    rfl
  . subst hassumed
    cases x with
    | double value =>
      cases hxs
      exact mapDoublePrimary_eq hsteps hcarries hout hdata fun _ => rfl
    | array array =>
      cases array with
      | f64 array =>
        cases hxs
        exact mapDoublePrimary_eq hsteps hcarries hout hdata (by rintro ⟨⟩)
      | _ => cases hxs
    | _ => cases hxs

end Mapping

/-! The functions of one primary operand. -/

section Functions

variable {v out : DenseArray t.Element} {shape : Shape} {assumed : Option IntegerType} {type : Option (Value P)}

/-- The class of the primary operands is read before a function. -/
theorem Computes.checked {name : String} (run : IntegerType → Value P → Except Failure (Value P))
    (h : Computes (run t) assumed v out)
    : Computes (fun primary => do
        let spec ← primaryWordSpec name primary assumed
        run spec primary) assumed v out where
  integers hassumed := by
    show (do
      let spec ← (do
        ensure (∀ type ∈ assumed, type = t) (invalidAssumedType name t.className)
        return t)
      run spec (Bitwise.integers v)) = _
    rw [ensure_pos hassumed]
    exact h.integers hassumed
  doubles hassumed x xs hxs hcarries := by
    obtain ⟨y, hy, hys⟩ := h.doubles hassumed x xs hxs hcarries
    refine ⟨y, ?_, hys⟩
    rw [← hassumed] at hy
    cases x with
    | double value => exact hy
    | array array =>
      cases array with
      | f64 array => exact hy
      | _ => cases hxs
    | _ => cases hxs

theorem valueAt_eq (name : String) {control : RealControlView} {R : Nat → RealNumber → Prop} (h : All control R)
    {i : Nat} (hi : i < control.shape.numel)
    : ∃ number, control.valueAt i name = .ok number ∧ R i number := by
  obtain ⟨number, hnumber, hR⟩ := h i hi
  exact ⟨number, okOr_eq_ok_iff.mpr hnumber, hR⟩

theorem validateControlValues_eq {α : Type} {control : RealControlView} {name : String}
    {validate : RealNumber → Except Failure α} {R : Nat → RealNumber → Prop} (h : All control R)
    (hvalid : ∀ i number, R i number → ∃ a, validate number = .ok a)
    : validateControlValues name control validate = .ok () := by
  rw [validateControlValues, forM_eq_ok_iff]
  intro offset hoffset
  obtain ⟨number, hnumber, hR⟩ := valueAt_eq name h (List.mem_range.mp hoffset)
  obtain ⟨a, ha⟩ := hvalid offset number hR
  rw [hnumber]
  show (do
    let _ ← validate number
    return ()) = _
  rw [ha]
  rfl

theorem controlValues_eq (name : String) {control : RealControlView} {R : Nat → RealNumber → Prop} (h : All control R)
    (hagree : control.shape.numel = 1 ∨ control.shape = shape) {i : Nat} (hi : i < shape.numel)
    : ∃ number, control.valueAt (expandedOffset control i) name = .ok number ∧
        R (expanded control.shape i) number :=
  valueAt_eq name h (expanded_lt hagree hi)

/-- The product with the power of two, back in the range of the class. -/
theorem bitshift_computes {amount : Value P} {control : RealControlView} {k : Nat → Int}
    (hcontrol : RealControlView.new "bitshift" 2 amount = .ok control) (hk : All control fun i number => Is number (k i))
    (htype : Assumes "bitshift" 3 type assumed) (hshape : Expands [v.shape, control.shape] shape)
    : ∃ out : DenseArray t.Element, out.shape = shape ∧
        (∀ i < shape.numel, ∃ x z, v.data[expanded v.shape i]? = some x ∧ out.data[i]? = some z ∧
          z = t.wrap (shifted x.val (k (expanded control.shape i)))) ∧
        Computes (fun primary => bitshiftBuiltin ([primary, amount] ++ type.toList)) assumed v out := by
  have hagree := hshape.agree control.shape (List.mem_cons_of_mem _ (List.mem_cons_self))
  obtain ⟨out, hout, helements, hcomputes⟩ := @mapPrimary_computes P t "bitshift" assumed [control] bitshiftWord v shape
    (fun i x z => z = t.wrap (shifted x.val (k (expanded control.shape i)))) hshape (by
      intro i hi x hx
      obtain ⟨number, hnumber, hR⟩ := controlValues_eq "bitshift" hk hagree hi
      obtain ⟨result, hresult, hvalue⟩ := bitshiftWord_eq hR x
      exact ⟨[number], result, by rw [controlValues, List.mapM_cons, hnumber]; rfl, hresult, hvalue⟩)
  refine ⟨out, hout, helements, ?_⟩
  have hvalid : validateControlValues "bitshift" control (shiftAmount "bitshift" 2 64) = .ok () :=
    validateControlValues_eq hk fun i number hR => ⟨_, shiftAmount_eq hR⟩
  have hrun : (fun primary => bitshiftBuiltin ([primary, amount] ++ type.toList)) = fun primary => (do
      let _ ← primaryWordSpec "bitshift" primary assumed
      mapPrimary "bitshift" primary assumed [control] bitshiftWord) := by
    funext primary
    have hbitshift : bitshift primary amount assumed = (do
        let _ ← primaryWordSpec "bitshift" primary assumed
        mapPrimary "bitshift" primary assumed [control] bitshiftWord) := by
      rw [bitshift, hcontrol]
      show (do
        let _ ← primaryWordSpec "bitshift" primary assumed
        validateControlValues "bitshift" control (shiftAmount "bitshift" 2 64)
        mapPrimary "bitshift" primary assumed [control] bitshiftWord) = _
      rw [hvalid]
      rfl
    rw [← hbitshift]
    cases htype with
    | none => rfl
    | some h =>
      show (do bitshift primary amount (some (← assumedType "bitshift" 3 _))) = _
      rw [h]
      rfl
  rw [hrun]
  exact Computes.checked (fun _ primary => mapPrimary "bitshift" primary assumed [control] bitshiftWord) hcomputes

/-- The class that the argument after the others names. -/
theorem assumed_bind {name : String} {position : Nat} {text : Value P} {type : IntegerType}
    (run : Option IntegerType → Except Failure (Value P)) (h : assumedType name position text = .ok type)
    : (do run (some (← assumedType name position text))) = run (some type) := by
  rw [h]
  rfl

/-- The bits at the positions, as elements. -/
theorem bitget_computes {position : Value P} {control : RealControlView} {p : Nat → Nat}
    (hcontrol : RealControlView.new "bitget" 2 position = .ok control)
    (hp : All control fun i number => Is number (p i) ∧ 1 ≤ p i ∧ p i ≤ bits t)
    (htype : Assumes "bitget" 3 type assumed) (hshape : Expands [v.shape, control.shape] shape)
    : ∃ out : DenseArray t.Element, out.shape = shape ∧
        (∀ i < shape.numel, ∃ x z, v.data[expanded v.shape i]? = some x ∧ out.data[i]? = some z ∧
          z = flag t (bitAt x (p (expanded control.shape i)))) ∧
        Computes (fun primary => bitgetBuiltin ([primary, position] ++ type.toList)) assumed v out := by
  have hagree := hshape.agree control.shape (List.mem_cons_of_mem _ (List.mem_cons_self))
  obtain ⟨out, hout, helements, hcomputes⟩ := @mapPrimary_computes P t "bitget" assumed [control] bitgetWord v shape
    (fun i x z => z = flag t (bitAt x (p (expanded control.shape i)))) hshape (by
      intro i hi x hx
      obtain ⟨number, hnumber, hR, hpos, hle⟩ := controlValues_eq "bitget" hp hagree hi
      obtain ⟨result, hresult, hvalue⟩ := bitgetWord_eq hR hpos hle x
      exact ⟨[number], result, by rw [controlValues, List.mapM_cons, hnumber]; rfl, hresult, hvalue⟩)
  refine ⟨out, hout, helements, ?_⟩
  have hrun : (fun primary => bitgetBuiltin ([primary, position] ++ type.toList)) = fun primary => (do
      let spec ← primaryWordSpec "bitget" primary assumed
      validateControlValues "bitget" control (bitPosition "bitget" 2 (bits spec))
      mapPrimary "bitget" primary assumed [control] bitgetWord) := by
    funext primary
    have hbitget : bitget primary position assumed = (do
        let spec ← primaryWordSpec "bitget" primary assumed
        validateControlValues "bitget" control (bitPosition "bitget" 2 (bits spec))
        mapPrimary "bitget" primary assumed [control] bitgetWord) := by
      rw [bitget, hcontrol]
      rfl
    rw [← hbitget]
    cases htype with
    | none => rfl
    | some h => exact assumed_bind (bitget primary position) h
  have hvalid : validateControlValues "bitget" control (bitPosition "bitget" 2 (bits t)) = .ok () :=
    validateControlValues_eq hp fun i number hR => ⟨_, bitPosition_eq hR.1 hR.2.1 hR.2.2⟩
  rw [hrun]
  apply Computes.checked (fun spec primary => do
    validateControlValues "bitget" control (bitPosition "bitget" 2 (bits spec))
    mapPrimary "bitget" primary assumed [control] bitgetWord)
  simp only [hvalid]
  exact hcomputes

/-- The bits that are written, ones where no value is given. -/
inductive Writes (b : Nat → Bool) : Option (Value P) → Option RealControlView → Prop
  | ones : Writes b none none
  | bits {value : Value P} {control : RealControlView} (hcontrol : RealControlView.new "bitset" 3 value = .ok control)
    (hb : All control fun i number => isNonzero number = b i)
    : Writes b (some value) (some control)

/-- The bit that is written at an offset of the output. -/
def writtenBit (b : Nat → Bool) (written : Option RealControlView) (i : Nat) : Bool :=
  written.elim true fun control => b (expanded control.shape i)

theorem isTextScalar_of_assumed {name : String} {position : Nat} {text : Value P} {type : IntegerType}
    (h : assumedType name position text = .ok type)
    : isTextScalar text = true := by
  obtain ⟨units, htext, -⟩ := bind_eq_ok_iff.mp h
  obtain ⟨units, hunits, -⟩ := bind_eq_ok_iff.mp htext
  cases text with
  | string string =>
    cases string with
    | scalar element => rfl
    | array array =>
      obtain ⟨_, hnumel, -⟩ := bind_eq_ok_iff.mp hunits
      exact decide_eq_true (ensure_eq_ok_iff.mp hnumel)
  | array array =>
    cases array with
    | char array =>
      obtain ⟨_, hrow, -⟩ := bind_eq_ok_iff.mp hunits
      obtain ⟨hrank, hextent⟩ := ensure_eq_ok_iff.mp hrow
      exact Bool.and_eq_true_iff.mpr ⟨decide_eq_true hrank, decide_eq_true hextent⟩
    | _ => cases hunits
  | _ => cases hunits

theorem isTextScalar_of_control {name : String} {position : Nat} {value : Value P} {control : RealControlView}
    (h : RealControlView.new name position value = .ok control)
    : isTextScalar value = false := by
  cases value with
  | string string => cases h
  | array array =>
    cases array with
    | char array => cases h
    | _ => rfl
  | _ => rfl

theorem bitsetWord_eq {p : Nat} {number : RealNumber} {rest : List RealNumber} (h : Is number p) (hpos : 1 ≤ p)
    (hle : p ≤ bits t) (x : t.Element)
    : ∃ result, bitsetWord (toRaw x) t (number :: rest) = .ok result ∧
        HasBit x p ((rest[0]?.map isNonzero).getD true) (fromRaw t result) := by
  have hbits := bits_le t
  refine ⟨if (rest[0]?.map isNonzero).getD true then toRaw x ||| 1#64 <<< (p - 1)
    else toRaw x &&& ~~~(1#64 <<< (p - 1)), ?_, bitsetWord_bits hpos hle x _⟩
  rw [bitsetWord]
  refine bind_eq_ok_iff.mpr ⟨number, rfl, bind_eq_ok_iff.mpr ⟨p, bitPosition_eq h hpos hle, ?_⟩⟩
  refine bind_eq_ok_iff.mpr ⟨p - 1, bitDistance_eq hpos, bind_eq_ok_iff.mpr ⟨_, checkedShift_eq_ok (by omega) _, ?_⟩⟩
  rw [List.getElem?_cons_succ]
  cases rest with
  | nil => rfl
  | cons other rest => rfl

/-- The operands of the function that writes bits. -/
def bitsetArguments (primary position : Value P) (value type : Option (Value P)) : List (Value P) :=
  [primary, position] ++ value.toList ++ type.toList

/-- The bits at the positions are the given ones, all other ones stay. -/
theorem bitset_computes {position : Value P} {value : Option (Value P)} {control : RealControlView}
    {written : Option RealControlView} {p : Nat → Nat} {b : Nat → Bool}
    (hcontrol : RealControlView.new "bitset" 2 position = .ok control)
    (hp : All control fun i number => Is number (p i) ∧ 1 ≤ p i ∧ p i ≤ bits t) (hwrites : Writes b value written)
    (htype : Assumes "bitset" (if value.isSome then 4 else 3) type assumed)
    (hshape : Expands (v.shape :: control.shape :: (written.map RealControlView.shape).toList) shape)
    : ∃ out : DenseArray t.Element, out.shape = shape ∧
        (∀ i < shape.numel, ∃ x z, v.data[expanded v.shape i]? = some x ∧ out.data[i]? = some z ∧
          HasBit x (p (expanded control.shape i)) (writtenBit b written i) z) ∧
        Computes (fun primary => bitsetBuiltin (bitsetArguments primary position value type)) assumed v out := by
  have hagree := hshape.agree control.shape (by simp)
  have hvalid : validateControlValues "bitset" control (bitPosition "bitset" 2 (bits t)) = .ok () :=
    validateControlValues_eq hp fun i number hR => ⟨_, bitPosition_eq hR.1 hR.2.1 hR.2.2⟩
  have hshapes : (control :: written.toList).map RealControlView.shape =
      control.shape :: (written.map RealControlView.shape).toList := by
    cases written <;> rfl
  rw [← hshapes] at hshape
  obtain ⟨out, hout, helements, hcomputes⟩ := @mapPrimary_computes P t "bitset" assumed (control :: written.toList)
    bitsetWord v shape (fun i x z => HasBit x (p (expanded control.shape i)) (writtenBit b written i) z) hshape (by
      intro i hi x hx
      obtain ⟨number, hnumber, hR, hpos, hle⟩ := controlValues_eq "bitset" hp hagree hi
      cases hwrites with
      | ones =>
        obtain ⟨result, hresult, hvalue⟩ := @bitsetWord_eq t _ number [] hR hpos hle x
        exact ⟨[number], result, by rw [controlValues, Option.toList_none, List.mapM_cons, hnumber]; rfl, hresult,
          hvalue⟩
      | @bits _ values hvalues hb =>
        have hagree' := hshape.agree values.shape (by simp)
        obtain ⟨other, hother, hbit⟩ := controlValues_eq "bitset" hb hagree' hi
        obtain ⟨result, hresult, hvalue⟩ := @bitsetWord_eq t _ number [other] hR hpos hle x
        refine ⟨[number, other], result, ?_, hresult, ?_⟩
        . rw [controlValues, Option.toList_some, List.mapM_cons, hnumber, List.mapM_cons, hother]
          rfl
        . rw [writtenBit, Option.elim_some, ← hbit]
          exact hvalue)
  refine ⟨out, hout, helements, ?_⟩
  have hrun : (fun primary => bitsetBuiltin (bitsetArguments primary position value type)) = fun primary => (do
      let spec ← primaryWordSpec "bitset" primary assumed
      validateControlValues "bitset" control (bitPosition "bitset" 2 (bits spec))
      mapPrimary "bitset" primary assumed (control :: written.toList) bitsetWord) := by
    funext primary
    have hbitset : bitset primary position value assumed = (do
        let spec ← primaryWordSpec "bitset" primary assumed
        validateControlValues "bitset" control (bitPosition "bitset" 2 (bits spec))
        mapPrimary "bitset" primary assumed (control :: written.toList) bitsetWord) := by
      rw [bitset, hcontrol]
      cases hwrites with
      | ones => rfl
      | bits hvalues hb =>
        simp only [hvalues]
        rfl
    rw [← hbitset]
    cases hwrites with
    | ones =>
      cases htype with
      | none => rfl
      | @some text named h =>
        show (if isTextScalar text then do bitset primary position none (some (← assumedType "bitset" 3 text))
          else bitset primary position (some text) none) = _
        rw [if_pos (isTextScalar_of_assumed h)]
        exact assumed_bind (bitset primary position none) h
    | @bits other values hvalues hb =>
      cases htype with
      | none =>
        show (if isTextScalar other then do bitset primary position none (some (← assumedType "bitset" 3 other))
          else bitset primary position (some other) none) = _
        rw [isTextScalar_of_control hvalues]
        rfl
      | some h => exact assumed_bind (bitset primary position (some other)) h
  rw [hrun]
  apply Computes.checked (fun spec primary => do
    validateControlValues "bitset" control (bitPosition "bitset" 2 (bits spec))
    mapPrimary "bitset" primary assumed (control :: written.toList) bitsetWord)
  simp only [hvalid]
  exact hcomputes

end Functions

/-! The functions of two operands. -/

section Binary

variable {left right out : DenseArray t.Element} {shape : Shape} {assumed : Option IntegerType}
variable {operation : BinaryOperation}

/-- What is computed at the offsets, one after the other. -/
structure Meets (operation : BinaryOperation) (left right : DenseArray t.Element) (shape : Shape) (z : Nat → t.Element)
    : Prop where
  broadcasts : Broadcasts left.shape right.shape shape
  step : ∀ i < shape.numel, ∃ x y, left.data[broadcastFrom left.shape left.shape right.shape i]? = some x ∧
    right.data[broadcastFrom right.shape left.shape right.shape i]? = some y ∧
      fromRaw t (operation.apply (toRaw x) (toRaw y)) = z i

/-- The second operand has the elements. -/
structure SecondCarries (name : String) (second : IntegerSecond t) (right : DenseArray t.Element) : Prop where
  shape : second.shape = right.shape
  words : ∀ (i : Nat) (y : t.Element), right.data[i]? = some y → second.rawAt i name = .ok (toRaw y)

theorem integerBinary_eq {z : Nat → t.Element} {second : Value P} {view : IntegerSecond t}
    (h : Meets operation left right shape z) (hassumed : ∀ type ∈ assumed, type = t)
    (hsecond : integerSecond operation.name t second = .ok view)
    (hview : SecondCarries operation.name view right) (hshape : out.shape = shape)
    (hdata : out.data = (List.range shape.numel).map z)
    : integerBinary operation t left second assumed = .ok out := by
  have hoffsets : ∀ offset ∈ List.range shape.numel, (do
      let leftOffset ← broadcastOffset operation.name offset shape left.shape.dimensions
      let rightOffset ← broadcastOffset operation.name offset shape view.shape.dimensions
      let left ← okOr left.data[leftOffset]? (mappingError operation.name)
      let right ← view.rawAt rightOffset operation.name
      return fromRaw t (operation.apply (toRaw left) right &&& mask t)) = Except.ok (z offset) := by
    intro offset hoffset
    have hlt := List.mem_range.mp hoffset
    obtain ⟨x, y, hx, hy, hz⟩ := h.step offset hlt
    have hleft := (broadcastOffset_eq operation.name h.broadcasts (.inl rfl) hlt).1
    have hright := (broadcastOffset_eq operation.name h.broadcasts (.inr rfl) hlt).1
    rw [hview.shape, hleft, hright]
    show (do
      let first ← okOr left.data[broadcastFrom left.shape left.shape right.shape offset]? (mappingError operation.name)
      let second ← view.rawAt (broadcastFrom right.shape left.shape right.shape offset) operation.name
      return fromRaw t (operation.apply (toRaw first) second &&& mask t)) = _
    rw [hx, hview.words _ y hy, ← hz, ← fromRaw_and_mask]
    rfl
  rw [integerBinary]
  simp only [ensure_pos hassumed, hsecond]
  show (do
    let shape ← implicitShape operation.name left.shape.dimensions view.shape.dimensions
    let values ← (List.range shape.numel).mapM fun offset => do
      let leftOffset ← broadcastOffset operation.name offset shape left.shape.dimensions
      let rightOffset ← broadcastOffset operation.name offset shape view.shape.dimensions
      let left ← okOr left.data[leftOffset]? (mappingError operation.name)
      let right ← view.rawAt rightOffset operation.name
      return fromRaw t (operation.apply (toRaw left) right &&& mask t)
    (DenseArray.fromVec shape values).mapError fun _ => allocationError operation.name) = _
  rw [hview.shape] at hoffsets ⊢
  rw [implicitShape_eq h.broadcasts]
  show (do
    let values ← (List.range shape.numel).mapM fun offset => do
      let leftOffset ← broadcastOffset operation.name offset shape left.shape.dimensions
      let rightOffset ← broadcastOffset operation.name offset shape right.shape.dimensions
      let left ← okOr left.data[leftOffset]? (mappingError operation.name)
      let right ← view.rawAt rightOffset operation.name
      return fromRaw t (operation.apply (toRaw left) right &&& mask t)
    (DenseArray.fromVec shape values).mapError fun _ => allocationError operation.name) = _
  rw [mapM_eq_ok hoffsets]
  exact mapError_eq_ok_iff.mpr (DenseArray.fromVec_eq_ok_iff.mpr ⟨hshape, hdata⟩)

/-- The double or logical operand has the elements. -/
structure ViewCarries (name : String) (view : DoubleLogicalView) (v : DenseArray t.Element) : Prop where
  shape : view.shape = v.shape
  words : ∀ (position i : Nat) (x : t.Element), v.data[i]? = some x → view.rawAt i name position t = .ok (toRaw x)

theorem ViewCarries.validate {name : String} {view : DoubleLogicalView} {v : DenseArray t.Element} (h : ViewCarries name view v)
    (position : Nat)
    : view.validate name position t = .ok () := by
  rw [DoubleLogicalView.validate, forM_eq_ok_iff]
  intro offset hoffset
  have hlt := List.mem_range.mp hoffset
  rw [h.shape, ← v.length_data] at hlt
  rw [h.words position offset _ (List.getElem?_eq_getElem hlt)]
  rfl

/-- The doubles of a value are its view. -/
theorem Carries.view (name : String) {x : Value P} {xs : DenseArray F64} {v : DenseArray t.Element} (hxs : doubles? x = some xs)
    (h : Carries xs v)
    : ∃ view, DoubleLogicalView.new x = some view ∧ view.isLogical = false ∧ ViewCarries name view v ∧
        (view.scalarVariant = true → v.shape = .scalar) ∧ isDoubleOrLogical x = true := by
  cases x with
  | double value =>
    cases hxs
    refine ⟨_, rfl, rfl, ⟨h.shape, fun position i x hx => ?_⟩, fun _ => h.shape.symm, rfl⟩
    obtain ⟨value', hvalue, hnumber⟩ := h.values i x hx
    cases i with
    | zero =>
      cases hvalue
      exact doubleToRaw_eq hnumber
    | succ i => cases hvalue
  | array array =>
    cases array with
    | f64 array =>
      cases hxs
      refine ⟨_, rfl, rfl, ⟨h.shape, fun position i x hx => ?_⟩, by rintro ⟨⟩, rfl⟩
      obtain ⟨value, hvalue, hnumber⟩ := h.values i x hx
      show (do
        let value ← okOr xs.data[i]? (mappingError name)
        doubleToRaw name position value t false) = _
      rw [hvalue]
      exact doubleToRaw_eq hnumber
    | _ => cases hxs
  | _ => cases hxs

theorem doubleOrLogicalBinary_eq {z : Nat → t.Element} {x y : Value P} {xview yview : DoubleLogicalView}
    (h : Meets operation left right shape z) (hassumed : assumed.getD .u64 = t)
    (hx : DoubleLogicalView.new x = some xview) (hxview : ViewCarries operation.name xview left)
    (hy : DoubleLogicalView.new y = some yview) (hyview : ViewCarries operation.name yview right)
    (hlogical : (xview.isLogical && yview.isLogical) = false) (hshape : out.shape = shape)
    (hdata : out.data = (List.range shape.numel).map z)
    (hscalar : (xview.scalarVariant && yview.scalarVariant) = true → out.shape = .scalar)
    : ∃ result, doubleOrLogicalBinary operation x y assumed = .ok result ∧ doubles? result = some (rounded out) := by
  have hoffsets : ∀ offset ∈ List.range shape.numel, (do
      let raw ← combined operation xview yview shape t offset
      return decodeF64 t (raw &&& mask t)) = Except.ok (F64.ofInt (z offset).val) := by
    intro offset hoffset
    have hlt := List.mem_range.mp hoffset
    obtain ⟨first, second, hfirst, hsecond, hz⟩ := h.step offset hlt
    have hleft := (broadcastOffset_eq operation.name h.broadcasts (.inl rfl) hlt).1
    have hright := (broadcastOffset_eq operation.name h.broadcasts (.inr rfl) hlt).1
    have hcombined : combined operation xview yview shape t offset =
        .ok (operation.apply (toRaw first) (toRaw second)) := by
      rw [combined, hxview.shape, hyview.shape, hleft, hright]
      show (do
        let first ← xview.rawAt (broadcastFrom left.shape left.shape right.shape offset) operation.name 1 t
        let second ← yview.rawAt (broadcastFrom right.shape left.shape right.shape offset) operation.name 2 t
        return operation.apply first second) = _
      rw [hxview.words 1 _ _ hfirst, hyview.words 2 _ _ hsecond]
      rfl
    rw [hcombined, ← hz, ← fromRaw_and_mask, ← decodeF64_eq]
    rfl
  have hresult : (rounded out).data = (List.range shape.numel).map fun i => F64.ofInt (z i).val := by
    show out.data.map _ = _
    rw [hdata, List.map_map]
    rfl
  have hscalars : (xview.scalarVariant && yview.scalarVariant) = true → (rounded out).shape = .scalar := hscalar
  obtain ⟨result, hok, hvalue⟩ := @denseDouble_eq P operation.name _ _ hscalars
  refine ⟨result, ?_, hvalue⟩
  have hnot : (xview.isLogical && yview.isLogical) = true → assumed = none := by
    rw [hlogical]
    rintro ⟨⟩
  simp only [doubleOrLogicalBinary, hx, hy, okOr, hassumed]
  show (do
    ensure ((xview.isLogical && yview.isLogical) = true → assumed = none) (invalidAssumedType operation.name "logical")
    xview.validate operation.name 1 t
    yview.validate operation.name 2 t
    let shape ← implicitShape operation.name xview.shape.dimensions yview.shape.dimensions
    if (xview.isLogical && yview.isLogical) = true then do
      let values ← (List.range shape.numel).mapM fun offset => do
        let raw ← combined operation xview yview shape t offset
        return raw != 0#64
      denseLogical operation.name shape values (xview.scalarVariant && yview.scalarVariant)
    else do
      let values ← (List.range shape.numel).mapM fun offset => do
        let raw ← combined operation xview yview shape t offset
        return decodeF64 t (raw &&& mask t)
      denseDouble operation.name shape values (xview.scalarVariant && yview.scalarVariant)) = _
  rw [ensure_pos hnot, hxview.validate, hyview.validate, hxview.shape, hyview.shape, implicitShape_eq h.broadcasts]
  show (if (xview.isLogical && yview.isLogical) = true then do
      let values ← (List.range shape.numel).mapM fun offset => do
        let raw ← combined operation xview yview shape t offset
        return raw != 0#64
      denseLogical operation.name shape values (xview.scalarVariant && yview.scalarVariant)
    else do
      let values ← (List.range shape.numel).mapM fun offset => do
        let raw ← combined operation xview yview shape t offset
        return decodeF64 t (raw &&& mask t)
      denseDouble operation.name shape values (xview.scalarVariant && yview.scalarVariant)) = _
  rw [if_neg (by rw [hlogical]; decide), mapM_eq_ok hoffsets]
  show denseDouble operation.name shape _ _ = _
  rw [← hresult, ← hshape]
  exact hok

/-- The words at all offsets of the output. -/
theorem exists_meets (operation : BinaryOperation) (h : Broadcasts left.shape right.shape shape)
    : ∃ z : Nat → t.Element, Meets operation left right shape z ∧ ∀ i < shape.numel, ∃ x y,
        left.data[broadcastFrom left.shape left.shape right.shape i]? = some x ∧
        right.data[broadcastFrom right.shape left.shape right.shape i]? = some y ∧
        z i = fromRaw t (operation.apply (toRaw x) (toRaw y)) := by
  have hstep : ∀ i, ∃ z : t.Element, i < shape.numel → ∃ x y,
      left.data[broadcastFrom left.shape left.shape right.shape i]? = some x ∧
      right.data[broadcastFrom right.shape left.shape right.shape i]? = some y ∧
        z = fromRaw t (operation.apply (toRaw x) (toRaw y)) := by
    intro i
    by_cases hi : i < shape.numel
    . have hleft := (broadcastOffset_eq operation.name h (.inl rfl) hi).2
      have hright := (broadcastOffset_eq operation.name h (.inr rfl) hi).2
      rw [← left.length_data] at hleft
      rw [← right.length_data] at hright
      exact ⟨_, fun _ => ⟨_, _, List.getElem?_eq_getElem hleft, List.getElem?_eq_getElem hright, rfl⟩⟩
    . exact ⟨t.wrap 0, fun hlt => absurd hlt hi⟩
  choose z hz using hstep
  refine ⟨z, ⟨h, fun i hi => ?_⟩, hz⟩
  obtain ⟨x, y, hx, hy, hzi⟩ := hz i hi
  exact ⟨x, y, hx, hy, hzi.symm⟩

end Binary

end Bitwise
end Builtins
end OpenMat
