import OpenMat.Indexing.Contents

/-!
This module contains the correctness of indexing and of indexed assignment: when they succeed, what is read,
what is written and what stays.
-/

namespace OpenMat
namespace Indexing

open Arrays (Shape DenseArray)
open Values (F32 F64 ComplexValue CharCodeUnit IntegerType IntegerArrayData ArrayData)
open Sequence (writeAll)

variable {P : Payloads} {α β : Type}

/-- As many elements are supplied as are selected, or a scalar. -/
def Fills (supplied : Contents) (offsets : List Nat) : Prop :=
  supplied.elements.length = 1 ∨ supplied.elements.length = offsets.length

/-- The outcome of an assignment to the selected offsets. -/
structure Meets (target : Contents) (value : Value P) (offsets : List Nat)
    (outcome : Except RuntimeErrorKind (Value P)) : Prop where
  assigned (result : Value P) (h : outcome = .ok result) : ∃ supplied assigned,
    contents value = some supplied ∧ Accepts target.elementClass supplied.elementClass ∧ Fills supplied offsets ∧
      contents result = some assigned ∧ Assigned target supplied offsets assigned
  succeeds (supplied : Contents) (hvalue : contents value = some supplied)
    (haccepts : Accepts target.elementClass supplied.elementClass) (hfills : Fills supplied offsets)
    : ∃ result, outcome = .ok result

section Meets

variable {value : Value P} {target supplied : Contents} {offsets : List Nat} {selection : ResolvedSelection}
  {outcome : Except RuntimeErrorKind (Value P)}

theorem meets_of_refused (herror : ∃ error, outcome = .error error)
    (h : ∀ supplied, contents value = some supplied → ¬ Accepts target.elementClass supplied.elementClass)
    : Meets target value offsets outcome where
  assigned result hok := by
    obtain ⟨error, herror⟩ := herror
    rw [herror] at hok
    cases hok
  succeeds supplied hvalue haccepts _ := absurd haccepts (h supplied hvalue)

theorem meets_of_accepted (hvalue : contents value = some supplied)
    (haccepts : Accepts target.elementClass supplied.elementClass)
    (hlength : ¬ Fills supplied offsets → ∃ error, outcome = .error error)
    (hok : Fills supplied offsets → ∃ result assigned, outcome = .ok result ∧ contents result = some assigned ∧
      Assigned target supplied offsets assigned)
    : Meets target value offsets outcome where
  assigned result hresult := by
    by_cases hfills : Fills supplied offsets
    . obtain ⟨result', assigned, hresult', hassigned, hspec⟩ := hok hfills
      rw [hresult] at hresult'
      cases hresult'
      exact ⟨supplied, assigned, hvalue, haccepts, hfills, hassigned, hspec⟩
    . obtain ⟨error, herror⟩ := hlength hfills
      rw [hresult] at herror
      cases herror
  succeeds supplied' hvalue' _ hfills := by
    rw [hvalue] at hvalue'
    cases hvalue'
    obtain ⟨result, -, hresult, -⟩ := hok hfills
    exact ⟨result, hresult⟩

/-- Without selected offsets nothing is assigned. -/
theorem assigned_nil (target supplied : Contents)
    : Assigned target supplied [] target where
  elementClass := rfl
  complex := by simp
  shape := rfl
  elements _ := rfl

theorem assignmentLength_of_fills (h : Fills supplied offsets)
    : assignmentLength supplied.elements.length offsets.length = .ok () :=
  ensure_pos h

theorem assignmentLength_of_not_fills (h : ¬ Fills supplied offsets)
    : ∃ error, assignmentLength supplied.elements.length offsets.length = .error error :=
  ⟨_, if_neg h⟩

/-- The lengths are compared first, and nothing is assigned where nothing is selected. -/
theorem meets_of_length {T : Type} {unchanged : T} {write : Except RuntimeErrorKind T} {wrap : T → Value P}
    (hvalue : contents value = some supplied) (haccepts : Accepts target.elementClass supplied.elementClass)
    {numel : Nat} (hnumel : supplied.elements.length = numel)
    (houtcome : outcome = (writeSelected numel offsets unchanged write).map wrap)
    (hunchanged : contents (wrap unchanged) = some target)
    (hwrite : Fills supplied offsets → offsets ≠ [] → ∃ result assigned, write = .ok result ∧
      contents (wrap result) = some assigned ∧ Assigned target supplied offsets assigned)
    : Meets target value offsets outcome := by
  subst hnumel
  apply meets_of_accepted hvalue haccepts
  . intro hfills
    obtain ⟨error, herror⟩ := assignmentLength_of_not_fills hfills
    rw [houtcome, writeSelected, herror]
    exact ⟨error, rfl⟩
  . intro hfills
    rw [houtcome, writeSelected, assignmentLength_of_fills hfills]
    by_cases hne : offsets = []
    . rw [if_pos hne]
      refine ⟨wrap unchanged, target, rfl, hunchanged, ?_⟩
      rw [hne]
      exact assigned_nil _ _
    . obtain ⟨result, assigned, hresult, hassigned, hspec⟩ := hwrite hfills hne
      rw [if_neg hne, hresult]
      exact ⟨wrap result, assigned, rfl, hassigned, hspec⟩

/-- The loop assigns to an array that holds what the target holds. -/
theorem exists_assigned {source : Nat → Except RuntimeErrorKind α} {array : DenseArray α} {read : α → Element}
    (complex : Bool)
    (hsource : ∀ n, n < supplied.elements.length → ∃ value, source n = .ok value ∧
      supplied.elements[n]?.map (convertTo target.elementClass) = some (read value))
    (hfills : Fills supplied offsets) (hoffsets : ∀ offset ∈ offsets, offset < target.shape.numel)
    (hne : offsets ≠ []) (hshape : array.shape = target.shape) (hdata : array.data.map read = target.elements)
    (hcomplex : complex = (target.complex || (supplied.complex && decide (target.elementClass ≠ .logical))))
    : ∃ assigned, writeElements source supplied.elements.length false array offsets = .ok assigned ∧
        Assigned target supplied offsets (denseContents target.elementClass complex read assigned) := by
  rw [← hshape] at hoffsets
  obtain ⟨assigned, hassigned, hassignedShape, helements⟩ :=
    writeElements_spec target.elementClass hsource hfills hoffsets
  refine ⟨assigned, hassigned, rfl, ?_, hassignedShape.trans hshape, ?_⟩
  . have hempty : offsets.isEmpty = false := by simpa using hne
    rw [hempty, Bool.not_false, Bool.and_true, ← hcomplex]
    rfl
  . intro offset
    rw [hdata] at helements
    exact congrFun helements offset

theorem source_elementAt {array : DenseArray β} {read : β → Element} {convert : β → α} {stored : α → Element}
    {cls : ElementClass} (h : ∀ b, convertTo cls (read b) = stored (convert b)) (n : Nat)
    (hlt : n < (array.data.map read).length)
    : ∃ value, (elementAt array n).map convert = .ok value ∧
        (array.data.map read)[n]?.map (convertTo cls) = some (stored value) := by
  rw [List.length_map] at hlt
  refine ⟨convert array.data[n], ?_, ?_⟩
  . rw [elementAt, List.getElem?_eq_getElem hlt]
    rfl
  . rw [List.getElem?_map, List.getElem?_eq_getElem hlt, Option.map_some, Option.map_some, h]

theorem source_elementAt_same {array : DenseArray α} {read : α → Element} {cls : ElementClass}
    (h : ∀ a, convertTo cls (read a) = read a) (n : Nat) (hlt : n < (array.data.map read).length)
    : ∃ value, elementAt array n = .ok value ∧
        (array.data.map read)[n]?.map (convertTo cls) = some (read value) := by
  obtain ⟨value, hvalue, hread⟩ := @source_elementAt α α array read id read cls h n hlt
  rw [Except.map_id] at hvalue
  exact ⟨value, hvalue, hread⟩

theorem exists_promote (zero : α) (array : DenseArray α)
    : ∃ promoted, promote zero array false = .ok promoted ∧ promoted.shape = array.shape ∧
        promoted.data = array.data.map fun value => ⟨value, zero⟩ := by
  have hloop : (array.data.zipIdx.mapM fun (p : α × Nat) => do
      checkCancelled false p.2
      return (⟨p.1, zero⟩ : ComplexValue α)) =
        (.ok (array.data.map fun value => ⟨value, zero⟩) : Except RuntimeErrorKind _) := by
    simp only [checkCancelled_false, bind, Except.bind]
    rw [List.mapM_pure]
    conv_rhs => rw [← List.zipIdx_map_fst 0 array.data, List.map_map]
    rfl
  have hlength : (array.data.map fun value => (⟨value, zero⟩ : ComplexValue α)).length = array.shape.numel := by
    rw [List.length_map, array.length_data]
  refine ⟨⟨array.shape, array.data.map fun value => ⟨value, zero⟩, hlength⟩, ?_, rfl, rfl⟩
  rw [promote, checkCancelled_false]
  simp only [bind, Except.bind]
  simp only [bind, Except.bind] at hloop
  rw [hloop]
  exact mapError_eq_ok_iff.mpr (dif_pos hlength)

/-! The classes that are assigned to themselves only. -/

theorem length_denseContents (elementClass : ElementClass) (complex : Bool) (read : α → Element)
    (array : DenseArray α)
    : (denseContents elementClass complex read array).elements.length = array.shape.numel := by
  rw [denseContents, List.length_map, array.length_data]

/-- The assignment of an array of the kind that the target is. -/
theorem exists_writeSame {cls : ElementClass} {complex : Bool} {read : α → Element} {array source : DenseArray α}
    (hconvert : ∀ a, convertTo cls (read a) = read a)
    (hfills : Fills (denseContents cls complex read source) selection.offsets)
    (hoffsets : ∀ offset ∈ selection.offsets, offset < array.shape.numel) (hne : selection.offsets ≠ [])
    : ∃ assigned, writeSame array source selection false = .ok assigned ∧
        Assigned (denseContents cls complex read array) (denseContents cls complex read source)
          selection.offsets (denseContents cls complex read assigned) := by
  rw [writeSame, ← length_denseContents cls complex read source]
  apply exists_assigned complex (source_elementAt_same hconvert) hfills hoffsets hne rfl rfl
  cases complex <;> rfl

theorem charOf_cases (value : Value P)
    : (∃ array, value = .array (.char array)) ∨ charOf value = none ∧ ∀ supplied, contents value = some supplied →
        ¬ Accepts .char supplied.elementClass := by
  cases value with
  | array data =>
    cases data with
    | char array => exact .inl ⟨array, rfl⟩
    | integer integers => cases integers <;> exact .inr ⟨rfl, fun _ h => by cases h; exact nofun⟩
    | _ => exact .inr ⟨rfl, fun _ h => by cases h; exact nofun⟩
  | logical _ | double _ | complex _ | string _ => exact .inr ⟨rfl, fun _ h => by cases h; exact nofun⟩
  | _ => exact .inr ⟨rfl, fun _ h => by cases h⟩

theorem meets_char (array : DenseArray CharCodeUnit)
    (hoffsets : ∀ offset ∈ selection.offsets, offset < array.shape.numel)
    : Meets (arrayContents (.char array)) value selection.offsets
        (assignSelected (.array (.char array)) selection value false) := by
  obtain ⟨source, rfl⟩ | ⟨hnone, hclass⟩ := charOf_cases value
  . have hvalue : contents (.array (.char source) : Value P) = some (arrayContents (.char source)) := rfl
    have haccepts : Accepts (arrayContents (.char array)).elementClass (arrayContents (.char source)).elementClass :=
      rfl
    have houtcome : assignSelected (.array (.char array)) selection (.array (.char source) : Value P) false =
        (writeSelected source.shape.numel selection.offsets array (writeSame array source selection false)).map
          fun assigned => .array (.char assigned) :=
      rfl
    apply meets_of_length hvalue haccepts (length_denseContents _ _ _ _) houtcome rfl
    intro hfills hne
    obtain ⟨assigned, hassigned, hspec⟩ := exists_writeSame (fun _ => rfl) hfills hoffsets hne
    exact ⟨assigned, _, hassigned, rfl, hspec⟩
  . have herror : assignSelected (.array (.char array)) selection value false =
        .error (.array (.invalidOperand "char indexed assignment" value.kind)) := by
      rw [assignSelected, hnone]
      rfl
    exact meets_of_refused ⟨_, herror⟩ hclass

/-! Strings. -/

theorem element_owned (strings : StringValue) (offset : Nat)
    : strings.elementOrPanic offset = elementAt strings.owned offset := by
  cases strings with
  | scalar element => cases offset <;> rfl
  | array strings => rfl

theorem stringOf_cases (value : Value P)
    : (∃ strings, value = .string strings) ∨ ∀ supplied, contents value = some supplied →
        ¬ Accepts .string supplied.elementClass := by
  cases value with
  | string strings => exact .inl ⟨strings, rfl⟩
  | array data =>
    cases data with
    | integer integers => cases integers <;> exact .inr fun _ h => by cases h; exact nofun
    | _ => exact .inr fun _ h => by cases h; exact nofun
  | logical _ | double _ | complex _ => exact .inr fun _ h => by cases h; exact nofun
  | _ => exact .inr fun _ h => by cases h

theorem numel_owned (strings : StringValue)
    : strings.numel = strings.owned.shape.numel := by
  cases strings <;> rfl

theorem meets_string (strings : StringValue)
    (hoffsets : ∀ offset ∈ selection.offsets, offset < strings.owned.shape.numel)
    : Meets (denseContents .string false .string strings.owned) value selection.offsets
        (assignSelected (.string strings) selection value false) := by
  obtain ⟨source, rfl⟩ | hclass := stringOf_cases value
  . have hvalue : contents (.string source : Value P) = some (denseContents .string false .string source.owned) :=
      rfl
    have houtcome : assignSelected (.string strings) selection (.string source : Value P) false =
        (writeSelected source.owned.shape.numel selection.offsets strings
          ((writeSame strings.owned source.owned selection false).map .array)).map .string := by
      have hsource : source.elementOrPanic = elementAt source.owned := funext (element_owned source)
      rw [assignSelected, indexAssignString, writeSame, numel_owned, hsource]
    have haccepts : Accepts (denseContents .string false Element.string strings.owned).elementClass
        (denseContents .string false Element.string source.owned).elementClass :=
      rfl
    apply meets_of_length hvalue haccepts (length_denseContents _ _ _ _) houtcome rfl
    intro hfills hne
    obtain ⟨assigned, hassigned, hspec⟩ := exists_writeSame (fun _ => rfl) hfills hoffsets hne
    refine ⟨.array assigned, _, ?_, rfl, hspec⟩
    rw [hassigned]
    rfl
  . refine meets_of_refused ?_ hclass
    cases value with
    | string source => exact absurd rfl (hclass _ rfl)
    | _ => exact ⟨_, rfl⟩

/-! Numbers of single precision. -/

section Complex

variable {cls : ElementClass} {real : α → Element} {complex : ComplexValue α → Element} {zero : α}

theorem exists_writePromoted {array : DenseArray α} {source : DenseArray (ComplexValue α)}
    (hreal : ∀ a, real a = complex ⟨a, zero⟩) (hconvert : ∀ a, convertTo cls (complex a) = complex a)
    (hlogical : cls ≠ .logical) (hfills : Fills (denseContents cls true complex source) selection.offsets)
    (hoffsets : ∀ offset ∈ selection.offsets, offset < array.shape.numel) (hne : selection.offsets ≠ [])
    : ∃ assigned, writePromoted zero array source selection false = .ok assigned ∧
        Assigned (denseContents cls false real array) (denseContents cls true complex source)
          selection.offsets (denseContents cls true complex assigned) := by
  obtain ⟨promoted, hpromoted, hshape, hdata⟩ := exists_promote zero array
  rw [writePromoted, hpromoted]
  show ∃ assigned, writeSame promoted source selection false = .ok assigned ∧ _
  rw [writeSame, ← length_denseContents cls true complex source]
  apply exists_assigned true (source_elementAt_same hconvert) hfills hoffsets hne hshape
  . rw [hdata, List.map_map]
    exact List.map_congr_left fun a _ => (hreal a).symm
  . exact (decide_eq_true hlogical).symm

theorem exists_writeRealIntoComplex {array : DenseArray (ComplexValue α)} {source : DenseArray α}
    (hreal : ∀ a, real a = complex ⟨a, zero⟩) (hconvert : ∀ a, convertTo cls (complex a) = complex a)
    (hfills : Fills (denseContents cls false real source) selection.offsets)
    (hoffsets : ∀ offset ∈ selection.offsets, offset < array.shape.numel) (hne : selection.offsets ≠ [])
    : ∃ assigned, writeRealIntoComplex zero array source selection false = .ok assigned ∧
        Assigned (denseContents cls true complex array) (denseContents cls false real source)
          selection.offsets (denseContents cls true complex assigned) := by
  have hstored a : convertTo cls (real a) = complex ⟨a, zero⟩ := by rw [hreal, hconvert]
  rw [writeRealIntoComplex, ← length_denseContents cls false real source]
  exact exists_assigned true (source_elementAt hstored) hfills hoffsets hne rfl rfl rfl

end Complex

theorem singleOf_none (h : singleOf value = none) (supplied : Contents) (hvalue : contents value = some supplied)
    : ¬ Accepts .single supplied.elementClass := by
  cases value with
  | array data =>
    cases data with
    | f32 _ | complexF32 _ => cases h
    | integer integers => cases integers <;> cases hvalue <;> exact nofun
    | _ => cases hvalue; exact nofun
  | logical _ | double _ | complex _ | string _ => cases hvalue; exact nofun
  | _ => cases hvalue

theorem singleOf_some {data : ArrayData} (h : singleOf value = some data)
    : value = .array data := by
  rw [singleOf.eq_def] at h
  split at h <;> cases h <;> rfl

/-- The writes to an array of single precision assign what is supplied. -/
theorem exists_writeSingle {data source : ArrayData}
    (hdata : (∃ array, data = .f32 array) ∨ ∃ array, data = .complexF32 array)
    (hsource : (∃ array, source = .f32 array) ∨ ∃ array, source = .complexF32 array)
    (hfills : Fills (arrayContents source) selection.offsets)
    (hoffsets : ∀ offset ∈ selection.offsets, offset < data.shape.numel) (hne : selection.offsets ≠ [])
    : ∃ assigned, writeSingle data source selection false = .ok assigned ∧
        Assigned (arrayContents data) (arrayContents source) selection.offsets (arrayContents assigned) := by
  have hreal (a : F32) : realSingle a = .single ⟨a, 0⟩ := rfl
  have hconvert (a : ComplexValue F32) : convertTo .single (.single a) = .single a := rfl
  have hlogical : ElementClass.single ≠ .logical := by decide
  obtain ⟨array, rfl⟩ | ⟨array, rfl⟩ := hdata <;> obtain ⟨source, rfl⟩ | ⟨source, rfl⟩ := hsource
  . obtain ⟨assigned, hassigned, hspec⟩ := exists_writeSame (fun _ => rfl) hfills hoffsets hne
    exact ⟨.f32 assigned, by rw [writeSingle, hassigned]; rfl, hspec⟩
  . obtain ⟨assigned, hassigned, hspec⟩ :=
      exists_writePromoted hreal hconvert hlogical hfills hoffsets hne
    exact ⟨.complexF32 assigned, by rw [writeSingle, hassigned]; rfl, hspec⟩
  . obtain ⟨assigned, hassigned, hspec⟩ :=
      exists_writeRealIntoComplex hreal hconvert hfills hoffsets hne
    exact ⟨.complexF32 assigned, by rw [writeSingle, hassigned]; rfl, hspec⟩
  . obtain ⟨assigned, hassigned, hspec⟩ := exists_writeSame (fun _ => rfl) hfills hoffsets hne
    exact ⟨.complexF32 assigned, by rw [writeSingle, hassigned]; rfl, hspec⟩

theorem length_arrayContents (data : ArrayData)
    : (arrayContents data).elements.length = data.shape.numel := by
  cases data with
  | integer integers => cases integers <;> exact length_denseContents _ _ _ _
  | _ => exact length_denseContents _ _ _ _

theorem meets_single {data : ArrayData} (hdata : (∃ array, data = .f32 array) ∨ ∃ array, data = .complexF32 array)
    (hoffsets : ∀ offset ∈ selection.offsets, offset < data.shape.numel)
    : Meets (arrayContents data) value selection.offsets (indexAssignSingle data selection value false) := by
  have hclass {data : ArrayData} (h : (∃ array, data = .f32 array) ∨ ∃ array, data = .complexF32 array)
      : (arrayContents data).elementClass = .single := by
    obtain ⟨array, rfl⟩ | ⟨array, rfl⟩ := h <;> rfl
  cases hvalue : singleOf value with
  | none =>
    rw [indexAssignSingle, hvalue]
    refine meets_of_refused ⟨_, rfl⟩ ?_
    rw [hclass hdata]
    exact singleOf_none hvalue
  | some source =>
    have hsource := singleOf_cases hvalue
    have hcontents : contents value = some (arrayContents source) := by
      rw [singleOf_some hvalue]
      rfl
    have haccepts : Accepts (arrayContents data).elementClass (arrayContents source).elementClass := by
      rw [hclass hdata, hclass hsource]
      exact rfl
    have houtcome : indexAssignSingle data selection value false =
        (writeSelected source.shape.numel selection.offsets data
          (writeSingle data source selection false)).map .array := by
      rw [indexAssignSingle, hvalue]
      rfl
    apply meets_of_length hcontents haccepts (length_arrayContents source) houtcome rfl
    intro hfills hne
    obtain ⟨assigned, hassigned, hspec⟩ := exists_writeSingle hdata hsource hfills hoffsets hne
    exact ⟨assigned, _, hassigned, rfl, hspec⟩

/-! Integers. -/

theorem integerOf_cases (value : Value P)
    : (∃ integers, value = .array (.integer integers)) ∨ integerOf value = none ∧
        ∀ type supplied, contents value = some supplied → ¬ Accepts (.integer type) supplied.elementClass := by
  cases value with
  | array data =>
    cases data with
    | integer integers => exact .inl ⟨integers, rfl⟩
    | _ => exact .inr ⟨rfl, fun _ _ h => by cases h; exact nofun⟩
  | logical _ | double _ | complex _ | string _ => exact .inr ⟨rfl, fun _ _ h => by cases h; exact nofun⟩
  | _ => exact .inr ⟨rfl, fun _ _ h => by cases h⟩

theorem elementClass_integer (integers : IntegerArrayData)
    : (arrayContents (.integer integers)).elementClass = .integer integers.type := by
  cases integers <;> rfl

theorem className_inj {a b : IntegerType} (h : a.className = b.className)
    : a = b := by
  cases a <;> cases b <;> first | rfl | exact absurd h (by decide)

theorem integersOf_type {type : IntegerType} {supplied : IntegerArrayData} (h : supplied.type = type)
    : (∃ array, supplied = .real type array) ∨ ∃ array, supplied = .complex type array := by
  subst h
  cases supplied with
  | real type array => exact .inl ⟨array, rfl⟩
  | complex type array => exact .inr ⟨array, rfl⟩

theorem exists_writeInteger {integers source : IntegerArrayData} (htype : source.type = integers.type)
    (hfills : Fills (arrayContents (.integer source)) selection.offsets)
    (hoffsets : ∀ offset ∈ selection.offsets, offset < integers.shape.numel) (hne : selection.offsets ≠ [])
    : ∃ assigned, writeInteger integers source selection false = .ok assigned ∧
        Assigned (arrayContents (.integer integers)) (arrayContents (.integer source)) selection.offsets
          (arrayContents (.integer assigned)) := by
  have hlogical : ElementClass.integer integers.type ≠ .logical := nofun
  cases integers with
  | real type array =>
    have hreal (a : type.Element) : realInteger a = .integer type ⟨a, integerZero type⟩ := rfl
    have hconvert (a : ComplexValue type.Element) :
        convertTo (.integer type) (.integer type a) = .integer type a :=
      rfl
    obtain ⟨source, rfl⟩ | ⟨source, rfl⟩ := @integersOf_type type _ htype
    . obtain ⟨assigned, hassigned, hspec⟩ := exists_writeSame (fun _ => rfl) hfills hoffsets hne
      refine ⟨.real type assigned, ?_, hspec⟩
      rw [writeInteger, integersOf_real]
      simp only [hassigned]
      rfl
    . obtain ⟨assigned, hassigned, hspec⟩ :=
        exists_writePromoted hreal hconvert hlogical hfills hoffsets hne
      refine ⟨.complex type assigned, ?_, hspec⟩
      rw [writeInteger, integersOf_complex]
      simp only [hassigned]
      rfl
  | complex type array =>
    have hreal (a : type.Element) : realInteger a = .integer type ⟨a, integerZero type⟩ := rfl
    have hconvert (a : ComplexValue type.Element) :
        convertTo (.integer type) (.integer type a) = .integer type a :=
      rfl
    obtain ⟨source, rfl⟩ | ⟨source, rfl⟩ := @integersOf_type type _ htype
    . obtain ⟨assigned, hassigned, hspec⟩ :=
        exists_writeRealIntoComplex hreal hconvert hfills hoffsets hne
      refine ⟨.complex type assigned, ?_, hspec⟩
      rw [writeInteger, integersOf_real]
      simp only [hassigned]
      rfl
    . obtain ⟨assigned, hassigned, hspec⟩ := exists_writeSame (fun _ => rfl) hfills hoffsets hne
      refine ⟨.complex type assigned, ?_, hspec⟩
      rw [writeInteger, integersOf_complex]
      simp only [hassigned]
      rfl

/-- Integers of other classes are refused, also where nothing is selected. -/
theorem exists_assignInteger_error {integers source : IntegerArrayData} (htype : source.type ≠ integers.type)
    (selection : ResolvedSelection)
    : ∃ error, assignIntegerArray integers source selection false = .error error := by
  have hnone : integersOf integers.type source = none := by
    cases source <;> exact dif_neg htype
  have hclass : ensure (integers.className = source.className) mixedIntegerClasses = .error mixedIntegerClasses :=
    if_neg fun h => htype (className_inj h).symm
  rw [assignIntegerArray]
  cases assignmentLength source.shape.numel selection.offsets.length with
  | error error => exact ⟨error, rfl⟩
  | ok u =>
    by_cases hne : selection.offsets = []
    . rw [if_pos hne, hclass]
      exact ⟨_, rfl⟩
    . rw [if_neg hne]
      cases integers with
      | real type array =>
        refine ⟨mixedIntegerClasses, ?_⟩
        simp only [bind, Except.bind, writeInteger]
        rw [show integersOf type source = none from hnone]
      | complex type array =>
        refine ⟨mixedIntegerClasses, ?_⟩
        simp only [bind, Except.bind, writeInteger]
        rw [show integersOf type source = none from hnone]

theorem meets_integer (integers : IntegerArrayData)
    (hoffsets : ∀ offset ∈ selection.offsets, offset < integers.shape.numel)
    : Meets (arrayContents (.integer integers)) value selection.offsets
        (assignSelected (.array (.integer integers)) selection value false) := by
  obtain ⟨source, rfl⟩ | ⟨hnone, hclass⟩ := integerOf_cases value
  . by_cases htype : source.type = integers.type
    . have hvalue : contents (.array (.integer source) : Value P) = some (arrayContents (.integer source)) := rfl
      have haccepts : Accepts (arrayContents (.integer integers)).elementClass
          (arrayContents (.integer source)).elementClass := by
        rw [elementClass_integer, elementClass_integer, htype]
        exact rfl
      have hclass : integers.className = source.className := by
        rw [IntegerArrayData.className, IntegerArrayData.className, htype]
      have houtcome : assignSelected (.array (.integer integers)) selection (.array (.integer source) : Value P) false =
          (writeSelected source.shape.numel selection.offsets integers
            (writeInteger integers source selection false)).map fun assigned => .array (.integer assigned) := by
        have hassign : assignIntegerArray integers source selection false =
            writeSelected source.shape.numel selection.offsets integers
              (writeInteger integers source selection false) := by
          rw [assignIntegerArray, ensure_pos hclass]
          rfl
        rw [← hassign]
        rfl
      apply meets_of_length hvalue haccepts (length_arrayContents (.integer source)) houtcome rfl
      intro hfills hne
      obtain ⟨assigned, hassigned, hspec⟩ := exists_writeInteger htype hfills hoffsets hne
      exact ⟨assigned, _, hassigned, rfl, hspec⟩
    . obtain ⟨error, herror⟩ := exists_assignInteger_error htype selection
      refine meets_of_refused ⟨error, ?_⟩ ?_
      . rw [assignSelected, integerOf]
        simp only [okOr, bind, Except.bind, herror]
      . rintro supplied hvalue haccepts
        cases hvalue
        rw [elementClass_integer, elementClass_integer] at haccepts
        exact htype (ElementClass.integer.inj haccepts)
  . refine meets_of_refused ⟨.array (.invalidOperand "integer indexed assignment" value.kind), ?_⟩ ?_
    . rw [assignSelected, hnone]
      rfl
    . rw [elementClass_integer]
      exact hclass integers.type

/-! Numbers and logical values. -/

/-- The array that is viewed. -/
def NumericView.stored : NumericView → ArrayData
  | .logicalScalar value => .logical (scalarArray value)
  | .realScalar value => .f64 (scalarArray value)
  | .complexScalar value => .complexF64 (scalarArray value)
  | .logicalArray array => .logical array
  | .realArray array => .f64 array
  | .complexArray array => .complexF64 array

theorem contents_of_numericView {operation : String} {view : NumericView}
    (h : NumericView.new operation value = .ok view)
    : contents value = some (arrayContents view.stored) := by
  rw [NumericView.new.eq_def] at h
  split at h <;> cases h <;> rfl

theorem refused_of_numericView {operation : String} {error : RuntimeErrorKind}
    (h : NumericView.new operation value = .error error) (supplied : Contents)
    (hvalue : contents value = some supplied)
    : supplied.elementClass ≠ .logical ∧ supplied.elementClass ≠ .double := by
  cases value with
  | array data =>
    cases data with
    | f64 _ | complexF64 _ | logical _ => cases h
    | integer integers => cases integers <;> cases hvalue <;> exact ⟨nofun, nofun⟩
    | _ => cases hvalue; exact ⟨nofun, nofun⟩
  | logical _ | double _ | complex _ => cases h
  | string _ => cases hvalue; exact ⟨nofun, nofun⟩
  | _ => cases hvalue

theorem numel_stored (view : NumericView)
    : (arrayContents view.stored).elements.length = view.numel := by
  rw [length_arrayContents]
  cases view <;> rfl

theorem complex_stored (view : NumericView)
    : (arrayContents view.stored).complex = view.isComplex := by
  cases view <;> rfl

theorem nonzero_doubleOfLogical (value : Bool)
    : nonzero ⟨doubleOfLogical value, 0⟩ = value := by
  cases value <;> rfl

/-- The elements of a view, as numbers and as logical values. -/
theorem exists_complexElement_stored (view : NumericView) (n : Nat)
    (hlt : n < (arrayContents view.stored).elements.length)
    : ∃ v, view.complexElement n = .ok v ∧
        (arrayContents view.stored).elements[n]?.map (convertTo .double) = some (.double v) ∧
        (arrayContents view.stored).elements[n]?.map (convertTo .logical) = some (.logical (nonzero v)) ∧
        (view.isComplex = false → v.im = 0) := by
  rw [numel_stored] at hlt
  cases view with
  | logicalScalar value =>
    obtain rfl : n = 0 := Nat.lt_one_iff.mp hlt
    exact ⟨⟨doubleOfLogical value, 0⟩, rfl, rfl, by rw [nonzero_doubleOfLogical]; rfl, fun _ => rfl⟩
  | realScalar value =>
    obtain rfl : n = 0 := Nat.lt_one_iff.mp hlt
    exact ⟨⟨value, 0⟩, rfl, rfl, rfl, fun _ => rfl⟩
  | complexScalar value =>
    obtain rfl : n = 0 := Nat.lt_one_iff.mp hlt
    exact ⟨value, rfl, rfl, rfl, fun h => by cases h⟩
  | logicalArray array =>
    obtain ⟨b, hb⟩ := exists_getElem? array hlt
    refine ⟨⟨doubleOfLogical b, 0⟩, ?_, ?_, ?_, fun _ => rfl⟩
    . rw [NumericView.complexElement, NumericView.complexAt, hb]
      rfl
    . rw [NumericView.stored, arrayContents, denseContents, List.getElem?_map, hb]
      rfl
    . rw [NumericView.stored, arrayContents, denseContents, List.getElem?_map, hb, nonzero_doubleOfLogical]
      rfl
  | realArray array =>
    obtain ⟨x, hx⟩ := exists_getElem? array hlt
    refine ⟨⟨x, 0⟩, ?_, ?_, ?_, fun _ => rfl⟩
    . rw [NumericView.complexElement, NumericView.complexAt, hx]
      rfl
    . rw [NumericView.stored, arrayContents, denseContents, List.getElem?_map, hx]
      rfl
    . rw [NumericView.stored, arrayContents, denseContents, List.getElem?_map, hx]
      rfl
  | complexArray array =>
    obtain ⟨z, hz⟩ := exists_getElem? array hlt
    refine ⟨z, ?_, ?_, ?_, fun h => by cases h⟩
    . rw [NumericView.complexElement, NumericView.complexAt, hz]
      rfl
    . rw [NumericView.stored, arrayContents, denseContents, List.getElem?_map, hz]
      rfl
    . rw [NumericView.stored, arrayContents, denseContents, List.getElem?_map, hz]
      rfl

theorem exists_realElement_stored {view : NumericView} (hcomplex : view.isComplex = false) (n : Nat)
    (hlt : n < (arrayContents view.stored).elements.length)
    : ∃ v, view.realElement n = .ok v ∧
        (arrayContents view.stored).elements[n]?.map (convertTo .double) = some (realDouble v) := by
  obtain ⟨⟨re, im⟩, hv, hread, -, him⟩ := exists_complexElement_stored view n hlt
  obtain rfl : im = 0 := him hcomplex
  have hat := okOr_eq_ok_iff.mp hv
  refine ⟨re, ?_, hread⟩
  rw [NumericView.realElement, NumericView.realAt, hat]
  rfl

/-- The arrays to which numbers and logical values are written. -/
inductive Numeric : ArrayData → Prop where
  | f64 (array : DenseArray F64) : Numeric (.f64 array)
  | complexF64 (array : DenseArray (ComplexValue F64)) : Numeric (.complexF64 array)
  | logical (array : DenseArray Bool) : Numeric (.logical array)

theorem exists_assignNumeric {target : Value P} {owned : ArrayData} (howned : ownedArray target = .ok owned)
    (hnumeric : Numeric owned) {view : NumericView} (hfills : Fills (arrayContents view.stored) selection.offsets)
    (hoffsets : ∀ offset ∈ selection.offsets, offset < owned.shape.numel) (hne : selection.offsets ≠ [])
    : ∃ array assigned, ownedAssignmentArray target view.isComplex false = .ok array ∧
        assignNumeric array view selection false = .ok assigned ∧
        Assigned (arrayContents owned) (arrayContents view.stored) selection.offsets (arrayContents assigned) := by
  have hnumel := numel_stored view
  have hstored := complex_stored view
  cases hnumeric with
  | f64 array =>
    cases hcomplex : view.isComplex with
    | false =>
      rw [hcomplex] at hstored
      obtain ⟨assigned, hassigned, hspec⟩ := @exists_assigned _ (arrayContents (.f64 array)) _ _ _ array realDouble
        false (exists_realElement_stored hcomplex) hfills hoffsets hne rfl rfl (by rw [hstored]; rfl)
      refine ⟨.f64 array, .f64 assigned, ?_, ?_, hspec⟩
      . rw [ownedAssignmentArray, howned]
        rfl
      . rw [hnumel] at hassigned
        rw [assignNumeric, hassigned]
        rfl
    | true =>
      rw [hcomplex] at hstored
      obtain ⟨promoted, hpromoted, hshape, hdata⟩ := exists_promote 0 array
      have hsource n (hlt : n < (arrayContents view.stored).elements.length)
          : ∃ v, view.complexElement n = .ok v ∧
              (arrayContents view.stored).elements[n]?.map (convertTo .double) = some (Element.double v) := by
        obtain ⟨v, hv, hread, -⟩ := exists_complexElement_stored view n hlt
        exact ⟨v, hv, hread⟩
      have helements : promoted.data.map Element.double = (arrayContents (.f64 array)).elements := by
        rw [hdata, List.map_map]
        rfl
      obtain ⟨assigned, hassigned, hspec⟩ := @exists_assigned _ (arrayContents (.f64 array)) _ _ _ promoted
        Element.double true hsource hfills hoffsets hne hshape helements (by rw [hstored]; rfl)
      refine ⟨.complexF64 promoted, .complexF64 assigned, ?_, ?_, hspec⟩
      . rw [ownedAssignmentArray, howned]
        simp only [bind, Except.bind, if_true, hpromoted]
        rfl
      . rw [hnumel] at hassigned
        rw [assignNumeric, hassigned]
        rfl
  | complexF64 array =>
    have hsource n (hlt : n < (arrayContents view.stored).elements.length)
        : ∃ v, view.complexElement n = .ok v ∧
            (arrayContents view.stored).elements[n]?.map (convertTo .double) = some (Element.double v) := by
      obtain ⟨v, hv, hread, -⟩ := exists_complexElement_stored view n hlt
      exact ⟨v, hv, hread⟩
    obtain ⟨assigned, hassigned, hspec⟩ := @exists_assigned _ (arrayContents (.complexF64 array)) _ _ _ array
      Element.double true hsource hfills hoffsets hne rfl rfl rfl
    refine ⟨.complexF64 array, .complexF64 assigned, ?_, ?_, hspec⟩
    . rw [ownedAssignmentArray, howned]
      rfl
    . rw [hnumel] at hassigned
      rw [assignNumeric, hassigned]
      rfl
  | logical array =>
    have hsource n (hlt : n < (arrayContents view.stored).elements.length)
        : ∃ v, (view.complexElement n).map nonzero = .ok v ∧
            (arrayContents view.stored).elements[n]?.map (convertTo .logical) = some (Element.logical v) := by
      obtain ⟨v, hv, -, hread, -⟩ := exists_complexElement_stored view n hlt
      exact ⟨nonzero v, by rw [hv]; rfl, hread⟩
    have hcomplex : false = (false || ((arrayContents view.stored).complex &&
        decide (ElementClass.logical ≠ ElementClass.logical))) := by
      simp
    obtain ⟨assigned, hassigned, hspec⟩ := @exists_assigned _ (arrayContents (.logical array)) _ _ _ array
      Element.logical false hsource hfills hoffsets hne rfl rfl hcomplex
    refine ⟨.logical array, .logical assigned, ?_, ?_, hspec⟩
    . rw [ownedAssignmentArray, howned]
      rfl
    . rw [hnumel] at hassigned
      rw [assignNumeric, hassigned]
      rfl

theorem meets_numeric {target : Value P} {owned : ArrayData} (howned : ownedArray target = .ok owned)
    (hcontents : contents target = some (arrayContents owned)) (hnumeric : Numeric owned)
    (hoffsets : ∀ offset ∈ selection.offsets, offset < owned.shape.numel)
    : Meets (arrayContents owned) value selection.offsets (indexAssignNumeric target selection value false) := by
  have hclass : Accepts (arrayContents owned).elementClass = fun cls => cls = .logical ∨ cls = .double := by
    cases hnumeric <;> rfl
  cases hview : NumericView.new "indexed assignment value" value with
  | error error =>
    rw [indexAssignNumeric, hview]
    refine meets_of_refused ⟨error, rfl⟩ fun supplied hvalue haccepts => ?_
    obtain ⟨hlogical, hdouble⟩ := refused_of_numericView hview supplied hvalue
    rw [hclass] at haccepts
    exact haccepts.elim hlogical hdouble
  | ok view =>
    have haccepts : Accepts (arrayContents owned).elementClass (arrayContents view.stored).elementClass := by
      rw [hclass]
      cases view with
      | logicalScalar _ | logicalArray _ => exact .inl rfl
      | realScalar _ | realArray _ | complexScalar _ | complexArray _ => exact .inr rfl
    have houtcome : indexAssignNumeric target selection value false =
        (writeSelected view.numel selection.offsets target (do
          let owned ← ownedAssignmentArray target view.isComplex false
          let assigned ← assignNumeric owned view selection false
          return .array assigned)).map id := by
      rw [indexAssignNumeric, hview, Except.map_id]
      rfl
    apply meets_of_length (contents_of_numericView hview) haccepts (numel_stored view) houtcome hcontents
    intro hfills hne
    obtain ⟨array, assigned, harray, hassigned, hspec⟩ :=
      exists_assignNumeric howned hnumeric hfills hoffsets hne
    refine ⟨.array assigned, _, ?_, rfl, hspec⟩
    rw [harray]
    simp only [bind, Except.bind, hassigned]
    rfl

/-- The assignment to the selected offsets of any array, number or string. -/
theorem meets_assignSelected {values : Value P} (hcontents : contents values = some target)
    (hoffsets : ∀ offset ∈ selection.offsets, offset < target.shape.numel)
    : Meets target value selection.offsets (assignSelected values selection value false) := by
  cases values with
  | logical b =>
    cases hcontents
    exact meets_numeric rfl rfl (.logical _) hoffsets
  | double x =>
    cases hcontents
    exact meets_numeric rfl rfl (.f64 _) hoffsets
  | complex z =>
    cases hcontents
    exact meets_numeric rfl rfl (.complexF64 _) hoffsets
  | string strings =>
    cases hcontents
    exact meets_string strings hoffsets
  | array data =>
    cases hcontents
    cases data with
    | f32 array => exact meets_single (.inl ⟨array, rfl⟩) hoffsets
    | complexF32 array => exact meets_single (.inr ⟨array, rfl⟩) hoffsets
    | f64 array => exact meets_numeric rfl rfl (.f64 array) hoffsets
    | complexF64 array => exact meets_numeric rfl rfl (.complexF64 array) hoffsets
    | logical array => exact meets_numeric rfl rfl (.logical array) hoffsets
    | char array => exact meets_char array hoffsets
    | integer integers =>
      apply meets_integer integers
      cases integers <;> exact hoffsets
  | _ => cases hcontents

end Meets

/-! The offsets that are selected. -/

section Offsets

variable {shape : Shape} {selections : List DimensionSelection} {arguments : List (IndexInput P)}

theorem productOffsets_lt {linears offsets : List Nat}
    (h : productOffsets shape selections false linears = .ok offsets)
    : ∀ offset ∈ offsets, offset < shape.numel := by
  induction linears generalizing offsets with
  | nil =>
    cases h
    exact nofun
  | cons linear linears ih =>
    rw [productOffsets, checkCancelled_false] at h
    obtain ⟨_, -, h⟩ := bind_eq_ok_iff.mp h
    obtain ⟨subscripts, -, h⟩ := bind_eq_ok_iff.mp h
    split at h
    . obtain ⟨offset, hoffset, h⟩ := bind_eq_ok_iff.mp h
      obtain ⟨rest, hrest, h⟩ := bind_eq_ok_iff.mp h
      cases h
      exact List.forall_mem_cons.mpr
        ⟨Shape.offsetForSubscripts_lt (mapError_eq_ok_iff.mp hoffset), ih hrest⟩
    . exact ih h

theorem selectionOffsets_lt {outputLength : Nat} {offsets : List Nat}
    (h : selectionOffsets shape selections outputLength false = .ok offsets)
    : ∀ offset ∈ offsets, offset < shape.numel := by
  rw [selectionOffsets.eq_def] at h
  split at h
  . obtain ⟨hrange, rfl⟩ := linearOffsets_eq_ok_iff.mp h
    intro offset hoffset
    obtain ⟨index, hindex, rfl⟩ := List.mem_map.mp hoffset
    have := hrange index hindex
    omega
  . exact productOffsets_lt h

/-- What is known of a resolution that succeeds. -/
theorem resolveIndices_eq_ok {selection : ResolvedSelection}
    (h : resolveIndices shape arguments false = .ok selection)
    : ∃ selections, resolveDimensions false 0 (inputsOf shape arguments) = .ok selections ∧
        Shape.new (resultDimensions shape selections) = .ok selection.shape ∧
        selectionOffsets shape selections selection.shape.numel false = .ok selection.offsets := by
  rw [resolveIndices] at h
  obtain ⟨_, -, h⟩ := bind_eq_ok_iff.mp h
  obtain ⟨extents, hextents, h⟩ := bind_eq_ok_iff.mp h
  obtain ⟨_, -, h⟩ := bind_eq_ok_iff.mp h
  obtain ⟨selections, hselections, h⟩ := bind_eq_ok_iff.mp h
  obtain ⟨result, hresult, h⟩ := bind_eq_ok_iff.mp h
  obtain ⟨_, -, h⟩ := bind_eq_ok_iff.mp h
  obtain ⟨offsets, hoffsets, h⟩ := bind_eq_ok_iff.mp h
  cases h
  obtain rfl := (Shape.effectiveDimensions_eq_ok (mapError_eq_ok_iff.mp hextents)).2
  exact ⟨selections, hselections, mapError_eq_ok_iff.mp hresult, hoffsets⟩

theorem offsets_lt {selection : ResolvedSelection} (h : resolveIndices shape arguments false = .ok selection)
    : ∀ offset ∈ selection.offsets, offset < shape.numel := by
  obtain ⟨selections, -, -, hoffsets⟩ := resolveIndices_eq_ok h
  exact selectionOffsets_lt hoffsets

end Offsets

theorem indexAssign_contents {target : Value P} {held : Contents} (h : contents target = some held)
    (arguments : List (IndexInput P)) (value : Value P)
    : indexAssign target arguments value false =
        resolveIndices held.shape arguments false >>= fun selection =>
          assignSelected target selection value false := by
  rw [← resolveIndexSelection_dimensions]
  cases target with
  | logical _ | double _ | complex _ =>
    cases h
    rfl
  | string strings =>
    cases h
    cases strings <;> rfl
  | array data =>
    cases h
    cases data with
    | integer integers => cases integers <;> rfl
    | _ => rfl
  | _ => cases h

/--
An assignment succeeds exactly where the subscripts resolve, the class of the value is one of those that can be
assigned, and as many elements are supplied as are selected, or a scalar. Then every selected element is the
last one that is written to it, every other one is what it was, and the shape and the class stay.
-/
theorem indexAssign_correct (target value : Value P) (arguments : List (IndexInput P)) {held : Contents}
    (h : contents target = some held)
    : ((∃ result, indexAssign target arguments value false = .ok result) ↔
        ∃ selection supplied, resolveIndices held.shape arguments false = .ok selection ∧
          contents value = some supplied ∧ Accepts held.elementClass supplied.elementClass ∧
          Fills supplied selection.offsets) ∧
      ∀ selection supplied result, resolveIndices held.shape arguments false = .ok selection →
        contents value = some supplied → indexAssign target arguments value false = .ok result →
        ∃ assigned, contents result = some assigned ∧ Assigned held supplied selection.offsets assigned := by
  rw [indexAssign_contents h]
  cases hselection : resolveIndices held.shape arguments false with
  | error error =>
    refine ⟨⟨?_, ?_⟩, ?_⟩
    . rintro ⟨result, ⟨⟩⟩
    . rintro ⟨selection, supplied, ⟨⟩, -⟩
    . rintro selection supplied result ⟨⟩
  | ok selection =>
    have hmeets : Meets held value selection.offsets (assignSelected target selection value false) :=
      meets_assignSelected h (offsets_lt hselection)
    refine ⟨⟨?_, ?_⟩, ?_⟩
    . rintro ⟨result, hresult⟩
      obtain ⟨supplied, assigned, hvalue, haccepts, hfills, -⟩ := hmeets.assigned result hresult
      exact ⟨selection, supplied, rfl, hvalue, haccepts, hfills⟩
    . rintro ⟨_, supplied, ⟨⟩, hvalue, haccepts, hfills⟩
      exact hmeets.succeeds supplied hvalue haccepts hfills
    . rintro _ supplied result ⟨⟩ hvalue hresult
      obtain ⟨supplied', assigned, hvalue', -, -, hassigned, hspec⟩ := hmeets.assigned result hresult
      rw [hvalue] at hvalue'
      cases hvalue'
      exact ⟨assigned, hassigned, hspec⟩

def sixZeros : DenseArray F64 := ⟨threeByTwo, [0, 0, 0, 0, 0, 0], by decide⟩

theorem indexAssign_correct_rowsAndColumns
    : ∃ result assigned,
        indexAssign (.array (.f64 sixZeros)) rowsAndColumns (.double 0x3ff0000000000000) false = .ok result ∧
        contents result = some assigned ∧
        Assigned (arrayContents (.f64 sixZeros)) (arrayContents (.f64 (scalarArray 0x3ff0000000000000)))
          [3, 5, 0, 2] assigned := by
  have hok : resolveIndices threeByTwo rowsAndColumns false = .ok ⟨[3, 5, 0, 2], twoByTwo⟩ := by rfl
  obtain ⟨hsucceeds, hassigned⟩ :=
    indexAssign_correct (.array (.f64 sixZeros)) (.double 0x3ff0000000000000) rowsAndColumns rfl
  obtain ⟨result, hresult⟩ := hsucceeds.mpr ⟨_, _, hok, rfl, .inr rfl, .inl rfl⟩
  obtain ⟨assigned, hcontents, hspec⟩ := hassigned _ _ result hok rfl hresult
  exact ⟨result, assigned, hresult, hcontents, hspec⟩

end Indexing
end OpenMat
