import OpenMat.Mat.Decode
import OpenMat.Mat.Encode

/-!
This module contains the proof that the reader of MAT files reads what their writer has written.
-/

namespace OpenMat
namespace Mat

open Arrays (Shape DenseArray)
open Bytes (Yields toBytes ofBytes length_toBytes ofBytes_toBytes)
open Values

/-! One element. -/

section Element

variable {order : Bytes.Order} {kind : Nat} {data : List UInt8}

theorem yields_take {bytes : List UInt8} {length : Nat} (h : bytes.length = length)
    : Yields (take length) bytes bytes :=
  Yields.takeBytes h

/-- The tag and the data of an element that is not small, and what is left to do then. -/
theorem run_element (padStandard : Bool) (hkind : kind < 2 ^ 16) (hdata : data.length < 2 ^ 32)
    (rest : List UInt8) (offset : Nat)
    : (element order padStandard).run ⟨tagged order kind data false ++ rest, offset⟩ =
        (do
          takePadding padStandard kind data.length
          return ⟨kind, data⟩ : Parser Element).run
          ⟨rest, offset + (tagged order kind data false).length⟩ := by
  have htag : ofBytes order (toBytes order 4 kind) = kind := ofBytes_toBytes order (by omega)
  have hlength : ofBytes order (toBytes order 4 data.length) = data.length :=
    ofBytes_toBytes order (by omega)
  simp only [element, tagged, Bool.false_eq_true, if_false, List.append_nil, List.append_assoc]
  rw [(yields_take (length_toBytes _ _ _)).run_bind, htag, if_neg (by omega),
    (yields_take (length_toBytes _ _ _)).run_bind, hlength, (yields_take rfl).run_bind]
  simp only [List.length_append, Nat.add_assoc]

theorem yields_element (hkind : kind < 2 ^ 16) (hdata : data.length < 2 ^ 32)
    : Yields (element order true) (tagged order kind data true) ⟨kind, data⟩ := by
  intro rest offset
  have hpadded : tagged order kind data true =
      tagged order kind data false ++ List.replicate (padding data.length) 0 := by
    simp [tagged]
  rw [hpadded, List.append_assoc, run_element true hkind hdata]
  have hpadding : Yields (takePadding true kind data.length)
      (List.replicate (padding data.length) 0) () :=
    (yields_take List.length_replicate).bind_last (Yields.pure _)
  rw [hpadding.run_bind, List.length_append, Nat.add_assoc]
  rfl

end Element

/-! Numbers. -/

section Numbers

variable {library : Library} {order : Bytes.Order}

variable (order) in
theorem chunks_toBytes {width : Nat} (hwidth : 0 < width) {numbers : List Nat}
    (h : ∀ number ∈ numbers, number < 256 ^ width)
    : chunks order (numbers.flatMap (toBytes order width)) numbers.length width = .ok numbers := by
  have hlength : ∀ chunk ∈ numbers.map (toBytes order width), chunk.length = width := by
    simp [length_toBytes]
  have hflat : (numbers.flatMap (toBytes order width)).length = numbers.length * width := by
    rw [List.flatMap_def, Bytes.length_flatten_of_width hlength, List.length_map]
  have hexact := Bytes.chunksExact_flatten hlength
  rw [List.length_map] at hexact
  have hread : (numbers.map (toBytes order width)).map (ofBytes order) = numbers := by
    rw [List.map_map]
    refine (List.map_congr_left fun number hmem => ?_).trans (List.map_id numbers)
    exact ofBytes_toBytes order (h number hmem)
  rw [chunks, hflat, Nat.mul_mod_left, Nat.mul_div_cancel _ hwidth,
    ensure_pos ⟨rfl, rfl⟩, List.flatMap_def, hexact]
  exact congrArg Except.ok hread

theorem yields_part {α : Type} {convert : Element → Nat → Except MatError (List α)} {kind width : Nat}
    {numbers : List Nat} {bytes : List UInt8} {values : List α} {expected : Nat} (hkind : kind < 2 ^ 16)
    (hwrite : writeNumeric order kind width numbers = .ok bytes)
    (hconvert : convert ⟨kind, numbers.flatMap (toBytes order width)⟩ expected = .ok values)
    : Yields (part order convert expected) bytes values := by
  obtain ⟨hlength, rfl⟩ := writeTagged_eq_ok_iff.mp hwrite
  exact (yields_element hkind hlength).bind_last (Yields.orFail hconvert)

theorem map_ofNat_toNat {width : Nat} (values : List (BitVec width))
    : (values.map BitVec.toNat).map (BitVec.ofNat width) = values := by
  rw [List.map_map]
  refine (List.map_congr_left fun value _ => ?_).trans (List.map_id values)
  rw [Function.comp_apply, BitVec.ofNat_toNat, BitVec.setWidth_eq, id]

theorem toNat_lt_pow {width bits : Nat} (hbits : bits = 8 * width) (values : List (BitVec bits))
    : ∀ number ∈ values.map BitVec.toNat, number < 256 ^ width := by
  intro number hmem
  obtain ⟨value, _, rfl⟩ := List.mem_map.mp hmem
  have hpow : 2 ^ bits = 256 ^ width := by rw [hbits, Nat.pow_mul]
  rw [← hpow]
  exact value.isLt

theorem yields_f32 {values : List F32} {bytes : List UInt8} (h : writeF32 order values = .ok bytes)
    : Yields (part order (numericAsF32 library order) values.length) bytes values := by
  refine yields_part (by decide) h ?_
  have hchunks := chunks_toBytes order (by decide : 0 < 4) (toNat_lt_pow rfl values)
  rw [List.length_map] at hchunks
  rw [numericAsF32, if_pos rfl, hchunks]
  exact congrArg Except.ok (map_ofNat_toNat values)

theorem yields_f64 {values : List F64} {bytes : List UInt8} (h : writeF64 order values = .ok bytes)
    : Yields (part order (numericAsF64 library order) values.length) bytes values := by
  refine yields_part (by decide) h ?_
  have hchunks := chunks_toBytes order (by decide : 0 < 8) (toNat_lt_pow rfl values)
  rw [List.length_map] at hchunks
  have hkind : integerTypeOfKind miDouble = none := rfl
  rw [numericAsF64, hkind]
  simp only []
  rw [if_neg (by decide), if_pos trivial, hchunks]
  exact congrArg Except.ok (map_ofNat_toNat values)

theorem yields_char {values : List CharCodeUnit} {bytes : List UInt8}
    (h : writeChar order values = .ok bytes)
    : Yields (part order (charCodeUnits order) values.length) bytes values := by
  refine yields_part (by decide) h ?_
  have hchunks := chunks_toBytes order (by decide : 0 < 2) (toNat_lt_pow rfl values)
  rw [List.length_map] at hchunks
  rw [charCodeUnits, if_pos (.inl rfl), hchunks]
  exact congrArg Except.ok (map_ofNat_toNat values)

theorem mapM_tryFrom {type : IntegerType} (values : List type.Element)
    : (values.map Subtype.val).mapM type.tryFrom = some values := by
  induction values with
  | nil => rfl
  | cons value values ih =>
    rw [List.map_cons, List.mapM_cons, IntegerType.tryFrom_val, ih]
    rfl

theorem numericAsInteger_stored {stored type : IntegerType} {kind : Nat} {numbers : List Nat}
    {values : List type.Element} (hkind : integerTypeOfKind kind = some stored)
    (hnumbers : ∀ number ∈ numbers, number < 256 ^ stored.bytes)
    (hread : numbers.map (ofUnsigned stored) = values.map Subtype.val)
    : numericAsInteger order type ⟨kind, numbers.flatMap (toBytes order stored.bytes)⟩ values.length =
        .ok values := by
  have hchunks := chunks_toBytes order (by cases stored <;> decide) hnumbers
  have hlength : numbers.length = values.length := by
    rw [← List.length_map (ofUnsigned stored), hread, List.length_map]
  rw [hlength] at hchunks
  simp only [numericAsInteger, hkind]
  rw [storedIntegers, hchunks]
  change okOr ((numbers.map (ofUnsigned stored)).mapM type.tryFrom) _ = _
  rw [hread, mapM_tryFrom]
  rfl

theorem yields_integer {type : IntegerType} {values : List type.Element} {bytes : List UInt8}
    (h : writeInteger order type values = .ok bytes)
    : Yields (part order (numericAsInteger order type) values.length) bytes values := by
  refine yields_part (by cases type <;> decide) h ?_
  refine numericAsInteger_stored (integerTypeOfKind_integerKind type) ?_ ?_
  . intro number hmem
    obtain ⟨value, _, rfl⟩ := List.mem_map.mp hmem
    exact toUnsigned_lt type value.val
  . rw [List.map_map]
    exact List.map_congr_left fun value _ => ofUnsigned_toUnsigned value

/-- A flag that is stored in a byte. -/
def storedFlag (value : Bool) : IntegerType.Element .u64 :=
  ⟨value.toNat, by cases value <;> decide⟩

theorem yields_logical {values : List Bool} {bytes : List UInt8} (h : writeLogical order values = .ok bytes)
    : Yields (part order (numericAsInteger order .u64) values.length) bytes (values.map storedFlag) := by
  refine yields_part (by decide) h ?_
  rw [← List.length_map storedFlag]
  refine numericAsInteger_stored (rfl : integerTypeOfKind miUint8 = some .u8) ?_ ?_
  . intro number hmem
    obtain ⟨value, _, rfl⟩ := List.mem_map.mp hmem
    cases value <;> decide
  . rw [List.map_map, List.map_map]
    exact List.map_congr_left fun value _ => by cases value <;> rfl

theorem map_storedFlag (values : List Bool)
    : (values.map storedFlag).map (fun stored => decide (stored.val ≠ 0)) = values := by
  rw [List.map_map]
  refine (List.map_congr_left fun value _ => ?_).trans (List.map_id values)
  cases value <;> rfl

/-- The two parts of complex numbers are written one after the other. -/
theorem yields_complexPart {α : Type} {write : List α → Except MatError (List UInt8)}
    {convert : Element → Nat → Except MatError (List α)}
    (hpart : ∀ {values bytes}, write values = .ok bytes →
      Yields (part order convert values.length) bytes values)
    {values : List (ComplexValue α)} {bytes : List UInt8} (h : complexParts write values = .ok bytes)
    : Yields (complexPart order convert values.length) bytes values := by
  obtain ⟨real, hreal, h⟩ := bind_eq_ok_iff.mp h
  obtain ⟨imaginary, himaginary, h⟩ := bind_eq_ok_iff.mp h
  cases h
  have hre := hpart hreal
  have him := hpart himaginary
  rw [List.length_map] at hre him
  have hzip : (values.map ComplexValue.re).zipWith ComplexValue.mk (values.map ComplexValue.im) = values := by
    rw [List.zipWith_map, List.zipWith_self]
    exact List.map_id values
  refine hre.bind (him.bind_last ?_)
  rw [hzip]
  exact Yields.pure values

end Numbers

/-! The contents of a matrix. -/

def canonicalArray {α : Type} (scalar : α → Value) (wrap : DenseArray α → ArrayData)
    (array : DenseArray α) : Value :=
  match array.data with
  | [value] => scalar value
  | _ => .array (wrap array)

/-- Scalars are not stored as arrays: what comes back of an array with one element is the scalar. -/
def canonical : Value → Value
  | .array (.f64 array) => canonicalArray .double .f64 array
  | .array (.complexF64 array) => canonicalArray .complex .complexF64 array
  | .array (.logical array) => canonicalArray .logical .logical array
  | .array data => .array data
  | .cell shape values => .cell shape fun i => canonical (values i)
  | .struct shape schema columns => .struct shape schema fun field i => canonical (columns field i)
  | .logical value => .logical value
  | .double value => .double value
  | .complex value => .complex value
  | .external value => .external value

section Contents

variable {library : Library} {order : Bytes.Order} {bytes : List UInt8}

theorem fromVec_data {α : Type} (array : DenseArray α)
    : fromVec array.shape array.data = .ok array := by
  rw [fromVec, DenseArray.fromVec_data]
  rfl

theorem scalarOrArray_data {α : Type} (scalar : α → Value) (wrap : DenseArray α → ArrayData)
    (array : DenseArray α)
    : scalarOrArray scalar wrap array.shape array.data = .ok (canonicalArray scalar wrap array) := by
  have hvec := fromVec_data array
  match hdata : array.data with
  | [value] => rw [canonicalArray, hdata, scalarOrArray]
  | [] =>
    rw [hdata] at hvec
    simp only [canonicalArray, hdata, scalarOrArray, hvec]
    rfl
  | first :: second :: rest =>
    rw [hdata] at hvec
    simp only [canonicalArray, hdata, scalarOrArray, hvec]
    rfl

/-- The values of a part that become an array. -/
theorem yields_fromVec {α β : Type} {x : Parser (List α)} {array : DenseArray α} {f : DenseArray α → β}
    (h : Yields x bytes array.data)
    : Yields (do
        let values ← x
        return f (← Bytes.orFail (fromVec array.shape values))) bytes (f array) :=
  h.bind_last ((Yields.orFail (fromVec_data array)).bind_first (Yields.pure _))

/-- A parser that is given the number of the elements of an array. -/
theorem yields_of_length {α : Type} {x : Nat → Parser (List α)} {array : DenseArray α}
    (h : Yields (x array.data.length) bytes array.data)
    : Yields (x array.shape.numel) bytes array.data :=
  array.length_data ▸ h

theorem yields_decodeDouble (array : DenseArray F64) (h : writeF64 order array.data = .ok bytes)
    : Yields (decodeDouble library order array.shape false) bytes
        (canonicalArray .double .f64 array) :=
  (yields_of_length (yields_f64 h)).bind_last (Yields.orFail (scalarOrArray_data _ _ array))

theorem yields_decodeDouble_complex (array : DenseArray (ComplexValue F64))
    (h : complexParts (writeF64 order) array.data = .ok bytes)
    : Yields (decodeDouble library order array.shape true) bytes
        (canonicalArray .complex .complexF64 array) :=
  (yields_of_length (yields_complexPart yields_f64 h)).bind_last
    (Yields.orFail (scalarOrArray_data _ _ array))

theorem yields_decodeLogical (array : DenseArray Bool) (h : writeLogical order array.data = .ok bytes)
    : Yields (decodeLogical order array.shape) bytes (canonicalArray .logical .logical array) := by
  have hpart := yields_logical h
  rw [array.length_data] at hpart
  refine hpart.bind_last (Yields.orFail ?_)
  rw [map_storedFlag]
  exact scalarOrArray_data _ _ array

theorem yields_decodeSingle {array : DenseArray F32} (h : writeF32 order array.data = .ok bytes)
    : Yields (decodeSingle library order array.shape false) bytes (.array (.f32 array)) :=
  yields_fromVec (yields_of_length (yields_f32 h))

theorem yields_decodeSingle_complex {array : DenseArray (ComplexValue F32)}
    (h : complexParts (writeF32 order) array.data = .ok bytes)
    : Yields (decodeSingle library order array.shape true) bytes (.array (.complexF32 array)) :=
  yields_fromVec (yields_of_length (yields_complexPart yields_f32 h))

theorem yields_decodeChar {array : DenseArray CharCodeUnit} (h : writeChar order array.data = .ok bytes)
    : Yields (decodeChar order array.shape) bytes (.array (.char array)) :=
  yields_fromVec (yields_of_length (yields_char h))

theorem yields_decodeInteger {data : IntegerArrayData} (h : encodeInteger order data = .ok bytes)
    : Yields (decodeInteger order data.type data.shape data.isComplex) bytes (.array (.integer data)) := by
  cases data with
  | real type array => exact yields_fromVec (yields_of_length (yields_integer h))
  | complex type array =>
    exact yields_fromVec (yields_of_length (yields_complexPart yields_integer h))

end Contents

/-! The elements before the contents. -/

section Prologue

variable {order : Bytes.Order} {bytes : List UInt8}

/-- The class and the flag are found in the word that both are written to. -/
theorem flagWord_spec {mxClass flags : Nat} (hclass : mxClass < 16)
    (hflags : flags = 0 ∨ flags = flagLogical ∨ flags = flagComplex)
    : (mxClass ||| flags) < 256 ^ 4 ∧ (mxClass ||| flags) &&& 0xff = mxClass ∧
      decide ((mxClass ||| flags) &&& flagLogical ≠ 0) = decide (flags = flagLogical) ∧
      decide ((mxClass ||| flags) &&& flagComplex ≠ 0) = decide (flags = flagComplex) := by
  revert mxClass
  obtain rfl | rfl | rfl := hflags <;> decide

theorem valueClassAndFlags_spec {value : Value} {mxClass flags : Nat}
    (h : valueClassAndFlags value = .ok (mxClass, flags))
    : mxClass < 16 ∧ (flags = 0 ∨ flags = flagLogical ∨ flags = flagComplex) := by
  cases value with
  | external => cases h
  | array data =>
    cases data with
    | integer data =>
      cases h
      refine ⟨by cases data.type <;> decide, ?_⟩
      cases data.isComplex
      . exact .inl rfl
      . exact .inr (.inr rfl)
    | _ =>
      cases h
      decide
  | _ =>
    cases h
    decide

theorem encodeDimension_eq_ok_iff {dimension : Nat} {encoded : List UInt8}
    : encodeDimension order dimension = .ok encoded ↔
        dimension < 2 ^ 31 ∧ encoded = toBytes order 4 dimension := by
  rw [encodeDimension, bind_eq_ok_iff]
  simp only [okOr_eq_ok_iff, tryFrom_eq_some_iff, Except.ok.injEq, @eq_comm _ encoded]
  constructor
  . rintro ⟨_, ⟨hlt, rfl⟩, hencoded⟩
    exact ⟨hlt, hencoded⟩
  . rintro ⟨hlt, hencoded⟩
    exact ⟨_, ⟨hlt, rfl⟩, hencoded⟩

theorem mapM_encodeDimension {dimensions : List Nat} {encoded : List (List UInt8)}
    (h : dimensions.mapM (encodeDimension order) = .ok encoded)
    : encoded = dimensions.map (toBytes order 4) ∧ ∀ dimension ∈ dimensions, dimension < 2 ^ 31 := by
  have hall := forall₂_of_mapM_eq_ok.mp h
  clear h
  induction hall with
  | nil => simp
  | cons hdimension _ ih =>
    obtain ⟨hlt, rfl⟩ := encodeDimension_eq_ok_iff.mp hdimension
    exact ⟨by rw [ih.1, List.map_cons], List.forall_mem_cons.mpr ⟨hlt, ih.2⟩⟩

theorem mapM_decodeDimension {dimensions : List Nat} (h : ∀ dimension ∈ dimensions, dimension < 2 ^ 31)
    : dimensions.mapM decodeDimension = .ok dimensions := by
  induction dimensions with
  | nil => rfl
  | cons dimension dimensions ih =>
    rw [List.forall_mem_cons] at h
    have hvalue : ofUnsigned .i32 dimension = dimension := by
      simp only [ofUnsigned, IntegerType.signed, IntegerType.bytes, true_and]
      rw [if_neg (by omega)]
    have hdimension : decodeDimension dimension = .ok dimension := by
      rw [decodeDimension, hvalue]
      rw [ensure_pos (Int.natCast_nonneg dimension)]
      rfl
    rw [List.mapM_cons, hdimension, ih h.2]
    rfl

variable (order) in
/-- The dimensions that are written are the dimensions that are read. -/
theorem chunksExact_toBytes (numbers : List Nat) (h : ∀ number ∈ numbers, number < 256 ^ 4)
    : ((numbers.map (toBytes order 4)).flatten.length % 4 = 0) ∧
      (Bytes.chunksExact 4 ((numbers.map (toBytes order 4)).flatten.length / 4)
        (numbers.map (toBytes order 4)).flatten).map (ofBytes order) = numbers := by
  have hlength : ∀ chunk ∈ numbers.map (toBytes order 4), chunk.length = 4 := by
    simp [length_toBytes]
  have hexact := Bytes.chunksExact_flatten hlength
  rw [Bytes.length_flatten_of_width hlength, Nat.mul_mod_left, Nat.mul_div_cancel _ (by decide), hexact,
    List.map_map]
  refine ⟨rfl, (List.map_congr_left fun number hmem => ?_).trans (List.map_id numbers)⟩
  exact ofBytes_toBytes order (h number hmem)

theorem yields_decodePrologue {name : String} {value : Value}
    (h : encodePrologue order name value = .ok bytes)
    : ∃ mxClass flags shape, valueClassAndFlags value = .ok (mxClass, flags) ∧ value.shape = some shape ∧
        Yields (decodePrologue order) bytes
          ⟨mxClass, decide (flags = flagLogical), decide (flags = flagComplex), shape, name⟩ := by
  obtain ⟨⟨mxClass, flags⟩, hclass, h⟩ := bind_eq_ok_iff.mp h
  obtain ⟨flagsElement, hflags, h⟩ := bind_eq_ok_iff.mp h
  obtain ⟨dimensions, hdimensions, h⟩ := bind_eq_ok_iff.mp h
  obtain ⟨encoded, hencoded, h⟩ := bind_eq_ok_iff.mp h
  obtain ⟨dimensionsElement, hdimensionsElement, h⟩ := bind_eq_ok_iff.mp h
  obtain ⟨nameElement, hname, h⟩ := bind_eq_ok_iff.mp h
  cases h
  obtain ⟨hflagsLength, rfl⟩ := writeTagged_eq_ok_iff.mp hflags
  obtain ⟨hdimensionsLength, rfl⟩ := writeTagged_eq_ok_iff.mp hdimensionsElement
  obtain ⟨hnameLength, rfl⟩ := writeTagged_eq_ok_iff.mp hname
  obtain ⟨rfl, hlt⟩ := mapM_encodeDimension hencoded
  obtain ⟨shape, hshape, rfl⟩ := Option.map_eq_some_iff.mp (okOr_eq_ok_iff.mp hdimensions)
  obtain ⟨hclassLt, hflagsValue⟩ := valueClassAndFlags_spec hclass
  obtain ⟨hword, hmask, hlogical, hcomplex⟩ := flagWord_spec hclassLt hflagsValue
  obtain ⟨hmod, hread⟩ := chunksExact_toBytes order shape.dimensions
    fun dimension hmem => (hlt dimension hmem).trans (by decide)
  refine ⟨mxClass, flags, shape, hclass, hshape, ?_⟩
  rw [decodePrologue, List.append_assoc]
  refine (yields_element (by decide) hflagsLength).bind ?_
  refine (Yields.orFail (ensure_pos rfl)).bind_first ?_
  refine (Yields.orFail (ensure_pos (by simp [length_toBytes]))).bind_first ?_
  refine (yields_element (by decide) hdimensionsLength).bind ?_
  refine (Yields.orFail (ensure_pos rfl)).bind_first ?_
  refine (Yields.orFail (ensure_pos hmod)).bind_first ?_
  refine (Yields.orFail (by rw [hread]; exact mapM_decodeDimension hlt)).bind_first ?_
  refine (Yields.orFail (by rw [Shape.new_dimensions]; rfl)).bind_first ?_
  refine (yields_element (by decide) hnameLength).bind_last ?_
  refine (Yields.orFail (ensure_pos (.inl rfl))).bind_first ?_
  refine (Yields.orFail (by rw [fromUtf8_utf8Bytes]; rfl)).bind_first ?_
  have hflagWord : ofBytes order ((toBytes order 4 (mxClass ||| flags) ++ toBytes order 4 0).take 4) =
      mxClass ||| flags := by
    rw [List.take_left' (length_toBytes _ _ _), ofBytes_toBytes order hword]
  simp only [hflagWord, hmask, hlogical, hcomplex]
  exact Yields.pure _

end Prologue

/-! The names of the fields of a struct. -/

section FieldNames

variable {library : Library} {order : Bytes.Order} {bytes : List UInt8}

theorem length_lt_fieldWidth {names : List FieldName} {name : FieldName} (h : name ∈ names)
    : (utf8Bytes name.val).length < fieldWidth names := by
  have hmem := List.mem_map_of_mem (f := fun name : FieldName => (utf8Bytes name.val).length + 1) h
  rw [fieldWidth]
  cases hmax : (names.map fun name => (utf8Bytes name.val).length + 1).max? with
  | none =>
    rw [List.max?_eq_none_iff] at hmax
    rw [hmax] at hmem
    cases hmem
  | some width => exact (List.max?_eq_some_iff.mp hmax).2 _ hmem

theorem fieldWidth_pos (names : List FieldName)
    : 0 < fieldWidth names := by
  cases names with
  | nil => decide
  | cons name names => exact Nat.zero_lt_of_lt (length_lt_fieldWidth List.mem_cons_self)

theorem decodeFieldName_fieldBytes {width : Nat} {name : FieldName}
    : decodeFieldName library (fieldBytes width name) = .ok name := by
  have htake : (fieldBytes width name).takeWhile (· ≠ 0) = utf8Bytes name.val := by
    rw [fieldBytes, List.takeWhile_append_of_pos, List.takeWhile_replicate]
    . simp
    . intro byte hbyte
      simpa using FieldName.ne_zero_of_mem hbyte
  rw [decodeFieldName, htake, fromUtf8_utf8Bytes]
  change (FieldName.new name.val).mapError _ = _
  rw [FieldName.new_val]
  rfl

theorem mapM_decodeFieldName {width : Nat} (names : List FieldName)
    : (names.map (fieldBytes width)).mapM (decodeFieldName library) = .ok names := by
  induction names with
  | nil => rfl
  | cons name names ih =>
    rw [List.map_cons, List.mapM_cons, decodeFieldName_fieldBytes, ih]
    rfl

theorem yields_decodeFieldNames {names : List FieldName} (h : encodeFieldNames order names = .ok bytes)
    : Yields (decodeFieldNames library order) bytes names := by
  obtain ⟨_, hwidth, h⟩ := bind_eq_ok_iff.mp h
  obtain ⟨hlt, rfl⟩ := tryFrom_eq_some_iff.mp (okOr_eq_ok_iff.mp hwidth)
  obtain ⟨widthElement, hwidthElement, h⟩ := bind_eq_ok_iff.mp h
  obtain ⟨namesElement, hnamesElement, h⟩ := bind_eq_ok_iff.mp h
  cases h
  obtain ⟨hwidthLength, rfl⟩ := writeTagged_eq_ok_iff.mp hwidthElement
  obtain ⟨hnamesLength, rfl⟩ := writeTagged_eq_ok_iff.mp hnamesElement
  have hlength : ∀ chunk ∈ names.map (fieldBytes (fieldWidth names)), chunk.length = fieldWidth names := by
    intro chunk hchunk
    obtain ⟨name, hname, rfl⟩ := List.mem_map.mp hchunk
    have := length_lt_fieldWidth hname
    rw [fieldBytes, List.length_append, List.length_replicate]
    omega
  have hexact := Bytes.chunksExact_flatten hlength
  have hflat := Bytes.length_flatten_of_width hlength
  rw [← List.flatMap_def] at hexact hflat
  have hread : ofBytes order (toBytes order 4 (fieldWidth names)) = fieldWidth names :=
    ofBytes_toBytes order (by omega)
  have hpos := fieldWidth_pos names
  rw [decodeFieldNames]
  refine (yields_element (by decide) hwidthLength).bind ?_
  refine (Yields.orFail (ensure_pos ⟨.inl rfl, length_toBytes _ _ _⟩)).bind_first ?_
  simp only [hread]
  refine (Yields.orFail (ensure_pos hpos.ne')).bind_first ?_
  refine (yields_element (by decide) hnamesLength).bind_last ?_
  refine (Yields.orFail (ensure_pos ⟨.inl rfl, by rw [hflat, Nat.mul_mod_left]⟩)).bind_first ?_
  apply Yields.orFail
  rw [hflat, Nat.mul_div_cancel _ hpos, hexact]
  exact mapM_decodeFieldName names

end FieldNames

/-! Matrices inside of matrices. -/

section Nested

variable {library : Library} {order : Bytes.Order}

/-- The element of a matrix that the given reader reads. -/
def IsMatrix (order : Bytes.Order) (read : List UInt8 → Except MatError (String × Value))
    (bytes : List UInt8) (name : String) (value : Value) : Prop :=
  ∃ payload, bytes = tagged order matrixKind payload true ∧ payload.length < 2 ^ 32 ∧
    read payload = .ok (name, value)

variable {decodeNested : List UInt8 → Except MatError (String × Value)}

theorem yields_nestedValue {purpose : String} {bytes : List UInt8} {name : String} {value : Value}
    (h : IsMatrix order decodeNested bytes name value)
    : Yields (nestedValue order decodeNested purpose) bytes value := by
  obtain ⟨payload, rfl, hlength, hread⟩ := h
  refine (yields_element (by decide) hlength).bind_last ?_
  refine (Yields.orFail (ensure_pos rfl)).bind_first ?_
  exact (Yields.orFail hread).bind_first (Yields.pure _)

theorem forall₂_ofFn {ε α β : Type} {n : Nat} {f : Fin n → Except ε α} {g : Fin n → β}
    {R : α → β → Prop} {l : List α} (h : (List.ofFn f).mapM id = .ok l)
    (hR : ∀ i a, f i = .ok a → R a (g i))
    : List.Forall₂ R l (List.ofFn g) := by
  induction n generalizing l with
  | zero =>
    cases h
    exact .nil
  | succ n ih =>
    rw [List.ofFn_succ, List.mapM_cons] at h
    obtain ⟨a, ha, h⟩ := bind_eq_ok_iff.mp h
    obtain ⟨rest, hrest, h⟩ := bind_eq_ok_iff.mp h
    cases h
    rw [List.ofFn_succ]
    exact .cons (hR 0 a ha) (ih hrest fun i => hR i.succ)

/-- The elements of a cell or of a column of a struct. -/
theorem yields_many {purpose : String} {n : Nat} {f : Fin n → Except MatError (List UInt8)}
    {values : Fin n → Value} {elements : List (List UInt8)} (h : (List.ofFn f).mapM id = .ok elements)
    (hread : ∀ i bytes, f i = .ok bytes → ∃ name, IsMatrix order decodeNested bytes name (values i))
    : Yields (Bytes.many (nestedValue order decodeNested purpose) n) elements.flatten
        (List.ofFn values) := by
  have hall : List.Forall₂ (Yields (nestedValue order decodeNested purpose)) elements
      (List.ofFn values) := by
    refine forall₂_ofFn h fun i bytes hbytes => ?_
    obtain ⟨name, hmatrix⟩ := hread i bytes hbytes
    exact yields_nestedValue hmatrix
  have hmany := Yields.many hall
  rwa [List.length_ofFn] at hmany

theorem yields_decodeCell {shape : Shape} {values : Fin shape.numel → Value}
    {f : Fin shape.numel → Except MatError (List UInt8)} {elements : List (List UInt8)}
    (h : (List.ofFn f).mapM id = .ok elements)
    (hread : ∀ i bytes, f i = .ok bytes → ∃ name, IsMatrix order decodeNested bytes name (values i))
    : Yields (decodeCell library order decodeNested shape) elements.flatten (.cell shape values) := by
  refine (yields_many h hread).bind_last (Yields.orFail ?_)
  rw [Value.cellFromValues_ofFn]
  rfl

theorem yields_decodeStruct {shape : Shape} {schema : StructSchema}
    {values : Fin schema.len → Fin shape.numel → Value}
    {f : Fin schema.len → Fin shape.numel → Except MatError (List UInt8)}
    {names : List UInt8} {columns : List (List (List UInt8))}
    (hnames : encodeFieldNames order schema.names = .ok names)
    (h : (List.ofFn fun field => (List.ofFn (f field)).mapM id).mapM id = .ok columns)
    (hread : ∀ field i bytes, f field i = .ok bytes →
      ∃ name, IsMatrix order decodeNested bytes name (values field i))
    : Yields (decodeStruct library order decodeNested shape)
        (names ++ (columns.map List.flatten).flatten) (.struct shape schema values) := by
  have hcolumns : List.Forall₂
      (fun column => Yields (Bytes.many (nestedValue order decodeNested "struct field value") shape.numel)
        column.flatten) columns (List.ofFn fun field => List.ofFn (values field)) :=
    forall₂_ofFn h fun field column hcolumn => yields_many hcolumn (hread field)
  have hmany := Yields.many (List.forall₂_map_left_iff.mpr hcolumns)
  rw [List.length_ofFn] at hmany
  refine (yields_decodeFieldNames hnames).bind (hmany.bind_last (Yields.orFail ?_))
  rw [Value.structFromColumns_ofFn]
  rfl

theorem run'_matrix {prologueBytes contents : List UInt8} {prologue : Prologue} {value : Value}
    (hprologue : Yields (decodePrologue order) prologueBytes prologue)
    (hcontents : Yields (decodeContents library order decodeNested prologue) contents value)
    : (matrix library order decodeNested).run' ⟨prologueBytes ++ contents, 0⟩ =
        .ok (prologue.name, value) := by
  change Prod.fst <$> (matrix library order decodeNested).run _ = _
  rw [matrix, hprologue.run_bind, ← List.append_nil contents, hcontents.run_bind]
  rfl

end Nested

/-! All values. -/

section Values

variable {library : Library} {order : Bytes.Order}
  {decodeNested : List UInt8 → Except MatError (String × Value)}

/-- The contents of an array are read as the class and the flags say. -/
theorem yields_decodeContents_array {data : ArrayData} {bytes : List UInt8} {mxClass flags : Nat}
    {name : String} (hclass : valueClassAndFlags (.array data) = .ok (mxClass, flags))
    (h : encodeArray order data = .ok bytes)
    : Yields (decodeContents library order decodeNested
        ⟨mxClass, decide (flags = flagLogical), decide (flags = flagComplex), data.shape, name⟩) bytes
        (canonical (.array data)) := by
  cases data with
  | f32 array =>
    cases hclass
    exact yields_decodeSingle h
  | complexF32 array =>
    cases hclass
    exact yields_decodeSingle_complex h
  | f64 array =>
    cases hclass
    exact yields_decodeDouble array h
  | complexF64 array =>
    cases hclass
    exact yields_decodeDouble_complex array h
  | logical array =>
    cases hclass
    exact yields_decodeLogical array h
  | char array =>
    cases hclass
    exact yields_decodeChar h
  | integer data =>
    cases hclass
    have hdata := yields_decodeInteger h
    cases htype : data.type <;> cases hcomplex : data.isComplex <;>
    . rw [htype, hcomplex] at hdata
      exact hdata

/-- A matrix whose contents are read as its class and flags say, where one level less is left. -/
theorem isMatrix_of_writeMatrix {limit levels depth : Nat} {name : String} {value result : Value}
    {contents : Except MatError (List UInt8)} {bytes : List UInt8}
    (h : writeMatrix order name value depth contents = .ok bytes)
    (hlevels : maxRecursionDepth < levels + depth)
    (hcontents : ∀ left data mxClass flags shape, maxRecursionDepth < left + (depth + 1) →
      contents = .ok data → valueClassAndFlags value = .ok (mxClass, flags) → value.shape = some shape →
      Yields (decodeContents library order (decodeMatrix library order limit left)
        ⟨mxClass, decide (flags = flagLogical), decide (flags = flagComplex), shape, name⟩) data result)
    : IsMatrix order (decodeMatrix library order limit levels) bytes name result := by
  obtain ⟨_, hdepth, h⟩ := bind_eq_ok_iff.mp h
  obtain ⟨prologue, hprologue, h⟩ := bind_eq_ok_iff.mp h
  obtain ⟨data, hdata, h⟩ := bind_eq_ok_iff.mp h
  obtain ⟨hlength, rfl⟩ := writeTagged_eq_ok_iff.mp h
  have hdepth := ensure_eq_ok_iff.mp hdepth
  obtain ⟨left, rfl⟩ : ∃ left, levels = left + 1 := ⟨levels - 1, by omega⟩
  obtain ⟨mxClass, flags, shape, hclass, hshape, hread⟩ := yields_decodePrologue hprologue
  exact ⟨prologue ++ data, rfl, hlength,
    run'_matrix hread (hcontents left data mxClass flags shape (by omega) hdata hclass hshape)⟩

/-- What the writer makes of a value is read with as many levels as the writer had left. -/
theorem isMatrix_of_encodeMatrix {limit : Nat} {value : Value} {name : String} {depth levels : Nat}
    {bytes : List UInt8} (h : encodeMatrix order name value depth = .ok bytes)
    (hlevels : maxRecursionDepth < levels + depth)
    : IsMatrix order (decodeMatrix library order limit levels) bytes name (canonical value) := by
  induction value generalizing name depth levels bytes with
  | external value =>
    rw [encodeMatrix] at h
    refine isMatrix_of_writeMatrix h hlevels fun left data mxClass flags shape hleft hdata => ?_
    cases hdata
  | logical value =>
    rw [encodeMatrix] at h
    refine isMatrix_of_writeMatrix h hlevels fun left data mxClass flags shape hleft hdata hclass hshape => ?_
    cases hclass
    cases hshape
    exact yields_decodeLogical ⟨.scalar, [value], rfl⟩ hdata
  | double value =>
    rw [encodeMatrix] at h
    refine isMatrix_of_writeMatrix h hlevels fun left data mxClass flags shape hleft hdata hclass hshape => ?_
    cases hclass
    cases hshape
    exact yields_decodeDouble ⟨.scalar, [value], rfl⟩ hdata
  | complex value =>
    rw [encodeMatrix] at h
    refine isMatrix_of_writeMatrix h hlevels fun left data mxClass flags shape hleft hdata hclass hshape => ?_
    cases hclass
    cases hshape
    exact yields_decodeDouble_complex ⟨.scalar, [value], rfl⟩ hdata
  | array data =>
    rw [encodeMatrix] at h
    refine isMatrix_of_writeMatrix h hlevels fun left bytes mxClass flags shape hleft hdata hclass hshape => ?_
    cases hshape
    exact yields_decodeContents_array hclass hdata
  | cell shape values ih =>
    rw [encodeMatrix] at h
    refine isMatrix_of_writeMatrix h hlevels fun left data mxClass flags _ hleft hdata hclass hshape => ?_
    cases hclass
    cases hshape
    obtain ⟨elements, helements, hdata⟩ := bind_eq_ok_iff.mp hdata
    cases hdata
    exact yields_decodeCell helements fun i bytes hbytes => ⟨"", ih i hbytes hleft⟩
  | struct shape schema columns ih =>
    rw [encodeMatrix] at h
    refine isMatrix_of_writeMatrix h hlevels fun left data mxClass flags _ hleft hdata hclass hshape => ?_
    cases hclass
    cases hshape
    obtain ⟨names, hnames, hdata⟩ := bind_eq_ok_iff.mp hdata
    obtain ⟨encoded, hencoded, hdata⟩ := bind_eq_ok_iff.mp hdata
    cases hdata
    exact yields_decodeStruct hnames hencoded fun field i bytes hbytes => ⟨"", ih field i hbytes hleft⟩

end Values

end Mat
end OpenMat
