import OpenMat.Builtins.IsMember
import Mathlib.Tactic.Linarith

/-!
This module contains that the membership compares numbers exactly, and which of several equal elements it
locates.
-/

namespace OpenMat
namespace Builtins

open Arrays (Shape DenseArray)
open Floats (FloatValue Number)
open Indexing (Value Payloads noPayloads)
open Values (F32 F64 IntegerType)

namespace IntegerComponent

def toInt : IntegerComponent → Int
  | .signed value => value
  | .unsigned value => value

/-- The range of the integers of all classes. -/
def InRange (value : IntegerComponent) : Prop := -2 ^ 63 ≤ value.toInt ∧ value.toInt < 2 ^ 64

end IntegerComponent

section Integers

variable {integer integer' : IntegerComponent}

theorem integerIdentity_eq (integer : IntegerComponent)
    : integerIdentity integer = (decide (integer.toInt < 0), integer.toInt.natAbs) := by
  cases integer with
  | signed value => rfl
  | unsigned value =>
    have hnot : ¬ (value : Int) < 0 := by omega
    exact Prod.ext (decide_eq_false hnot).symm (Int.natAbs_natCast value).symm

theorem integerIdentity_eq_iff
    : integerIdentity integer = integerIdentity integer' ↔ integer.toInt = integer'.toInt := by
  rw [integerIdentity_eq, integerIdentity_eq, Prod.mk.injEq, decide_eq_decide]
  omega

theorem floatIntegerIdentity_finite {negative : Bool} {numerator scale : Nat}
    (h : numerator % 2 ^ scale = 0)
    : floatIntegerIdentity (.finite negative numerator scale) =
        if negative = false ∨ numerator / 2 ^ scale = 0 then
          if negative = false ∧ 2 ^ 64 ≤ numerator / 2 ^ scale then none
          else some (false, numerator / 2 ^ scale)
        else if 2 ^ 63 < numerator / 2 ^ scale then none
        else some (true, numerator / 2 ^ scale) := by
  have hpos : 0 < 2 ^ scale := Nat.two_pow_pos scale
  obtain ⟨q, rfl⟩ := Nat.dvd_of_mod_eq_zero h
  rw [Nat.mul_div_cancel_left q hpos, floatIntegerIdentity]
  have hzero : 2 ^ scale * q = 0 ↔ q = 0 := by
    rw [Nat.mul_eq_zero, or_iff_right hpos.ne']
  have hatLeast : 2 ^ 64 * 2 ^ scale ≤ 2 ^ scale * q ↔ 2 ^ 64 ≤ q := by
    rw [Nat.mul_comm (2 ^ 64), Nat.mul_le_mul_left_iff hpos]
  have hbelow : 2 ^ 63 * 2 ^ scale < 2 ^ scale * q ↔ 2 ^ 63 < q := by
    rw [Nat.mul_comm (2 ^ 63), Nat.mul_lt_mul_left hpos]
  have hfraction : (FloatValue.finite negative (2 ^ scale * q) scale).hasFraction = false := by
    simp only [FloatValue.hasFraction, Nat.mul_mod_right, ne_eq, not_true_eq_false, decide_false]
  rw [hfraction]
  cases negative with
  | false =>
    simp only [FloatValue.isFinite, FloatValue.isNonNegative, FloatValue.isAtLeast, FloatValue.truncate,
      Bool.not_true, Bool.not_false, Bool.or_false, Bool.true_or, Bool.true_and, Bool.false_eq_true, if_false,
      if_true, decide_eq_true_eq, hatLeast, Nat.mul_div_cancel_left q hpos, true_or, true_and]
  | true =>
    simp only [FloatValue.isFinite, FloatValue.isNonNegative, FloatValue.isAtLeast, FloatValue.truncate,
      FloatValue.isBelowMinus, FloatValue.truncateMagnitude, Bool.not_true, Bool.or_false, Bool.false_or,
      Bool.true_and, Bool.false_and, Bool.false_eq_true, Bool.true_eq_false, if_false, decide_eq_true_eq, hzero,
      hbelow, Nat.mul_div_cancel_left q hpos, false_or, false_and]
    split
    . rename_i hq
      rw [hq]
    . rfl

theorem signed_multiple_eq_iff {negative : Bool} {scale q : Nat} {k : Int}
    : (if negative then -((2 ^ scale * q : Nat) : Int) else (2 ^ scale * q : Nat)) = k * 2 ^ scale ↔
        (if negative then -(q : Int) else q) = k := by
  have hne : (2 : Int) ^ scale ≠ 0 := pow_ne_zero scale two_ne_zero
  have hmultiple : (if negative then -((2 ^ scale * q : Nat) : Int) else (2 ^ scale * q : Nat)) =
      (if negative then -(q : Int) else q) * 2 ^ scale := by
    cases negative
    . exact (Int.natCast_mul _ _).trans (by push_cast; ring)
    . simp only [↓reduceIte]
      push_cast
      ring
  rw [hmultiple, mul_left_inj' hne]

/-- A floating point number has the identity of an integer of the language where it is this integer. -/
theorem floatIntegerIdentity_eq_iff {value : FloatValue} (h : integer.InRange)
    : floatIntegerIdentity value = some (integerIdentity integer) ↔
        value.number = some (.rational integer.toInt) := by
  cases value with
  | nan => simp [floatIntegerIdentity, FloatValue.isFinite, FloatValue.number]
  | infinite _ => simp [floatIntegerIdentity, FloatValue.isFinite, FloatValue.number]
  | finite negative numerator scale =>
    rw [FloatValue.number_finite_eq_int_iff]
    by_cases hmod : numerator % 2 ^ scale = 0
    . rw [floatIntegerIdentity_finite hmod, integerIdentity_eq]
      obtain ⟨q, rfl⟩ := Nat.dvd_of_mod_eq_zero hmod
      have hpos : 0 < 2 ^ scale := Nat.two_pow_pos scale
      rw [Nat.mul_div_cancel_left q hpos]
      rw [signed_multiple_eq_iff]
      obtain ⟨hge, hlt⟩ := h
      generalize integer.toInt = k at *
      cases negative with
      | false =>
        simp only [Bool.false_eq_true, ↓reduceIte, true_or, true_and]
        split
        . refine iff_of_false (by simp) fun heq => ?_
          omega
        . rw [Option.some.injEq, Prod.mk.injEq, @eq_comm Bool false, decide_eq_false_iff_not]
          omega
      | true =>
        simp only [Bool.true_eq_false, ↓reduceIte, false_or, false_and]
        split
        . rw [Option.some.injEq, Prod.mk.injEq, @eq_comm Bool false, decide_eq_false_iff_not]
          omega
        . split
          . refine iff_of_false (by simp) fun heq => ?_
            omega
          . rw [Option.some.injEq, Prod.mk.injEq, @eq_comm Bool true, decide_eq_true_iff]
            omega
    . have hfraction : (FloatValue.finite negative numerator scale).hasFraction = true := by
        simpa [FloatValue.hasFraction] using hmod
      rw [floatIntegerIdentity, hfraction, Bool.or_true, if_pos rfl]
      refine iff_of_false (by simp) fun heq => hmod (Nat.mod_eq_zero_of_dvd ?_)
      have hdvd : ((2 ^ scale : Nat) : Int) ∣ (if negative then -(numerator : Int) else numerator) := by
        rw [heq]
        exact ⟨integer.toInt, by push_cast; ring⟩
      cases negative
      . exact Int.natCast_dvd_natCast.mp hdvd
      . exact Int.natCast_dvd_natCast.mp (Int.dvd_neg.mp hdvd)

end Integers

namespace ComparableComponent

/-- The number that a component stands for, and none for what is not a number. -/
def number : ComparableComponent → Option Number
  | .float value => value.number
  | .integer value => some (.rational value.toInt)

def InRange : ComparableComponent → Prop
  | .float _ => True
  | .integer value => value.InRange

end ComparableComponent

theorem comparableComponentsEqual_iff {left right : ComparableComponent} (hleft : left.InRange)
    (hright : right.InRange)
    : comparableComponentsEqual left right = true ↔ ∃ m, left.number = some m ∧ right.number = some m := by
  match left, right with
  | .float left, .float right => exact FloatValue.equal_iff
  | .integer left, .integer right =>
    simp only [comparableComponentsEqual, beq_iff_eq, integerIdentity_eq_iff, ComparableComponent.number,
      Option.some.injEq, exists_eq_left', Number.rational.injEq, Int.cast_inj]
    exact eq_comm
  | .float left, .integer right =>
    simp only [comparableComponentsEqual, beq_iff_eq, floatIntegerIdentity_eq_iff hright,
      ComparableComponent.number, Option.some.injEq, exists_eq_right']
  | .integer left, .float right =>
    simp only [comparableComponentsEqual, beq_iff_eq, floatIntegerIdentity_eq_iff hleft,
      ComparableComponent.number, Option.some.injEq, exists_eq_left']

namespace ComparableNumeric

/-- The complex number that an element stands for. -/
def number (value : ComparableNumeric) : Option (Number × Number) := do
  let real ← value.real.number
  let imaginary ← value.imaginary.number
  some (real, imaginary)

def InRange (value : ComparableNumeric) : Prop := value.real.InRange ∧ value.imaginary.InRange

theorem equal_iff {left right : ComparableNumeric} (hleft : left.InRange) (hright : right.InRange)
    : left.equal right = true ↔ ∃ m, left.number = some m ∧ right.number = some m := by
  rw [equal, Bool.and_eq_true, comparableComponentsEqual_iff hleft.1 hright.1,
    comparableComponentsEqual_iff hleft.2 hright.2]
  simp only [number, Option.bind_eq_bind, Option.bind_eq_some_iff, Option.some.injEq]
  constructor
  . rintro ⟨⟨r, hr, hr'⟩, ⟨i, hi, hi'⟩⟩
    exact ⟨(r, i), ⟨r, hr, i, hi, rfl⟩, ⟨r, hr', i, hi', rfl⟩⟩
  . rintro ⟨-, ⟨r, hr, i, hi, rfl⟩, ⟨r', hr', i', hi', heq⟩⟩
    cases heq
    exact ⟨⟨r, hr, hr'⟩, ⟨i, hi, hi'⟩⟩

end ComparableNumeric

section Elements

variable {P : Payloads}

theorem integerType_bounds (t : IntegerType)
    : -2 ^ 63 ≤ t.minimum ∧ t.bound ≤ 2 ^ 64 ∧ (t.signed = false → t.minimum = 0) := by
  cases t <;> decide

theorem toInt_integerComponent {t : IntegerType} (value : t.Element)
    : (integerComponent value).toInt = value.val := by
  have hmin := value.property.1
  have hunsigned := (integerType_bounds t).2.2
  rw [integerComponent]
  split
  . rfl
  . rename_i hsigned
    have hnonneg : 0 ≤ value.val := hunsigned (by simpa using hsigned) ▸ hmin
    exact Int.toNat_of_nonneg hnonneg

theorem inRange_integerComponent {t : IntegerType} (value : t.Element)
    : (integerComponent value).InRange := by
  have hbounds := integerType_bounds t
  have hvalue := value.property
  rw [IntegerComponent.InRange, toInt_integerComponent]
  omega

theorem inRange_ofReal {value : ComparableComponent} (h : value.InRange)
    : (ComparableNumeric.ofReal value).InRange :=
  ⟨h, by decide, by decide⟩

theorem inRange_integerBool (value : Bool)
    : (integerBool value).InRange := by
  cases value <;> exact ⟨by decide, by decide⟩

theorem inRange_double (value : F64)
    : (double value).InRange :=
  trivial

theorem inRange_single (value : F32)
    : (single value).InRange :=
  trivial

/-- The integers of all classes are in the range of the comparison. -/
theorem inRange_comparableElement {value : Value P} {index : Nat} {a : ComparableNumeric}
    (h : comparableElement value index = some (.numeric a))
    : a.InRange := by
  have hofReal {α : Type} {element : Option α} {f : α → ComparableComponent} (hf : ∀ x, (f x).InRange)
      (hat : element.map (fun x => Comparable.numeric (.ofReal (f x))) = some (.numeric a)) : a.InRange := by
    obtain ⟨x, -, heq⟩ := Option.map_eq_some_iff.mp hat
    cases heq
    exact inRange_ofReal (hf x)
  have hpair {α : Type} {element : Option α} {f g : α → ComparableComponent} (hf : ∀ x, (f x).InRange)
      (hg : ∀ x, (g x).InRange)
      (hat : element.map (fun x => Comparable.numeric ⟨f x, g x⟩) = some (.numeric a)) : a.InRange := by
    obtain ⟨x, -, heq⟩ := Option.map_eq_some_iff.mp hat
    cases heq
    exact ⟨hf x, hg x⟩
  match value, h with
  | .logical value, h =>
    obtain ⟨-, heq⟩ := Option.ite_none_right_eq_some.mp h
    cases heq
    exact inRange_ofReal (inRange_integerBool value)
  | .double value, h =>
    obtain ⟨-, heq⟩ := Option.ite_none_right_eq_some.mp h
    cases heq
    exact inRange_ofReal trivial
  | .complex value, h =>
    obtain ⟨-, heq⟩ := Option.ite_none_right_eq_some.mp h
    cases heq
    exact ⟨trivial, trivial⟩
  | .array (.f32 array), h => exact hofReal inRange_single h
  | .array (.complexF32 array), h => refine hpair (fun value => ?_) (fun value => ?_) h <;> trivial
  | .array (.f64 array), h => exact hofReal inRange_double h
  | .array (.complexF64 array), h => refine hpair (fun value => ?_) (fun value => ?_) h <;> trivial
  | .array (.logical array), h => exact hofReal inRange_integerBool h
  | .array (.char array), h =>
    apply hofReal (fun value => ?_) h
    have hlt := value.isLt
    constructor
    . exact Int.le_trans (by decide) (Int.natCast_nonneg _)
    . exact Int.lt_trans (Int.ofNat_lt.mpr hlt) (by decide)
  | .array (.integer (.real _ array)), h => exact hofReal inRange_integerComponent h
  | .array (.integer (.complex _ array)), h =>
    refine hpair (fun value => ?_) (fun value => ?_) h
    . exact inRange_integerComponent value.re
    . exact inRange_integerComponent value.im
  | .string value, h =>
    obtain ⟨x, -, heq⟩ := Option.map_eq_some_iff.mp h
    cases heq

end Elements

section Locations

variable {left : Comparable} {right : List Comparable}

theorem locate_concat (left : Comparable) (right : List Comparable) (last : Comparable)
    : locate left (right ++ [last]) = if left.equal last then right.length + 1 else locate left right := by
  rw [locate, List.zipIdx_append, List.foldl_append, Nat.zero_add]
  rfl

/-- The location is the one of the last element that is equal. -/
theorem locate_cases (left : Comparable) (right : List Comparable)
    : (locate left right = 0 ∧ ∀ b ∈ right, left.equal b = false) ∨
        ∃ (j : Nat) (b : Comparable), right[j]? = some b ∧ left.equal b = true ∧ locate left right = j + 1 ∧
          ∀ (k : Nat) (c : Comparable), j < k → right[k]? = some c → left.equal c = false := by
  induction right using List.reverseRecOn with
  | nil => exact .inl ⟨rfl, nofun⟩
  | append_singleton right last ih =>
    rw [locate_concat]
    cases hlast : left.equal last with
    | true =>
      rw [if_pos rfl]
      refine .inr ⟨right.length, last, List.getElem?_concat_length, hlast, rfl, fun k c hk hc => ?_⟩
      have := (List.getElem?_eq_some_iff.mp hc).1
      rw [List.length_append, List.length_singleton] at this
      omega
    | false =>
      rw [if_neg Bool.false_ne_true]
      rcases ih with ⟨hzero, hnone⟩ | ⟨j, b, hb, hequal, hlocation, hlater⟩
      . refine .inl ⟨hzero, fun b hb => ?_⟩
        rcases List.mem_append.mp hb with hb | hb
        . exact hnone b hb
        . rwa [List.mem_singleton.mp hb]
      . have hj := (List.getElem?_eq_some_iff.mp hb).1
        refine .inr ⟨j, b, by rw [List.getElem?_append_left hj]; exact hb, hequal, hlocation, fun k c hk hc => ?_⟩
        rcases Nat.lt_trichotomy k right.length with hlt | rfl | hgt
        . rw [List.getElem?_append_left hlt] at hc
          exact hlater k c hk hc
        . rw [List.getElem?_concat_length, Option.some.injEq] at hc
          rwa [← hc]
        . rw [List.getElem?_eq_none (by rw [List.length_append, List.length_singleton]; omega)] at hc
          cases hc

end Locations

section Arrays

variable {P : Payloads} {shapes : PayloadShapes P}

/-- The arrays whose elements can be compared. -/
def IsComparable : Value P → Bool
  | .logical _ | .double _ | .complex _ | .string _ | .array _ => true
  | _ => false

theorem isSome_dense {α : Type} (array : DenseArray α) (f : α → Comparable) (i : Nat)
    : (array.data[i]?.map f).isSome = true ↔ i < array.shape.numel := by
  rw [Option.isSome_map, ← array.length_data, isSome_getElem?]

theorem isSome_scalar {α : Type} (element : α) (i : Nat)
    : (if i = 0 then some element else none).isSome = true ↔ i < Shape.scalar.numel := by
  rw [Shape.numel_scalar, Nat.lt_one_iff, Option.isSome_ite]

/-- An element at every offset below the number of elements, and none beyond. -/
theorem isSome_comparableElement {value : Value P} {shape : Shape} (h : IsComparable value = true)
    (hshape : shapeOf shapes value = some shape) (i : Nat)
    : (comparableElement value i).isSome = true ↔ i < shape.numel := by
  match value, h with
  | .logical value, _ | .double value, _ | .complex value, _ =>
    cases hshape
    exact isSome_scalar _ i
  | .array (.f32 array), _ | .array (.complexF32 array), _ | .array (.f64 array), _
  | .array (.complexF64 array), _ | .array (.logical array), _ | .array (.char array), _
  | .array (.integer (.real _ array)), _ | .array (.integer (.complex _ array)), _ =>
    cases hshape
    exact isSome_dense array _ i
  | .string (.scalar element), _ =>
    cases hshape
    rw [comparableElement, Option.isSome_map]
    exact isSome_scalar element i
  | .string (.array array), _ =>
    cases hshape
    exact isSome_dense array _ i

/-- The elements that the comparison reads of a value. -/
theorem exists_comparableValues {value : Value P} (h : IsComparable value = true) (position : Nat)
    : ∃ shape elements, comparableValues shapes "ismember" position value = .ok (shape, isScalar value, elements) ∧
        elements.length = shape.numel ∧ (isScalar value = true → shape.numel = 1) ∧
        ∀ i, elements[i]? = comparableElement value i := by
  obtain ⟨shape, hshape⟩ : ∃ shape, shapeOf shapes value = some shape := by
    cases value <;> first | exact ⟨_, rfl⟩ | cases h
  have hsome := isSome_comparableElement h hshape
  obtain ⟨elements, helements⟩ := exists_mapM_eq_ok
    (l := List.range shape.numel) (f := fun index => okOr (comparableElement value index)
      (typeError "ismember" position "numeric, char, or string array" value)) (by
    intro i hi
    obtain ⟨a, ha⟩ := Option.isSome_iff_exists.mp ((hsome i).mpr (List.mem_range.mp hi))
    exact ⟨a, okOr_eq_ok_iff.mpr ha⟩)
  have hforall := forall₂_of_mapM_eq_ok.mp helements
  have hlength : elements.length = shape.numel := by rw [← hforall.length_eq, List.length_range]
  refine ⟨shape, elements, ?_, hlength, ?_, fun i => ?_⟩
  . have hok failure : okOr (some shape) failure = (.ok shape : Except Failure Shape) := rfl
    rw [comparableValues, hshape]
    simp only [hok, bind, Except.bind, Shape.new_dimensions, Except.mapError, helements]
  . intro hscalar
    cases value with
    | logical value | double value | complex value =>
      cases hshape
      exact Shape.numel_scalar
    | _ => cases hscalar
  . by_cases hi : i < shape.numel
    . have hat := hforall.get (by rwa [List.length_range]) (by rwa [hlength])
      simp only [List.get_eq_getElem, List.getElem_range, okOr_eq_ok_iff] at hat
      rw [hat, List.getElem?_eq_getElem]
    . have hnone : ¬ (comparableElement value i).isSome = true := fun hsomeAt => hi ((hsome i).mp hsomeAt)
      rw [List.getElem?_eq_none (by omega)]
      exact (Option.not_isSome_iff_eq_none.mp hnone).symm

/-- The element of an output at an offset. -/
def ScalarOr.at {α : Type} (output : ScalarOr α) (i : Nat) : Option α :=
  match output with
  | .scalar value => if i = 0 then some value else none
  | .array dense => dense.data[i]?

theorem exists_scalarOr {α : Type} {scalar : Bool} {shape : Shape} {values : List α} (default : α)
    (hlength : values.length = shape.numel) (hscalar : scalar = true → shape.numel = 1)
    : ∃ output, scalarOr scalar shape values default = .ok output ∧ ∀ i, output.at i = values[i]? := by
  cases scalar with
  | false =>
    refine ⟨.array ⟨shape, values, hlength⟩, ?_, fun i => rfl⟩
    rw [scalarOr, if_neg Bool.false_ne_true, DenseArray.fromVec, dif_pos hlength]
    rfl
  | true =>
    obtain ⟨value, rfl⟩ := List.length_eq_one_iff.mp (hlength.trans (hscalar rfl))
    refine ⟨.scalar value, rfl, fun i => ?_⟩
    cases i <;> rfl

/-- Elements are compared by the numbers that they stand for, in all classes: what is not a number equals
nothing, and no number is rounded. -/
structure ComparesExactly (P : Payloads) : Prop where
  exact : ∀ (v w : Value P) (i j : Nat) (a b : ComparableNumeric), comparableElement v i = some (.numeric a) →
    comparableElement w j = some (.numeric b) →
    (a.equal b = true ↔ ∃ m, a.number = some m ∧ b.number = some m)
  symm : ∀ (v w : Value P) (i j : Nat) (a b : ComparableNumeric), comparableElement v i = some (.numeric a) →
    comparableElement w j = some (.numeric b) → a.equal b = true → b.equal a = true
  trans : ∀ (u v w : Value P) (i j k : Nat) (a b c : ComparableNumeric),
    comparableElement u i = some (.numeric a) → comparableElement v j = some (.numeric b) →
    comparableElement w k = some (.numeric c) → a.equal b = true → b.equal c = true → a.equal c = true

/-- Every element of the first value is reported with the lowest position of an equal element; the positions
are the second output. -/
def ReportsLowest (shapes : PayloadShapes P) (first second : Value P) : Prop :=
  ∃ membership location,
    (∀ requestedOutputs ≤ 2, ismember shapes first second requestedOutputs =
      .ok (membership, if 1 < requestedOutputs then some location else none)) ∧
    ∀ (i : Nat) (a : Comparable), comparableElement first i = some a →
      (∃ (j : Nat) (b : Comparable), comparableElement second j = some b ∧ a.equal b = true ∧
        (∀ k < j, ∀ c, comparableElement second k = some c → a.equal c = false) ∧
        membership.at i = some true ∧ location.at i = some (j + 1)) ∨
      ((∀ (j : Nat) (b : Comparable), comparableElement second j = some b → a.equal b = false) ∧
        membership.at i = some false ∧ location.at i = some 0)

def MeetsMembership (shapes : PayloadShapes P) (first second : Value P) : Prop :=
  ComparesExactly P ∧ ReportsLowest shapes first second

/-- No element of the first value equals two elements of the second. -/
def EqualsOneAtMost (first second : Value P) : Prop :=
  ∀ (i j k : Nat) (a b c : Comparable), comparableElement first i = some a → comparableElement second j = some b →
    comparableElement second k = some c → a.equal b = true → a.equal c = true → j = k

theorem comparesExactly (P : Payloads)
    : ComparesExactly P where
  exact _ _ _ _ _ _ ha hb :=
    ComparableNumeric.equal_iff (inRange_comparableElement ha) (inRange_comparableElement hb)
  symm _ _ _ _ _ _ ha hb h := by
    have ha := inRange_comparableElement ha
    have hb := inRange_comparableElement hb
    obtain ⟨m, hm, hm'⟩ := (ComparableNumeric.equal_iff ha hb).mp h
    exact (ComparableNumeric.equal_iff hb ha).mpr ⟨m, hm', hm⟩
  trans _ _ _ _ _ _ _ _ _ ha hb hc hab hbc := by
    have ha := inRange_comparableElement ha
    have hb := inRange_comparableElement hb
    have hc := inRange_comparableElement hc
    obtain ⟨m, hm, hm'⟩ := (ComparableNumeric.equal_iff ha hb).mp hab
    obtain ⟨n, hn, hn'⟩ := (ComparableNumeric.equal_iff hb hc).mp hbc
    rw [hn, Option.some.injEq] at hm'
    exact (ComparableNumeric.equal_iff ha hc).mpr ⟨m, hm, hm' ▸ hn'⟩

/-- What the membership answers, by the last equal element. -/
theorem exists_ismember {first second : Value P} (hfirst : IsComparable first = true)
    (hsecond : IsComparable second = true)
    : ∃ membership location right,
        (∀ requestedOutputs ≤ 2, ismember shapes first second requestedOutputs =
          .ok (membership, if 1 < requestedOutputs then some location else none)) ∧
        (∀ j, right[j]? = comparableElement second j) ∧
        ∀ i a, comparableElement first i = some a →
          location.at i = some (locate a right) ∧ membership.at i = some (locate a right != 0) := by
  obtain ⟨shape, left, hleft, hlength, hscalar, hleftAt⟩ := @exists_comparableValues P shapes first hfirst 1
  obtain ⟨shape', right, hright, -, -, hrightAt⟩ := @exists_comparableValues P shapes second hsecond 2
  let locations := left.map fun value => locate value right
  have hlocations : locations.length = shape.numel := by rw [List.length_map, hlength]
  obtain ⟨membership, hmembership, hmembershipAt⟩ :=
    @exists_scalarOr Bool (isScalar first) shape (locations.map (· != 0)) false
      (by rw [List.length_map, hlocations]) hscalar
  obtain ⟨location, hlocation, hlocationAt⟩ := exists_scalarOr 0 hlocations hscalar
  refine ⟨membership, location, right, ?_, hrightAt, fun i a ha => ?_⟩
  . intro requestedOutputs _
    have houtput : locationOutput requestedOutputs (isScalar first) shape locations =
        .ok (if 1 < requestedOutputs then some location else none) := by
      rw [locationOutput, hlocation]
      split <;> rfl
    rw [ismember, hleft]
    simp only [bind, Except.bind, hright]
    rw [hmembership]
    dsimp only
    rw [houtput]
  . have hat : locations[i]? = some (locate a right) := by
      rw [List.getElem?_map, hleftAt, ha]
      rfl
    constructor
    . rw [hlocationAt, hat]
    . rw [hmembershipAt, List.getElem?_map, hat]
      rfl

/-- The last equal element is also the first one only where it is the only one. -/
theorem equalsOneAtMost_of_reportsLowest {first second : Value P} (hfirst : IsComparable first = true)
    (hsecond : IsComparable second = true) (hlowest : ReportsLowest shapes first second)
    : EqualsOneAtMost first second := by
  obtain ⟨membership, location, right, hresult, hright, hat⟩ := @exists_ismember P shapes _ _ hfirst hsecond
  obtain ⟨membership', location', hresult', hlowest⟩ := hlowest
  cases (hresult 2 le_rfl).symm.trans (hresult' 2 le_rfl)
  have hnone (i j k : Nat) (a b c : Comparable) (ha : comparableElement first i = some a)
      (hb : comparableElement second j = some b) (hc : comparableElement second k = some c)
      (hab : a.equal b = true) (hac : a.equal c = true) : ¬ j < k := by
    intro hlt
    have hlocation := (hat i a ha).1
    rcases hlowest i a ha with ⟨j', b', -, -, hbefore, -, hlocation'⟩ | ⟨hnever, -, -⟩
    . rw [hlocation, Option.some.injEq] at hlocation'
      -- the first position is not after this one, and the last is not before the other
      have hle : j' ≤ j := by
        by_contra hgt
        rw [hbefore j (by omega) b hb] at hab
        cases hab
      rcases locate_cases a right with ⟨hzero, -⟩ | ⟨j'', b'', -, -, hlocate, hlater⟩
      . omega
      . rw [hlater k c (by omega) (by rw [hright, hc])] at hac
        cases hac
    . rw [hnever j b hb] at hab
      cases hab
  intro i j k a b c ha hb hc hab hac
  have hjk := hnone i j k a b c ha hb hc hab hac
  have hkj := hnone i k j a c b ha hc hb hac hab
  omega

/-- The lowest positions are reported exactly where there is never a choice. -/
theorem ismember_correct (shapes : PayloadShapes P) (first second : Value P) (hfirst : IsComparable first = true)
    (hsecond : IsComparable second = true)
    : MeetsMembership shapes first second ↔ EqualsOneAtMost first second := by
  obtain ⟨membership, location, right, hresult, hright, hat⟩ := @exists_ismember P shapes _ _ hfirst hsecond
  rw [MeetsMembership, and_iff_right (comparesExactly P)]
  refine ⟨equalsOneAtMost_of_reportsLowest hfirst hsecond, fun hone => ?_⟩
  refine ⟨membership, location, hresult, fun i a ha => ?_⟩
  obtain ⟨hlocation, hmembership⟩ := hat i a ha
  rcases locate_cases a right with ⟨hzero, hnone⟩ | ⟨j, b, hb, hequal, hlocate, hlater⟩
  . rw [hzero] at hlocation hmembership
    refine .inr ⟨fun j b hb => hnone b ?_, hmembership, hlocation⟩
    rw [← hright] at hb
    exact List.mem_of_getElem? hb
  . rw [hright] at hb
    rw [hlocate] at hlocation hmembership
    refine .inl ⟨j, b, hb, hequal, fun k hk c hc => ?_, hmembership, hlocation⟩
    by_contra hnot
    have hac : a.equal c = true := by simpa using hnot
    have := hone i j k a b c ha hb hc hequal hac
    omega

def noShapes : PayloadShapes noPayloads where
  sparse := nofun
  cell := nofun
  struct := nofun
  table := nofun
  objectArray := nofun
  graphicsArray := nofun

def pairShape : Shape := .matrix 1 2

def one : Value noPayloads := .double 0x3ff0000000000000

def logicalPair : Value noPayloads := .array (.logical ⟨pairShape, [false, true], rfl⟩)

def repeatedOnes : Value noPayloads := .array (.f64 ⟨pairShape, [0x3ff0000000000000, 0x3ff0000000000000], rfl⟩)

theorem ismember_correct_logicals
    : MeetsMembership noShapes one logicalPair ↔ EqualsOneAtMost one logicalPair :=
  ismember_correct noShapes one logicalPair rfl rfl

/-- An element that is repeated is located at its last position. -/
theorem ismember_repeatedOnes
    : ¬ MeetsMembership noShapes one repeatedOnes := by
  intro h
  have hone := equalsOneAtMost_of_reportsLowest rfl rfl h.2 0 0 1 _ _ _ rfl rfl rfl (by decide) (by decide)
  cases hone

end Arrays

end Builtins
end OpenMat
