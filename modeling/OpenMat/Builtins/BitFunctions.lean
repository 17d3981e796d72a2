import OpenMat.Builtins.Membership
import OpenMat.Builtins.WordArrays

/-!
This module contains the main results about the bitwise functions: shifts are products with powers of two, bits that are
written are read back, and the binary functions act bit by bit. Doubles are rounded only where bits are written to them.
-/

namespace OpenMat
namespace Builtins
namespace Bitwise

open Arrays (Shape DenseArray)
open Floats (Significant)
open Indexing (Value Payloads noPayloads)
open Values (F64 IntegerType)

variable {P : Payloads} {t : IntegerType} {v : DenseArray t.Element} {shape : Shape}

theorem is_ofInt {value : Int} (hlt : value.natAbs < 2 ^ 64) (hdvd : 2 ^ (Nat.log2 value.natAbs - 52) ∣ value.natAbs)
    : Is (.float (F64.ofInt value)) value :=
  F64.number_ofInt hlt hdvd

/-- A scalar double has one number. -/
theorem all_scalar {value : F64} {R : Nat → RealNumber → Prop} (h : R 0 (.float value))
    : All (.doubleScalar value) R := by
  intro i hi
  obtain rfl : i = 0 := Nat.lt_one_iff.mp hi
  exact ⟨.float value, rfl, h⟩

theorem significant_elements {out : DenseArray t.Element} {R : Nat → t.Element → Prop} (hout : out.shape = shape)
    (helements : ∀ i < shape.numel, ∃ z, out.data[i]? = some z ∧ R i z)
    (hsignificant : ∀ i z, R i z → Significant z.val)
    : ∀ z ∈ out.data, Significant z.val := by
  intro z hz
  obtain ⟨i, hi⟩ := List.mem_iff_getElem?.mp hz
  have hlt : i < shape.numel := by
    rw [← hout, ← out.length_data]
    exact (List.getElem?_eq_some_iff.mp hi).1
  obtain ⟨z', hz', hR⟩ := helements i hlt
  rw [hi] at hz'
  cases hz'
  exact hsignificant i z hR

/--
A shift by integers of any size gives the integer below the product with the power of two, back in the range of the
class. Doubles are never rounded.
-/
theorem bitshift_correct {amount : Value P} {type : Option (Value P)} {assumed : Option IntegerType}
    {control : RealControlView} {k : Nat → Int} (hcontrol : RealControlView.new "bitshift" 2 amount = .ok control)
    (hk : All control fun i number => Is number (k i)) (htype : Assumes "bitshift" 3 type assumed)
    (hshape : Expands [v.shape, control.shape] shape)
    : ∃ out : DenseArray t.Element, out.shape = shape ∧
        (∀ i < shape.numel, ∃ x z, v.data[expanded v.shape i]? = some x ∧ out.data[i]? = some z ∧
          z = t.wrap (shifted x.val (k (expanded control.shape i)))) ∧
        Computes (fun primary => bitshiftBuiltin ([primary, amount] ++ type.toList)) assumed v out ∧
        ∀ xs, Carries xs v → Carries (rounded out) out := by
  obtain ⟨out, hout, helements, hcomputes⟩ := @bitshift_computes P t v shape assumed type _ _ _ hcontrol hk htype hshape
  refine ⟨out, hout, helements, hcomputes, fun xs hxs => carries_rounded ?_⟩
  apply significant_elements hout (R := fun i z => ∃ x ∈ v.data, ∃ amount, z = t.wrap (shifted x.val amount))
  . intro i hi
    obtain ⟨x, z, hx, hz, hshifted⟩ := helements i hi
    exact ⟨z, hz, x, List.mem_of_getElem? hx, _, hshifted⟩
  . rintro i z ⟨x, hx, amount, rfl⟩
    exact significant_shifted (hxs.significant hx) amount

def bytes : DenseArray IntegerType.i8.Element := ⟨pairShape, [IntegerType.i8.wrap (-7), IntegerType.i8.wrap 100], rfl⟩

theorem expands_bytes
    : Expands [bytes.shape, (RealControlView.doubleScalar (F64.ofInt (-1))).shape] pairShape where
  mem := List.mem_cons_self
  agree := by
    rw [List.forall_mem_cons, List.forall_mem_singleton]
    exact ⟨.inr rfl, .inl rfl⟩

theorem bitshift_correct_bytes
    : ∃ out : DenseArray IntegerType.i8.Element,
        bitshiftBuiltin [integers (P := noPayloads) bytes, .double (F64.ofInt (-1))] = .ok (integers out) ∧
          out.data[0]? = some (IntegerType.i8.wrap (-4)) ∧ out.data[1]? = some (IntegerType.i8.wrap 50) := by
  obtain ⟨out, hout, helements, hcomputes, -⟩ := @bitshift_correct noPayloads .i8 bytes pairShape
    (.double (F64.ofInt (-1))) none none _ (fun _ => -1) rfl (all_scalar (is_ofInt (by decide) (by decide))) .none
    expands_bytes
  refine ⟨out, hcomputes.integers (by simp), ?_, ?_⟩
  . obtain ⟨x, z, hx, hz, hvalue⟩ := helements 0 (by decide)
    cases hx
    have hvalue' : shifted (-7) (-1) = -4 := (shifted_neg_natCast (-7) 1).trans (by decide)
    rw [hz, hvalue, show (IntegerType.i8.wrap (-7)).val = -7 by decide, hvalue']
  . obtain ⟨x, z, hx, hz, hvalue⟩ := helements 1 (by decide)
    cases hx
    have hvalue' : shifted 100 (-1) = 50 := (shifted_neg_natCast 100 1).trans (by decide)
    rw [hz, hvalue, show (IntegerType.i8.wrap 100).val = 100 by decide, hvalue']

/--
Bits that are written are read back, and the bits at all other positions are read as before, also of doubles where the
words in between have at most 53 significant bits.
-/
theorem bitget_bitset {position query : Value P} {value type type' : Option (Value P)}
    {assumed assumed' : Option IntegerType} {control read : RealControlView} {written : Option RealControlView}
    {p q : Nat → Nat} {b : Nat → Bool} {shape' : Shape}
    (hcontrol : RealControlView.new "bitset" 2 position = .ok control)
    (hp : All control fun i number => Is number (p i) ∧ 1 ≤ p i ∧ p i ≤ bits t) (hwrites : Writes b value written)
    (htype : Assumes "bitset" (if value.isSome then 4 else 3) type assumed)
    (hshape : Expands (v.shape :: control.shape :: (written.map RealControlView.shape).toList) shape)
    (hread : RealControlView.new "bitget" 2 query = .ok read)
    (hq : All read fun i number => Is number (q i) ∧ 1 ≤ q i ∧ q i ≤ bits t) (htype' : Assumes "bitget" 3 type' assumed')
    (hshape' : Expands [shape, read.shape] shape')
    : ∃ s g : DenseArray t.Element, s.shape = shape ∧ g.shape = shape' ∧
        (∀ i < shape'.numel, ∃ x z, v.data[expanded v.shape (expanded shape i)]? = some x ∧ g.data[i]? = some z ∧
          z = flag t (if q (expanded read.shape i) = p (expanded control.shape (expanded shape i))
            then writtenBit b written (expanded shape i) else bitAt x (q (expanded read.shape i)))) ∧
        Computes (fun primary => bitsetBuiltin (bitsetArguments primary position value type)) assumed v s ∧
        Computes (fun primary => bitgetBuiltin ([primary, query] ++ type'.toList)) assumed' s g ∧
        ((∀ z ∈ s.data, Significant z.val) → Carries (rounded s) s) ∧ Carries (rounded g) g := by
  obtain ⟨s, hs, hset, hcomputes⟩ :=
    @bitset_computes P t v shape assumed type _ _ _ _ _ _ hcontrol hp hwrites htype hshape
  rw [← hs] at hshape'
  obtain ⟨g, hg, hget, hcomputes'⟩ := @bitget_computes P t s shape' assumed' type' _ _ _ hread hq htype' hshape'
  rw [hs] at hget hshape'
  refine ⟨s, g, hs, hg, fun i hi => ?_, hcomputes, hcomputes', carries_rounded, ?_⟩
  . have hlt := expanded_lt (hshape'.agree shape (List.mem_cons_self)) hi
    have hltRead := expanded_lt (hshape'.agree read.shape (by simp)) hi
    obtain ⟨y, z, hy, hz, hflag⟩ := hget i hi
    obtain ⟨x, y', hx, hy', hbits⟩ := hset (expanded shape i) hlt
    rw [hy] at hy'
    cases hy'
    obtain ⟨-, -, -, hpos, hle⟩ := hq _ hltRead
    exact ⟨x, z, hx, hz, by rw [hflag, hbits _ hpos hle]⟩
  . apply carries_rounded
    apply significant_elements hg (R := fun i z => ∃ bit, z = flag t bit)
    . intro i hi
      obtain ⟨y, z, -, hz, hflag⟩ := hget i hi
      exact ⟨z, hz, _, hflag⟩
    . rintro i z ⟨bit, rfl⟩
      exact significant_flag t bit

def five : DenseArray IntegerType.i8.Element := ⟨.scalar, [IntegerType.i8.wrap 5], rfl⟩

def positions : DenseArray F64 := ⟨pairShape, [F64.ofInt 8, F64.ofInt 1], rfl⟩

theorem expands_positions
    : Expands [five.shape, positions.shape] pairShape where
  mem := by simp [positions]
  agree := by
    rw [List.forall_mem_cons, List.forall_mem_singleton]
    exact ⟨.inl rfl, .inr rfl⟩

/-- A scalar is expanded to the two positions at which bits are written; the sign bit is read of both results. -/
theorem bitget_bitset_positions
    : ∃ (s : Value noPayloads) (g : DenseArray IntegerType.i8.Element),
        bitsetBuiltin [integers five, .array (.f64 positions)] = .ok s ∧
          bitgetBuiltin [s, .double (F64.ofInt 8)] = .ok (integers g) ∧ g.shape = pairShape ∧
          g.data[0]? = some (flag .i8 true) ∧ g.data[1]? = some (flag .i8 false) := by
  let p : Nat → Nat := fun i => if i = 0 then 8 else 1
  have hpositions : All (.double positions) fun i number => Is number (p i) ∧ 1 ≤ p i ∧ p i ≤ bits .i8 := by
    intro i hi
    match i, hi with
    | 0, _ => exact ⟨_, rfl, is_ofInt (by decide) (by decide), by decide, by decide⟩
    | 1, _ => exact ⟨_, rfl, is_ofInt (by decide) (by decide), by decide, by decide⟩
    | i + 2, hi => exact absurd hi (Nat.not_lt.mpr (Nat.le_add_left 2 i))
  have hread : All (.doubleScalar (F64.ofInt 8)) fun _ number => Is number (8 : Nat) ∧ 1 ≤ 8 ∧ 8 ≤ bits .i8 :=
    all_scalar ⟨is_ofInt (by decide) (by decide), by decide, by decide⟩
  have hexpands : Expands [pairShape, .scalar] pairShape := by
    refine ⟨List.mem_cons_self, ?_⟩
    rw [List.forall_mem_cons, List.forall_mem_singleton]
    exact ⟨.inr rfl, .inl rfl⟩
  obtain ⟨s, g, -, hg, helements, hset, hget, -⟩ := @bitget_bitset noPayloads .i8 five pairShape
    (.array (.f64 positions)) (.double (F64.ofInt 8)) none none none none none _ _ none p (fun _ => 8) (fun _ => true)
    pairShape rfl hpositions .ones .none expands_positions rfl hread .none hexpands
  refine ⟨integers s, g, hset.integers (by simp), hget.integers (by simp), hg, ?_, ?_⟩
  . obtain ⟨x, z, hx, hz, hflag⟩ := helements 0 (by decide)
    cases hx
    rw [hz, hflag]
    decide
  . obtain ⟨x, z, hx, hz, hflag⟩ := helements 1 (by decide)
    cases hx
    rw [hz, hflag]
    decide

/-- The second operand of a class, or a double with a value of the class. -/
theorem exists_integerSecond (name : String) {right : DenseArray t.Element} {second : Value P}
    (h : second = integers right ∨ ∃ ys, doubles? second = some ys ∧ Carries ys right ∧ right.shape.numel = 1)
    : ∃ view, integerSecond name t second = .ok view ∧ SecondCarries name view right := by
  rcases h with rfl | ⟨ys, hys, hcarries, hnumel⟩
  . refine ⟨.typed right, ?_, rfl, fun i y hy => ?_⟩
    . exact dif_pos rfl
    . show (do
        let value ← okOr right.data[i]? (mappingError name)
        return toRaw value) = _
      rw [hy]
      rfl
  . have hlength := right.length_data
    rw [hnumel] at hlength
    obtain ⟨y, hy⟩ := List.length_eq_one_iff.mp hlength
    obtain ⟨value, hvalue, hnumber⟩ := hcarries.values 0 y (by rw [hy]; rfl)
    have hscalar : doubleScalar? second = some value := by
      cases second with
      | double value' =>
        cases hys
        exact hvalue
      | array array =>
        cases array with
        | f64 array =>
          cases hys
          rw [doubleScalar?, hcarries.shape, if_pos hnumel, List.head?_eq_getElem?, hvalue]
        | _ => cases hys
      | _ => cases hys
    refine ⟨.doubleScalar (toRaw y), ?_, (Shape.eq_scalar_of_numel hnumel).symm, fun i y' hy' => ?_⟩
    . have hsecond : integerSecond name t second = (do
          let value ← okOr (doubleScalar? second) (mixedClassError name)
          let raw ← doubleToRaw name 2 value t true
          return .doubleScalar raw) := by
        cases second with
        | array array =>
          cases array with
          | integer data => cases hys
          | _ => rfl
        | _ => rfl
      rw [hsecond, hscalar]
      show (do
        let raw ← doubleToRaw name 2 value t true
        return IntegerSecond.doubleScalar raw) = _
      rw [doubleToRaw_eq hnumber]
      rfl
    . rw [hy] at hy'
      cases i with
      | zero =>
        cases hy'
        rfl
      | succ i => cases hy'

/--
The binary functions act bit by bit on the elements that meet, in integers of one class, integers and a scalar double,
and doubles. The conjunction of doubles is never rounded, the other ones only where the result has too many bits.
-/
theorem binary_correct (operation : BinaryOperation) {left right : DenseArray t.Element} {type : Option (Value P)}
    {assumed : Option IntegerType} (hshape : Broadcasts left.shape right.shape shape)
    (htype : Assumes operation.name 3 type assumed)
    : ∃ out : DenseArray t.Element, out.shape = shape ∧
        (∀ i < shape.numel, ∃ x y z, left.data[broadcastFrom left.shape left.shape right.shape i]? = some x ∧
          right.data[broadcastFrom right.shape left.shape right.shape i]? = some y ∧ out.data[i]? = some z ∧
            operation.HasBits x y z) ∧
        ((∀ type ∈ assumed, type = t) → ∀ second : Value P,
          (second = integers right ∨ ∃ ys, doubles? second = some ys ∧ Carries ys right ∧ right.shape.numel = 1) →
            binaryBuiltin operation ([integers left, second] ++ type.toList) = .ok (integers out)) ∧
        (assumed.getD .u64 = t → ∀ (x : Value P) (xs : DenseArray F64) (y : Value P) (ys : DenseArray F64),
          doubles? x = some xs → Carries xs left → doubles? y = some ys → Carries ys right →
            ∃ z, binaryBuiltin operation ([x, y] ++ type.toList) = .ok z ∧ doubles? z = some (rounded out) ∧
              (operation = .and ∨ (∀ z ∈ out.data, Significant z.val) → Carries (rounded out) out)) := by
  obtain ⟨z, hmeets, hz⟩ := exists_meets operation hshape
  obtain ⟨out, -, hout, hdata⟩ := fromVec_range shape z
  have helement : ∀ i < shape.numel, out.data[i]? = some (z i) := by
    intro i hi
    rw [hdata, List.getElem?_map, List.getElem?_range hi]
    rfl
  have hrun : ∀ first second : Value P, binaryBuiltin operation ([first, second] ++ type.toList) =
      binary operation first second assumed := by
    intro first second
    cases htype with
    | none => rfl
    | some h => exact assumed_bind (binary operation first second) h
  refine ⟨out, hout, fun i hi => ?_, fun hassumed second hsecond => ?_, fun hassumed x xs y ys hxs hx hys hy => ?_⟩
  . obtain ⟨x, y, hx, hy, hzi⟩ := hz i hi
    exact ⟨x, y, z i, hx, hy, helement i hi, hzi ▸ apply_bits operation x y⟩
  . obtain ⟨view, hview, hcarries⟩ := exists_integerSecond operation.name hsecond
    rw [hrun]
    show (do
      let output ← integerBinary operation t left second assumed
      return Value.array (.integer (.real t output))) = _
    rw [integerBinary_eq hmeets hassumed hview hcarries hout hdata]
    rfl
  . obtain ⟨xview, hxview, hxlogical, hxcarries, hxscalar, hxkind⟩ := hx.view operation.name hxs
    obtain ⟨yview, hyview, hylogical, hycarries, hyscalar, -⟩ := hy.view operation.name hys
    have hscalar : (xview.scalarVariant && yview.scalarVariant) = true → out.shape = .scalar := by
      rw [Bool.and_eq_true]
      rintro ⟨hxv, hyv⟩
      have hdimensions := Shape.new_eq_ok_iff.mp hshape.shape
      rw [hxscalar hxv, hyscalar hyv] at hdimensions
      rw [hout]
      exact Shape.ext hdimensions
    obtain ⟨result, hresult, hvalue⟩ := doubleOrLogicalBinary_eq hmeets hassumed hxview hxcarries hyview hycarries
      (by rw [hxlogical]; rfl) hout hdata hscalar
    refine ⟨result, ?_, hvalue, fun hexact => ?_⟩
    . rw [hrun]
      cases x with
      | double value => exact hresult
      | array array =>
        cases array with
        | f64 array => exact hresult
        | _ => cases hxs
      | _ => cases hxs
    . apply carries_rounded
      rcases hexact with rfl | hsignificant
      . apply significant_elements hout (R := fun i z => ∃ x ∈ left.data, ∃ y ∈ right.data, z.val = x.val.land y.val)
        . intro i hi
          obtain ⟨x, y, hx, hy, hzi⟩ := hz i hi
          refine ⟨z i, helement i hi, x, List.mem_of_getElem? hx, y, List.mem_of_getElem? hy, ?_⟩
          rw [hzi]
          exact fromRaw_and x y
        . rintro i z ⟨x, hxmem, y, hymem, hland⟩
          rw [hland]
          exact (hx.significant hxmem).land (hy.significant hymem)
      . exact hsignificant

def column : DenseArray IntegerType.i8.Element := ⟨.matrix 2 1, [IntegerType.i8.wrap 5, IntegerType.i8.wrap 3], rfl⟩

def row : DenseArray IntegerType.i8.Element := ⟨.matrix 1 2, [IntegerType.i8.wrap 3, IntegerType.i8.wrap 1], rfl⟩

theorem broadcasts_matrix
    : Broadcasts column.shape row.shape (.matrix 2 2) where
  conform axis := by
    rcases axis with _ | _ | axis
    . exact .inr (.inr rfl)
    . exact .inr (.inl rfl)
    . exact .inl rfl
  shape := Shape.new_eq_ok_iff.mpr (by decide)

/-- A column and a row are expanded to a matrix. -/
theorem binary_correct_matrix
    : ∃ out : DenseArray IntegerType.i8.Element,
        binaryBuiltin .xor [integers (P := noPayloads) column, integers row] = .ok (integers out) ∧
          out.shape = .matrix 2 2 ∧
          (∃ z, out.data[1]? = some z ∧ ∀ p, 1 ≤ p → p ≤ 8 → bitAt z p = false) ∧
          ∃ z, out.data[2]? = some z ∧ ∀ p, 1 ≤ p → p ≤ 8 → bitAt z p = decide (p = 3) := by
  obtain ⟨out, hout, helements, hintegers, -⟩ :=
    @binary_correct noPayloads .i8 (.matrix 2 2) .xor column row none none broadcasts_matrix .none
  refine ⟨out, hintegers (by simp) _ (.inl rfl), hout, ?_, ?_⟩
  . obtain ⟨x, y, z, hx, hy, hz, hbits⟩ := helements 1 (by decide)
    obtain rfl : x = IntegerType.i8.wrap 3 := by
      cases hx
      rfl
    obtain rfl : y = IntegerType.i8.wrap 3 := by
      cases hy
      rfl
    refine ⟨z, hz, fun p hpos hle => ?_⟩
    rw [hbits p hpos hle]
    exact Bool.xor_self _
  . obtain ⟨x, y, z, hx, hy, hz, hbits⟩ := helements 2 (by decide)
    obtain rfl : x = IntegerType.i8.wrap 5 := by
      cases hx
      rfl
    obtain rfl : y = IntegerType.i8.wrap 1 := by
      cases hy
      rfl
    refine ⟨z, hz, fun p hpos hle => ?_⟩
    rw [hbits p hpos hle]
    have hp : p ∈ List.range' 1 8 := List.mem_range'_1.mpr ⟨hpos, by omega⟩
    revert p
    decide

end Bitwise
end Builtins
end OpenMat
