import OpenMat.Indexing.Assign
import OpenMat.Indexing.Resolve

/-!
This module contains the correctness of the shortcuts for one scalar index: where they answer, the general
operations answer the same, and where they fail, these fail.
-/

namespace OpenMat
namespace Indexing

open Arrays (Shape DenseArray)
open Values (F32 F64 ComplexValue CharCodeUnit IntegerType IntegerArrayData ArrayData)

variable {P : Payloads} {α : Type}

theorem exists_view {index : Value P} (h : isDirectScalarIndex index = true)
    : ∃ view, IndexView.new index = some view ∧ view.numel = 1 ∧ view.isLogical = false := by
  rw [isDirectScalarIndex, Option.any_eq_true] at h
  obtain ⟨view, hview, h⟩ := h
  rw [Bool.and_eq_true, decide_eq_true_eq, Bool.not_eq_true'] at h
  exact ⟨view, hview, h.1, h.2⟩

theorem checkedScalarIndexValue_eq {index : Value P} {view : IndexView} (hview : IndexView.new index = some view)
    (hnumel : view.numel = 1) (hlogical : view.isLogical = false) (extent : Nat)
    : checkedScalarIndexValue index 0 extent false = checkedIndexAt view 0 0 extent := by
  have hscalar : ensure (¬ (view.numel ≠ 1 ∨ view.isLogical = true)) (invalidIndex 0 .nonInteger) = .ok () :=
    ensure_pos (by simp [hnumel, hlogical])
  simp only [checkedScalarIndexValue, checkCancelled_false, hview, okOr, bind, Except.bind, hscalar]

theorem checkedIndexAt_bounds {view : IndexView} {offset argument extent index : Nat}
    (h : checkedIndexAt view offset argument extent = .ok index)
    : 0 < index ∧ index ≤ extent := by
  obtain ⟨⟨value, -, n, hpos, -, rfl⟩, hle⟩ := checkedIndexAt_eq_ok_iff.mp h
  rw [u64Max] at hle ⊢
  omega

theorem numericIndices_eq {view : IndexView} (hnumel : view.numel = 1) (extent : Nat)
    : numericIndices view extent 0 false = (checkedIndexAt view 0 0 extent).map fun index => [index] := by
  rw [numericIndices, hnumel, List.range_one, List.mapM_cons, checkCancelled_false]
  cases checkedIndexAt view 0 0 extent <;> rfl

theorem resolveDimensions_scalar {index : Value P} {view : IndexView} (hview : IndexView.new index = some view)
    (hnumel : view.numel = 1) (hlogical : view.isLogical = false) (extent : Nat)
    : resolveDimensions false 0 [(.value index, extent)] =
        (checkedIndexAt view 0 0 extent).map fun oneBased =>
          [⟨[oneBased], view.dimensions, false, view.isLogical⟩] := by
  have hindices : resolveView view extent 0 false = (checkedIndexAt view 0 0 extent).map fun index => [index] := by
    rw [resolveView, if_neg (by simp [hlogical]), checkCancelled_false]
    exact numericIndices_eq hnumel extent
  simp only [resolveDimensions, resolveDimension, hview, okOr, bind, Except.bind, hindices]
  cases checkedIndexAt view 0 0 extent <;> rfl

theorem exists_scalar_result (shape : Shape) (view : IndexView) (oneBased : Nat)
    : ∃ result, Shape.new (linearResultDimensions shape ⟨[oneBased], view.dimensions, false, view.isLogical⟩) =
        .ok result := by
  rw [linearResultDimensions]
  split
  . exact ⟨_, rfl⟩
  . split
    . split <;> exact ⟨_, rfl⟩
    . split
      . exact ⟨_, rfl⟩
      . exact ⟨_, Shape.new_dimensions view.shape⟩

/-- A scalar index selects one offset. -/
theorem resolveIndices_scalar {shape : Shape} {index : Value P} {oneBased : Nat} {cancelled : Bool}
    (hdirect : isDirectScalarIndex index = true)
    (h : checkedScalarIndexValue index 0 shape.numel cancelled = .ok oneBased)
    : cancelled = false ∧ 0 < oneBased ∧ oneBased ≤ shape.numel ∧
        ∃ result, resolveIndices shape [.value index] cancelled = .ok ⟨[oneBased - 1], result⟩ := by
  obtain ⟨view, hview, hnumel, hlogical⟩ := exists_view hdirect
  cases cancelled with
  | true => cases h
  | false =>
    rw [checkedScalarIndexValue_eq hview hnumel hlogical] at h
    obtain ⟨hpos, hle⟩ := checkedIndexAt_bounds h
    obtain ⟨result, hresult⟩ := exists_scalar_result shape view oneBased
    have hoffsets : linearOffsets shape false [oneBased] = .ok [oneBased - 1] := by
      rw [linearOffsets_eq_ok_iff]
      exact ⟨by simpa using ⟨hpos, hle⟩, rfl⟩
    have hextents : shape.effectiveDimensions 1 = .ok [shape.numel] := rfl
    refine ⟨rfl, hpos, hle, result, ?_⟩
    rw [resolveIndices, ensure_pos (List.cons_ne_nil _ _), List.length_singleton, hextents]
    simp only [Except.mapError, bind, Except.bind, checkCancelled_false, List.zip_cons_cons, List.zip_nil_right,
      resolveDimensions_scalar hview hnumel hlogical, h, Except.map, resultDimensions, hresult,
      selectionOffsets, hoffsets]
    rfl

theorem resolveIndices_scalar_error {shape : Shape} {index : Value P} {cancelled : Bool} {error : RuntimeErrorKind}
    (hdirect : isDirectScalarIndex index = true)
    (h : checkedScalarIndexValue index 0 shape.numel cancelled = .error error)
    : ∃ error', resolveIndices shape [.value index] cancelled = .error error' := by
  obtain ⟨view, hview, hnumel, hlogical⟩ := exists_view hdirect
  cases cancelled with
  | true => exact ⟨_, rfl⟩
  | false =>
    rw [checkedScalarIndexValue_eq hview hnumel hlogical] at h
    have hextents : shape.effectiveDimensions 1 = .ok [shape.numel] := rfl
    refine ⟨error, ?_⟩
    rw [resolveIndices, ensure_pos (List.cons_ne_nil _ _), List.length_singleton, hextents]
    simp only [Except.mapError, bind, Except.bind, checkCancelled_false, List.zip_cons_cons, List.zip_nil_right,
      resolveDimensions_scalar hview hnumel hlogical, h, Except.map]

/-! The assignment to one offset. -/

theorem resolveIndexSelection_dimensions (shape : Shape) (arguments : List (IndexInput P)) (cancelled : Bool)
    : resolveIndexSelection shape.dimensions arguments cancelled = resolveIndices shape arguments cancelled := by
  rw [resolveIndexSelection, Shape.new_dimensions]
  rfl

theorem indexAssign_array (data : ArrayData) (arguments : List (IndexInput P)) (value : Value P) (cancelled : Bool)
    : indexAssign (.array data) arguments value cancelled =
        resolveIndices data.shape arguments cancelled >>= fun resolved =>
          assignSelected (.array data) resolved value cancelled := by
  rw [← resolveIndexSelection_dimensions]
  cases data <;> rfl

theorem setElement_eq_ok {array : DenseArray α} {oneBased : Nat} (value : α) (hpos : 0 < oneBased)
    (hle : oneBased ≤ array.shape.numel)
    : ∃ assigned, setElement array oneBased value = .ok assigned := by
  obtain ⟨assigned, hassigned, -⟩ := DenseArray.setLinear_eq_ok value hpos hle
  exact ⟨assigned, by rw [setElement, hassigned]; rfl⟩

theorem writeElements_singleton {source : Nat → Except RuntimeErrorKind α} {supplied oneBased : Nat}
    {array assigned : DenseArray α} {value : α} (hsource : source 0 = .ok value) (hpos : 0 < oneBased)
    (h : setElement array oneBased value = .ok assigned)
    : writeElements source supplied false array [oneBased - 1] = .ok assigned := by
  have hindex : oneBased - 1 + 1 = oneBased := Nat.sub_add_cancel hpos
  have hfirst : (if supplied = 1 then 0 else 0) = 0 := by split <;> rfl
  rw [writeElements, List.zipIdx_singleton, List.foldlM_cons]
  simp only [checkCancelled_false, bind, Except.bind, hfirst, hsource, hindex, h]
  rfl

theorem assignmentLength_eq_ok {supplied : Nat} (h : supplied = 1) (selected : Nat)
    : assignmentLength supplied selected = .ok () :=
  ensure_pos (.inl h)

theorem assignmentLength_error {supplied : Nat} (h : supplied ≠ 1)
    : ∃ error, assignmentLength supplied 1 = .error error := by
  rw [assignmentLength, ensure, if_neg (by simp [h])]
  exact ⟨_, rfl⟩

theorem writeSelected_scalar {supplied offset : Nat} (h : supplied = 1) (target : α)
    (write : Except RuntimeErrorKind α)
    : writeSelected supplied [offset] target write = write := by
  rw [writeSelected, assignmentLength_eq_ok h]
  rfl

theorem writeSelected_error {supplied : Nat} (h : supplied ≠ 1) (offset : Nat) (target : α)
    (write : Except RuntimeErrorKind α)
    : ∃ error, writeSelected supplied [offset] target write = .error error := by
  obtain ⟨error, herror⟩ := assignmentLength_error h
  rw [writeSelected, List.length_singleton, herror]
  exact ⟨error, rfl⟩

theorem array_ne_panics (error : ArrayRuntimeError)
    : RuntimeErrorKind.array error ≠ .panics := by
  rintro ⟨⟩

theorem requireScalar_error {supplied : Nat} {error : RuntimeErrorKind} (h : requireScalar supplied = .error error)
    : supplied ≠ 1 ∧ error ≠ .panics := by
  rw [requireScalar, ensure] at h
  split at h
  . cases h
  . rename_i hne
    cases h
    exact ⟨hne, array_ne_panics _⟩

theorem requireScalar_eq_ok {supplied : Nat} (h : requireScalar supplied = .ok ())
    : supplied = 1 :=
  ensure_eq_ok_iff.mp h

/-! Operations in place. -/

namespace InPlace

variable {β : Type} {f : α → InPlace P β}

/-- What is returned, and the target that is left. -/
def on (x : InPlace P β) (target : Value P) : Except RuntimeErrorKind β × Value P :=
  Id.run (StateT.run (ExceptT.run x) target)

theorem on_ok {x : Except RuntimeErrorKind α} {a : α} (h : x = .ok a) (target : Value P)
    : on (liftM x >>= f) target = (f a).on target := by
  subst h
  rfl

theorem on_error {x : Except RuntimeErrorKind α} {error : RuntimeErrorKind} (h : x = .error error)
    (target : Value P)
    : on (liftM x >>= f) target = (.error error, target) := by
  subst h
  rfl

theorem on_assign {array assigned : DenseArray α} {oneBased : Nat} {element : α}
    (wrap : DenseArray α → ArrayData) (h : setElement array oneBased element = .ok assigned) (b : β)
    (target : Value P)
    : on (do assignInPlace array wrap oneBased element; return b) target =
        (.ok b, .array (wrap assigned)) := by
  simp only [assignInPlace, h]
  rfl

end InPlace

/-- The shortcut answers what the general operation answers, and changes nothing where it does not answer. -/
def Agrees (target : Value P) (general : Except RuntimeErrorKind (Value P))
    : Except RuntimeErrorKind Bool × Value P → Prop
  | (.ok true, left) => general = .ok left
  | (.ok false, left) => left = target
  | (.error error, left) => left = target ∧ error ≠ .panics ∧ ∃ error', general = .error error'

section Agreement

variable {index value : Value P} {cancelled : Bool} {data : ArrayData}

/-- No access fails that is expected to succeed. -/
abbrev Quiet (x : Except RuntimeErrorKind α) : Prop := Raises (fun error => error ≠ .panics) x

theorem quiet_ensure {p : Prop} [Decidable p] {error : RuntimeErrorKind} (h : error ≠ .panics)
    : Quiet (ensure p error) := by
  rw [ensure]
  split
  . exact .ok
  . exact .error h

theorem quiet_checkedFloatIndex (value : Floats.FloatValue) (argument : Nat)
    : Quiet (checkedFloatIndex value (invalidIndex argument)) :=
  .bind (quiet_ensure (array_ne_panics _)) fun _ _ => .bind (quiet_ensure (array_ne_panics _)) fun _ _ =>
    .bind (quiet_ensure (array_ne_panics _)) fun _ _ => .ok

theorem exists_getElem? (array : DenseArray α) {offset : Nat} (h : offset < array.shape.numel)
    : ∃ a, array.data[offset]? = some a := by
  rw [← array.length_data] at h
  exact ⟨_, List.getElem?_eq_getElem h⟩

theorem exists_first (array : DenseArray α) (h : array.shape.numel = 1)
    : ∃ a, array.data[0]? = some a :=
  exists_getElem? array (h ▸ Nat.one_pos)

theorem quiet_indexAt {view : IndexView} (hnumel : view.numel = 1) (argument extent : Nat)
    : Quiet (indexAt view 0 argument extent) := by
  cases view with
  | realScalar value => exact quiet_checkedFloatIndex _ argument
  | realArray array =>
    obtain ⟨a, ha⟩ := exists_first array hnumel
    rw [indexAt, ha]
    exact quiet_checkedFloatIndex _ argument
  | singleRealArray array =>
    obtain ⟨a, ha⟩ := exists_first array hnumel
    rw [indexAt, ha]
    exact quiet_checkedFloatIndex _ argument
  | char array =>
    obtain ⟨a, ha⟩ := exists_first array hnumel
    rw [indexAt, ha]
    exact .ok
  | integer integers =>
    cases integers with
    | real type array =>
      obtain ⟨a, ha⟩ := exists_first array hnumel
      rw [indexAt, ha]
      refine .bind .ok fun _ _ => .bind (quiet_ensure (array_ne_panics _)) fun _ _ => ?_
      rw [okOr.eq_def]
      split
      . exact .ok
      . exact .error (array_ne_panics _)
    | complex type array => exact .error (array_ne_panics _)
  | logicalScalar _ | complexScalar | logicalArray _ | complexArray _ | singleComplexArray _ =>
    exact .error (array_ne_panics _)

theorem checkedScalarIndexValue_ne_panics {extent : Nat} {error : RuntimeErrorKind}
    (hdirect : isDirectScalarIndex index = true)
    (h : checkedScalarIndexValue index 0 extent cancelled = .error error)
    : error ≠ .panics := by
  obtain ⟨view, hview, hnumel, hlogical⟩ := exists_view hdirect
  cases cancelled with
  | true =>
    cases h
    rintro ⟨⟩
  | false =>
    rw [checkedScalarIndexValue_eq hview hnumel hlogical] at h
    have hquiet : Quiet (checkedIndexAt view 0 0 extent) :=
      .bind (quiet_indexAt hnumel 0 extent) fun _ _ => .bind (quiet_ensure (array_ne_panics _)) fun _ _ =>
        .bind (quiet_ensure (array_ne_panics _)) fun _ _ => .ok
    exact hquiet error h

/-- A failure before the index is looked at. -/
theorem agrees_of_error (hdirect : isDirectScalarIndex index = true) {error : RuntimeErrorKind}
    (hpanics : error ≠ .panics)
    (h : ∀ offset result, ∃ error', assignSelected (.array data) ⟨[offset], result⟩ value false = .error error')
    : Agrees (.array data) (indexAssign (.array data) [.value index] value cancelled)
        (.error error, .array data) := by
  refine ⟨rfl, hpanics, ?_⟩
  rw [indexAssign_array]
  cases hindex : checkedScalarIndexValue index 0 data.shape.numel cancelled with
  | error error' =>
    obtain ⟨error', herror⟩ := resolveIndices_scalar_error hdirect hindex
    exact ⟨error', by rw [herror]; rfl⟩
  | ok oneBased =>
    obtain ⟨rfl, -, -, result, hresult⟩ := resolveIndices_scalar hdirect hindex
    rw [hresult]
    exact h _ _

theorem agrees_of_index (data : ArrayData) (hdirect : isDirectScalarIndex index = true)
    {write : Nat → InPlace P Bool}
    (h : ∀ oneBased result, 0 < oneBased → oneBased ≤ data.shape.numel →
      Agrees (.array data) (assignSelected (.array data) ⟨[oneBased - 1], result⟩ value false)
        ((write oneBased).on (.array data)))
    : Agrees (.array data) (indexAssign (.array data) [.value index] value cancelled)
        (InPlace.on (liftM (checkedScalarIndexValue index 0 data.shape.numel cancelled) >>= write)
          (.array data)) := by
  rw [indexAssign_array]
  cases hindex : checkedScalarIndexValue index 0 data.shape.numel cancelled with
  | error error =>
    rw [InPlace.on_error rfl]
    obtain ⟨error', herror⟩ := resolveIndices_scalar_error hdirect hindex
    exact ⟨rfl, checkedScalarIndexValue_ne_panics hdirect hindex, error', by rw [herror]; rfl⟩
  | ok oneBased =>
    rw [InPlace.on_ok rfl]
    obtain ⟨rfl, hpos, hle, result, hresult⟩ := resolveIndices_scalar hdirect hindex
    rw [hresult]
    exact h oneBased result hpos hle

/-- The write of one element. -/
theorem agrees_of_write {β : Type} {array : DenseArray α} (wrap : DenseArray α → ArrayData) {oneBased : Nat}
    {result : Shape} {element : Except RuntimeErrorKind β} {b : β} (helement : element = .ok b) (convert : β → α)
    (hpos : 0 < oneBased) (hle : oneBased ≤ array.shape.numel)
    (h : ∀ assigned, setElement array oneBased (convert b) = .ok assigned →
      assignSelected (.array data) ⟨[oneBased - 1], result⟩ value false = .ok (.array (wrap assigned)))
    : Agrees (.array data) (assignSelected (.array data) ⟨[oneBased - 1], result⟩ value false)
        (InPlace.on (liftM element >>= fun b => do
          assignInPlace array wrap oneBased (convert b)
          return true) (.array data)) := by
  obtain ⟨assigned, hassigned⟩ := setElement_eq_ok (convert b) hpos hle
  rw [InPlace.on_ok helement, InPlace.on_assign wrap hassigned]
  exact h assigned hassigned

/-! Numeric and logical arrays. -/

theorem checkedNumericScalar_eq_ok {supplied : NumericView} (h : checkedNumericScalar value = .ok supplied)
    : NumericView.new "indexed assignment value" value = .ok supplied ∧ supplied.numel = 1 := by
  rw [checkedNumericScalar, bind_eq_ok_iff] at h
  obtain ⟨view, hview, h⟩ := h
  obtain ⟨_, hnumel, h⟩ := bind_eq_ok_iff.mp h
  cases h
  exact ⟨hview, requireScalar_eq_ok hnumel⟩

theorem numericView_error {operation : String} {error : RuntimeErrorKind}
    (h : NumericView.new operation value = .error error)
    : error ≠ .panics := by
  rw [NumericView.new.eq_def] at h
  split at h <;> cases h
  exact array_ne_panics _

theorem checkedNumericScalar_error {error : RuntimeErrorKind} (h : checkedNumericScalar value = .error error)
    : error ≠ .panics ∧ ∀ (target : Value P) offset result,
        ∃ error', indexAssignNumeric target ⟨[offset], result⟩ value false = .error error' := by
  rw [checkedNumericScalar] at h
  cases hview : NumericView.new "indexed assignment value" value with
  | error error' =>
    rw [hview] at h
    cases h
    refine ⟨numericView_error hview, fun target offset result => ⟨error, ?_⟩⟩
    rw [indexAssignNumeric, hview]
    rfl
  | ok view =>
    rw [hview] at h
    cases hscalar : requireScalar view.numel with
    | ok u =>
      simp only [bind, Except.bind, hscalar] at h
      cases h
    | error error' =>
      simp only [bind, Except.bind, hscalar, Except.error.injEq] at h
      subst h
      obtain ⟨hne, hpanics⟩ := requireScalar_error hscalar
      refine ⟨hpanics, fun target offset result => ?_⟩
      rw [indexAssignNumeric, hview]
      exact writeSelected_error hne offset _ _

theorem exists_complexElement {supplied : NumericView} (h : supplied.numel = 1)
    : ∃ a, supplied.complexElement 0 = .ok a := by
  have hat : ∃ a, supplied.complexAt 0 = some a := by
    cases supplied with
    | logicalScalar _ | realScalar _ | complexScalar _ => exact ⟨_, rfl⟩
    | logicalArray array | realArray array | complexArray array =>
      obtain ⟨a, ha⟩ := exists_first array h
      simp [NumericView.complexAt, ha]
  obtain ⟨a, ha⟩ := hat
  exact ⟨a, by rw [NumericView.complexElement, ha]; rfl⟩

theorem exists_realElement {supplied : NumericView} (h : supplied.numel = 1)
    (hcomplex : ¬ supplied.isComplex = true)
    : ∃ a, supplied.realElement 0 = .ok a := by
  have hat : ∃ a, supplied.realAt 0 = some a := by
    cases supplied with
    | logicalScalar _ | realScalar _ => exact ⟨_, rfl⟩
    | complexScalar _ | complexArray _ => exact absurd rfl hcomplex
    | logicalArray array | realArray array =>
      obtain ⟨a, ha⟩ := exists_first array h
      exact ⟨_, by rw [NumericView.realAt, NumericView.complexAt, ha]; rfl⟩
  obtain ⟨a, ha⟩ := hat
  exact ⟨a, by rw [NumericView.realElement, ha]; rfl⟩

theorem indexAssignNumeric_scalar {supplied : NumericView}
    (hview : NumericView.new "indexed assignment value" value = .ok supplied) (hnumel : supplied.numel = 1)
    {target : Value P} {owned assigned : ArrayData} {offset : Nat} {result : Shape}
    (howned : ownedAssignmentArray target supplied.isComplex false = .ok owned)
    (h : assignNumeric owned supplied ⟨[offset], result⟩ false = .ok assigned)
    : indexAssignNumeric target ⟨[offset], result⟩ value false = .ok (.array assigned) := by
  rw [indexAssignNumeric, hview]
  simp only [bind, Except.bind, writeSelected_scalar hnumel, howned, h]
  rfl

theorem agrees_f64 (array : DenseArray F64) (hdirect : isDirectScalarIndex index = true)
    : Agrees (.array (.f64 array)) (indexAssign (.array (.f64 array)) [.value index] value cancelled)
        ((tryIndexAssignScalarInPlace index value cancelled).on (.array (.f64 array))) := by
  have hrun : (tryIndexAssignScalarInPlace index value cancelled).on (.array (.f64 array)) =
      InPlace.on (liftM (checkedNumericScalar value) >>= fun supplied =>
        if supplied.isComplex = true then return false else do
          let oneBased ← checkedScalarIndexValue index 0 array.shape.numel cancelled
          let element ← supplied.realElement 0
          assignInPlace array .f64 oneBased element
          return true) (.array (.f64 array)) := by
    rw [tryIndexAssignScalarInPlace, hdirect]
    rfl
  rw [hrun]
  cases hsupplied : checkedNumericScalar value with
  | error error =>
    obtain ⟨hpanics, herror⟩ := checkedNumericScalar_error hsupplied
    rw [InPlace.on_error rfl]
    exact agrees_of_error hdirect hpanics (herror _)
  | ok supplied =>
    rw [InPlace.on_ok rfl]
    obtain ⟨hview, hnumel⟩ := checkedNumericScalar_eq_ok hsupplied
    by_cases hcomplex : supplied.isComplex = true
    . -- the array would have to be promoted
      rw [if_pos hcomplex]
      exact rfl
    . rw [if_neg hcomplex]
      obtain ⟨element, helement⟩ := exists_realElement hnumel hcomplex
      apply agrees_of_index (.f64 array) hdirect
      intro oneBased result hpos hle
      apply agrees_of_write .f64 helement id hpos hle
      intro assigned hassigned
      have howned : ownedAssignmentArray (.array (.f64 array) : Value P) supplied.isComplex false =
          .ok (.f64 array) := by
        rw [Bool.eq_false_iff.mpr hcomplex]
        rfl
      apply indexAssignNumeric_scalar hview hnumel howned
      rw [assignNumeric, writeElements_singleton helement hpos hassigned]
      rfl

/-- The arrays to which every number is written. -/
theorem agrees_of_numeric {array : DenseArray α} (wrap : DenseArray α → ArrayData) (convert : ComplexValue F64 → α)
    (hdirect : isDirectScalarIndex index = true)
    (hrun : (tryIndexAssignScalarInPlace index value cancelled).on (.array (wrap array)) =
      InPlace.on (liftM (checkedNumericScalar value) >>= fun supplied => do
        let oneBased ← checkedScalarIndexValue index 0 (wrap array).shape.numel cancelled
        let element ← supplied.complexElement 0
        assignInPlace array wrap oneBased (convert element)
        return true) (.array (wrap array)))
    (hshape : (wrap array).shape = array.shape)
    (hselected : ∀ selection, assignSelected (.array (wrap array)) selection value false =
      indexAssignNumeric (.array (wrap array)) selection value false)
    (howned : ∀ complex, ownedAssignmentArray (.array (wrap array) : Value P) complex false = .ok (wrap array))
    (hassign : ∀ supplied selection, assignNumeric (wrap array) supplied selection false =
      (writeElements (fun source => (supplied.complexElement source).map convert) supplied.numel false array
        selection.offsets).map wrap)
    : Agrees (.array (wrap array)) (indexAssign (.array (wrap array)) [.value index] value cancelled)
        ((tryIndexAssignScalarInPlace index value cancelled).on (.array (wrap array))) := by
  rw [hrun]
  cases hsupplied : checkedNumericScalar value with
  | error error =>
    obtain ⟨hpanics, herror⟩ := checkedNumericScalar_error hsupplied
    rw [InPlace.on_error rfl]
    refine agrees_of_error hdirect hpanics fun offset result => ?_
    rw [hselected]
    exact herror _ offset result
  | ok supplied =>
    rw [InPlace.on_ok rfl]
    obtain ⟨hview, hnumel⟩ := checkedNumericScalar_eq_ok hsupplied
    obtain ⟨element, helement⟩ := exists_complexElement hnumel
    have hconvert : (supplied.complexElement 0).map convert = .ok (convert element) := by
      rw [helement]
      rfl
    apply agrees_of_index (wrap array) hdirect
    intro oneBased result hpos hle
    rw [hshape] at hle
    apply agrees_of_write wrap helement convert hpos hle
    intro assigned hassigned
    rw [hselected]
    apply indexAssignNumeric_scalar hview hnumel (howned _)
    rw [hassign, writeElements_singleton hconvert hpos hassigned]
    rfl

theorem map_id_complexElement (supplied : NumericView)
    : (fun source => (supplied.complexElement source).map id) = supplied.complexElement := by
  funext source
  cases supplied.complexElement source <;> rfl

theorem agrees_complexF64 (array : DenseArray (ComplexValue F64)) (hdirect : isDirectScalarIndex index = true)
    : Agrees (.array (.complexF64 array)) (indexAssign (.array (.complexF64 array)) [.value index] value cancelled)
        ((tryIndexAssignScalarInPlace index value cancelled).on (.array (.complexF64 array))) := by
  apply agrees_of_numeric .complexF64 id hdirect
  . rw [tryIndexAssignScalarInPlace, hdirect]
    rfl
  . rfl
  . exact fun _ => rfl
  . exact fun _ => rfl
  . intro supplied selection
    rw [map_id_complexElement]
    rfl

theorem agrees_logical (array : DenseArray Bool) (hdirect : isDirectScalarIndex index = true)
    : Agrees (.array (.logical array)) (indexAssign (.array (.logical array)) [.value index] value cancelled)
        ((tryIndexAssignScalarInPlace index value cancelled).on (.array (.logical array))) := by
  apply agrees_of_numeric .logical nonzero hdirect
  . rw [tryIndexAssignScalarInPlace, hdirect]
    rfl
  . rfl
  . exact fun _ => rfl
  . exact fun _ => rfl
  . exact fun _ _ => rfl

/-! Arrays of single precision and of integers. -/

theorem agrees_of_required (data : ArrayData) {numel : Nat} {write : Nat → InPlace P Bool}
    (hdirect : isDirectScalarIndex index = true)
    (hfail : numel ≠ 1 → ∀ offset result,
      ∃ error', assignSelected (.array data) ⟨[offset], result⟩ value false = .error error')
    (h : numel = 1 → ∀ oneBased result, 0 < oneBased → oneBased ≤ data.shape.numel →
      Agrees (.array data) (assignSelected (.array data) ⟨[oneBased - 1], result⟩ value false)
        ((write oneBased).on (.array data)))
    : Agrees (.array data) (indexAssign (.array data) [.value index] value cancelled)
        (InPlace.on (liftM (requireScalar numel) >>= fun _ =>
          liftM (checkedScalarIndexValue index 0 data.shape.numel cancelled) >>= write) (.array data)) := by
  cases hscalar : requireScalar numel with
  | error error =>
    obtain ⟨hne, hpanics⟩ := requireScalar_error hscalar
    rw [InPlace.on_error rfl]
    exact agrees_of_error hdirect hpanics (hfail hne)
  | ok u =>
    rw [InPlace.on_ok rfl]
    exact agrees_of_index data hdirect (h (requireScalar_eq_ok hscalar))

theorem exists_elementAt_zero {array : DenseArray α} (h : array.shape.numel = 1)
    : ∃ a, elementAt array 0 = .ok a := by
  obtain ⟨a, ha⟩ := exists_first array h
  exact ⟨a, by rw [elementAt, ha]; rfl⟩

theorem writeSame_scalar {target supplied assigned : DenseArray α} {a : α} {oneBased : Nat} {result : Shape}
    (h : elementAt supplied 0 = .ok a) (hpos : 0 < oneBased) (hset : setElement target oneBased a = .ok assigned)
    : writeSame target supplied ⟨[oneBased - 1], result⟩ false = .ok assigned :=
  writeElements_singleton h hpos hset

theorem writeRealIntoComplex_scalar {zero : α} {target assigned : DenseArray (ComplexValue α)}
    {supplied : DenseArray α} {a : α} {oneBased : Nat} {result : Shape} (h : elementAt supplied 0 = .ok a)
    (hpos : 0 < oneBased) (hset : setElement target oneBased ⟨a, zero⟩ = .ok assigned)
    : writeRealIntoComplex zero target supplied ⟨[oneBased - 1], result⟩ false = .ok assigned := by
  have hsource : (elementAt supplied 0).map (fun value => (⟨value, zero⟩ : ComplexValue α)) = .ok ⟨a, zero⟩ := by
    rw [h]
    rfl
  exact writeElements_singleton hsource hpos hset

theorem singleOf_cases {supplied : ArrayData} (h : singleOf value = some supplied)
    : (∃ array, supplied = .f32 array) ∨ ∃ array, supplied = .complexF32 array := by
  rw [singleOf.eq_def] at h
  split at h
  . cases h
    exact .inl ⟨_, rfl⟩
  . cases h
    exact .inr ⟨_, rfl⟩
  . cases h

theorem indexAssignSingle_error {supplied : ArrayData} (h : singleOf value = some supplied)
    (hne : supplied.shape.numel ≠ 1) (offset : Nat) (result : Shape)
    : ∃ error', indexAssignSingle data ⟨[offset], result⟩ value false = .error error' := by
  obtain ⟨error, herror⟩ := writeSelected_error hne offset data (writeSingle data supplied ⟨[offset], result⟩ false)
  refine ⟨error, ?_⟩
  simp only [indexAssignSingle, h, okOr, bind, Except.bind, assignSingleArray, herror]

theorem indexAssignSingle_eq_ok {supplied assigned : ArrayData} (h : singleOf value = some supplied)
    (hnumel : supplied.shape.numel = 1) {offset : Nat} {result : Shape}
    (hwrite : writeSingle data supplied ⟨[offset], result⟩ false = .ok assigned)
    : indexAssignSingle data ⟨[offset], result⟩ value false = .ok (.array assigned) := by
  simp only [indexAssignSingle, h, okOr, bind, Except.bind, assignSingleArray, writeSelected_scalar hnumel, hwrite]
  rfl

theorem agrees_single
    (hrun : (tryIndexAssignScalarInPlace index value cancelled).on (.array data) =
      (tryIndexAssignSingleScalar data index value cancelled).on (.array data))
    (hselected : ∀ selection, assignSelected (.array data) selection value false =
      indexAssignSingle data selection value false)
    (hdata : (∃ array, data = .f32 array) ∨ ∃ array, data = .complexF32 array)
    (hdirect : isDirectScalarIndex index = true)
    : Agrees (.array data) (indexAssign (.array data) [.value index] value cancelled)
        ((tryIndexAssignScalarInPlace index value cancelled).on (.array data)) := by
  rw [hrun, tryIndexAssignSingleScalar]
  cases hsupplied : singleOf value with
  | none => exact rfl
  | some supplied =>
    apply agrees_of_required data hdirect
    . intro hne offset result
      rw [hselected]
      exact indexAssignSingle_error hsupplied hne offset result
    . intro hnumel oneBased result hpos hle
      obtain ⟨target, rfl⟩ | ⟨target, rfl⟩ := hdata <;>
        obtain ⟨array, rfl⟩ | ⟨array, rfl⟩ := singleOf_cases hsupplied
      . obtain ⟨a, ha⟩ := exists_elementAt_zero hnumel
        apply agrees_of_write .f32 ha id hpos hle
        intro assigned hassigned
        rw [hselected]
        apply indexAssignSingle_eq_ok hsupplied hnumel
        rw [writeSingle, writeSame_scalar ha hpos hassigned]
        rfl
      . -- the array would have to be promoted
        exact rfl
      . obtain ⟨a, ha⟩ := exists_elementAt_zero hnumel
        apply agrees_of_write .complexF32 ha (fun a => ⟨a, 0⟩) hpos hle
        intro assigned hassigned
        rw [hselected]
        apply indexAssignSingle_eq_ok hsupplied hnumel
        rw [writeSingle, writeRealIntoComplex_scalar ha hpos hassigned]
        rfl
      . obtain ⟨a, ha⟩ := exists_elementAt_zero hnumel
        apply agrees_of_write .complexF32 ha id hpos hle
        intro assigned hassigned
        rw [hselected]
        apply indexAssignSingle_eq_ok hsupplied hnumel
        rw [writeSingle, writeSame_scalar ha hpos hassigned]
        rfl

theorem integersOf_cases (type : IntegerType) (supplied : IntegerArrayData)
    : (∃ array, supplied = .real type array) ∨ (∃ array, supplied = .complex type array) ∨
        integersOf type supplied = none := by
  cases supplied with
  | real type' array =>
    by_cases h : type' = type
    . subst h
      exact .inl ⟨array, rfl⟩
    . exact .inr (.inr (dif_neg h))
  | complex type' array =>
    by_cases h : type' = type
    . subst h
      exact .inr (.inl ⟨array, rfl⟩)
    . exact .inr (.inr (dif_neg h))

theorem integersOf_real {type : IntegerType} (array : DenseArray type.Element)
    : integersOf type (.real type array) = some (.inl array) :=
  dif_pos rfl

theorem integersOf_complex {type : IntegerType} (array : DenseArray (ComplexValue type.Element))
    : integersOf type (.complex type array) = some (.inr array) :=
  dif_pos rfl

section Integer

variable {target supplied : IntegerArrayData}

theorem assignInteger_error (h : integerOf value = some supplied) (hne : supplied.shape.numel ≠ 1) (offset : Nat)
    (result : Shape)
    : ∃ error', assignSelected (.array (.integer target)) ⟨[offset], result⟩ value false = .error error' := by
  obtain ⟨error, herror⟩ := assignmentLength_error hne
  refine ⟨error, ?_⟩
  simp only [assignSelected, h, okOr, bind, Except.bind, assignIntegerArray, List.length_singleton, herror]

theorem assignInteger_eq_ok (h : integerOf value = some supplied) (hnumel : supplied.shape.numel = 1) {offset : Nat}
    {result : Shape} {assigned : IntegerArrayData}
    (hwrite : writeInteger target supplied ⟨[offset], result⟩ false = .ok assigned)
    : assignSelected (.array (.integer target)) ⟨[offset], result⟩ value false =
        .ok (.array (.integer assigned)) := by
  simp only [assignSelected, h, okOr, bind, Except.bind, assignIntegerArray, assignmentLength_eq_ok hnumel,
    if_neg (List.cons_ne_nil _ _), hwrite]
  rfl

theorem agrees_integer (hdirect : isDirectScalarIndex index = true)
    : Agrees (.array (.integer target)) (indexAssign (.array (.integer target)) [.value index] value cancelled)
        ((tryIndexAssignScalarInPlace index value cancelled).on (.array (.integer target))) := by
  have hrun : (tryIndexAssignScalarInPlace index value cancelled).on (.array (.integer target)) =
      InPlace.on ((integerOf value).elim (return false) fun supplied => do
        requireScalar supplied.shape.numel
        let oneBased ← checkedScalarIndexValue index 0 target.shape.numel cancelled
        tryAssignIntegerScalarInPlace target supplied oneBased) (.array (.integer target)) := by
    rw [tryIndexAssignScalarInPlace, hdirect]
    cases integerOf value <;> rfl
  rw [hrun]
  cases hsupplied : integerOf value with
  | none => exact rfl
  | some supplied =>
    apply agrees_of_required (.integer target) hdirect
    . intro hne offset result
      exact assignInteger_error hsupplied hne offset result
    . intro hnumel oneBased result hpos hle
      cases target with
      | real type target =>
        obtain ⟨array, rfl⟩ | ⟨array, rfl⟩ | hnone := integersOf_cases type supplied
        . obtain ⟨a, ha⟩ := exists_elementAt_zero hnumel
          rw [tryAssignIntegerScalarInPlace, integersOf_real]
          apply agrees_of_write (.integer ∘ .real type) ha id hpos hle
          intro assigned hassigned
          apply assignInteger_eq_ok hsupplied hnumel
          rw [writeInteger, integersOf_real]
          simp only [writeSame_scalar ha hpos hassigned]
          rfl
        . rw [tryAssignIntegerScalarInPlace, integersOf_complex]
          exact rfl
        . rw [tryAssignIntegerScalarInPlace, hnone]
          exact rfl
      | complex type target =>
        obtain ⟨array, rfl⟩ | ⟨array, rfl⟩ | hnone := integersOf_cases type supplied
        . obtain ⟨a, ha⟩ := exists_elementAt_zero hnumel
          rw [tryAssignIntegerScalarInPlace, integersOf_real]
          apply agrees_of_write (.integer ∘ .complex type) ha (fun a => ⟨a, integerZero type⟩) hpos hle
          intro assigned hassigned
          apply assignInteger_eq_ok hsupplied hnumel
          rw [writeInteger, integersOf_real]
          simp only [writeRealIntoComplex_scalar ha hpos hassigned]
          rfl
        . obtain ⟨a, ha⟩ := exists_elementAt_zero hnumel
          rw [tryAssignIntegerScalarInPlace, integersOf_complex]
          apply agrees_of_write (.integer ∘ .complex type) ha id hpos hle
          intro assigned hassigned
          apply assignInteger_eq_ok hsupplied hnumel
          rw [writeInteger, integersOf_complex]
          simp only [writeSame_scalar ha hpos hassigned]
          rfl
        . rw [tryAssignIntegerScalarInPlace, hnone]
          exact rfl

end Integer

end Agreement

theorem tryIndexAssignScalarInPlace_agrees (target index value : Value P) (cancelled : Bool)
    : Agrees target (indexAssign target [.value index] value cancelled)
        ((tryIndexAssignScalarInPlace index value cancelled).on target) := by
  cases hdirect : isDirectScalarIndex index with
  | false =>
    rw [tryIndexAssignScalarInPlace, hdirect]
    exact rfl
  | true =>
    cases target with
    | array data =>
      cases data with
      | f64 array => exact agrees_f64 array hdirect
      | complexF64 array => exact agrees_complexF64 array hdirect
      | logical array => exact agrees_logical array hdirect
      | f32 array =>
        apply agrees_single _ (fun _ => rfl) (.inl ⟨array, rfl⟩) hdirect
        rw [tryIndexAssignScalarInPlace, hdirect]
        rfl
      | complexF32 array =>
        apply agrees_single _ (fun _ => rfl) (.inr ⟨array, rfl⟩) hdirect
        rw [tryIndexAssignScalarInPlace, hdirect]
        rfl
      | integer integers => exact agrees_integer hdirect
      | char array =>
        rw [tryIndexAssignScalarInPlace, hdirect]
        exact rfl
    | _ =>
      rw [tryIndexAssignScalarInPlace, hdirect]
      exact rfl

/-- The shortcut reads what the general operation reads. -/
def ReadAgrees (general : Except RuntimeErrorKind (Value P)) : Except RuntimeErrorKind (Option (Value P)) → Prop
  | .ok (some value) => general = .ok value
  | .ok none => True
  | .error error => error ≠ .panics ∧ ∃ error', general = .error error'

theorem tryIndexRealScalar_agrees
    (indexSparse : P.sparse → List (IndexInput P) → Bool → Except RuntimeErrorKind (Value P))
    (target index : Value P) (cancelled : Bool)
    : ReadAgrees (Indexing.index indexSparse target [.value index] cancelled)
        (tryIndexRealScalar target index cancelled) := by
  rw [tryIndexRealScalar.eq_def]
  split
  . next array =>
    have hgeneral : Indexing.index indexSparse (.array (.f64 array)) [.value index] cancelled =
        resolveIndices array.shape [.value index] cancelled >>= fun resolved =>
          gather (.realArray array) resolved cancelled := by
      rw [← resolveIndexSelection_dimensions]
      rfl
    rw [hgeneral]
    split
    . next hdirect =>
      cases hindex : checkedScalarIndexValue index 0 array.shape.numel cancelled with
      | error error =>
        obtain ⟨error', herror⟩ := resolveIndices_scalar_error hdirect hindex
        rw [herror]
        exact ⟨checkedScalarIndexValue_ne_panics hdirect hindex, error', rfl⟩
      | ok oneBased =>
        obtain ⟨rfl, hpos, hle, result, hresult⟩ := resolveIndices_scalar hdirect hindex
        have hlt : oneBased - 1 < array.data.length := by
          rw [array.length_data]
          omega
        have helement : elementAt array (oneBased - 1) = .ok array.data[oneBased - 1] := by
          rw [elementAt, List.getElem?_eq_getElem hlt]
          rfl
        rw [hresult]
        simp only [bind, Except.bind, helement, gather]
        exact rfl
    . exact trivial
  . exact trivial

/--
Where the shortcuts for one scalar index answer, the general operations answer the same. Where the shortcut of
the assignment does not answer or fails, the target is what it was, and where a shortcut fails, it does not
panic, and the general operation fails.
-/
theorem scalarShortcuts_correct
    (indexSparse : P.sparse → List (IndexInput P) → Bool → Except RuntimeErrorKind (Value P))
    (target index value : Value P) (cancelled : Bool)
    : Agrees target (indexAssign target [.value index] value cancelled)
        ((tryIndexAssignScalarInPlace index value cancelled).on target) ∧
      ReadAgrees (Indexing.index indexSparse target [.value index] cancelled)
        (tryIndexRealScalar target index cancelled) :=
  ⟨tryIndexAssignScalarInPlace_agrees target index value cancelled,
    tryIndexRealScalar_agrees indexSparse target index cancelled⟩

end Indexing
end OpenMat
