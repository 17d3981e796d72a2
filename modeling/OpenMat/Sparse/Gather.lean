import OpenMat.Arrays.Shape
import OpenMat.Sparse.Layout
import OpenMat.Sparse.Relayout

/-!
This module contains the structural operations that read a whole matrix in another order: gathering elements at
offsets, reshaping and transposing.
-/

namespace OpenMat
namespace Sparse

variable {R V : Type}

def resultCoordinate (rows position : Nat) : Fallible (Nat × Nat) := do
  let offset ← checkedU64 position
  return (offset % rows, offset / rows)

def columnMajorOffset (row column rows : Nat) : Fallible Nat :=
  if row + column * rows ≤ u64Max then return row + column * rows else throw .offsetOverflow

def Complex64.conjugate [Neg R] (value : Complex64 R) : Complex64 R := ⟨value.re, -value.im⟩

def CscMatrix.tryTranspose {T U : Type} [CscElement U] (m : CscMatrix T) (transform : T → U)
    : Fallible (CscMatrix U) := do
  allocate "transpose COO" m.nnz
  let entries ← collect (fun e => return [⟨e.column, e.row, transform e.value⟩]) 0 m.entries
  tryFromCoo m.columns m.rows entries m.reservedNnz

namespace SparseArrayData

variable [Zero R] [One R] [Add R] [Double R] [DecidableEq R]

/-- Reading an element keeps the class of the storage, so that `convert` only unwraps it. -/
def gatheredEntries (storage : String) (convert : SparseScalarValue R → V) (d : SparseArrayData R)
    (offsets : List Nat) (rows : Nat) : Fallible (List (CooEntry V)) := do
  allocate storage offsets.length
  collect (fun (offset, position) => do
    let offset ← checkedU64 offset
    let value ← d.elementAtOffset offset
    if nonzero value then
      let (row, column) ← resultCoordinate rows position
      return [⟨row, column, convert value⟩]
    else
      return []) 0 offsets.zipIdx

def tryGatherOffsets (d : SparseArrayData R) (offsets : List Nat) (shape : Arrays.Shape)
    : Fallible (SparseArrayData R) := do
  let count ← checkedU64 offsets.length
  if shape.numel ≠ count then
    throw (.elementCountMismatch count shape.numel)
  let rows := shape.extent 0
  match d with
  | .logical _ => do
    let entries ← d.gatheredEntries "logical gather COO" nonzero offsets rows
    tryFromLogicalCoo rows (shape.extent 1) entries 0
  | .f64 _ => do
    let entries ← d.gatheredEntries "real gather COO" realValue offsets rows
    tryFromF64Coo rows (shape.extent 1) entries 0
  | .complexF64 _ => do
    let entries ← d.gatheredEntries "complex gather COO" complexValue offsets rows
    tryFromComplexF64Coo rows (shape.extent 1) entries 0

def tryReshape2d (d : SparseArrayData R) (rows columns : Nat) : Fallible (SparseArrayData R) := do
  if rows * columns > u64Max then
    throw (.shapeOverflow rows columns)
  if rows * columns ≠ d.numel then
    throw (.elementCountMismatch d.numel (rows * columns))
  let oldRows := d.rows
  d.relayout "reshape COO" rows columns fun row column => do
    let linear ← columnMajorOffset row column oldRows
    return some (linear % rows, linear / rows)

def tryTranspose [Neg R] (d : SparseArrayData R) (conjugate : Bool) : Fallible (SparseArrayData R) :=
  match d with
  | .logical m => do
    let m ← m.tryTranspose id
    return .logical m
  | .f64 m => do
    let m ← m.tryTranspose id
    return .f64 m
  | .complexF64 m => do
    let m ← m.tryTranspose fun value => if conjugate then value.conjugate else value
    return .complexF64 m

end SparseArrayData

section Lays

variable [Zero R] [One R] [Add R] [Double R] [DecidableEq R]

/-- Real storage counts as complex, where a complex result is expected. -/
def presentAs (complex : Bool) (value : SparseScalarValue R) : SparseScalarValue R :=
  if complex then .complexF64 (complexValue value) else value

/-- A canonical matrix of the given shape and dense contents. -/
structure Lays (complex : Bool) (d : SparseArrayData R) (rows columns : Nat)
    (contents : List (SparseScalarValue R)) : Prop where
  rows_eq : d.rows = rows
  columns_eq : d.columns = columns
  canonical : d.Canonical
  contents_eq : d.contents.map (presentAs complex) = contents

namespace SparseArrayData

variable {d : SparseArrayData R} {rows columns reservedNnz : Nat} {host host' : Host}

omit [One R] [Add R] [Double R] [DecidableEq R] in
theorem contents_eq_of {α β : Type} {g : SparseScalarValue R → β} {f : α → β} {values : List α}
    (hlength : values.length = d.rows * d.columns)
    (h : ∀ k (hk : k < values.length), g (d.elementAt k) = f values[k])
    : d.contents.map g = values.map f := by
  apply List.ext_getElem
  . rw [List.length_map, List.length_map, contents, List.length_map, List.length_range, numel, hlength]
  . intro k hk hk'
    rw [List.length_map] at hk'
    rw [List.getElem_map, List.getElem_map, ← h k hk']
    simp only [contents, List.getElem_map, List.getElem_range]

theorem tryFromLogicalCoo_laidOut {values : List Bool} (hlength : values.length = rows * columns)
    (h : (tryFromLogicalCoo rows columns (laidOut rows values.zipIdx) reservedNnz).run host = .ok (d, host'))
    : Lays false d rows columns (values.map .logical) := by
  rw [tryFromLogicalCoo, run_bind_eq_ok_iff] at h
  obtain ⟨m, _, hm, h⟩ := h
  cases h
  obtain ⟨hrows, hcolumns, -, hcanonical, -⟩ := tryFromCoo_eq_ok hm
  refine ⟨hrows, hcolumns, hcanonical, contents_eq_of (by rw [hlength, ← hrows, ← hcolumns]; rfl) ?_⟩
  intro k hk
  have hzero : ∀ v : Bool, CscElement.isExplicitZero v = true ↔ v = false := by decide
  have hrows' : (logical m : SparseArrayData R).rows = rows := hrows
  rw [elementAt, element, hrows', getZeroBased_getD_of hzero hm, laidOut_zipIdx_getD hzero hk]
  rfl

theorem tryFromF64Coo_laidOut {values : List R} (hlength : values.length = rows * columns)
    (h : (tryFromF64Coo rows columns (laidOut rows values.zipIdx) reservedNnz).run host = .ok (d, host'))
    : Lays false d rows columns (values.map .f64) := by
  obtain ⟨hrows, hcolumns, hcanonical, -, helement⟩ := tryFromF64Coo_spec h
  refine ⟨hrows, hcolumns, hcanonical, contents_eq_of (by rw [hlength, hrows, hcolumns]) ?_⟩
  intro k hk
  rw [elementAt, helement, hrows, laidOut_zipIdx_getD AdditiveElement.isExplicitZero_iff hk]
  rfl

theorem tryFromComplexF64Coo_laidOut {values : List (Complex64 R)} (hlength : values.length = rows * columns)
    (h : (tryFromComplexF64Coo rows columns (laidOut rows values.zipIdx) reservedNnz).run host =
      .ok (d, host'))
    : Lays true d rows columns (values.map .complexF64) := by
  obtain ⟨hrows, hcolumns, hcanonical, helement⟩ := tryFromComplexF64Coo_spec h
  refine ⟨hrows, hcolumns, hcanonical, contents_eq_of (by rw [hlength, hrows, hcolumns]) ?_⟩
  intro k hk
  rw [presentAs, if_pos rfl, elementAt, helement, hrows,
    laidOut_zipIdx_getD AdditiveElement.isExplicitZero_iff hk]

end SparseArrayData

end Lays

section GatherOffsets

variable [Zero R] [One R] [Add R] [Double R] [DecidableEq R] [CscElement V]
variable {d d' : SparseArrayData R} {convert : SparseScalarValue R → V} {storage : String}
variable {offsets : List Nat} {rows columns : Nat} {host host' : Host} {shape : Arrays.Shape}

namespace SparseArrayData

/-- The elements of a class, of which `convert` recognizes the zeros. -/
def Unwraps (d : SparseArrayData R) (convert : SparseScalarValue R → V) : Prop :=
  ∀ row column, nonzero (d.element row column) = !CscElement.isExplicitZero (convert (d.element row column))

def gathered (d : SparseArrayData R) (convert : SparseScalarValue R → V) (offsets : List Nat) : List V :=
  offsets.map fun offset => convert (d.elementAt offset)

omit [One R] [Add R] [Double R] [CscElement V] in
theorem gatherEntry_run {offset position : Nat} (hposition : position ≤ u64Max) (host : Host)
    : (do
        let offset ← checkedU64 offset
        let value ← d.elementAtOffset offset
        if nonzero value then
          let (row, column) ← resultCoordinate rows position
          return [(⟨row, column, convert value⟩ : CooEntry V)]
        else
          return [] : Fallible (List (CooEntry V))).run host =
      if offset > u64Max then
        .error (.hostLengthOverflow u64Max)
      else if offset ≥ d.numel then
        .error (.linearIndexOutOfBounds (saturatingAdd offset 1) d.numel)
      else if nonzero (d.elementAt offset) then
        .ok ([⟨position % rows, position / rows, convert (d.elementAt offset)⟩], host)
      else
        .ok ([], host) := by
  by_cases hover : offset > u64Max
  . rw [if_pos hover, checkedU64, if_neg (by omega)]
    rfl
  rw [if_neg hover, run_bind_of_eq_ok (checkedU64_run (by omega) host)]
  by_cases hout : offset ≥ d.numel
  . rw [if_pos hout, elementAtOffset, if_pos hout]
    rfl
  rw [if_neg hout, run_bind_of_eq_ok (elementAtOffset_run (Nat.lt_of_not_le hout) host), ← elementAt]
  split
  . rw [resultCoordinate, run_bind_of_eq_ok (run_bind_of_eq_ok (checkedU64_run hposition host))]
    rfl
  . rfl

omit [One R] [Add R] [Double R] in
theorem laidOut_gathered (hunwraps : d.Unwraps convert)
    : laidOut rows (d.gathered convert offsets).zipIdx = offsets.zipIdx.flatMap fun p =>
        if nonzero (d.elementAt p.1) then [⟨p.2 % rows, p.2 / rows, convert (d.elementAt p.1)⟩] else [] := by
  rw [laidOut, gathered, List.zipIdx_map, List.flatMap_map]
  apply List.flatMap_congr
  intro p _
  have hzero := hunwraps (p.1 % d.rows) (p.1 / d.rows)
  rw [← elementAt] at hzero
  rw [hzero]
  cases hexplicit : CscElement.isExplicitZero (convert (d.elementAt p.1)) <;> simp [hexplicit]

theorem position_le (hlength : offsets.length ≤ u64Max) {p : Nat × Nat} (hp : p ∈ offsets.zipIdx)
    : p.2 ≤ u64Max := by
  have := (List.getElem?_eq_some_iff.mp (List.mem_zipIdx_iff_getElem?.mp hp)).1
  omega

omit [One R] [Add R] [Double R] in
theorem gatheredEntries_eq_ok (hunwraps : d.Unwraps convert) (hlength : offsets.length ≤ u64Max)
    {entries : List (CooEntry V)}
    (h : (d.gatheredEntries storage convert offsets rows).run host = .ok (entries, host'))
    : entries = laidOut rows (d.gathered convert offsets).zipIdx := by
  rw [gatheredEntries, run_bind_eq_ok_iff] at h
  obtain ⟨_, _, -, h⟩ := h
  rw [laidOut_gathered hunwraps]
  apply collect_eq_ok _ h
  intro p hp h₁ h₂ ys hys
  rw [gatherEntry_run (position_le hlength hp)] at hys
  split at hys
  . cases hys
  . split at hys
    . cases hys
    . split at hys <;> cases hys
      . next hnonzero => rw [if_pos hnonzero]
      . next hzero => rw [if_neg hzero]

omit [One R] [Add R] [Double R] in
theorem gatheredEntries_quiet (hd : d.numel ≤ u64Max) (hunwraps : d.Unwraps convert)
    (hlength : offsets.length ≤ u64Max) (hin : ∀ offset ∈ offsets, offset < d.numel)
    : (d.gatheredEntries storage convert offsets rows).run Host.quiet =
        .ok (laidOut rows (d.gathered convert offsets).zipIdx, Host.quiet) := by
  rw [gatheredEntries, run_bind_of_eq_ok (allocate_quiet hlength), laidOut_gathered hunwraps]
  apply collect_quiet 0
  intro p hp
  have hlt := hin p.1 (List.mem_of_getElem? (List.mem_zipIdx_iff_getElem?.mp hp))
  rw [gatherEntry_run (position_le hlength hp), if_neg (by omega), if_neg (by omega)]
  split <;> rfl

omit [One R] [Add R] [Double R] [CscElement V] in
theorem unwraps_logical (m : CscMatrix Bool)
    : (logical m : SparseArrayData R).Unwraps nonzero := by
  intro row column
  cases nonzero ((logical m : SparseArrayData R).element row column) <;> rfl

omit [CscElement V] in
theorem unwraps_f64 (m : CscMatrix R)
    : (f64 m).Unwraps realValue := by
  intro row column
  exact decide_not

omit [Double R] [CscElement V] in
theorem unwraps_complexF64 (m : CscMatrix (Complex64 R))
    : (complexF64 m).Unwraps complexValue := by
  intro row column
  simp only [element, nonzero, complexValue, CscElement.isExplicitZero, decide_not, Bool.not_and]
  rfl

theorem tryGatherOffsets_eq_ok (hd : d.Canonical) (hndims : shape.ndims = 2)
    (h : (d.tryGatherOffsets offsets shape).run host = .ok (d', host'))
    : Lays d.isComplex d' (shape.extent 0) (shape.extent 1) (offsets.map d.elementAt) := by
  rw [tryGatherOffsets, run_bind_eq_ok_iff] at h
  obtain ⟨count, _, hcount, h⟩ := h
  obtain rfl := checkedU64_eq_ok hcount
  by_cases hnumel : shape.numel ≠ offsets.length
  . rw [if_pos hnumel] at h
    cases h
  rw [if_neg hnumel] at h
  have hnumel : shape.numel = offsets.length := Decidable.not_not.mp hnumel
  have hlength : offsets.length ≤ u64Max := by
    have := shape.numel_lt
    unfold u64Max
    omega
  have hshape := hnumel.symm.trans (Arrays.Shape.numel_of_ndims_eq_two hndims)
  dsimp only at h
  cases d with
  | logical m =>
    dsimp only at h
    rw [run_bind_eq_ok_iff] at h
    obtain ⟨entries, _, hentries, h⟩ := h
    obtain rfl := gatheredEntries_eq_ok (unwraps_logical m) hlength hentries
    have hlays := tryFromLogicalCoo_laidOut (by rw [gathered, List.length_map, hshape]) h
    rwa [gathered, List.map_map] at hlays
  | f64 m =>
    dsimp only at h
    rw [run_bind_eq_ok_iff] at h
    obtain ⟨entries, _, hentries, h⟩ := h
    obtain rfl := gatheredEntries_eq_ok (unwraps_f64 m) hlength hentries
    have hlays := tryFromF64Coo_laidOut (by rw [gathered, List.length_map, hshape]) h
    rwa [gathered, List.map_map] at hlays
  | complexF64 m =>
    dsimp only at h
    rw [run_bind_eq_ok_iff] at h
    obtain ⟨entries, _, hentries, h⟩ := h
    obtain rfl := gatheredEntries_eq_ok (unwraps_complexF64 m) hlength hentries
    have hlays := tryFromComplexF64Coo_laidOut (by rw [gathered, List.length_map, hshape]) h
    rwa [gathered, List.map_map] at hlays

theorem tryGatherOffsets_quiet (hd : d.Canonical) (hndims : shape.ndims = 2)
    (hnumel : shape.numel = offsets.length) (hcolumns : shape.extent 1 < u64Max)
    (hin : ∀ offset ∈ offsets, offset < d.numel)
    : ∃ d', (d.tryGatherOffsets offsets shape).run Host.quiet = .ok (d', Host.quiet) := by
  have hlength : offsets.length ≤ u64Max := by
    have := shape.numel_lt
    unfold u64Max
    omega
  have hshape := hnumel.symm.trans (Arrays.Shape.numel_of_ndims_eq_two hndims)
  have hproduct : shape.extent 0 * shape.extent 1 ≤ u64Max := by omega
  have hgathered {V : Type} (convert : SparseScalarValue R → V)
      : (d.gathered convert offsets).length = offsets.length := by rw [gathered, List.length_map]
  rw [tryGatherOffsets, run_bind_of_eq_ok (checkedU64_quiet hlength), if_neg (by omega)]
  cases d with
  | logical m =>
    dsimp only
    rw [run_bind_of_eq_ok (gatheredEntries_quiet hd.numel_le (unwraps_logical m) hlength hin)]
    obtain ⟨m', hm'⟩ := tryFromCoo_quiet hproduct hcolumns
      (laidOut_zipIdx_in ((hgathered nonzero).trans hshape))
      (Nat.le_trans (length_laidOut_zipIdx_le _ _) ((hgathered nonzero).symm ▸ hlength)) (Nat.zero_le _)
    rw [tryFromLogicalCoo, run_bind_of_eq_ok hm']
    exact ⟨_, rfl⟩
  | f64 m =>
    dsimp only
    rw [run_bind_of_eq_ok (gatheredEntries_quiet hd.numel_le (unwraps_f64 m) hlength hin)]
    exact tryFromF64Coo_quiet hproduct hcolumns (Nat.zero_le _)
      (laidOut_zipIdx_in ((hgathered realValue).trans hshape))
      (Nat.le_trans (length_laidOut_zipIdx_le _ _) ((hgathered realValue).symm ▸ hlength))
  | complexF64 m =>
    dsimp only
    rw [run_bind_of_eq_ok (gatheredEntries_quiet hd.numel_le (unwraps_complexF64 m) hlength hin)]
    exact tryFromComplexF64Coo_quiet hproduct hcolumns (Nat.zero_le _)
      (laidOut_zipIdx_in ((hgathered complexValue).trans hshape))
      (Nat.le_trans (length_laidOut_zipIdx_le _ _) ((hgathered complexValue).symm ▸ hlength))

end SparseArrayData

end GatherOffsets

section Reshape

variable {rows columns oldRows oldColumns : Nat} {host host' : Host}

theorem columnMajorOffset_run {row column : Nat} (h : row + column * rows ≤ u64Max) (host : Host)
    : (columnMajorOffset row column rows).run host = .ok (row + column * rows, host) := by
  rw [columnMajorOffset, if_pos h]
  rfl

theorem columnMajorOffset_eq_ok {row column offset : Nat}
    (h : (columnMajorOffset row column rows).run host = .ok (offset, host')) : offset = row + column * rows := by
  unfold columnMajorOffset at h
  split at h <;> cases h
  rfl

theorem reshape_computes (hle : oldRows * oldColumns ≤ u64Max)
    : Computes oldRows oldColumns
        (fun row column => do
          let linear ← columnMajorOffset row column oldRows
          return some (linear % rows, linear / rows))
        fun row column => some ((row + column * oldRows) % rows, (row + column * oldRows) / rows) := by
  intro row hrow column hcolumn host
  obtain ⟨hlt, -, -⟩ := offset_of_coordinates hrow hcolumn
  rw [run_bind_of_eq_ok (columnMajorOffset_run (by omega) host)]
  rfl

theorem reshape_origin (hnumel : rows * columns = oldRows * oldColumns)
    : Origin oldRows oldColumns rows columns
        (fun row column => some ((row + column * oldRows) % rows, (row + column * oldRows) / rows)) id := by
  constructor
  . intro k hk
    exact hnumel ▸ hk
  . intro k hk row hrow column hcolumn
    rw [Option.some.injEq, divMod_inj, id]

namespace SparseArrayData

variable [Zero R] [One R] [Add R] [Double R] [DecidableEq R] {d d' : SparseArrayData R}

theorem tryReshape2d_eq_ok (hd : d.Canonical)
    (h : (d.tryReshape2d rows columns).run host = .ok (d', host'))
    : rows * columns = d.numel ∧ Rearranges d d' rows columns id := by
  rw [tryReshape2d] at h
  by_cases hover : rows * columns > u64Max
  . rw [if_pos hover] at h
    cases h
  rw [if_neg hover] at h
  by_cases hnumel : rows * columns ≠ d.numel
  . rw [if_pos hnumel] at h
    cases h
  rw [if_neg hnumel] at h
  have hnumel : rows * columns = d.numel := Decidable.not_not.mp hnumel
  exact ⟨hnumel, relayout_eq_ok hd (reshape_computes hd.numel_le) (reshape_origin hnumel) h⟩

omit [One R] in
theorem tryReshape2d_quiet (hd : d.Canonical) (hnumel : rows * columns = d.numel) (hcolumns : columns < u64Max)
    : ∃ d', (d.tryReshape2d rows columns).run Host.quiet = .ok (d', Host.quiet) := by
  have hle := hd.numel_le
  rw [tryReshape2d, if_neg (by omega), if_neg (by omega)]
  refine relayout_quiet hd (reshape_computes hd.numel_le) ?_ (by omega) hcolumns
  intro row hrow column hcolumn p hp
  obtain ⟨hlt, -, -⟩ := offset_of_coordinates hrow hcolumn
  cases hp
  exact coordinates_of_offset (by rw [hnumel]; exact hlt)

end SparseArrayData

end Reshape

section Transpose

variable {T U : Type} [CscElement T] [CscElement U] {m : CscMatrix T} {transform : T → U} {host host' : Host}

namespace CscMatrix

/-- The entries with rows and columns exchanged. -/
def transposed (m : CscMatrix T) (transform : T → U) : List (CooEntry U) :=
  m.entries.map fun e => ⟨e.column, e.row, transform e.value⟩

omit [CscElement T] [CscElement U] in
theorem transposed_eq_moved
    : m.transposed transform =
        moved (fun row column => some (column, row)) (mapValues transform m.entries) := by
  rw [transposed, moved, mapValues, List.flatMap_map, List.map_eq_flatMap]
  rfl

theorem combinedAt_transposed (hm : m.Canonical) (row column : Nat)
    : combinedAt (m.transposed transform) row column = (m.getZeroBased column row).map transform := by
  rw [transposed_eq_moved, ← combinedAt_mapValues hm]
  apply combinedAt_moved
  intro e _
  rw [Option.some.injEq, Prod.mk.injEq]
  exact And.comm

omit [CscElement T] in
theorem tryTranspose_eq_ok {m' : CscMatrix U} (h : (m.tryTranspose transform).run host = .ok (m', host'))
    : ∃ host₁, (tryFromCoo m.columns m.rows (m.transposed transform) m.reservedNnz).run host₁ =
        .ok (m', host') := by
  rw [CscMatrix.tryTranspose] at h
  simp only [run_bind_eq_ok_iff] at h
  obtain ⟨_, _, -, entries, host₁, hentries, h⟩ := h
  have hentries := collect_eq_ok (g := fun e => [(⟨e.column, e.row, transform e.value⟩ : CooEntry U)]) (by
    intro e _ h₁ h₂ ys hys
    cases hys
    rfl) hentries
  rw [← List.map_eq_flatMap] at hentries
  rw [hentries] at h
  exact ⟨host₁, h⟩

theorem tryTranspose_quiet (hm : m.Canonical) (hrows : m.rows < u64Max)
    : ∃ m', (m.tryTranspose transform).run Host.quiet = .ok (m', Host.quiet) := by
  have hcollect : (collect (fun e : CooEntry T =>
      (return [⟨e.column, e.row, transform e.value⟩] : Fallible (List (CooEntry U)))) 0 m.entries).run
        Host.quiet = .ok (m.entries.flatMap fun e => [⟨e.column, e.row, transform e.value⟩], Host.quiet) :=
    collect_quiet 0 fun _ _ => rfl
  rw [← List.map_eq_flatMap] at hcollect
  rw [CscMatrix.tryTranspose, run_bind_of_eq_ok (allocate_quiet hm.nnz_le), run_bind_of_eq_ok hcollect]
  refine tryFromCoo_quiet (by rw [Nat.mul_comm]; exact hm.shape_le) hrows ?_ ?_ hm.reserved_le
  . intro e he
    obtain ⟨a, ha, rfl⟩ := List.mem_map.mp he
    exact ⟨(hm.entries_in ha).2.1, (hm.entries_in ha).1⟩
  . rw [List.length_map, hm.length_entries]
    exact hm.nnz_le

end CscMatrix

namespace SparseArrayData

variable [NegZeroClass R] [Add R] [Double R] [DecidableEq R] {d d' : SparseArrayData R}

/-- The transposed element. -/
def conjugated (conjugate : Bool) : SparseScalarValue R → SparseScalarValue R
  | .complexF64 value => .complexF64 (if conjugate then value.conjugate else value)
  | value => value

/-- A canonical matrix of the transposed elements. -/
structure Transposes (conjugate : Bool) (d d' : SparseArrayData R) : Prop where
  rows_eq : d'.rows = d.columns
  columns_eq : d'.columns = d.rows
  canonical : d'.Canonical
  element : ∀ row column, d'.element row column = conjugated conjugate (d.element column row)

theorem tryTranspose_eq_ok {conjugate : Bool} (hd : d.Canonical)
    (h : (d.tryTranspose conjugate).run host = .ok (d', host'))
    : Transposes conjugate d d' := by
  cases d with
  | logical m =>
    rw [tryTranspose, run_bind_eq_ok_iff] at h
    obtain ⟨m', _, hm', h⟩ := h
    cases h
    obtain ⟨_, hm'⟩ := CscMatrix.tryTranspose_eq_ok hm'
    obtain ⟨hrows, hcolumns, -, hcanonical, -⟩ := tryFromCoo_eq_ok hm'
    have hzero : ∀ v : Bool, CscElement.isExplicitZero v = true ↔ v = false := by decide
    refine ⟨hrows, hcolumns, hcanonical, fun row column => ?_⟩
    rw [element, getZeroBased_getD_of hzero hm', CscMatrix.combinedAt_transposed hd, element, conjugated,
      Option.map_id]
    . rfl
    . rintro _ ⟨⟩
  | f64 m =>
    rw [tryTranspose, run_bind_eq_ok_iff] at h
    obtain ⟨m', _, hm', h⟩ := h
    cases h
    obtain ⟨_, hm'⟩ := CscMatrix.tryTranspose_eq_ok hm'
    obtain ⟨hrows, hcolumns, -, hcanonical, -⟩ := tryFromCoo_eq_ok hm'
    refine ⟨hrows, hcolumns, hcanonical, fun row column => ?_⟩
    rw [element, getZeroBased_getD hm', CscMatrix.combinedAt_transposed hd, element, conjugated, Option.map_id]
    . rfl
    . rintro _ ⟨⟩
  | complexF64 m =>
    rw [tryTranspose, run_bind_eq_ok_iff] at h
    obtain ⟨m', _, hm', h⟩ := h
    cases h
    obtain ⟨_, hm'⟩ := CscMatrix.tryTranspose_eq_ok hm'
    obtain ⟨hrows, hcolumns, -, hcanonical, -⟩ := tryFromCoo_eq_ok hm'
    refine ⟨hrows, hcolumns, hcanonical, fun row column => ?_⟩
    rw [element, getZeroBased_getD hm', CscMatrix.combinedAt_transposed hd, element, conjugated]
    congr 1
    cases m.getZeroBased column row with
    | none =>
      cases conjugate with
      | false => rfl
      | true =>
        have hzero : (0 : Complex64 R).conjugate = 0 := congrArg (Complex64.mk 0) neg_zero
        exact hzero.symm
    | some value => rfl

theorem tryTranspose_quiet (conjugate : Bool) (hd : d.Canonical) (hrows : d.rows < u64Max)
    : ∃ d', (d.tryTranspose conjugate).run Host.quiet = .ok (d', Host.quiet) := by
  cases d with
  | logical m =>
    obtain ⟨m', hm'⟩ := @CscMatrix.tryTranspose_quiet _ _ _ _ m (id : Bool → Bool) hd hrows
    exact ⟨_, run_bind_of_eq_ok hm'⟩
  | f64 m =>
    obtain ⟨m', hm'⟩ := @CscMatrix.tryTranspose_quiet _ _ _ _ m (id : R → R) hd hrows
    exact ⟨_, run_bind_of_eq_ok hm'⟩
  | complexF64 m =>
    obtain ⟨m', hm'⟩ := @CscMatrix.tryTranspose_quiet _ _ _ _ m
      (fun value : Complex64 R => if conjugate then value.conjugate else value) hd hrows
    exact ⟨_, run_bind_of_eq_ok hm'⟩

theorem Transposes.contents {conjugate : Bool} (h : Transposes conjugate d d')
    : d'.contents = (List.range d.rows).flatMap fun row =>
        (List.range d.columns).map fun column => conjugated conjugate (d.element row column) := by
  rw [contents_eq_flatMap, h.rows_eq, h.columns_eq]
  simp only [h.element]

end SparseArrayData

end Transpose

end Sparse
end OpenMat
