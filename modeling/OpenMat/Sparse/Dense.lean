import OpenMat.Arrays.Dense
import OpenMat.Arrays.Subscripts
import OpenMat.Sparse.Gather

/-!
This module contains the conversions between sparse and dense storage: the elements of a matrix are written over
zeros, and the elements of an array that are not zero become entries.
-/

namespace OpenMat
namespace Sparse

open Arrays (DenseArray)

variable {R V : Type}

/-- The classes of dense storage. Those without a sparse counterpart are not read. -/
inductive DenseArrayData (R : Type) where
  | logical (array : DenseArray Bool)
  | f64 (array : DenseArray R)
  | complexF64 (array : DenseArray (Complex64 R))
  | f32
  | complexF32
  | char
  | integer

def denseToCoo (array : DenseArray V) (isNonzero : V → Bool) : Fallible (List (CooEntry V)) := do
  if array.shape.ndims ≠ 2 then
    throw .unsupportedDenseType
  let counted ← collect (fun value => return if isNonzero value then [value] else []) 0 array.data
  allocate "dense conversion COO" counted.length
  let rows := array.shape.extent 0
  collect (fun cell =>
    if isNonzero cell.1 then do
      let offset ← checkedU64 cell.2
      return [⟨offset % rows, offset / rows, cell.1⟩]
    else
      return []) 0 array.data.zipIdx

/-- Validated entries are in range, so that each write has a place. -/
def writeEntries (rows position : Nat) (values : List V) : List (CooEntry V) → Fallible (List V)
  | [] => return values
  | e :: entries => do
    checkCancelled position
    let offset ← columnMajorOffset e.row e.column rows
    let offset ← checkedUsize offset
    writeEntries rows (position + 1) (values.set offset e.value) entries

/-- The shape that the matrix has been built with. -/
def CscMatrix.shape (m : CscMatrix V) : Fallible Arrays.Shape :=
  match Arrays.Shape.new [m.rows, m.columns] with
  | .ok shape => return shape
  | .error _ => throw (.shapeOverflow m.rows m.columns)

def materialize (m : CscMatrix V) (zero : V) : Fallible (DenseArray V) := do
  let length ← checkedUsize (m.rows * m.columns)
  allocate "full values" length
  checkPositions 0 length
  let values ← writeEntries m.rows 0 (List.replicate length zero) m.entries
  let shape ← m.shape
  match DenseArray.fromVec shape values with
  | .ok array => return array
  | .error _ => throw (.hostLengthOverflow (m.rows * m.columns))

namespace SparseArrayData

def tryToDense [Zero R] : SparseArrayData R → Fallible (DenseArrayData R)
  | .logical m => do
    let array ← materialize m false
    return .logical array
  | .f64 m => do
    let array ← materialize m 0
    return .f64 array
  | .complexF64 m => do
    let array ← materialize m 0
    return .complexF64 array

variable [Zero R] [One R] [Add R] [Double R] [DecidableEq R]

def tryFromDense : DenseArrayData R → Fallible (SparseArrayData R)
  | .logical array => do
    let entries ← denseToCoo array fun value => value
    tryFromLogicalCoo (array.shape.extent 0) (array.shape.extent 1) entries 0
  | .f64 array => do
    let entries ← denseToCoo array fun value => decide (value ≠ 0)
    tryFromF64Coo (array.shape.extent 0) (array.shape.extent 1) entries 0
  | .complexF64 array => do
    let entries ← denseToCoo array fun value => decide (value.re ≠ 0) || decide (value.im ≠ 0)
    tryFromComplexF64Coo (array.shape.extent 0) (array.shape.extent 1) entries 0
  | .f32 => throw .unsupportedDenseType
  | .complexF32 => throw .unsupportedDenseType
  | .char => throw .unsupportedDenseType
  | .integer => throw .unsupportedDenseType

end SparseArrayData

/-- The dense elements of a matrix. -/
def CscMatrix.dense (m : CscMatrix V) (zero : V) : List V :=
  (List.range (m.rows * m.columns)).map fun k => (m.getZeroBased (k % m.rows) (k / m.rows)).getD zero

section Materialize

variable {m : CscMatrix V} {zero : V} {host host' : Host}

/-- The values after the entries have been written one by one. -/
def written (rows : Nat) (values : List V) (entries : List (CooEntry V)) : List V :=
  entries.foldl (fun values e => values.set (e.row + e.column * rows) e.value) values

@[simp]
theorem length_written (rows : Nat) (values : List V) (entries : List (CooEntry V))
    : (written rows values entries).length = values.length := by
  induction entries generalizing values with
  | nil => rfl
  | cons e entries ih =>
    rw [written, List.foldl_cons, ← written, ih, List.length_set]

theorem getElem?_written_of_not {rows k : Nat} {entries : List (CooEntry V)}
    (h : ∀ e ∈ entries, e.row + e.column * rows ≠ k) (values : List V)
    : (written rows values entries)[k]? = values[k]? := by
  induction entries generalizing values with
  | nil => rfl
  | cons e entries ih =>
    rw [written, List.foldl_cons, ← written, ih fun a ha => h a (List.mem_cons_of_mem _ ha),
      List.getElem?_set_ne (h e (List.mem_cons_self ..))]

theorem getElem?_written {rows : Nat} {entries : List (CooEntry V)}
    (h : entries.Pairwise fun a b => a.row + a.column * rows ≠ b.row + b.column * rows) {values : List V}
    {e : CooEntry V} (he : e ∈ entries) (hlt : e.row + e.column * rows < values.length)
    : (written rows values entries)[e.row + e.column * rows]? = some e.value := by
  induction entries generalizing values with
  | nil => cases he
  | cons a entries ih =>
    rw [List.pairwise_cons] at h
    rw [written, List.foldl_cons, ← written]
    rcases List.mem_cons.mp he with rfl | he
    . rw [getElem?_written_of_not fun b hb => (h.1 b hb).symm, List.getElem?_set_self hlt]
    . exact ih h.2 he (by rwa [List.length_set])

theorem writeEntries_eq_ok {rows position : Nat} {values values' : List V} {entries : List (CooEntry V)}
    (h : (writeEntries rows position values entries).run host = .ok (values', host'))
    : values' = written rows values entries := by
  induction entries generalizing position values host with
  | nil =>
    cases h
    rfl
  | cons e entries ih =>
    rw [writeEntries] at h
    simp only [run_bind_eq_ok_iff] at h
    obtain ⟨_, _, -, offset, _, hoffset, offset', _, hoffset', h⟩ := h
    obtain rfl := columnMajorOffset_eq_ok hoffset
    obtain rfl := checkedUsize_eq_ok hoffset'
    rw [ih h, written, written, List.foldl_cons]

theorem writeEntries_quiet {rows position : Nat} {values : List V} {entries : List (CooEntry V)}
    (h : ∀ e ∈ entries, e.row + e.column * rows ≤ u64Max)
    : (writeEntries rows position values entries).run Host.quiet =
        .ok (written rows values entries, Host.quiet) := by
  induction entries generalizing position values with
  | nil => rfl
  | cons e entries ih =>
    have he := h e (List.mem_cons_self ..)
    rw [writeEntries, run_bind_of_eq_ok (checkCancelled_quiet position),
      run_bind_of_eq_ok (columnMajorOffset_run he Host.quiet), run_bind_of_eq_ok (checkedUsize_quiet he),
      ih fun a ha => h a (List.mem_cons_of_mem _ ha)]
    rfl

theorem shape_eq_ok {shape : Arrays.Shape} (h : m.shape.run host = .ok (shape, host'))
    : shape.dimensions = [m.rows, m.columns] := by
  unfold CscMatrix.shape at h
  split at h
  . next shape' hshape =>
    cases h
    rw [Arrays.Shape.new_eq_ok_iff.mp hshape]
    simp [Arrays.canonicalDimensions]
  . cases h

theorem shape_quiet (hrows : m.rows ≤ u64Max) (hproduct : m.rows * m.columns ≤ u64Max)
    : ∃ shape, m.shape.run Host.quiet = .ok (shape, Host.quiet) := by
  obtain ⟨shape, hshape⟩ := (@Arrays.Shape.exists_new_iff [m.rows, m.columns]).mpr (by
    unfold u64Max at hrows hproduct
    intro n
    rcases n with _ | _ | n
    . simp
    . simp only [List.take_succ_cons, List.take_zero, List.prod_cons, List.prod_nil, Nat.mul_one]
      omega
    . simp only [List.take_succ_cons, List.take_nil, List.prod_cons, List.prod_nil, Nat.mul_one]
      omega)
  refine ⟨shape, ?_⟩
  rw [CscMatrix.shape, hshape]
  rfl

variable [CscElement V]

theorem CscMatrix.Canonical.offsets_ne (hm : m.Canonical)
    : m.entries.Pairwise fun a b => a.row + a.column * m.rows ≠ b.row + b.column * m.rows := by
  apply hm.entries_increasing.imp_of_mem
  intro a b ha hb hlt heq
  obtain ⟨hrow, hcolumn, -⟩ := hm.entries_in ha
  obtain ⟨hrow', hcolumn', -⟩ := hm.entries_in hb
  have hsame := (offset_inj hrow hcolumn hrow' hcolumn').mp heq
  exact absurd (coordinate_eq_iff.mpr hsame) (ne_of_lt hlt)

/-- Zeros with the entries written over them are the dense elements. -/
theorem written_entries (hm : m.Canonical) (zero : V)
    : written m.rows (List.replicate (m.rows * m.columns) zero) m.entries = m.dense zero := by
  apply List.ext_getElem?
  intro k
  by_cases hk : k < m.rows * m.columns
  . obtain ⟨hrow, hcolumn⟩ := coordinates_of_offset hk
    rw [CscMatrix.dense, List.getElem?_map, List.getElem?_range hk, Option.map_some]
    cases hget : m.getZeroBased (k % m.rows) (k / m.rows) with
    | some v =>
      have hmem := hm.getZeroBased_eq_some_iff.mp hget
      have hoffset : k % m.rows + k / m.rows * m.rows = k := by
        rw [Nat.mul_comm, Nat.mod_add_div]
      have hwritten := @getElem?_written _ _ _ hm.offsets_ne (List.replicate (m.rows * m.columns) zero) _ hmem
        (by rw [List.length_replicate]; dsimp only; rwa [hoffset])
      dsimp only at hwritten
      rw [hoffset] at hwritten
      rw [hwritten, Option.getD_some]
    | none =>
      rw [getElem?_written_of_not, List.getElem?_replicate_of_lt hk, Option.getD_none]
      intro e he heq
      obtain ⟨hrow', hcolumn', -⟩ := hm.entries_in he
      obtain ⟨-, hmod, hdiv⟩ := offset_of_coordinates hrow' hcolumn'
      rw [heq] at hmod hdiv
      rw [hmod, hdiv, hm.getZeroBased_eq_some_iff.mpr he] at hget
      cases hget
  . rw [List.getElem?_eq_none (by rw [length_written, List.length_replicate]; omega),
      List.getElem?_eq_none (by rw [CscMatrix.dense, List.length_map, List.length_range]; omega)]

theorem materialize_eq_ok (hm : m.Canonical) {array : DenseArray V}
    (h : (materialize m zero).run host = .ok (array, host'))
    : array.shape.dimensions = [m.rows, m.columns] ∧ array.data = m.dense zero := by
  rw [materialize] at h
  simp only [run_bind_eq_ok_iff] at h
  obtain ⟨length, _, hlength, _, _, -, _, _, -, values, _, hvalues, shape, _, hshape, h⟩ := h
  obtain rfl := checkedUsize_eq_ok hlength
  split at h
  . next array' hfrom =>
    cases h
    obtain ⟨hshape', hdata⟩ := DenseArray.fromVec_eq_ok_iff.mp hfrom
    rw [hshape', hdata, writeEntries_eq_ok hvalues, written_entries hm]
    exact ⟨shape_eq_ok hshape, rfl⟩
  . cases h

theorem materialize_quiet (hm : m.Canonical) (hrows : m.rows ≤ u64Max) (zero : V)
    : ∃ array, (materialize m zero).run Host.quiet = .ok (array, Host.quiet) := by
  have hle := hm.shape_le
  obtain ⟨shape, hshape⟩ := shape_quiet hrows hle
  have hdimensions := shape_eq_ok hshape
  have hlength : (written m.rows (List.replicate (m.rows * m.columns) zero) m.entries).length =
      shape.numel := by
    rw [length_written, List.length_replicate, Arrays.Shape.numel, hdimensions, List.prod_cons,
      List.prod_singleton]
  have hwrite : ∀ e ∈ m.entries, e.row + e.column * m.rows ≤ u64Max := by
    intro e he
    obtain ⟨hrow, hcolumn, -⟩ := hm.entries_in he
    have := (offset_of_coordinates hrow hcolumn).1
    omega
  refine ⟨⟨shape, _, hlength⟩, ?_⟩
  rw [materialize, run_bind_of_eq_ok (checkedUsize_quiet hle), run_bind_of_eq_ok (allocate_quiet hle),
    run_bind_of_eq_ok (checkPositions_quiet 0 _), run_bind_of_eq_ok (writeEntries_quiet hwrite),
    run_bind_of_eq_ok hshape, DenseArray.fromVec, dif_pos hlength]
  rfl

end Materialize

section DenseToCoo

variable [CscElement V] {array : DenseArray V} {isNonzero : V → Bool} {host host' : Host}

theorem laidOut_eq_flatMap (hnonzero : ∀ v, isNonzero v = !CscElement.isExplicitZero v) (rows : Nat)
    (cells : List (V × Nat))
    : laidOut rows cells = cells.flatMap fun cell =>
        if isNonzero cell.1 then [⟨cell.2 % rows, cell.2 / rows, cell.1⟩] else [] := by
  apply List.flatMap_congr
  intro cell _
  rw [hnonzero]
  cases hzero : CscElement.isExplicitZero cell.1 <;> simp

theorem denseToCoo_eq_ok (hnonzero : ∀ v, isNonzero v = !CscElement.isExplicitZero v)
    {entries : List (CooEntry V)} (h : (denseToCoo array isNonzero).run host = .ok (entries, host'))
    : array.shape.ndims = 2 ∧ entries = laidOut (array.shape.extent 0) array.data.zipIdx := by
  rw [denseToCoo] at h
  by_cases hndims : array.shape.ndims ≠ 2
  . rw [if_pos hndims] at h
    cases h
  rw [if_neg hndims] at h
  simp only [run_bind_eq_ok_iff] at h
  obtain ⟨counted, _, -, _, _, -, h⟩ := h
  refine ⟨Decidable.not_not.mp hndims, ?_⟩
  rw [laidOut_eq_flatMap hnonzero]
  apply collect_eq_ok _ h
  intro cell _ h₁ h₂ ys hys
  split at hys
  . next hvalue =>
    rw [run_bind_eq_ok_iff] at hys
    obtain ⟨offset, _, hoffset, hys⟩ := hys
    obtain rfl := checkedU64_eq_ok hoffset
    cases hys
    rw [if_pos hvalue]
  . next hvalue =>
    cases hys
    rw [if_neg hvalue]

theorem denseToCoo_quiet (hnonzero : ∀ v, isNonzero v = !CscElement.isExplicitZero v)
    (hndims : array.shape.ndims = 2)
    : (denseToCoo array isNonzero).run Host.quiet =
        .ok (laidOut (array.shape.extent 0) array.data.zipIdx, Host.quiet) := by
  have hlength : array.data.length ≤ u64Max := by
    have := array.shape.numel_lt
    rw [array.length_data]
    unfold u64Max
    omega
  have hcounted := @collect_quiet V V (fun value => return if isNonzero value then [value] else [])
    (fun value => if isNonzero value then [value] else []) array.data 0 fun _ _ => rfl
  have hcount := length_flatMap_le_of_le_one (fun value => if isNonzero value then [value] else [])
    (by intro value; split <;> simp) array.data
  rw [denseToCoo, if_neg (by omega), run_bind_of_eq_ok hcounted,
    run_bind_of_eq_ok (allocate_quiet (Nat.le_trans hcount hlength)), laidOut_eq_flatMap hnonzero]
  apply collect_quiet 0
  intro cell hcell
  have := (List.getElem?_eq_some_iff.mp (List.mem_zipIdx_iff_getElem?.mp hcell)).1
  split
  . rw [run_bind_of_eq_ok (checkedU64_quiet (by omega))]
    rfl
  . rfl

end DenseToCoo

section Restore

variable [CscElement V] {zero : V} {m m' : CscMatrix V} {rows columns reservedNnz : Nat} {host host' : Host}

/-- The storage with no more reserve than it needs. -/
def CscMatrix.withoutReserve (m : CscMatrix V) : CscMatrix V := { m with reservedNnz := m.nnz }

omit [CscElement V] in
theorem getElem?_dense {row column : Nat} (hrow : row < m.rows) (hcolumn : column < m.columns)
    : (m.dense zero)[row + column * m.rows]? = some ((m.getZeroBased row column).getD zero) := by
  obtain ⟨hlt, hmod, hdiv⟩ := offset_of_coordinates hrow hcolumn
  rw [CscMatrix.dense, List.getElem?_map, List.getElem?_range hlt, Option.map_some, hmod, hdiv]

omit [CscElement V] in
theorem CscMatrix.getZeroBased_eq_none {row column : Nat} (h : ¬(row < m.rows ∧ column < m.columns))
    : m.getZeroBased row column = none := by
  rw [CscMatrix.getZeroBased, if_pos (by omega)]

theorem CscMatrix.Canonical.withoutReserve (hm : m.Canonical) : m.withoutReserve.Canonical where
  shape_le := hm.shape_le
  columns_lt := hm.columns_lt
  nnz_le := hm.nnz_le
  length_offsets := hm.length_offsets
  first_offset := hm.first_offset
  last_offset := hm.last_offset
  offset_le := hm.offset_le
  length_rows := hm.length_rows
  row_lt := hm.row_lt
  increasing := hm.increasing
  nonzero := hm.nonzero
  nnz_le_reserved := Nat.le_refl _
  reserved_le := hm.nnz_le

theorem CscMatrix.Canonical.nonzero_of_get (hm : m.Canonical) {row column : Nat} {v : V}
    (hget : m.getZeroBased row column = some v) : CscElement.isExplicitZero v = false := by
  apply hm.nonzero
  rw [hm.encodes.values]
  exact List.mem_map.mpr ⟨_, hm.getZeroBased_eq_some_iff.mp hget, rfl⟩

/-- A property that zero has holds of the stored values if it holds of the dense elements. -/
theorem CscMatrix.Canonical.all_values {p : V → Bool} (hm : m.Canonical) (hp : p zero = true)
    : m.values.all p = (m.dense zero).all p := by
  rw [Bool.eq_iff_iff, List.all_eq_true, List.all_eq_true]
  constructor
  . intro h v hv
    obtain ⟨k, -, rfl⟩ := List.mem_map.mp hv
    cases hget : m.getZeroBased (k % m.rows) (k / m.rows) with
    | none => exact hp
    | some w =>
      apply h
      rw [hm.encodes.values]
      exact List.mem_map.mpr ⟨_, hm.getZeroBased_eq_some_iff.mp hget, rfl⟩
  . intro h v hv
    rw [hm.encodes.values] at hv
    obtain ⟨e, he, rfl⟩ := List.mem_map.mp hv
    obtain ⟨hrow, hcolumn, -⟩ := hm.entries_in he
    apply h
    have hget := @getElem?_dense V zero m _ _ hrow hcolumn
    rw [hm.getZeroBased_eq_some_iff.mpr he, Option.getD_some] at hget
    exact List.mem_of_getElem? hget

variable (hzero : ∀ v : V, CscElement.isExplicitZero v = true ↔ v = zero)

include hzero

theorem dense_of_laidOut {values : List V} (hlength : values.length = rows * columns)
    (h : (tryFromCoo rows columns (laidOut rows values.zipIdx) reservedNnz).run host = .ok (m, host'))
    : m.dense zero = values := by
  obtain ⟨hrows, hcolumns, -⟩ := tryFromCoo_eq_ok h
  apply List.ext_getElem
  . rw [CscMatrix.dense, List.length_map, List.length_range, hrows, hcolumns, hlength]
  . intro k hk hk'
    simp only [CscMatrix.dense, List.getElem_map, List.getElem_range]
    rw [hrows, getZeroBased_getD_of hzero h, laidOut_zipIdx_getD hzero hk']

/-- The dense elements determine the stored ones. -/
theorem getZeroBased_eq_of_dense (hm : m.Canonical) (hm' : m'.Canonical) (hrows : m.rows = m'.rows)
    (hcolumns : m.columns = m'.columns) (h : m.dense zero = m'.dense zero) (row column : Nat)
    : m.getZeroBased row column = m'.getZeroBased row column := by
  by_cases hin : row < m.rows ∧ column < m.columns
  . have hget := @getElem?_dense V zero m _ _ hin.1 hin.2
    have hget' := @getElem?_dense V zero m' row column (hrows ▸ hin.1) (hcolumns ▸ hin.2)
    rw [h, hrows, hget', Option.some.injEq] at hget
    cases hsome : m.getZeroBased row column with
    | none =>
      rw [hsome] at hget
      cases hsome' : m'.getZeroBased row column with
      | none => rfl
      | some v =>
        rw [hsome', Option.getD_some, Option.getD_none, ← hzero] at hget
        rw [hm'.nonzero_of_get hsome'] at hget
        cases hget
    | some v =>
      rw [hsome, Option.getD_some] at hget
      cases hsome' : m'.getZeroBased row column with
      | none =>
        rw [hsome', Option.getD_none, eq_comm, ← hzero] at hget
        rw [hm.nonzero_of_get hsome] at hget
        cases hget
      | some w =>
        rw [hsome', Option.getD_some] at hget
        rw [hget]
  . rw [CscMatrix.getZeroBased_eq_none hin, CscMatrix.getZeroBased_eq_none (by rwa [← hrows, ← hcolumns])]

theorem tryFromCoo_restores (hm : m.Canonical)
    (h : (tryFromCoo m.rows m.columns (laidOut m.rows (m.dense zero).zipIdx) 0).run host = .ok (m', host'))
    : m' = m.withoutReserve := by
  have hdense := dense_of_laidOut hzero (by rw [CscMatrix.dense, List.length_map, List.length_range]) h
  obtain ⟨hrows, hcolumns, hreserved, hm', -⟩ := tryFromCoo_eq_ok h
  have hget := getZeroBased_eq_of_dense hzero hm' hm.withoutReserve hrows hcolumns hdense
  have hentries := hm'.entries_ext hm.withoutReserve hget
  apply hm'.ext hm.withoutReserve hrows hcolumns _ hentries
  rw [hreserved, Nat.zero_max, ← hm'.length_entries, hentries, hm.withoutReserve.length_entries]
  rfl

end Restore

namespace DenseArrayData

def dimensions : DenseArrayData R → List Nat
  | .logical array => array.shape.dimensions
  | .f64 array => array.shape.dimensions
  | .complexF64 array => array.shape.dimensions
  | _ => []

def contents : DenseArrayData R → List (SparseScalarValue R)
  | .logical array => array.data.map .logical
  | .f64 array => array.data.map .f64
  | .complexF64 array => array.data.map .complexF64
  | _ => []

/-- The classes that become sparse. -/
def isSupported : DenseArrayData R → Bool
  | .logical _ => true
  | .f64 _ => true
  | .complexF64 _ => true
  | _ => false

/-- Complex elements that are all real become real. -/
def restored [Zero R] [DecidableEq R] : DenseArrayData R → DenseArrayData R
  | .complexF64 array =>
    if array.data.all fun value => decide (value.im = 0) then
      .f64 (array.map Complex64.re)
    else
      .complexF64 array
  | a => a

end DenseArrayData

namespace SparseArrayData

section RoundTrip

variable [Zero R] [Add R] [Double R] [DecidableEq R]
variable {d d' : SparseArrayData R} {a b : DenseArrayData R} {host host' : Host}

/-- Dense storage of the class, shape and elements of a matrix. -/
inductive Materializes : SparseArrayData R → DenseArrayData R → Prop where
  | logical {m : CscMatrix Bool} {array : DenseArray Bool} (hshape : array.shape.dimensions = [m.rows, m.columns])
      (hdata : array.data = m.dense false) : Materializes (.logical m) (.logical array)
  | f64 {m : CscMatrix R} {array : DenseArray R} (hshape : array.shape.dimensions = [m.rows, m.columns])
      (hdata : array.data = m.dense 0) : Materializes (.f64 m) (.f64 array)
  | complexF64 {m : CscMatrix (Complex64 R)} {array : DenseArray (Complex64 R)}
      (hshape : array.shape.dimensions = [m.rows, m.columns]) (hdata : array.data = m.dense 0)
      : Materializes (.complexF64 m) (.complexF64 array)

def withoutReserve : SparseArrayData R → SparseArrayData R
  | .logical m => .logical m.withoutReserve
  | .f64 m => .f64 m.withoutReserve
  | .complexF64 m => .complexF64 m.withoutReserve

omit [Add R] [Double R] [DecidableEq R] in
theorem Materializes.unique (h : Materializes d a) (h' : Materializes d b) : a = b := by
  cases h with
  | logical hshape hdata =>
    cases h' with
    | logical hshape' hdata' =>
      rw [DenseArray.ext (Arrays.Shape.ext (hshape.trans hshape'.symm)) (hdata.trans hdata'.symm)]
  | f64 hshape hdata =>
    cases h' with
    | f64 hshape' hdata' =>
      rw [DenseArray.ext (Arrays.Shape.ext (hshape.trans hshape'.symm)) (hdata.trans hdata'.symm)]
  | complexF64 hshape hdata =>
    cases h' with
    | complexF64 hshape' hdata' =>
      rw [DenseArray.ext (Arrays.Shape.ext (hshape.trans hshape'.symm)) (hdata.trans hdata'.symm)]

omit [Add R] [Double R] [DecidableEq R] in
theorem Materializes.contents (h : Materializes d a)
    : a.dimensions = d.dimensions ∧ a.contents = d.contents := by
  cases h with
  | logical hshape hdata =>
    refine ⟨hshape, ?_⟩
    rw [DenseArrayData.contents, hdata, CscMatrix.dense, List.map_map]
    rfl
  | f64 hshape hdata =>
    refine ⟨hshape, ?_⟩
    rw [DenseArrayData.contents, hdata, CscMatrix.dense, List.map_map]
    rfl
  | complexF64 hshape hdata =>
    refine ⟨hshape, ?_⟩
    rw [DenseArrayData.contents, hdata, CscMatrix.dense, List.map_map]
    rfl

theorem tryToDense_eq_ok (hd : d.Canonical) (h : (d.tryToDense).run host = .ok (b, host'))
    : Materializes d b := by
  cases d with
  | logical m =>
    rw [tryToDense, run_bind_eq_ok_iff] at h
    obtain ⟨array, _, harray, h⟩ := h
    cases h
    obtain ⟨hshape, hdata⟩ := materialize_eq_ok hd harray
    exact .logical hshape hdata
  | f64 m =>
    rw [tryToDense, run_bind_eq_ok_iff] at h
    obtain ⟨array, _, harray, h⟩ := h
    cases h
    obtain ⟨hshape, hdata⟩ := materialize_eq_ok hd harray
    exact .f64 hshape hdata
  | complexF64 m =>
    rw [tryToDense, run_bind_eq_ok_iff] at h
    obtain ⟨array, _, harray, h⟩ := h
    cases h
    obtain ⟨hshape, hdata⟩ := materialize_eq_ok hd harray
    exact .complexF64 hshape hdata

theorem tryToDense_quiet (hd : d.Canonical) (hrows : d.rows ≤ u64Max)
    : ∃ b, (d.tryToDense).run Host.quiet = .ok (b, Host.quiet) := by
  cases d with
  | logical m =>
    obtain ⟨array, harray⟩ := materialize_quiet hd hrows false
    exact ⟨_, run_bind_of_eq_ok harray⟩
  | f64 m =>
    obtain ⟨array, harray⟩ := materialize_quiet hd hrows 0
    exact ⟨_, run_bind_of_eq_ok harray⟩
  | complexF64 m =>
    obtain ⟨array, harray⟩ := materialize_quiet hd hrows 0
    exact ⟨_, run_bind_of_eq_ok harray⟩

omit [Zero R] [Add R] [Double R] [DecidableEq R] in
theorem dimensions_of_ndims {array : DenseArray V} (hndims : array.shape.ndims = 2)
    : array.shape.dimensions = [array.shape.extent 0, array.shape.extent 1] ∧
        array.data.length = array.shape.extent 0 * array.shape.extent 1 := by
  refine ⟨?_, by rw [array.length_data, Arrays.Shape.numel_of_ndims_eq_two hndims]⟩
  obtain ⟨rows, columns, hdimensions⟩ := List.length_eq_two.mp hndims
  rw [Arrays.Shape.extent, Arrays.Shape.extent, hdimensions]
  rfl

omit [Zero R] [Add R] [Double R] [DecidableEq R] in
theorem extents_of_dimensions {shape : Arrays.Shape} {rows columns : Nat} (h : shape.dimensions = [rows, columns])
    : shape.extent 0 = rows ∧ shape.extent 1 = columns := by
  rw [Arrays.Shape.extent, Arrays.Shape.extent, h]
  exact ⟨rfl, rfl⟩

theorem isNonzero_bool (value : Bool) : value = !CscElement.isExplicitZero value := by
  cases value <;> rfl

theorem isNonzero_real (value : R) : decide (value ≠ 0) = !CscElement.isExplicitZero value :=
  decide_not

omit [Double R] in
theorem isNonzero_complex (value : Complex64 R)
    : (decide (value.re ≠ 0) || decide (value.im ≠ 0)) = !CscElement.isExplicitZero value := by
  simp only [CscElement.isExplicitZero, decide_not, Bool.not_and]

theorem isExplicitZero_bool (value : Bool) : CscElement.isExplicitZero value = true ↔ value = false := by
  cases value <;> decide

/-- A real matrix of complex entries that are all real holds their real parts. -/
theorem dense_real {rows columns : Nat} {m : CscMatrix (Complex64 R)} {m' : CscMatrix R} (hm : m.Canonical)
    (hrows : m.rows = rows) (hcolumns : m.columns = columns)
    (h : (tryFromCoo rows columns (mapValues Complex64.re m.entries) 0).run host = .ok (m', host'))
    : m'.dense 0 = (m.dense 0).map Complex64.re := by
  obtain ⟨hrows', hcolumns', -⟩ := tryFromCoo_eq_ok h
  rw [CscMatrix.dense, CscMatrix.dense, List.map_map, hrows, hcolumns, hrows', hcolumns']
  apply List.map_congr_left
  intro k _
  rw [getZeroBased_getD h, combinedAt_mapValues hm, Function.comp_apply]
  cases m.getZeroBased (k % rows) (k / rows) <;> rfl

theorem tryFromDense_eq_ok (h : (tryFromDense a).run host = .ok (d, host'))
    : d.Canonical ∧ Materializes d a.restored := by
  cases a with
  | logical array =>
    rw [tryFromDense, run_bind_eq_ok_iff] at h
    obtain ⟨entries, _, hentries, h⟩ := h
    obtain ⟨hndims, rfl⟩ := denseToCoo_eq_ok isNonzero_bool hentries
    obtain ⟨hdimensions, hlength⟩ := dimensions_of_ndims hndims
    rw [tryFromLogicalCoo, run_bind_eq_ok_iff] at h
    obtain ⟨m, _, hm, h⟩ := h
    cases h
    obtain ⟨hrows, hcolumns, -, hcanonical, -⟩ := tryFromCoo_eq_ok hm
    refine ⟨hcanonical, .logical (by rw [hrows, hcolumns, hdimensions]) ?_⟩
    exact (dense_of_laidOut isExplicitZero_bool hlength hm).symm
  | f64 array =>
    rw [tryFromDense, run_bind_eq_ok_iff] at h
    obtain ⟨entries, _, hentries, h⟩ := h
    obtain ⟨hndims, rfl⟩ := denseToCoo_eq_ok isNonzero_real hentries
    obtain ⟨hdimensions, hlength⟩ := dimensions_of_ndims hndims
    obtain ⟨m, hm, rfl⟩ := tryFromF64Coo_eq_ok h
    obtain ⟨hrows, hcolumns, -, hcanonical, -⟩ := tryFromCoo_eq_ok hm
    refine ⟨hcanonical, .f64 (by rw [hrows, hcolumns, hdimensions]) ?_⟩
    exact (dense_of_laidOut AdditiveElement.isExplicitZero_iff hlength hm).symm
  | complexF64 array =>
    rw [tryFromDense, run_bind_eq_ok_iff] at h
    obtain ⟨entries, _, hentries, h⟩ := h
    obtain ⟨hndims, rfl⟩ := denseToCoo_eq_ok isNonzero_complex hentries
    obtain ⟨hdimensions, hlength⟩ := dimensions_of_ndims hndims
    obtain ⟨m, _, hm, h⟩ := tryFromComplexF64Coo_eq_ok h
    obtain ⟨hrows, hcolumns, -, hcanonical, -⟩ := tryFromCoo_eq_ok hm
    have hdense := dense_of_laidOut AdditiveElement.isExplicitZero_iff hlength hm
    have hall : m.values.all (fun v => decide (v.im = 0)) = array.data.all fun v => decide (v.im = 0) := by
      rw [@CscMatrix.Canonical.all_values _ _ 0 _ _ hcanonical (decide_eq_true rfl), hdense]
    rw [hall] at h
    rw [DenseArrayData.restored]
    split at h
    . next hreal =>
      obtain ⟨_, h⟩ := h
      obtain ⟨m', hm', rfl⟩ := tryFromF64Coo_eq_ok h
      obtain ⟨hrows', hcolumns', -, hcanonical', -⟩ := tryFromCoo_eq_ok hm'
      rw [if_pos hreal]
      refine ⟨hcanonical', .f64 ?_ ?_⟩
      . rw [hrows', hcolumns']
        exact hdimensions
      . rw [dense_real hcanonical hrows hcolumns hm', hdense]
        rfl
    . next hnot =>
      rw [if_neg hnot]
      subst h
      exact ⟨hcanonical, .complexF64 (by rw [hrows, hcolumns, hdimensions]) hdense.symm⟩
  | f32 => cases h
  | complexF32 => cases h
  | char => cases h
  | integer => cases h

omit [Zero R] [Add R] [Double R] [DecidableEq R] in
theorem rows_le_of_dimensions {rows columns : Nat} (ha : a.isSupported = true)
    (hdimensions : a.dimensions = [rows, columns]) : rows ≤ u64Max := by
  have hle {shape : Arrays.Shape} (h : shape.dimensions = [rows, columns]) : rows ≤ u64Max := by
    have := shape.products_lt 1
    rw [h] at this
    unfold u64Max
    simp only [List.take_succ_cons, List.take_zero, List.prod_cons, List.prod_nil, Nat.mul_one] at this
    omega
  cases a with
  | logical array => exact hle hdimensions
  | f64 array => exact hle hdimensions
  | complexF64 array => exact hle hdimensions
  | f32 => cases ha
  | complexF32 => cases ha
  | char => cases ha
  | integer => cases ha

theorem tryFromDense_quiet {rows columns : Nat} (ha : a.isSupported = true) (hdimensions : a.dimensions = [rows, columns])
    (hcolumns : columns < u64Max)
    : ∃ d : SparseArrayData R, (tryFromDense a).run Host.quiet = .ok (d, Host.quiet) := by
  have hshape {V : Type} {array : DenseArray V} (h : array.shape.dimensions = [rows, columns])
      : array.shape.ndims = 2 ∧ array.shape.extent 1 < u64Max ∧
        array.shape.extent 0 * array.shape.extent 1 ≤ u64Max ∧ array.data.length ≤ u64Max := by
    have hndims : array.shape.ndims = 2 := by rw [Arrays.Shape.ndims, h]; rfl
    have hlt := array.shape.numel_lt
    have hlength := array.length_data
    rw [Arrays.Shape.numel_of_ndims_eq_two hndims] at hlt hlength
    refine ⟨hndims, ?_, ?_, ?_⟩
    . rw [Arrays.Shape.extent, h]
      exact hcolumns
    . unfold u64Max
      omega
    . unfold u64Max
      omega
  cases a with
  | logical array =>
    obtain ⟨hndims, hlt, hproduct, hlength⟩ := hshape hdimensions
    rw [tryFromDense, run_bind_of_eq_ok (denseToCoo_quiet isNonzero_bool hndims)]
    obtain ⟨m, hm⟩ := tryFromCoo_quiet hproduct hlt (laidOut_zipIdx_in (dimensions_of_ndims hndims).2)
      (Nat.le_trans (length_laidOut_zipIdx_le _ _) hlength) (Nat.zero_le _)
    rw [tryFromLogicalCoo, run_bind_of_eq_ok hm]
    exact ⟨_, rfl⟩
  | f64 array =>
    obtain ⟨hndims, hlt, hproduct, hlength⟩ := hshape hdimensions
    rw [tryFromDense, run_bind_of_eq_ok (denseToCoo_quiet isNonzero_real hndims)]
    exact tryFromF64Coo_quiet hproduct hlt (Nat.zero_le _) (laidOut_zipIdx_in (dimensions_of_ndims hndims).2)
      (Nat.le_trans (length_laidOut_zipIdx_le _ _) hlength)
  | complexF64 array =>
    obtain ⟨hndims, hlt, hproduct, hlength⟩ := hshape hdimensions
    rw [tryFromDense, run_bind_of_eq_ok (denseToCoo_quiet isNonzero_complex hndims)]
    exact tryFromComplexF64Coo_quiet hproduct hlt (Nat.zero_le _)
      (laidOut_zipIdx_in (dimensions_of_ndims hndims).2)
      (Nat.le_trans (length_laidOut_zipIdx_le _ _) hlength)
  | f32 => cases ha
  | complexF32 => cases ha
  | char => cases ha
  | integer => cases ha

/-- Whether no element of complex storage is complex. -/
def isRealAsComplex : SparseArrayData R → Bool
  | .complexF64 m => m.values.all fun value => decide (value.im = 0)
  | _ => false

omit [Add R] [Double R] in
theorem contents_restored [One R] (h : Materializes d a)
    : a.restored.contents.map d.present = d.contents := by
  rw [← h.contents.2]
  cases h with
  | logical hshape hdata => exact List.map_id _
  | f64 hshape hdata => exact List.map_id _
  | @complexF64 m array hshape hdata =>
    rw [DenseArrayData.restored]
    split
    . next hreal =>
      rw [DenseArrayData.contents, DenseArrayData.contents, DenseArray.map, List.map_map, List.map_map]
      apply List.map_congr_left
      intro v hv
      have him : v.im = 0 := by simpa using List.all_eq_true.mp hreal v hv
      show SparseScalarValue.complexF64 (⟨v.re, 0⟩ : Complex64 R) = .complexF64 v
      rw [← him]
    . rw [DenseArrayData.contents, List.map_map]
      rfl

omit [Add R] [Double R] in
theorem dimensions_restored (a : DenseArrayData R)
    : a.restored.dimensions = a.dimensions := by
  cases a with
  | complexF64 array =>
    rw [DenseArrayData.restored]
    split <;> rfl
  | _ => rfl

/-- The reverse trip. -/
theorem tryFromDense_restores (hd : d.Canonical) (ha : Materializes d a) (hreal : d.isRealAsComplex = false)
    (h : (tryFromDense a).run host = .ok (d', host'))
    : d' = d.withoutReserve := by
  cases ha with
  | @logical m array hshape hdata =>
    rw [tryFromDense, run_bind_eq_ok_iff] at h
    obtain ⟨entries, _, hentries, h⟩ := h
    obtain ⟨hndims, rfl⟩ := denseToCoo_eq_ok isNonzero_bool hentries
    rw [tryFromLogicalCoo, run_bind_eq_ok_iff, (extents_of_dimensions hshape).1,
      (extents_of_dimensions hshape).2, hdata] at h
    obtain ⟨m', _, hm, h⟩ := h
    cases h
    rw [tryFromCoo_restores isExplicitZero_bool hd hm, withoutReserve]
  | @f64 m array hshape hdata =>
    rw [tryFromDense, run_bind_eq_ok_iff] at h
    obtain ⟨entries, _, hentries, h⟩ := h
    obtain ⟨hndims, rfl⟩ := denseToCoo_eq_ok isNonzero_real hentries
    rw [(extents_of_dimensions hshape).1, (extents_of_dimensions hshape).2, hdata] at h
    obtain ⟨m', hm, rfl⟩ := tryFromF64Coo_eq_ok h
    rw [tryFromCoo_restores AdditiveElement.isExplicitZero_iff hd hm, withoutReserve]
  | @complexF64 m array hshape hdata =>
    rw [tryFromDense, run_bind_eq_ok_iff] at h
    obtain ⟨entries, _, hentries, h⟩ := h
    obtain ⟨hndims, rfl⟩ := denseToCoo_eq_ok isNonzero_complex hentries
    rw [(extents_of_dimensions hshape).1, (extents_of_dimensions hshape).2, hdata] at h
    obtain ⟨m', _, hm, h⟩ := tryFromComplexF64Coo_eq_ok h
    obtain rfl := tryFromCoo_restores AdditiveElement.isExplicitZero_iff hd hm
    rw [if_neg (by rw [show m.withoutReserve.values = m.values from rfl]; exact Bool.not_eq_true _ ▸ hreal)] at h
    exact h

end RoundTrip

end SparseArrayData

end Sparse
end OpenMat
