import Mathlib.Algebra.Ring.Int.Defs
import OpenMat.Sparse.Arithmetic
import OpenMat.Sparse.Total

/-!
This module contains the product of two sparse matrices: the products of the entries are given to the
construction from coordinates, which adds them up.
-/

namespace OpenMat
namespace Sparse

variable {R V : Type}

def CscMatrix.columnNnz {T : Type} (m : CscMatrix T) (column : Nat) : Fallible Nat := do
  let column ← checkedUsize column
  let start ← checkedUsize (m.offset column)
  let stop ← checkedUsize (m.offset (column + 1))
  return stop - start

/-- The values in a column. The entries are in column-major order, so that the scan stops behind it. -/
def scanColumn (column : Nat) : List (CooEntry V) → List (Nat × V)
  | [] => []
  | e :: es =>
    if e.column = column then
      (e.row, e.value) :: scanColumn column es
    else if e.column > column then
      []
    else
      scanColumn column es

/-- The products of the entries of a column of the left factor with an entry of the right one. -/
def productEntries (column : Nat → Fallible (List (Nat × V))) (multiply : V → V → V)
    (entries : List (CooEntry V)) : Fallible (List (CooEntry V)) :=
  collect (fun e => do
    let values ← column e.row
    return values.map (fun p => ⟨p.1, e.column, multiply p.2 e.value⟩)) 0 entries

namespace SparseArrayData

def columnNnz (d : SparseArrayData R) (column : Nat) : Fallible Nat :=
  match d with
  | .logical m => m.columnNnz column
  | .f64 m => m.columnNnz column
  | .complexF64 m => m.columnNnz column

section Entries

variable [Zero R] [One R]

def realColumn (d : SparseArrayData R) (column : Nat) : Fallible (List (Nat × R)) := do
  let capacity ← d.columnNnz column
  allocate "matrix product column" capacity
  return scanColumn column d.realEntries

def numericColumn (d : SparseArrayData R) (column : Nat) : Fallible (List (Nat × Complex64 R)) := do
  let capacity ← d.columnNnz column
  allocate "matrix product column" capacity
  return scanColumn column d.numericEntries

end Entries

/-- The number of products with the given entries of the right factor. -/
def countProducts (d : SparseArrayData R) (position products : Nat)
    : List (CooEntry V) → Fallible Nat
  | [] => return products
  | e :: es => do
    checkCancelled position
    let nnz ← d.columnNnz e.row
    let products ← checkedAddUsize products nnz
    countProducts d (position + 1) products es

variable [Zero R] [One R] [Add R] [Mul R] [Neg R] [Double R] [DecidableEq R]

def tryMatrixMultiply (lhs rhs : SparseArrayData R) : Fallible (SparseArrayData R) := do
  if lhs.columns ≠ rhs.rows then
    throw (.shapeMismatch "matrix multiplication" lhs.dimensions rhs.dimensions)
  let products ← lhs.countProducts 0 0 rhs.numericEntries
  if lhs.isComplex || rhs.isComplex then
    allocate "matrix product COO" products
    let entries ← productEntries lhs.numericColumn complexMul rhs.numericEntries
    tryFromComplexF64Coo lhs.rows rhs.columns entries 0
  else
    allocate "matrix product COO" products
    let entries ← productEntries lhs.realColumn (· * ·) rhs.realEntries
    tryFromF64Coo lhs.rows rhs.columns entries 0

end SparseArrayData

section Scan

variable {ts : List (CooEntry V)}

/-- The early stop loses nothing in column-major order. -/
theorem scanColumn_eq (h : ts.Pairwise (fun a b => a.coordinate < b.coordinate)) (column : Nat)
    : scanColumn column ts =
        (ts.filter (fun e => decide (e.column = column))).map (fun e => (e.row, e.value)) := by
  induction ts with
  | nil => rfl
  | cons e ts ih =>
    rw [List.pairwise_cons] at h
    rw [scanColumn]
    split
    . next heq => rw [List.filter_cons_of_pos (by simpa using heq), List.map_cons, ih h.2]
    . next hne =>
      rw [List.filter_cons_of_neg (by simpa using hne)]
      split
      . next hgt =>
        have hnone : ts.filter (fun a => decide (a.column = column)) = [] := by
          rw [List.filter_eq_nil_iff]
          intro a ha
          have := column_le_of_coordinate_le (le_of_lt (h.1 a ha))
          simp only [decide_eq_true_eq]
          omega
        rw [hnone, List.map_nil]
      . exact ih h.2

end Scan

section Column

variable {T : Type} [CscElement T] {m : CscMatrix T}

/-- The offsets of a column count its entries. -/
theorem CscMatrix.Canonical.length_column (h : m.Canonical) {column : Nat} (hc : column < m.columns)
    : (m.entries.filter (fun e => decide (e.column = column))).length =
        m.offset (column + 1) - m.offset column := by
  have hoffset : ∀ c ≤ m.columns, m.offset c = Sequence.below CooEntry.column m.entries c := by
    intro c hc
    rw [CscMatrix.offset, List.getD_eq_getElem?_getD, h.encodes.getElem?_offsets hc,
      Option.getD_some]
  have hle := h.offset_mono (c := column + 1) (d := m.columns) hc (Nat.le_refl _)
  rw [h.last_offset, ← h.length_entries] at hle
  rw [← Sequence.slice_below h.encodes.sorted, ← hoffset _ (Nat.le_of_lt hc),
    ← hoffset (column + 1) (by omega),
    List.length_take, List.length_drop]
  omega

omit [CscElement T] in
theorem CscMatrix.columnNnz_eq_ok {column nnz : Nat} {host host' : Host}
    (h : (m.columnNnz column).run host = .ok (nnz, host'))
    : nnz = m.offset (column + 1) - m.offset column := by
  rw [CscMatrix.columnNnz] at h
  simp only [run_bind_eq_ok_iff] at h
  obtain ⟨c, _, hc, start, _, hstart, stop, _, hstop, h⟩ := h
  have hcast : ∀ {a b : Nat} {h h' : Host}, (checkedUsize a).run h = .ok (b, h') → b = a := by
    intro a b h h' hrun
    unfold checkedUsize at hrun
    split at hrun <;> cases hrun
    rfl
  cases h
  rw [hcast hstop, hcast hstart, hcast hc]

theorem CscMatrix.columnNnz_quiet (hm : m.Canonical) {column : Nat} (hc : column < m.columns)
    : (m.columnNnz column).run Host.quiet =
        .ok (m.offset (column + 1) - m.offset column, Host.quiet) := by
  have hcolumns := hm.columns_lt
  have hnnz := hm.nnz_le
  have hle := hm.offset_mono (c := column + 1) (d := m.columns) hc (Nat.le_refl _)
  have hle' := hm.offset_mono (c := column) (d := m.columns) (Nat.le_of_lt hc) (Nat.le_refl _)
  rw [hm.last_offset] at hle hle'
  rw [CscMatrix.columnNnz]
  simp only [run_bind_eq_ok_iff]
  exact ⟨_, _, checkedUsize_quiet (by omega), _, _, checkedUsize_quiet (by omega), _, _,
    checkedUsize_quiet (by omega), rfl⟩

end Column

/-- The products of the entries `ts` in a column with an entry of that row. -/
def entryProducts (multiply : V → V → V) (ts : List (CooEntry V)) (e : CooEntry V)
    : List (CooEntry V) :=
  (ts.filter (fun a => decide (a.column = e.row))).map
    (fun a => ⟨a.row, e.column, multiply a.value e.value⟩)

theorem length_filter_mapValues {T : Type} (f : T → V) (ts : List (CooEntry T)) (column : Nat)
    : ((mapValues f ts).filter (fun e => decide (e.column = column))).length =
        (ts.filter (fun e => decide (e.column = column))).length := by
  rw [mapValues, List.filter_map, List.length_map]
  rfl

section ProductEntries

variable {column : Nat → Fallible (List (Nat × V))} {multiply : V → V → V} {ts ts' : List (CooEntry V)}

theorem productEntries_eq_ok {entries : List (CooEntry V)} {host host' : Host}
    (hcolumn : ∀ k h h' values, (column k).run h = .ok (values, h') → values =
      (ts.filter (fun e => decide (e.column = k))).map (fun e => (e.row, e.value)))
    (h : (productEntries column multiply ts').run host = .ok (entries, host'))
    : entries = ts'.flatMap (entryProducts multiply ts) := by
  apply collect_eq_ok _ h
  intro e _ h h' ys hrun
  rw [run_bind_eq_ok_iff] at hrun
  obtain ⟨values, _, hvalues, hrun⟩ := hrun
  cases hrun
  rw [hcolumn _ _ _ _ hvalues, List.map_map]
  rfl

theorem productEntries_quiet
    (hcolumn : ∀ e ∈ ts', (column e.row).run Host.quiet = .ok
      ((ts.filter (fun a => decide (a.column = e.row))).map (fun a => (a.row, a.value)), Host.quiet))
    : (productEntries column multiply ts').run Host.quiet =
        .ok (ts'.flatMap (entryProducts multiply ts), Host.quiet) := by
  apply collect_quiet
  intro e he
  rw [run_bind_eq_ok_iff]
  refine ⟨_, _, hcolumn e he, ?_⟩
  rw [List.map_map]
  rfl

end ProductEntries

namespace SparseArrayData

section Columns

variable [Zero R] [One R] [Add R] [Double R] [DecidableEq R] {d : SparseArrayData R} {column : Nat}

/-- The number of entries in a column. -/
def columnLength (d : SparseArrayData R) (column : Nat) : Nat :=
  (d.numericEntries.filter (fun e => decide (e.column = column))).length

theorem columnNnz_spec (hd : d.Canonical) (hc : column < d.columns)
    : (d.columnNnz column).run Host.quiet = .ok (d.columnLength column, Host.quiet) ∧
      ∀ nnz host host', (d.columnNnz column).run host = .ok (nnz, host') →
        nnz = d.columnLength column := by
  unfold columnLength
  cases d with
  | logical m =>
    rw [numericEntries, length_filter_mapValues, CscMatrix.Canonical.length_column hd hc]
    exact ⟨CscMatrix.columnNnz_quiet hd hc, fun _ _ _ h => CscMatrix.columnNnz_eq_ok h⟩
  | f64 m =>
    rw [numericEntries, length_filter_mapValues, CscMatrix.Canonical.length_column hd hc]
    exact ⟨CscMatrix.columnNnz_quiet hd hc, fun _ _ _ h => CscMatrix.columnNnz_eq_ok h⟩
  | complexF64 m =>
    rw [numericEntries, CscMatrix.Canonical.length_column hd hc]
    exact ⟨CscMatrix.columnNnz_quiet hd hc, fun _ _ _ h => CscMatrix.columnNnz_eq_ok h⟩

theorem columnLength_le (hd : d.Canonical) (column : Nat) : d.columnLength column ≤ u64Max := by
  refine Nat.le_trans (List.length_filter_le _ _) ?_
  cases d with
  | logical m =>
    rw [numericEntries, mapValues, List.length_map, CscMatrix.Canonical.length_entries hd]
    exact CscMatrix.Canonical.nnz_le hd
  | f64 m =>
    rw [numericEntries, mapValues, List.length_map, CscMatrix.Canonical.length_entries hd]
    exact CscMatrix.Canonical.nnz_le hd
  | complexF64 m =>
    rw [numericEntries, CscMatrix.Canonical.length_entries hd]
    exact CscMatrix.Canonical.nnz_le hd

omit [Add R] [Double R] [DecidableEq R] in
theorem columnLength_of_real (hreal : d.isComplex = false) (column : Nat)
    : d.columnLength column =
        (d.realEntries.filter (fun e => decide (e.column = column))).length := by
  rw [columnLength, numericEntries_of_real hreal, length_filter_mapValues]

theorem realColumn_eq_ok (hd : d.Canonical) {values : List (Nat × R)} {host host' : Host}
    (h : (d.realColumn column).run host = .ok (values, host'))
    : values = (d.realEntries.filter (fun e => decide (e.column = column))).map
        (fun e => (e.row, e.value)) := by
  rw [realColumn] at h
  simp only [run_bind_eq_ok_iff] at h
  obtain ⟨_, _, -, _, _, -, h⟩ := h
  cases h
  exact scanColumn_eq (realEntries_increasing hd) column

theorem numericColumn_eq_ok (hd : d.Canonical) {values : List (Nat × Complex64 R)} {host host' : Host}
    (h : (d.numericColumn column).run host = .ok (values, host'))
    : values = (d.numericEntries.filter (fun e => decide (e.column = column))).map
        (fun e => (e.row, e.value)) := by
  rw [numericColumn] at h
  simp only [run_bind_eq_ok_iff] at h
  obtain ⟨_, _, -, _, _, -, h⟩ := h
  cases h
  exact scanColumn_eq (numericEntries_increasing hd) column

theorem realColumn_quiet (hd : d.Canonical) (hc : column < d.columns)
    : (d.realColumn column).run Host.quiet =
        .ok ((d.realEntries.filter (fun e => decide (e.column = column))).map
          (fun e => (e.row, e.value)), Host.quiet) := by
  rw [realColumn]
  simp only [run_bind_eq_ok_iff]
  refine ⟨_, _, (columnNnz_spec hd hc).1, (), _, allocate_quiet (columnLength_le hd column), ?_⟩
  rw [scanColumn_eq (realEntries_increasing hd) column]
  rfl

theorem numericColumn_quiet (hd : d.Canonical) (hc : column < d.columns)
    : (d.numericColumn column).run Host.quiet =
        .ok ((d.numericEntries.filter (fun e => decide (e.column = column))).map
          (fun e => (e.row, e.value)), Host.quiet) := by
  rw [numericColumn]
  simp only [run_bind_eq_ok_iff]
  refine ⟨_, _, (columnNnz_spec hd hc).1, (), _, allocate_quiet (columnLength_le hd column), ?_⟩
  rw [scanColumn_eq (numericEntries_increasing hd) column]
  rfl

end Columns

section Count

variable [Zero R] [One R] [Add R] [Double R] [DecidableEq R] {d : SparseArrayData R}
variable {ts : List (CooEntry V)}

theorem countProducts_eq_ok (hd : d.Canonical) (hts : ∀ e ∈ ts, e.row < d.columns)
    {position products count : Nat} {host host' : Host}
    (h : (d.countProducts position products ts).run host = .ok (count, host'))
    : count = products + (ts.map (fun e => d.columnLength e.row)).sum := by
  induction ts generalizing position products host with
  | nil =>
    cases h
    rfl
  | cons e ts ih =>
    rw [countProducts] at h
    simp only [run_bind_eq_ok_iff] at h
    obtain ⟨_, _, -, nnz, _, hnnz, products', _, hadd, h⟩ := h
    have hproducts : products' = products + nnz := by
      unfold checkedAddUsize at hadd
      split at hadd <;> cases hadd
      rfl
    rw [ih (fun a ha => hts a (by simp [ha])) h, hproducts,
      (columnNnz_spec hd (hts e (by simp))).2 _ _ _ hnnz, List.map_cons, List.sum_cons, Nat.add_assoc]

theorem countProducts_quiet (hd : d.Canonical) (hts : ∀ e ∈ ts, e.row < d.columns)
    (position products : Nat)
    (hcount : products + (ts.map (fun e => d.columnLength e.row)).sum ≤ u64Max)
    : (d.countProducts position products ts).run Host.quiet =
        .ok (products + (ts.map (fun e => d.columnLength e.row)).sum, Host.quiet) := by
  induction ts generalizing position products with
  | nil => rfl
  | cons e ts ih =>
    rw [List.map_cons, List.sum_cons, ← Nat.add_assoc] at hcount ⊢
    rw [countProducts]
    simp only [run_bind_eq_ok_iff]
    exact ⟨(), _, checkCancelled_quiet position, _, _, (columnNnz_spec hd (hts e (by simp))).1, _, _,
      checkedAddUsize_quiet (by omega), ih (fun a ha => hts a (by simp [ha])) _ _ hcount⟩

theorem length_products (multiply : V → V → V) (ts' : List (CooEntry V))
    : (ts'.flatMap (entryProducts multiply ts)).length =
        (ts'.map (fun e => (ts.filter (fun a => decide (a.column = e.row))).length)).sum := by
  rw [List.length_flatMap]
  congr 1
  apply List.map_congr_left
  intro e _
  rw [entryProducts, List.length_map]

end Count

section Multiply

/-- Scalars whose operations are exact: those of a semiring, with an additive negation. -/
structure ExactDouble (R : Type) [Semiring R] [Neg R] [Double R] : Prop where
  mulAdd_eq (a b c : R) : Double.mulAdd a b c = a * b + c
  neg_zero : -(0 : R) = 0
  neg_add (a b : R) : -(a + b) = -a + -b

instance [AddCommMonoid R] : AddCommMonoid (Complex64 R) where
  add_assoc a b c := congrArg₂ Complex64.mk (add_assoc _ _ _) (add_assoc _ _ _)
  zero_add a := congrArg₂ Complex64.mk (zero_add _) (zero_add _)
  add_zero a := congrArg₂ Complex64.mk (add_zero _) (add_zero _)
  add_comm a b := congrArg₂ Complex64.mk (add_comm _ _) (add_comm _ _)
  nsmul := nsmulRec

variable [Semiring R] [Neg R] [Double R]

omit [Neg R] [Double R] in
theorem distributes_mul : Distributes (fun a b : R => a * b) where
  zero_left := zero_mul
  zero_right := mul_zero
  add_left := add_mul
  add_right := mul_add

theorem distributes_complexMul (h : ExactDouble R)
    : Distributes (complexMul : Complex64 R → Complex64 R → Complex64 R) where
  zero_left a := by
    have hre : (0 : Complex64 R).re = 0 := rfl
    have him : (0 : Complex64 R).im = 0 := rfl
    simp only [complexMul, h.mulAdd_eq, hre, him, zero_mul, h.neg_zero, add_zero]
    rfl
  zero_right a := by
    have hre : (0 : Complex64 R).re = 0 := rfl
    have him : (0 : Complex64 R).im = 0 := rfl
    simp only [complexMul, h.mulAdd_eq, hre, him, mul_zero, h.neg_zero, add_zero]
    rfl
  add_left a b c := by
    have hre : (a + b).re = a.re + b.re := rfl
    have him : (a + b).im = a.im + b.im := rfl
    rw [complexMul, complexMul, complexMul]
    simp only [h.mulAdd_eq, hre, him, add_mul, h.neg_add]
    exact congrArg₂ Complex64.mk (add_add_add_comm _ _ _ _) (add_add_add_comm _ _ _ _)
  add_right a b c := by
    have hre : (b + c).re = b.re + c.re := rfl
    have him : (b + c).im = b.im + c.im := rfl
    rw [complexMul, complexMul, complexMul]
    simp only [h.mulAdd_eq, hre, him, mul_add, h.neg_add]
    exact congrArg₂ Complex64.mk (add_add_add_comm _ _ _ _) (add_add_add_comm _ _ _ _)

variable [DecidableEq R] {lhs rhs : SparseArrayData R}

/-- The number of products of an entry of the left factor with one of the right factor. -/
def productCount (lhs rhs : SparseArrayData R) : Nat :=
  (rhs.numericEntries.map (fun e => lhs.columnLength e.row)).sum

omit [Neg R] in
theorem total_realEntries {d : SparseArrayData R} (h : d.Canonical) (hreal : d.isComplex = false)
    (row column : Nat) : total d.realEntries row column = realValue (d.element row column) := by
  rw [← combinedAt_getD, combinedAt_realEntries h hreal]

omit [Neg R] in
theorem total_numericEntries {d : SparseArrayData R} (h : d.Canonical) (row column : Nat)
    : total d.numericEntries row column = complexValue (d.element row column) := by
  rw [← combinedAt_getD, combinedAt_numericEntries h]

omit [Neg R] [Double R] [DecidableEq R] in
theorem length_real_products (hlhs : lhs.isComplex = false) (hrhs : rhs.isComplex = false)
    : (rhs.realEntries.flatMap (entryProducts (· * ·) lhs.realEntries)).length =
        productCount lhs rhs := by
  rw [length_products, productCount, numericEntries_of_real hrhs, mapValues, List.map_map]
  congr 1
  apply List.map_congr_left
  intro e _
  exact (columnLength_of_real hlhs e.row).symm

omit [DecidableEq R] in
theorem length_complex_products
    : (rhs.numericEntries.flatMap (entryProducts complexMul lhs.numericEntries)).length =
        productCount lhs rhs := by
  rw [length_products, productCount]
  rfl

/-- What a completed product holds. -/
theorem tryMatrixMultiply_eq_ok (hexact : ExactDouble R) (hlhs : lhs.Canonical) (hrhs : rhs.Canonical)
    (hinner : lhs.columns = rhs.rows) {d : SparseArrayData R} {host host' : Host}
    (h : (lhs.tryMatrixMultiply rhs).run host = .ok (d, host'))
    : d.rows = lhs.rows ∧ d.columns = rhs.columns ∧ d.Canonical ∧
        if lhs.isComplex || rhs.isComplex then
          ∀ i j, complexValue (d.element i j) = (Finset.range lhs.columns).sum (fun k =>
            complexMul (complexValue (lhs.element i k)) (complexValue (rhs.element k j)))
        else
          ∀ i j, d.element i j = .f64 ((Finset.range lhs.columns).sum (fun k =>
            realValue (lhs.element i k) * realValue (rhs.element k j))) := by
  rw [tryMatrixMultiply, if_neg (not_not.mpr hinner)] at h
  simp only [run_bind_eq_ok_iff] at h
  obtain ⟨products, h₁, -, h⟩ := h
  split at h
  . next hcomplex =>
    simp only [run_bind_eq_ok_iff] at h
    obtain ⟨_, h₂, -, entries, h₃, hentries, h⟩ := h
    obtain rfl := productEntries_eq_ok (fun _ _ _ _ => numericColumn_eq_ok hlhs) hentries
    obtain ⟨hrows, hcolumns, hcanonical, helement⟩ := tryFromComplexF64Coo_spec h
    refine ⟨hrows, hcolumns, hcanonical, ?_⟩
    rw [if_pos hcomplex]
    intro i j
    have hsum := total_products (distributes_complexMul hexact) lhs.numericEntries
      rhs.numericEntries lhs.columns
      (fun e he => hinner ▸ (numericEntries_in hrhs he).1) i j
    rw [helement, combinedAt_getD]
    refine hsum.trans (Finset.sum_congr rfl fun k _ => ?_)
    rw [total_numericEntries hlhs, total_numericEntries hrhs]
  . next hreal =>
    simp only [run_bind_eq_ok_iff] at h
    obtain ⟨_, h₂, -, entries, h₃, hentries, h⟩ := h
    obtain rfl := productEntries_eq_ok (fun _ _ _ _ => realColumn_eq_ok hlhs) hentries
    obtain ⟨hrows, hcolumns, hcanonical, -, helement⟩ := tryFromF64Coo_spec h
    refine ⟨hrows, hcolumns, hcanonical, ?_⟩
    rw [if_neg hreal]
    simp only [Bool.or_eq_true, not_or, Bool.not_eq_true] at hreal
    intro i j
    have hsum := total_products distributes_mul lhs.realEntries
      rhs.realEntries lhs.columns
      (fun e he => hinner ▸ (realEntries_in hrhs he).1) i j
    rw [helement, combinedAt_getD]
    refine congrArg _ (hsum.trans (Finset.sum_congr rfl fun k _ => ?_))
    rw [total_realEntries hlhs hreal.1, total_realEntries hrhs hreal.2]

theorem row_lt_rows_of_products {multiply : V → V → V} {ts ts' : List (CooEntry V)} {rows columns : Nat}
    (hts : ∀ e ∈ ts, e.row < rows) (hts' : ∀ e ∈ ts', e.column < columns)
    : ∀ e ∈ ts'.flatMap (entryProducts multiply ts), e.row < rows ∧ e.column < columns := by
  intro e he
  obtain ⟨b, hb, he⟩ := List.mem_flatMap.mp he
  obtain ⟨a, ha, rfl⟩ := List.mem_map.mp he
  exact ⟨hts a (List.mem_of_mem_filter ha), hts' b hb⟩

/-- A quiet host completes the product, if its shape is one. -/
theorem tryMatrixMultiply_quiet (hlhs : lhs.Canonical) (hrhs : rhs.Canonical)
    (hinner : lhs.columns = rhs.rows) (hcount : productCount lhs rhs ≤ u64Max)
    : (lhs.rows * rhs.columns ≤ u64Max →
        ∃ d, (lhs.tryMatrixMultiply rhs).run Host.quiet = .ok (d, Host.quiet)) ∧
      (u64Max < lhs.rows * rhs.columns →
        (lhs.tryMatrixMultiply rhs).run Host.quiet =
          .error (.shapeOverflow lhs.rows rhs.columns)) := by
  have hrowsIn : ∀ e ∈ rhs.numericEntries, e.row < lhs.columns :=
    fun e he => hinner ▸ (numericEntries_in hrhs he).1
  have hproducts := countProducts_quiet hlhs hrowsIn 0 0 (by rw [Nat.zero_add]; exact hcount)
  rw [Nat.zero_add, ← productCount] at hproducts
  have hoverflow : ∀ {T : Type} [CscElement T] (entries : List (CooEntry T)),
      u64Max < lhs.rows * rhs.columns →
        (tryFromCoo lhs.rows rhs.columns entries 0).run Host.quiet =
          .error (.shapeOverflow lhs.rows rhs.columns) := by
    intro T _ entries hlt
    rw [tryFromCoo, StateT.run_bind, sparseShape, if_neg (by omega)]
    rfl
  rw [tryMatrixMultiply, if_neg (not_not.mpr hinner)]
  rw [run_bind_of_eq_ok hproducts]
  split
  . have hcolumn : ∀ e ∈ rhs.numericEntries, (lhs.numericColumn e.row).run Host.quiet = .ok
        ((lhs.numericEntries.filter (fun a => decide (a.column = e.row))).map
          (fun a => (a.row, a.value)), Host.quiet) :=
      fun e he => numericColumn_quiet hlhs (hrowsIn e he)
    rw [run_bind_of_eq_ok (allocate_quiet hcount), run_bind_of_eq_ok (productEntries_quiet hcolumn)]
    constructor
    . intro hshape
      exact tryFromComplexF64Coo_quiet hshape hrhs.columns_lt (Nat.zero_le _)
        (row_lt_rows_of_products (fun e he => (numericEntries_in hlhs he).1)
          (fun e he => (numericEntries_in hrhs he).2))
        (by rw [length_complex_products]; exact hcount)
    . intro hlt
      rw [tryFromComplexF64Coo, StateT.run_bind, hoverflow _ hlt]
      rfl
  . next hreal =>
    simp only [Bool.or_eq_true, not_or, Bool.not_eq_true] at hreal
    have hrealIn : ∀ e ∈ rhs.realEntries, e.row < lhs.columns :=
      fun e he => hinner ▸ (realEntries_in hrhs he).1
    have hcolumn : ∀ e ∈ rhs.realEntries, (lhs.realColumn e.row).run Host.quiet = .ok
        ((lhs.realEntries.filter (fun a => decide (a.column = e.row))).map
          (fun a => (a.row, a.value)), Host.quiet) :=
      fun e he => realColumn_quiet hlhs (hrealIn e he)
    rw [run_bind_of_eq_ok (allocate_quiet hcount), run_bind_of_eq_ok (productEntries_quiet hcolumn)]
    constructor
    . intro hshape
      exact tryFromF64Coo_quiet hshape hrhs.columns_lt (Nat.zero_le _)
        (row_lt_rows_of_products (fun e he => (realEntries_in hlhs he).1)
          (fun e he => (realEntries_in hrhs he).2))
        (by rw [length_real_products hreal.1 hreal.2]; exact hcount)
    . intro hlt
      rw [tryFromF64Coo, StateT.run_bind, hoverflow _ hlt]
      rfl

/--
Multiplication rejects different inner dimensions. Otherwise what it completes is canonical and holds
the sums of the products, it fills no more of the allocation than it has counted, and a quiet host
completes it exactly if the product has a shape.
-/
theorem tryMatrixMultiply_correct (hexact : ExactDouble R) (lhs rhs : SparseArrayData R)
    (hlhs : lhs.Canonical) (hrhs : rhs.Canonical) (host : Host)
    : (lhs.columns ≠ rhs.rows →
        (lhs.tryMatrixMultiply rhs).run host =
          .error (.shapeMismatch "matrix multiplication" lhs.dimensions rhs.dimensions)) ∧
      (lhs.columns = rhs.rows →
        (∀ d host', (lhs.tryMatrixMultiply rhs).run host = .ok (d, host') →
          d.rows = lhs.rows ∧ d.columns = rhs.columns ∧ d.Canonical ∧
          if lhs.isComplex || rhs.isComplex then
            ∀ i j, complexValue (d.element i j) = (Finset.range lhs.columns).sum (fun k =>
              complexMul (complexValue (lhs.element i k)) (complexValue (rhs.element k j)))
          else
            ∀ i j, d.element i j = .f64 ((Finset.range lhs.columns).sum (fun k =>
              realValue (lhs.element i k) * realValue (rhs.element k j)))) ∧
        (productCount lhs rhs ≤ u64Max →
          (lhs.rows * rhs.columns ≤ u64Max →
            ∃ d, (lhs.tryMatrixMultiply rhs).run Host.quiet = .ok (d, Host.quiet)) ∧
          (u64Max < lhs.rows * rhs.columns →
            (lhs.tryMatrixMultiply rhs).run Host.quiet =
              .error (.shapeOverflow lhs.rows rhs.columns))) ∧
        ∀ products counted,
          (lhs.countProducts 0 0 rhs.numericEntries).run host = .ok (products, counted) →
          (∀ entries host₁ host₂, (productEntries lhs.numericColumn complexMul
            rhs.numericEntries).run host₁ = .ok (entries, host₂) → entries.length ≤ products) ∧
          (lhs.isComplex = false → rhs.isComplex = false →
            ∀ entries host₁ host₂, (productEntries lhs.realColumn (· * ·) rhs.realEntries).run
              host₁ = .ok (entries, host₂) → entries.length ≤ products)) := by
  constructor
  . intro hne
    rw [tryMatrixMultiply, if_pos hne]
    rfl
  . intro hinner
    refine ⟨fun d host' h => tryMatrixMultiply_eq_ok hexact hlhs hrhs hinner h,
      fun hcount => tryMatrixMultiply_quiet hlhs hrhs hinner hcount, ?_⟩
    intro products counted hcounted
    have hcount := countProducts_eq_ok hlhs
      (fun e he => hinner ▸ (numericEntries_in hrhs he).1) hcounted
    rw [Nat.zero_add, ← productCount] at hcount
    constructor
    . intro entries host₁ host₂ hentries
      rw [productEntries_eq_ok (fun _ _ _ _ => numericColumn_eq_ok hlhs) hentries,
        length_complex_products, hcount]
    . intro hreal hreal' entries host₁ host₂ hentries
      rw [productEntries_eq_ok (fun _ _ _ _ => realColumn_eq_ok hlhs) hentries,
        length_real_products hreal hreal', hcount]

end Multiply

section Integers

theorem exactDouble_int : ExactDouble Int where
  mulAdd_eq _ _ _ := rfl
  neg_zero := rfl
  neg_add _ _ := Int.neg_add

/-- The products of the first row cancel. -/
theorem tryMatrixMultiply_correct_triangle
    : ∃ d, (triangle.tryMatrixMultiply negatedColumn).run Host.quiet = .ok (d, Host.quiet) ∧
        d.Canonical ∧ d.element 0 0 = .f64 0 ∧ d.element 1 0 = .f64 (-6) := by
  obtain ⟨-, hmultiply⟩ := tryMatrixMultiply_correct exactDouble_int triangle negatedColumn
    triangle_canonical negatedColumn_canonical Host.quiet
  obtain ⟨hholds, hquiet, -⟩ := hmultiply rfl
  obtain ⟨d, hd⟩ := (hquiet (by decide)).1 (by decide)
  obtain ⟨-, -, hcanonical, helement⟩ := hholds d _ hd
  exact ⟨d, hd, hcanonical, helement 0 0, helement 1 0⟩

theorem tryMatrixMultiply_overflow
    : tallColumn.Canonical ∧ emptyRow.Canonical ∧ tallColumn.columns = emptyRow.rows ∧
        (tallColumn.tryMatrixMultiply emptyRow).run Host.quiet =
          .error (.shapeOverflow 9223372036854775808 2) :=
  ⟨tallColumn_canonical, emptyRow_canonical, rfl, rfl⟩

end Integers

end SparseArrayData

end Sparse
end OpenMat
