import OpenMat.Sparse.Quiet

/-!
This module contains the three sparse storage classes over the scalars of one type: their
construction from coordinates, where complex entries that are all real become real storage, and the
elements that are read from them.
-/

namespace OpenMat
namespace Sparse

/-- The operations of doubles beyond the four arithmetic ones and negation. -/
class Double (R : Type) where
  mulAdd : R → R → R → R
  abs : R → R
  atLeast : R → R → Bool
  nan : R

structure Complex64 (R : Type) where
  re : R
  im : R
  deriving DecidableEq, Repr

inductive SparseScalarValue (R : Type) where
  | logical (value : Bool)
  | f64 (value : R)
  | complexF64 (value : Complex64 R)
  deriving DecidableEq, Repr

inductive SparseArrayData (R : Type) where
  | logical (m : CscMatrix Bool)
  | f64 (m : CscMatrix R)
  | complexF64 (m : CscMatrix (Complex64 R))
  deriving DecidableEq, Repr

def saturatingAdd (a b : Nat) : Nat := min (a + b) u64Max

def checkedAddUsize (a b : Nat) : Fallible Nat :=
  if a + b ≤ u64Max then return a + b else throw (.hostLengthOverflow u64Max)

theorem checkedAddUsize_quiet {a b : Nat} (h : a + b ≤ u64Max)
    : (checkedAddUsize a b).run Host.quiet = .ok (a + b, Host.quiet) := by
  rw [checkedAddUsize, if_pos h]
  rfl

section Scalars

variable {R : Type} [Zero R] [Add R]

instance : Zero (Complex64 R) := ⟨⟨0, 0⟩⟩

instance : Add (Complex64 R) := ⟨fun a b => ⟨a.re + b.re, a.im + b.im⟩⟩

variable [DecidableEq R]

/-- Real elements. -/
instance (priority := low) [Double R] : CscElement R where
  combine a b := a + b
  isExplicitZero a := decide (a = 0)

/-- Complex elements. -/
instance : CscElement (Complex64 R) where
  combine a b := a + b
  isExplicitZero a := decide (a.re = 0) && decide (a.im = 0)

/-- Elements that are combined by addition, where only zero is removed. -/
class AdditiveElement (V : Type) [Zero V] [Add V] [CscElement V] : Prop where
  combine_eq (a b : V) : CscElement.combine a b = a + b
  isExplicitZero_iff (v : V) : CscElement.isExplicitZero v = true ↔ v = 0

instance [Double R] : AdditiveElement R where
  combine_eq _ _ := rfl
  isExplicitZero_iff _ := decide_eq_true_iff

instance : AdditiveElement (Complex64 R) where
  combine_eq _ _ := rfl
  isExplicitZero_iff v := by
    obtain ⟨re, im⟩ := v
    have hzero : (0 : Complex64 R) = ⟨0, 0⟩ := rfl
    rw [hzero, Complex64.mk.injEq]
    simp [CscElement.isExplicitZero]

end Scalars

section Values

variable {R : Type} [Zero R] [One R]

/-- The conversion of a logical value to a double. -/
def fromBool (value : Bool) : R := if value then 1 else 0

def realValue : SparseScalarValue R → R
  | .logical value => fromBool value
  | .f64 value => value
  | .complexF64 value => value.re

def complexValue : SparseScalarValue R → Complex64 R
  | .logical value => ⟨fromBool value, 0⟩
  | .f64 value => ⟨value, 0⟩
  | .complexF64 value => value

def nonzero [DecidableEq R] : SparseScalarValue R → Bool
  | .logical value => value
  | .f64 value => decide (value ≠ 0)
  | .complexF64 value => decide (value.re ≠ 0) || decide (value.im ≠ 0)

end Values

/-- The entries with converted values. -/
def mapValues {T V : Type} (f : T → V) (ts : List (CooEntry T)) : List (CooEntry V) :=
  ts.map (fun e => ⟨e.row, e.column, f e.value⟩)

/-- Check for cancellation before each element, and gather what the elements give. -/
def collect {α β : Type} (f : α → Fallible (List β)) (position : Nat)
    : List α → Fallible (List β)
  | [] => return []
  | a :: as => do
    checkCancelled position
    let gathered ← f a
    let rest ← collect f (position + 1) as
    return gathered ++ rest

namespace SparseArrayData

variable {R : Type}

def rows : SparseArrayData R → Nat
  | .logical m => m.rows
  | .f64 m => m.rows
  | .complexF64 m => m.rows

def columns : SparseArrayData R → Nat
  | .logical m => m.columns
  | .f64 m => m.columns
  | .complexF64 m => m.columns

def numel (d : SparseArrayData R) : Nat := d.rows * d.columns

def dimensions (d : SparseArrayData R) : List Nat := [d.rows, d.columns]

def nnz : SparseArrayData R → Nat
  | .logical m => m.nnz
  | .f64 m => m.nnz
  | .complexF64 m => m.nnz

def nzmax : SparseArrayData R → Nat
  | .logical m => m.nzmax
  | .f64 m => m.nzmax
  | .complexF64 m => m.nzmax

def isComplex : SparseArrayData R → Bool
  | .complexF64 _ => true
  | _ => false

def storedEntry (d : SparseArrayData R) (position : Nat) : Option (CooEntry (SparseScalarValue R)) :=
  match d with
  | .logical m => do
    let e ← m.storedEntry position
    return ⟨e.row, e.column, .logical e.value⟩
  | .f64 m => do
    let e ← m.storedEntry position
    return ⟨e.row, e.column, .f64 e.value⟩
  | .complexF64 m => do
    let e ← m.storedEntry position
    return ⟨e.row, e.column, .complexF64 e.value⟩

/-- The element at a coordinate, where an absent one is zero. -/
def element [Zero R] (d : SparseArrayData R) (row column : Nat) : SparseScalarValue R :=
  match d with
  | .logical m => .logical ((m.getZeroBased row column).getD false)
  | .f64 m => .f64 ((m.getZeroBased row column).getD 0)
  | .complexF64 m => .complexF64 ((m.getZeroBased row column).getD 0)

def elementAtOffset [Zero R] (d : SparseArrayData R) (offset : Nat)
    : Fallible (SparseScalarValue R) :=
  if offset ≥ d.numel then
    throw (.linearIndexOutOfBounds (saturatingAdd offset 1) d.numel)
  else
    return d.element (offset % d.rows) (offset / d.rows)

def tryFromLogicalCoo (rows columns : Nat) (entries : List (CooEntry Bool)) (reservedNnz : Nat)
    : Fallible (SparseArrayData R) := do
  let m ← tryFromCoo rows columns entries reservedNnz
  return .logical m

variable [Zero R] [Add R] [Double R] [DecidableEq R]

def tryFromF64Coo (rows columns : Nat) (entries : List (CooEntry R)) (reservedNnz : Nat)
    : Fallible (SparseArrayData R) := do
  let m ← tryFromCoo rows columns entries reservedNnz
  return .f64 m

def allReal (position : Nat) (answer : Bool) : List (Complex64 R) → Fallible Bool
  | [] => return answer
  | value :: values => do
    checkCancelled position
    allReal (position + 1) (answer && decide (value.im = 0)) values

def tryFromComplexF64Coo (rows columns : Nat) (entries : List (CooEntry (Complex64 R)))
    (reservedNnz : Nat) : Fallible (SparseArrayData R) := do
  let complex ← tryFromCoo rows columns entries reservedNnz
  if ← allReal 0 true complex.values then
    allocate "real canonicalization COO" complex.nnz
    let entries ← collect (fun e => return [⟨e.row, e.column, e.value.re⟩]) 0 complex.entries
    tryFromF64Coo rows columns entries reservedNnz
  else
    return .complexF64 complex

/-- The storage is canonical. -/
def Canonical : SparseArrayData R → Prop
  | .logical m => m.Canonical
  | .f64 m => m.Canonical
  | .complexF64 m => m.Canonical

variable {d : SparseArrayData R}

theorem Canonical.columns_lt (h : d.Canonical) : d.columns < u64Max := by
  cases d with
  | logical m => exact CscMatrix.Canonical.columns_lt h
  | f64 m => exact CscMatrix.Canonical.columns_lt h
  | complexF64 m => exact CscMatrix.Canonical.columns_lt h

theorem Canonical.numel_le (h : d.Canonical) : d.numel ≤ u64Max := by
  cases d with
  | logical m => exact CscMatrix.Canonical.shape_le h
  | f64 m => exact CscMatrix.Canonical.shape_le h
  | complexF64 m => exact CscMatrix.Canonical.shape_le h

end SparseArrayData

section Offsets

/-- The column-major offset of a coordinate determines it. -/
theorem offset_of_coordinates {rows columns row column : Nat} (hrow : row < rows)
    (hcolumn : column < columns)
    : row + column * rows < rows * columns ∧ (row + column * rows) % rows = row ∧
        (row + column * rows) / rows = column := by
  refine ⟨?_, ?_, ?_⟩
  . calc row + column * rows < rows + column * rows := by omega
      _ = rows * (column + 1) := by rw [Nat.mul_succ, Nat.mul_comm, Nat.add_comm]
      _ ≤ rows * columns := Nat.mul_le_mul_left _ hcolumn
  . rw [Nat.add_mul_mod_self_right, Nat.mod_eq_of_lt hrow]
  . rw [Nat.add_mul_div_right _ _ (by omega), Nat.div_eq_of_lt hrow, Nat.zero_add]

theorem coordinates_of_offset {rows columns offset : Nat} (h : offset < rows * columns)
    : offset % rows < rows ∧ offset / rows < columns := by
  have hrows : 0 < rows := by
    by_contra hcontra
    have : rows = 0 := by omega
    rw [this, Nat.zero_mul] at h
    omega
  exact ⟨Nat.mod_lt _ hrows, Nat.div_lt_of_lt_mul h⟩

/-- The column-major order of the coordinates is that of their offsets. -/
theorem coordinate_lt_of_offset_lt {V : Type} {rows a b : Nat} {v w : V} (hlt : a < b)
    : (⟨a % rows, a / rows, v⟩ : CooEntry V).coordinate <
        (⟨b % rows, b / rows, w⟩ : CooEntry V).coordinate := by
  rw [CooEntry.coordinate, CooEntry.coordinate, Prod.Lex.toLex_lt_toLex]
  dsimp only
  rcases Nat.lt_or_eq_of_le (Nat.div_le_div_right (c := rows) (Nat.le_of_lt hlt)) with h | h
  . exact .inl h
  . refine .inr ⟨h, ?_⟩
    have ha := Nat.div_add_mod a rows
    have hb := Nat.div_add_mod b rows
    rw [h] at ha
    omega

theorem divMod_inj {rows s k : Nat}
    : (s % rows, s / rows) = (k % rows, k / rows) ↔ s = k := by
  constructor
  . intro h
    rw [Prod.mk.injEq] at h
    rw [← Nat.mod_add_div s rows, ← Nat.mod_add_div k rows, h.1, h.2]
  . rintro rfl
    rfl

theorem offset_inj {rows columns row column row' column' : Nat} (hrow : row < rows) (hcolumn : column < columns)
    (hrow' : row' < rows) (hcolumn' : column' < columns)
    : row + column * rows = row' + column' * rows ↔ row = row' ∧ column = column' := by
  obtain ⟨-, hmod, hdiv⟩ := offset_of_coordinates hrow hcolumn
  obtain ⟨-, hmod', hdiv'⟩ := offset_of_coordinates hrow' hcolumn'
  constructor
  . intro h
    rw [h, hmod'] at hmod
    rw [h, hdiv'] at hdiv
    exact ⟨hmod.symm, hdiv.symm⟩
  . rintro ⟨rfl, rfl⟩
    rfl

theorem SparseArrayData.elementAtOffset_run {R : Type} [Zero R] {d : SparseArrayData R} {offset : Nat}
    (h : offset < d.numel) (host : Host)
    : (d.elementAtOffset offset).run host =
        .ok (d.element (offset % d.rows) (offset / d.rows), host) := by
  rw [elementAtOffset, if_neg (by omega)]
  rfl

end Offsets

theorem length_flatMap_le_of_le_one {α β : Type} (g : α → List β) (h : ∀ a, (g a).length ≤ 1)
    (as : List α) : (as.flatMap g).length ≤ as.length := by
  induction as with
  | nil => exact Nat.le_refl _
  | cons a as ih =>
    have := h a
    rw [List.flatMap_cons, List.length_append, List.length_cons]
    omega

section Collect

variable {α β : Type} {f : α → Fallible (List β)} {g : α → List β}

/-- What is gathered, where each element gives what `g` says whenever it succeeds. -/
theorem collect_eq_ok {as : List α} {position : Nat} {gathered : List β} {host host' : Host}
    (hf : ∀ a ∈ as, ∀ h h' ys, (f a).run h = .ok (ys, h') → ys = g a)
    (h : (collect f position as).run host = .ok (gathered, host')) : gathered = as.flatMap g := by
  induction as generalizing position gathered host with
  | nil =>
    cases h
    rfl
  | cons a as ih =>
    rw [collect] at h
    simp only [run_bind_eq_ok_iff] at h
    obtain ⟨_, h₁, -, ys, h₂, ha, rest, h₃, has, h⟩ := h
    cases h
    rw [List.flatMap_cons, hf a (by simp) _ _ _ ha, ih (fun b hb => hf b (by simp [hb])) has]

theorem collect_forall_ok {as : List α} {position : Nat} {gathered : List β} {host host' : Host}
    (h : (collect f position as).run host = .ok (gathered, host'))
    : ∀ a ∈ as, ∃ h h' ys, (f a).run h = .ok (ys, h') := by
  induction as generalizing position gathered host host' with
  | nil => simp
  | cons a as ih =>
    rw [collect] at h
    simp only [run_bind_eq_ok_iff] at h
    obtain ⟨_, h₁, -, ys, h₂, ha, rest, h₃, has, -⟩ := h
    intro b hb
    rcases List.mem_cons.mp hb with rfl | hb
    . exact ⟨_, _, _, ha⟩
    . exact ih has b hb

theorem collect_quiet {as : List α} (position : Nat)
    (hf : ∀ a ∈ as, (f a).run Host.quiet = .ok (g a, Host.quiet))
    : (collect f position as).run Host.quiet = .ok (as.flatMap g, Host.quiet) := by
  induction as generalizing position with
  | nil => rfl
  | cons a as ih =>
    rw [collect]
    simp only [run_bind_eq_ok_iff]
    exact ⟨(), _, checkCancelled_quiet position, _, _, hf a (by simp), _, _,
      ih (position + 1) (fun b hb => hf b (by simp [hb])), rfl⟩

end Collect

section MapValues

variable {T V : Type} [CscElement T] [CscElement V] {m : CscMatrix T} {f : T → V}

omit [CscElement V] in
theorem mapValues_increasing (hm : m.Canonical)
    : (mapValues f m.entries).Pairwise (fun a b => a.coordinate < b.coordinate) := by
  rw [mapValues, List.pairwise_map]
  exact hm.entries_increasing

theorem combinedAt_mapValues (hm : m.Canonical) (row column : Nat)
    : combinedAt (mapValues f m.entries) row column = (m.getZeroBased row column).map f := by
  apply Option.ext
  intro v
  rw [combinedAt_eq_some_iff (mapValues_increasing hm), mapValues, List.mem_map,
    Option.map_eq_some_iff]
  constructor
  . rintro ⟨e, he, heq⟩
    cases heq
    exact ⟨e.value, hm.getZeroBased_eq_some_iff.mpr he, rfl⟩
  . rintro ⟨w, hw, rfl⟩
    exact ⟨_, hm.getZeroBased_eq_some_iff.mp hw, rfl⟩

omit [CscElement V] in
theorem mapValues_in (hm : m.Canonical) {e : CooEntry V} (he : e ∈ mapValues f m.entries)
    : e.row < m.rows ∧ e.column < m.columns := by
  obtain ⟨a, ha, rfl⟩ := List.mem_map.mp he
  exact ⟨(hm.entries_in ha).1, (hm.entries_in ha).2.1⟩

end MapValues

theorem getZeroBased_getD_of {V : Type} [CscElement V] {zero : V}
    (hzero : ∀ v : V, CscElement.isExplicitZero v = true ↔ v = zero) {rows columns : Nat}
    {entries : List (CooEntry V)} {reservedNnz : Nat} {host host' : Host} {m : CscMatrix V}
    (h : (tryFromCoo rows columns entries reservedNnz).run host = .ok (m, host')) (row column : Nat)
    : (m.getZeroBased row column).getD zero = (combinedAt entries row column).getD zero := by
  rw [tryFromCoo_getZeroBased h]
  cases combinedAt entries row column with
  | none => rfl
  | some v =>
    rw [Option.filter_some]
    split
    . rfl
    . next hnot =>
      rw [Bool.not_eq_true, Bool.not_eq_false', hzero] at hnot
      rw [hnot]
      rfl

section Additive

variable {V : Type} [Zero V] [Add V] [CscElement V] [AdditiveElement V]

theorem getZeroBased_getD {rows columns : Nat} {entries : List (CooEntry V)} {reservedNnz : Nat}
    {host host' : Host} {m : CscMatrix V}
    (h : (tryFromCoo rows columns entries reservedNnz).run host = .ok (m, host')) (row column : Nat)
    : (m.getZeroBased row column).getD 0 = (combinedAt entries row column).getD 0 :=
  getZeroBased_getD_of AdditiveElement.isExplicitZero_iff h row column

end Additive

namespace SparseArrayData

section Construction

variable {R : Type} [Zero R] [Add R] [Double R] [DecidableEq R]
variable {rows columns reservedNnz : Nat} {host host' : Host} {d : SparseArrayData R}

theorem tryFromF64Coo_eq_ok {entries : List (CooEntry R)}
    (h : (tryFromF64Coo rows columns entries reservedNnz).run host = .ok (d, host'))
    : ∃ m, (tryFromCoo rows columns entries reservedNnz).run host = .ok (m, host') ∧ d = .f64 m := by
  rw [tryFromF64Coo, run_bind_eq_ok_iff] at h
  obtain ⟨m, h₁, hm, h⟩ := h
  cases h
  exact ⟨m, hm, rfl⟩

/-- What the construction from real coordinates holds. -/
theorem tryFromF64Coo_spec {entries : List (CooEntry R)}
    (h : (tryFromF64Coo rows columns entries reservedNnz).run host = .ok (d, host'))
    : d.rows = rows ∧ d.columns = columns ∧ d.Canonical ∧ d.isComplex = false ∧
        ∀ row column, d.element row column = .f64 ((combinedAt entries row column).getD 0) := by
  obtain ⟨m, hm, rfl⟩ := tryFromF64Coo_eq_ok h
  obtain ⟨hrows, hcolumns, -, hcanonical, -⟩ := tryFromCoo_eq_ok hm
  refine ⟨hrows, hcolumns, hcanonical, rfl, ?_⟩
  intro row column
  rw [element, getZeroBased_getD hm]

omit [Add R] [Double R] in
theorem allReal_eq_ok {values : List (Complex64 R)} {position : Nat} {answer answer' : Bool}
    (h : (allReal position answer values).run host = .ok (answer', host'))
    : answer' = (answer && values.all (fun v => decide (v.im = 0))) := by
  induction values generalizing position answer host with
  | nil =>
    cases h
    simp
  | cons v values ih =>
    rw [allReal, run_bind_eq_ok_iff] at h
    obtain ⟨_, h₁, -, h⟩ := h
    rw [ih h, List.all_cons, Bool.and_assoc]

theorem tryFromComplexF64Coo_eq_ok {entries : List (CooEntry (Complex64 R))}
    (h : (tryFromComplexF64Coo rows columns entries reservedNnz).run host = .ok (d, host'))
    : ∃ m h₁, (tryFromCoo rows columns entries reservedNnz).run host = .ok (m, h₁) ∧
        if m.values.all (fun v => decide (v.im = 0)) then
          ∃ h₂, (tryFromF64Coo rows columns (mapValues Complex64.re m.entries) reservedNnz).run h₂ =
            .ok (d, host')
        else
          d = .complexF64 m := by
  rw [tryFromComplexF64Coo, run_bind_eq_ok_iff] at h
  obtain ⟨m, h₁, hm, h⟩ := h
  refine ⟨m, h₁, hm, ?_⟩
  rw [run_bind_eq_ok_iff] at h
  obtain ⟨real, h₂, hreal, h⟩ := h
  have hreal := allReal_eq_ok hreal
  rw [Bool.true_and] at hreal
  rw [← hreal]
  split at h
  . next htrue =>
    rw [if_pos htrue]
    simp only [run_bind_eq_ok_iff] at h
    obtain ⟨_, h₃, -, entries', h₄, hcollect, h⟩ := h
    have hentries := collect_eq_ok
      (g := fun e => [(⟨e.row, e.column, e.value.re⟩ : CooEntry R)]) (by
        intro e _ h h' ys hys
        cases hys
        rfl) hcollect
    rw [← List.map_eq_flatMap] at hentries
    rw [hentries] at h
    exact ⟨h₄, h⟩
  . next hfalse =>
    rw [if_neg hfalse]
    cases h
    rfl

/-- What the construction from complex coordinates holds, in either storage class. -/
theorem tryFromComplexF64Coo_spec [One R] {entries : List (CooEntry (Complex64 R))}
    (h : (tryFromComplexF64Coo rows columns entries reservedNnz).run host = .ok (d, host'))
    : d.rows = rows ∧ d.columns = columns ∧ d.Canonical ∧
        ∀ row column, complexValue (d.element row column) =
          (combinedAt entries row column).getD 0 := by
  obtain ⟨m, h₁, hm, h⟩ := tryFromComplexF64Coo_eq_ok h
  obtain ⟨hrows, hcolumns, -, hcanonical, -⟩ := tryFromCoo_eq_ok hm
  split at h
  . next hreal =>
    obtain ⟨h₂, h⟩ := h
    obtain ⟨hrows', hcolumns', hcanonical', -, helement⟩ := tryFromF64Coo_spec h
    refine ⟨hrows', hcolumns', hcanonical', ?_⟩
    intro row column
    rw [helement, combinedAt_mapValues hcanonical, ← getZeroBased_getD hm, complexValue]
    cases hget : m.getZeroBased row column with
    | none => rfl
    | some v =>
      have hmem := hcanonical.getZeroBased_eq_some_iff.mp hget
      have him : v.im = 0 := by
        have hvalues : v ∈ m.values := by
          rw [hcanonical.encodes.values]
          exact List.mem_map.mpr ⟨_, hmem, rfl⟩
        simpa using List.all_eq_true.mp hreal v hvalues
      rw [Option.map_some, Option.getD_some, Option.getD_some, ← him]
  . subst h
    refine ⟨hrows, hcolumns, hcanonical, ?_⟩
    intro row column
    exact getZeroBased_getD hm row column

/-- What is built does not depend on the host. -/
theorem tryFromF64Coo_unique {entries : List (CooEntry R)} {d' : SparseArrayData R} {host₁ host₁' : Host}
    (h : (tryFromF64Coo rows columns entries reservedNnz).run host = .ok (d, host'))
    (h' : (tryFromF64Coo rows columns entries reservedNnz).run host₁ = .ok (d', host₁'))
    : d = d' := by
  obtain ⟨m, hm, rfl⟩ := tryFromF64Coo_eq_ok h
  obtain ⟨m', hm', rfl⟩ := tryFromF64Coo_eq_ok h'
  rw [tryFromCoo_unique hm hm']

theorem tryFromComplexF64Coo_unique {entries : List (CooEntry (Complex64 R))}
    {d' : SparseArrayData R} {host₁ host₁' : Host}
    (h : (tryFromComplexF64Coo rows columns entries reservedNnz).run host = .ok (d, host'))
    (h' : (tryFromComplexF64Coo rows columns entries reservedNnz).run host₁ = .ok (d', host₁'))
    : d = d' := by
  obtain ⟨m, _, hm, h⟩ := tryFromComplexF64Coo_eq_ok h
  obtain ⟨m', _, hm', h'⟩ := tryFromComplexF64Coo_eq_ok h'
  obtain rfl := tryFromCoo_unique hm hm'
  split at h
  . next hreal =>
    rw [if_pos hreal] at h'
    exact tryFromF64Coo_unique h.choose_spec h'.choose_spec
  . next hcomplex =>
    rw [if_neg hcomplex] at h'
    exact h.trans h'.symm

section Success

variable (hshape : rows * columns ≤ u64Max) (hcolumns : columns < u64Max)
variable (hreserved : reservedNnz ≤ u64Max)

include hshape hcolumns hreserved

theorem tryFromF64Coo_quiet {entries : List (CooEntry R)}
    (hin : ∀ e ∈ entries, e.row < rows ∧ e.column < columns) (hlength : entries.length ≤ u64Max)
    : ∃ d, (tryFromF64Coo rows columns entries reservedNnz).run Host.quiet = .ok (d, Host.quiet) := by
  obtain ⟨m, hm⟩ := tryFromCoo_quiet hshape hcolumns hin hlength hreserved
  refine ⟨.f64 m, ?_⟩
  rw [tryFromF64Coo, run_bind_eq_ok_iff]
  exact ⟨_, _, hm, rfl⟩

omit [Add R] [Double R] hshape hcolumns hreserved in
theorem allReal_quiet (position : Nat) (answer : Bool) (values : List (Complex64 R))
    : ∃ answer', (allReal position answer values).run Host.quiet = .ok (answer', Host.quiet) := by
  induction values generalizing position answer with
  | nil => exact ⟨answer, rfl⟩
  | cons v values ih =>
    obtain ⟨answer', hrun⟩ := ih (position + 1) (answer && decide (v.im = 0))
    refine ⟨answer', ?_⟩
    rw [allReal, run_bind_eq_ok_iff]
    exact ⟨(), _, checkCancelled_quiet position, hrun⟩

theorem tryFromComplexF64Coo_quiet {entries : List (CooEntry (Complex64 R))}
    (hin : ∀ e ∈ entries, e.row < rows ∧ e.column < columns) (hlength : entries.length ≤ u64Max)
    : ∃ d : SparseArrayData R,
        (tryFromComplexF64Coo rows columns entries reservedNnz).run Host.quiet =
          .ok (d, Host.quiet) := by
  obtain ⟨m, hm⟩ := tryFromCoo_quiet hshape hcolumns hin hlength hreserved
  obtain ⟨hrows', hcolumns', -, hcanonical, -⟩ := tryFromCoo_eq_ok hm
  obtain ⟨real, hreal⟩ := allReal_quiet 0 true m.values
  have hnnz := hcanonical.nnz_le
  have hcollect : (collect (fun e : CooEntry (Complex64 R) =>
      (return [⟨e.row, e.column, e.value.re⟩] : Fallible (List (CooEntry R)))) 0 m.entries).run
        Host.quiet = .ok (m.entries.flatMap fun e => [⟨e.row, e.column, e.value.re⟩], Host.quiet) :=
    collect_quiet 0 (fun _ _ => rfl)
  obtain ⟨d, hd⟩ : ∃ d : SparseArrayData R, (tryFromF64Coo rows columns
      (m.entries.flatMap fun e => [⟨e.row, e.column, e.value.re⟩]) reservedNnz).run Host.quiet =
        .ok (d, Host.quiet) := tryFromF64Coo_quiet hshape hcolumns hreserved
    (by
      intro e he
      obtain ⟨a, ha, hmem⟩ := List.mem_flatMap.mp he
      rw [List.mem_singleton.mp hmem, ← hrows', ← hcolumns']
      exact ⟨(hcanonical.entries_in ha).1, (hcanonical.entries_in ha).2.1⟩)
    (by rw [← List.map_eq_flatMap, List.length_map, hcanonical.length_entries]; exact hnnz)
  cases real with
  | true =>
    refine ⟨d, ?_⟩
    rw [tryFromComplexF64Coo, run_bind_eq_ok_iff]
    refine ⟨m, _, hm, ?_⟩
    rw [run_bind_eq_ok_iff]
    refine ⟨true, _, hreal, ?_⟩
    rw [if_pos rfl]
    simp only [run_bind_eq_ok_iff]
    exact ⟨(), _, allocate_quiet hnnz, _, _, hcollect, hd⟩
  | false =>
    refine ⟨.complexF64 m, ?_⟩
    rw [tryFromComplexF64Coo, run_bind_eq_ok_iff]
    refine ⟨m, _, hm, ?_⟩
    rw [run_bind_eq_ok_iff]
    exact ⟨false, _, hreal, rfl⟩

end Success

end Construction

end SparseArrayData

end Sparse
end OpenMat
