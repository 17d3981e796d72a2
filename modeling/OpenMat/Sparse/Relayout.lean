import OpenMat.Sequence.Removal
import OpenMat.Sparse.Data

/-!
This module contains operations that move the stored entries of a matrix into a matrix of another shape.
-/

namespace OpenMat
namespace Sparse

variable {R T : Type}

/-- The entries at the coordinates that they are moved to; some are removed. -/
def moved (place : Nat → Nat → Option (Nat × Nat)) (entries : List (CooEntry T)) : List (CooEntry T) :=
  entries.flatMap fun e => (place e.row e.column).elim [] fun p => [⟨p.1, p.2, e.value⟩]

namespace SparseArrayData

/-- The stored entries, each at the coordinate that `place` computes for it, if it keeps the entry. -/
def placedEntries (storage : String) (place : Nat → Nat → Fallible (Option (Nat × Nat))) (m : CscMatrix T)
    : Fallible (List (CooEntry T)) := do
  allocate storage m.nnz
  collect (fun e => do
    let p ← place e.row e.column
    return p.elim [] fun p => [⟨p.1, p.2, e.value⟩]) 0 m.entries

section Relayout

variable [Zero R] [Add R] [Double R] [DecidableEq R]

/-- What the structural operations share: new coordinates for the entries of any of the three classes. -/
def relayout (d : SparseArrayData R) (storage : String) (rows columns : Nat)
    (place : Nat → Nat → Fallible (Option (Nat × Nat))) : Fallible (SparseArrayData R) :=
  match d with
  | .logical m => do
    let entries ← placedEntries storage place m
    tryFromLogicalCoo rows columns entries m.nzmax
  | .f64 m => do
    let entries ← placedEntries storage place m
    tryFromF64Coo rows columns entries m.nzmax
  | .complexF64 m => do
    let entries ← placedEntries storage place m
    tryFromComplexF64Coo rows columns entries m.nzmax

end Relayout

section Contents

variable [Zero R] [One R]

/-- The element at a column-major offset. -/
def elementAt (d : SparseArrayData R) (offset : Nat) : SparseScalarValue R :=
  d.element (offset % d.rows) (offset / d.rows)

/-- The dense column-major elements. -/
def contents (d : SparseArrayData R) : List (SparseScalarValue R) :=
  (List.range d.numel).map d.elementAt

/-- Complex storage that has become real counts as complex, where `d` is complex. -/
def present (d : SparseArrayData R) (value : SparseScalarValue R) : SparseScalarValue R :=
  if d.isComplex then .complexF64 (complexValue value) else value

omit [One R] in
/-- The dense elements of a matrix, column by column. -/
theorem contents_eq_flatMap (d : SparseArrayData R)
    : d.contents = (List.range d.columns).flatMap fun column =>
        (List.range d.rows).map fun row => d.element row column := by
  rw [contents, numel, Sequence.range_mul, List.map_flatMap]
  apply List.flatMap_congr
  intro column hcolumn
  rw [List.map_map]
  apply List.map_congr_left
  intro row hrow
  obtain ⟨-, hmod, hdiv⟩ := offset_of_coordinates (List.mem_range.mp hrow) (List.mem_range.mp hcolumn)
  rw [Function.comp_apply, elementAt, hmod, hdiv]

end Contents

end SparseArrayData

section Moved

variable {place : Nat → Nat → Option (Nat × Nat)} {entries : List (CooEntry T)} {row column r c : Nat}

theorem mem_moved {t : CooEntry T}
    : t ∈ moved place entries ↔ ∃ e ∈ entries, place e.row e.column = some (t.row, t.column) ∧
        t.value = e.value := by
  rw [moved, List.mem_flatMap]
  constructor
  . rintro ⟨e, he, ht⟩
    refine ⟨e, he, ?_⟩
    cases hplace : place e.row e.column with
    | none =>
      rw [hplace] at ht
      cases ht
    | some p =>
      rw [hplace] at ht
      rw [List.mem_singleton.mp ht]
      exact ⟨rfl, rfl⟩
  . rintro ⟨e, he, hplace, hvalue⟩
    refine ⟨e, he, ?_⟩
    rw [hplace, Option.elim_some, List.mem_singleton, ← hvalue]

theorem length_moved_le : (moved place entries).length ≤ entries.length := by
  apply length_flatMap_le_of_le_one
  intro e
  cases place e.row e.column <;> simp

variable [CscElement T]

theorem combinedAt_congr {other : List (CooEntry T)}
    (h : (entries.filter fun e => decide (e.row = row ∧ e.column = column)).map (·.value) =
      (other.filter fun e => decide (e.row = r ∧ e.column = c)).map (·.value))
    : combinedAt entries row column = combinedAt other r c := by
  have hcombined : ∀ (ts : List (CooEntry T)) (row column : Nat), combinedAt ts row column =
      ((ts.filter fun e => decide (e.row = row ∧ e.column = column)).map (·.value)).head?.map fun v =>
        ((ts.filter fun e => decide (e.row = row ∧ e.column = column)).map (·.value)).tail.foldl
          CscElement.combine v := by
    intro ts row column
    unfold combinedAt
    cases ts.filter fun e => decide (e.row = row ∧ e.column = column) with
    | nil => rfl
    | cons e rest => rw [List.map_cons, List.head?_cons, Option.map_some, List.tail_cons, List.foldl_map]
  rw [hcombined, hcombined, h]

/-- What has been moved to a coordinate comes from the only one that is placed there. -/
theorem combinedAt_moved
    (h : ∀ e ∈ entries, place e.row e.column = some (r, c) ↔ e.row = row ∧ e.column = column)
    : combinedAt (moved place entries) r c = combinedAt entries row column := by
  apply combinedAt_congr
  induction entries with
  | nil => rfl
  | cons e entries ih =>
    have ih := ih fun a ha => h a (List.mem_cons_of_mem _ ha)
    have he := h e (List.mem_cons_self ..)
    rw [moved, List.flatMap_cons, ← moved, List.filter_append, List.map_append, ih]
    cases hplace : place e.row e.column with
    | none =>
      rw [hplace] at he
      have hnot : ¬(e.row = row ∧ e.column = column) := fun hat => absurd (he.mpr hat) (by simp)
      rw [List.filter_cons_of_neg (by simpa using hnot)]
      rfl
    | some p =>
      rw [hplace, Option.some.injEq] at he
      by_cases hat : e.row = row ∧ e.column = column
      . have hp := he.mpr hat
        rw [List.filter_cons_of_pos (by simpa using hat), hp]
        simp
      . have hp : ¬(p.1 = r ∧ p.2 = c) := fun hp => hat (he.mp (Prod.ext hp.1 hp.2))
        rw [List.filter_cons_of_neg (by simpa using hat)]
        simp [hp]

end Moved

/-- `place` computes the destination `φ` of every coordinate of a matrix. -/
def Computes (rows columns : Nat) (place : Nat → Nat → Fallible (Option (Nat × Nat)))
    (φ : Nat → Nat → Option (Nat × Nat)) : Prop :=
  ∀ row < rows, ∀ column < columns, ∀ host, (place row column).run host = .ok (φ row column, host)

/-- The element at every offset of the result is the one at its origin, and no other is placed there. -/
structure Origin (oldRows oldColumns rows columns : Nat) (φ : Nat → Nat → Option (Nat × Nat))
    (origin : Nat → Nat) : Prop where
  lt : ∀ k < rows * columns, origin k < oldRows * oldColumns
  iff : ∀ k < rows * columns, ∀ row < oldRows, ∀ column < oldColumns,
    φ row column = some (k % rows, k / rows) ↔ row + column * oldRows = origin k

section Placed

variable [CscElement T] {m : CscMatrix T} {place : Nat → Nat → Fallible (Option (Nat × Nat))}
variable {φ : Nat → Nat → Option (Nat × Nat)} {storage : String}

theorem CscMatrix.Canonical.combinedAt_entries (hm : m.Canonical) (row column : Nat)
    : combinedAt m.entries row column = m.getZeroBased row column := by
  apply Option.ext
  intro v
  rw [combinedAt_eq_some_iff hm.entries_increasing]
  exact hm.getZeroBased_eq_some_iff.symm

theorem placedEntries_eq_ok (hm : m.Canonical) (hplace : Computes m.rows m.columns place φ)
    {entries : List (CooEntry T)} {host host' : Host}
    (h : (SparseArrayData.placedEntries storage place m).run host = .ok (entries, host'))
    : entries = moved φ m.entries := by
  rw [SparseArrayData.placedEntries, run_bind_eq_ok_iff] at h
  obtain ⟨_, _, -, h⟩ := h
  apply collect_eq_ok _ h
  intro e he h₁ h₂ ys hys
  obtain ⟨hrow, hcolumn, -⟩ := hm.entries_in he
  rw [run_bind_of_eq_ok (hplace _ hrow _ hcolumn h₁)] at hys
  cases hys
  rfl

theorem placedEntries_quiet (hm : m.Canonical) (hplace : Computes m.rows m.columns place φ)
    : (SparseArrayData.placedEntries storage place m).run Host.quiet =
        .ok (moved φ m.entries, Host.quiet) := by
  rw [SparseArrayData.placedEntries, run_bind_of_eq_ok (allocate_quiet hm.nnz_le)]
  apply collect_quiet 0
  intro e he
  obtain ⟨hrow, hcolumn, -⟩ := hm.entries_in he
  rw [run_bind_of_eq_ok (hplace _ hrow _ hcolumn Host.quiet)]
  rfl

/-- What is placed at an offset of the result is what was at its origin. -/
theorem combinedAt_origin (hm : m.Canonical) {rows columns : Nat} {origin : Nat → Nat}
    (horigin : Origin m.rows m.columns rows columns φ origin) {k : Nat} (hk : k < rows * columns)
    : combinedAt (moved φ m.entries) (k % rows) (k / rows) =
        m.getZeroBased (origin k % m.rows) (origin k / m.rows) := by
  rw [← hm.combinedAt_entries]
  apply combinedAt_moved
  intro e he
  obtain ⟨hrow, hcolumn, -⟩ := hm.entries_in he
  obtain ⟨-, hmod, hdiv⟩ := offset_of_coordinates hrow hcolumn
  rw [horigin.iff k hk _ hrow _ hcolumn]
  constructor
  . intro heq
    rw [← heq, hmod, hdiv]
    exact ⟨rfl, rfl⟩
  . rintro ⟨hrow', hcolumn'⟩
    rw [hrow', hcolumn', Nat.mul_comm, Nat.mod_add_div]

theorem moved_in (hm : m.Canonical) {rows columns : Nat}
    (hin : ∀ row < m.rows, ∀ column < m.columns, ∀ p, φ row column = some p → p.1 < rows ∧ p.2 < columns)
    : ∀ e ∈ moved φ m.entries, e.row < rows ∧ e.column < columns := by
  intro t ht
  obtain ⟨e, he, hplace, -⟩ := mem_moved.mp ht
  obtain ⟨hrow, hcolumn, -⟩ := hm.entries_in he
  exact hin _ hrow _ hcolumn _ hplace

theorem length_moved_entries_le (hm : m.Canonical) : (moved φ m.entries).length ≤ u64Max := by
  have := @length_moved_le T φ m.entries
  have := hm.nnz_le
  rw [← hm.length_entries] at this
  omega

end Placed

namespace SparseArrayData

section Spec

variable [Zero R] [One R] [Add R] [Double R] [DecidableEq R]
variable {d d' : SparseArrayData R} {rows columns : Nat} {storage : String} {host host' : Host}
variable {place : Nat → Nat → Fallible (Option (Nat × Nat))} {φ : Nat → Nat → Option (Nat × Nat)}
variable {origin : Nat → Nat}

/-- A canonical matrix of the given shape whose elements present those of `d` at the origins. -/
structure Rearranges (d d' : SparseArrayData R) (rows columns : Nat) (origin : Nat → Nat) : Prop where
  rows_eq : d'.rows = rows
  columns_eq : d'.columns = columns
  canonical : d'.Canonical
  element : ∀ k < rows * columns, d.present (d'.elementAt k) = d.elementAt (origin k)

theorem relayout_eq_ok (hd : d.Canonical) (hplace : Computes d.rows d.columns place φ)
    (horigin : Origin d.rows d.columns rows columns φ origin)
    (h : (d.relayout storage rows columns place).run host = .ok (d', host'))
    : Rearranges d d' rows columns origin := by
  cases d with
  | logical m =>
    rw [relayout, run_bind_eq_ok_iff] at h
    obtain ⟨entries, h₁, hentries, h⟩ := h
    obtain rfl := placedEntries_eq_ok hd hplace hentries
    rw [tryFromLogicalCoo, run_bind_eq_ok_iff] at h
    obtain ⟨m', h₂, hm', h⟩ := h
    cases h
    obtain ⟨hrows, hcolumns, -, hcanonical, -⟩ := tryFromCoo_eq_ok hm'
    refine ⟨hrows, hcolumns, hcanonical, fun k hk => ?_⟩
    have hzero : ∀ v : Bool, CscElement.isExplicitZero v = true ↔ v = false := by
      intro v
      cases v <;> decide
    have hcombined : _ = m.getZeroBased (origin k % (logical m : SparseArrayData R).rows) _ :=
      combinedAt_origin hd horigin hk
    have hrows' : (logical m' : SparseArrayData R).rows = rows := hrows
    rw [elementAt, elementAt, element, element, getZeroBased_getD_of hzero hm', hrows', hcombined]
    rfl
  | f64 m =>
    rw [relayout, run_bind_eq_ok_iff] at h
    obtain ⟨entries, h₁, hentries, h⟩ := h
    obtain rfl := placedEntries_eq_ok hd hplace hentries
    obtain ⟨hrows, hcolumns, hcanonical, -, helement⟩ := tryFromF64Coo_spec h
    refine ⟨hrows, hcolumns, hcanonical, fun k hk => ?_⟩
    have hcombined : _ = m.getZeroBased (origin k % (f64 m : SparseArrayData R).rows) _ :=
      combinedAt_origin hd horigin hk
    rw [elementAt, elementAt, helement, element, hrows, hcombined]
    rfl
  | complexF64 m =>
    rw [relayout, run_bind_eq_ok_iff] at h
    obtain ⟨entries, h₁, hentries, h⟩ := h
    obtain rfl := placedEntries_eq_ok hd hplace hentries
    obtain ⟨hrows, hcolumns, hcanonical, helement⟩ := tryFromComplexF64Coo_spec h
    refine ⟨hrows, hcolumns, hcanonical, fun k hk => ?_⟩
    have hcombined : _ = m.getZeroBased (origin k % (complexF64 m : SparseArrayData R).rows) _ :=
      combinedAt_origin hd horigin hk
    rw [elementAt, elementAt, element, present, helement, hrows, hcombined]
    rfl

omit [One R] in
theorem relayout_quiet (hd : d.Canonical) (hplace : Computes d.rows d.columns place φ)
    (hin : ∀ row < d.rows, ∀ column < d.columns, ∀ p, φ row column = some p → p.1 < rows ∧ p.2 < columns)
    (hshape : rows * columns ≤ u64Max) (hcolumns : columns < u64Max)
    : ∃ d', (d.relayout storage rows columns place).run Host.quiet = .ok (d', Host.quiet) := by
  cases d with
  | logical m =>
    have hreserved : m.nzmax ≤ u64Max := Nat.max_le.mpr ⟨CscMatrix.Canonical.reserved_le hd, by decide⟩
    rw [relayout, run_bind_of_eq_ok (placedEntries_quiet hd hplace), tryFromLogicalCoo]
    obtain ⟨m', hm'⟩ := @tryFromCoo_quiet Bool _ rows columns (moved φ m.entries) m.nzmax hshape hcolumns
      (moved_in hd hin) (length_moved_entries_le hd) hreserved
    rw [run_bind_of_eq_ok hm']
    exact ⟨_, rfl⟩
  | f64 m =>
    have hreserved : m.nzmax ≤ u64Max := Nat.max_le.mpr ⟨CscMatrix.Canonical.reserved_le hd, by decide⟩
    rw [relayout, run_bind_of_eq_ok (placedEntries_quiet hd hplace)]
    exact tryFromF64Coo_quiet hshape hcolumns hreserved (moved_in hd hin) (length_moved_entries_le hd)
  | complexF64 m =>
    have hreserved : m.nzmax ≤ u64Max := Nat.max_le.mpr ⟨CscMatrix.Canonical.reserved_le hd, by decide⟩
    rw [relayout, run_bind_of_eq_ok (placedEntries_quiet hd hplace)]
    exact tryFromComplexF64Coo_quiet hshape hcolumns hreserved (moved_in hd hin) (length_moved_entries_le hd)

theorem Rearranges.contents (h : Rearranges d d' rows columns origin)
    : d'.contents.map d.present = (List.range (rows * columns)).map fun k => d.elementAt (origin k) := by
  rw [SparseArrayData.contents, numel, h.rows_eq, h.columns_eq, List.map_map]
  apply List.map_congr_left
  intro k hk
  exact h.element k (List.mem_range.mp hk)

end Spec

end SparseArrayData

end Sparse
end OpenMat
