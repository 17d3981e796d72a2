import OpenMat.Diagnostic
import OpenMat.Sparse.Basic

/-!
This module contains the canonical form of compressed columns and what a lookup finds in it.
-/

namespace OpenMat
namespace Sparse

open Sequence

variable {T : Type}

section Encodes

/--
The columns `0, …, bound` have been started, and the stored entries are `ts`, in increasing order.
-/
structure Encodes (colOffsets rowIndices : List Nat) (values : List T) (bound : Nat)
    (ts : List (CooEntry T)) : Prop where
  offsets : colOffsets = (List.range (bound + 1)).map (below CooEntry.column ts)
  rows : rowIndices = ts.map CooEntry.row
  values : values = ts.map CooEntry.value
  increasing : ts.Pairwise (fun a b => a.coordinate < b.coordinate)
  column_le : ∀ t ∈ ts, t.column ≤ bound

theorem column_le_of_coordinate_le {a b : CooEntry T} (h : a.coordinate ≤ b.coordinate)
    : a.column ≤ b.column := by
  rw [CooEntry.coordinate, CooEntry.coordinate, Prod.Lex.toLex_le_toLex] at h
  rcases h with h | h
  . exact Nat.le_of_lt h
  . exact Nat.le_of_eq h.1

namespace Encodes

variable {colOffsets rowIndices : List Nat} {values : List T} {bound : Nat}
variable {ts : List (CooEntry T)}

theorem length_rows (h : Encodes colOffsets rowIndices values bound ts)
    : rowIndices.length = ts.length := by
  rw [h.rows, List.length_map]

theorem length_values (h : Encodes colOffsets rowIndices values bound ts)
    : values.length = ts.length := by
  rw [h.values, List.length_map]

theorem sorted (h : Encodes colOffsets rowIndices values bound ts)
    : ts.Pairwise (fun a b => a.column ≤ b.column) := by
  apply h.increasing.imp
  intro a b hab
  exact column_le_of_coordinate_le (le_of_lt hab)

theorem getElem?_offsets (h : Encodes colOffsets rowIndices values bound ts) {c : Nat}
    (hc : c ≤ bound) : colOffsets[c]? = some (below CooEntry.column ts c) := by
  rw [h.offsets, List.getElem?_map, List.getElem?_range (by omega)]
  rfl

/-- The next column starts after everything that is stored. -/
theorem pushOffset (h : Encodes colOffsets rowIndices values bound ts)
    : Encodes (colOffsets ++ [values.length]) rowIndices values (bound + 1) ts := by
  refine ⟨?_, h.rows, h.values, h.increasing, ?_⟩
  . have hnext : below CooEntry.column ts (bound + 1) = values.length := by
      rw [h.length_values]
      apply below_eq_length
      intro t ht
      have := h.column_le t ht
      omega
    rw [List.range_succ, List.map_append, ← h.offsets, List.map_singleton, hnext]
  . intro t ht
    have := h.column_le t ht
    omega

theorem store (h : Encodes colOffsets rowIndices values bound ts) {t : CooEntry T}
    (hcolumn : t.column = bound) (hlt : ∀ a ∈ ts, a.coordinate < t.coordinate)
    : Encodes colOffsets (rowIndices ++ [t.row]) (values ++ [t.value]) bound (ts ++ [t]) := by
  refine ⟨?_, ?_, ?_, ?_, ?_⟩
  . rw [h.offsets]
    apply List.map_congr_left
    intro c hc
    have hge : ¬t.column < c := by
      have := List.mem_range.mp hc
      omega
    simp [below, List.countP_append, hge]
  . rw [h.rows, List.map_append, List.map_singleton]
  . rw [h.values, List.map_append, List.map_singleton]
  . rw [List.pairwise_append]
    refine ⟨h.increasing, List.pairwise_singleton _ _, ?_⟩
    intro a ha b hb
    rw [List.mem_singleton.mp hb]
    exact hlt a ha
  . intro a ha
    rcases List.mem_append.mp ha with ha | ha
    . exact h.column_le a ha
    . rw [List.mem_singleton.mp ha, hcolumn]

theorem column_slice (h : Encodes colOffsets rowIndices values bound ts) (c : Nat)
    : (rowIndices.drop (below CooEntry.column ts c)).take
        (below CooEntry.column ts (c + 1) - below CooEntry.column ts c) =
          (ts.filter (fun t => decide (t.column = c))).map CooEntry.row := by
  rw [h.rows, ← List.map_drop, ← List.map_take, slice_below h.sorted]

theorem column_rows_increasing (h : Encodes colOffsets rowIndices values bound ts) (c : Nat)
    : ((ts.filter (fun t => decide (t.column = c))).map CooEntry.row).Pairwise (· < ·) := by
  rw [List.pairwise_map, List.pairwise_filter]
  apply h.increasing.imp
  intro a b hab ha hb
  simp only [decide_eq_true_eq] at ha hb
  rw [CooEntry.coordinate, CooEntry.coordinate, Prod.Lex.toLex_lt_toLex, ha, hb] at hab
  simpa using hab

/-- The binary search in a column finds the stored entry of a row. -/
theorem search_eq_some_iff (h : Encodes colOffsets rowIndices values bound ts) (row c : Nat) (v : T)
    : (do
        let relative ← binarySearch ((ts.filter (fun t => decide (t.column = c))).map CooEntry.row)
          row
        values[below CooEntry.column ts c + relative]?) = some v ↔
      ⟨row, c, v⟩ ∈ ts := by
  have hvalue : ∀ i, i < (ts.filter (fun t => decide (t.column = c))).length →
      values[below CooEntry.column ts c + i]? =
        ((ts.filter (fun t => decide (t.column = c)))[i]?).map CooEntry.value := by
    intro i hi
    rw [← slice_below h.sorted] at hi ⊢
    rw [List.length_take] at hi
    rw [h.values, List.getElem?_map, List.getElem?_take_of_lt (by omega), List.getElem?_drop]
  simp only [Option.bind_eq_bind, Option.bind_eq_some_iff,
    binarySearch_eq_some_iff (h.column_rows_increasing c), List.getElem?_map, Option.map_eq_some_iff]
  constructor
  . rintro ⟨i, ⟨t, ht, hrow⟩, hv⟩
    rw [hvalue i (List.getElem?_eq_some_iff.mp ht).1, ht, Option.map_some, Option.some.injEq] at hv
    have hmem := List.mem_filter.mp (List.mem_of_getElem? ht)
    simp only [decide_eq_true_eq] at hmem
    rw [← hrow, ← hv, ← hmem.2]
    exact hmem.1
  . intro hmem
    obtain ⟨i, hi, ht⟩ := List.mem_iff_getElem.mp
      (List.mem_filter.mpr ⟨hmem, by simp⟩ :
        (⟨row, c, v⟩ : CooEntry T) ∈ ts.filter (fun t => decide (t.column = c)))
    have hget := List.getElem?_eq_some_iff.mpr ⟨hi, ht⟩
    refine ⟨i, ⟨_, hget, rfl⟩, ?_⟩
    rw [hvalue i hi, hget]
    rfl

end Encodes

end Encodes

namespace CscMatrix

variable [CscElement T]

structure Canonical (m : CscMatrix T) : Prop where
  shape_le : m.rows * m.columns ≤ u64Max
  columns_lt : m.columns < u64Max
  nnz_le : m.nnz ≤ u64Max
  length_offsets : m.colOffsets.length = m.columns + 1
  first_offset : m.offset 0 = 0
  last_offset : m.offset m.columns = m.nnz
  offset_le : ∀ c < m.columns, m.offset c ≤ m.offset (c + 1)
  length_rows : m.rowIndices.length = m.nnz
  row_lt : ∀ r ∈ m.rowIndices, r < m.rows
  increasing : ∀ c < m.columns, (m.columnRows c).Pairwise (· < ·)
  nonzero : ∀ v ∈ m.values, CscElement.isExplicitZero v = false
  nnz_le_reserved : m.nnz ≤ m.reservedNnz
  reserved_le : m.reservedNnz ≤ u64Max

end CscMatrix

section Lookup

variable {m : CscMatrix T} {ts : List (CooEntry T)}

theorem Encodes.getZeroBased
    (h : Encodes m.colOffsets m.rowIndices m.values m.columns ts)
    (hrow : ∀ t ∈ ts, t.row < m.rows) (hcolumn : ∀ t ∈ ts, t.column < m.columns)
    (row column : Nat) (v : T)
    : m.getZeroBased row column = some v ↔ ⟨row, column, v⟩ ∈ ts := by
  unfold CscMatrix.getZeroBased
  split
  . next hout =>
    constructor
    . intro hnone
      simp at hnone
    . intro hmem
      have := hrow _ hmem
      have := hcolumn _ hmem
      dsimp only at *
      omega
  . next hin =>
    have hstart := h.getElem?_offsets (c := column) (by omega)
    have hstop := h.getElem?_offsets (c := column + 1) (by omega)
    have hslice : CscMatrix.slice? m.rowIndices (below CooEntry.column ts column)
        (below CooEntry.column ts (column + 1)) =
          some ((ts.filter (fun t => decide (t.column = column))).map CooEntry.row) := by
      unfold CscMatrix.slice?
      rw [if_pos, h.column_slice]
      refine ⟨below_mono (by omega), ?_⟩
      rw [h.length_rows]
      exact below_le_length _
    simp only [hstart, hstop, hslice, Option.bind_eq_bind, Option.bind_some]
    exact h.search_eq_some_iff row column v

theorem Encodes.canonical [CscElement T]
    (h : Encodes m.colOffsets m.rowIndices m.values m.columns ts)
    (hrow : ∀ t ∈ ts, t.row < m.rows) (hcolumn : ∀ t ∈ ts, t.column < m.columns)
    (hnonzero : ∀ t ∈ ts, CscElement.isExplicitZero t.value = false)
    (hshape : m.rows * m.columns ≤ u64Max) (hcolumns : m.columns < u64Max)
    (hnnz : m.nnz ≤ m.reservedNnz) (hreserved : m.reservedNnz ≤ u64Max) : m.Canonical := by
  have hoffset : ∀ c ≤ m.columns, m.offset c = below CooEntry.column ts c := by
    intro c hc
    rw [CscMatrix.offset, List.getD_eq_getElem?_getD, h.getElem?_offsets hc, Option.getD_some]
  refine ⟨hshape, hcolumns, by omega, ?_, ?_, ?_, ?_, ?_, ?_, ?_, ?_, hnnz, hreserved⟩
  . rw [h.offsets, List.length_map, List.length_range]
  . rw [hoffset 0 (by omega), below, List.countP_eq_zero]
    intro t _
    simp
  . rw [hoffset m.columns (Nat.le_refl _), below_eq_length hcolumn, CscMatrix.nnz, h.length_values]
  . intro c hc
    rw [hoffset c (by omega), hoffset (c + 1) (by omega)]
    exact below_mono (by omega)
  . rw [CscMatrix.nnz, h.length_values, h.length_rows]
  . intro r hr
    rw [h.rows] at hr
    obtain ⟨t, ht, rfl⟩ := List.mem_map.mp hr
    exact hrow t ht
  . intro c hc
    rw [CscMatrix.columnRows, hoffset c (by omega), hoffset (c + 1) (by omega), h.column_slice]
    exact h.column_rows_increasing c
  . intro v hv
    rw [h.values] at hv
    obtain ⟨t, ht, rfl⟩ := List.mem_map.mp hv
    exact hnonzero t ht

end Lookup

end Sparse
end OpenMat
