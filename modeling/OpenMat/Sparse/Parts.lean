import Mathlib.Data.List.GetD
import OpenMat.Sparse.Canonical

/-!
This module contains the acceptance of canonical parts: a host that neither cancels nor rejects an
allocation takes them unchanged.
-/

namespace OpenMat
namespace Sparse

variable {T : Type}

section Quiet

@[simp]
theorem checkCancelled_quiet (progress : Nat)
    : (checkCancelled progress).run Host.quiet = .ok ((), Host.quiet) := by
  unfold checkCancelled
  split <;> rfl

@[simp]
theorem allocate_quiet {storage : String} {elements : Nat} (h : elements ≤ u64Max)
    : (allocate storage elements).run Host.quiet = .ok ((), Host.quiet) := by
  have hnot : ¬(elements > u64Max ∨ Host.quiet.rejects 0) := by
    simp [Host.quiet, h]
  unfold allocate
  simp only [StateT.run_bind, StateT.run_get, pure_bind, hnot, ↓reduceIte]
  rfl

@[simp]
theorem checkedUsize_quiet {value : Nat} (h : value ≤ u64Max)
    : (checkedUsize value).run Host.quiet = .ok (value, Host.quiet) := by
  rw [checkedUsize, if_pos h]
  rfl

theorem checkedUsize_eq_ok {value v : Nat} {host host' : Host}
    (h : (checkedUsize value).run host = .ok (v, host')) : v = value := by
  unfold checkedUsize at h
  split at h <;> cases h
  rfl

theorem checkedU64_run {value : Nat} (h : value ≤ u64Max) (host : Host)
    : (checkedU64 value).run host = .ok (value, host) := by
  unfold checkedU64
  rw [if_pos h]
  rfl

theorem checkedU64_eq_ok {value v : Nat} {host host' : Host}
    (h : (checkedU64 value).run host = .ok (v, host')) : v = value := by
  unfold checkedU64 at h
  split at h <;> cases h
  rfl

@[simp]
theorem checkedU64_quiet {value : Nat} (h : value ≤ u64Max)
    : (checkedU64 value).run Host.quiet = .ok (value, Host.quiet) :=
  checkedU64_run h Host.quiet

@[simp]
theorem sparseShape_quiet {rows columns : Nat} (h : rows * columns ≤ u64Max)
    : (sparseShape rows columns).run Host.quiet = .ok ((), Host.quiet) := by
  rw [sparseShape, if_pos h]
  rfl

end Quiet

section Parts

variable [CscElement T]

theorem checkColumn_quiet {rows : Nat} {rowIndices : List Nat} {values : List T} (count : Nat)
    (previous : Option Nat) (offset : Nat)
    (hrow : ∀ k < count, rowIndices.getD (offset + k) 0 < rows)
    (hprevious : 0 < count → ∀ p, previous = some p → p < rowIndices.getD offset 0)
    (horder : ∀ k, k + 1 < count →
      rowIndices.getD (offset + k) 0 < rowIndices.getD (offset + (k + 1)) 0)
    (hvalue : ∀ v ∈ values, CscElement.isExplicitZero v = false)
    : (checkColumn rows rowIndices values previous offset count).run Host.quiet =
        .ok ((), Host.quiet) := by
  induction count generalizing previous offset with
  | zero => rfl
  | succ count ih =>
    have hin : ¬rowIndices.getD offset 0 ≥ rows := Nat.not_le.mpr (hrow 0 (by omega))
    have hlt : ¬previous.any (fun p => decide (rowIndices.getD offset 0 ≤ p)) = true := by
      cases previous with
      | none => simp
      | some p =>
        have := hprevious (by omega) p rfl
        simp only [Option.any_some, decide_eq_true_eq]
        omega
    have hnonzero : ¬values[offset]?.any CscElement.isExplicitZero = true := by
      cases hget : values[offset]? with
      | none => simp
      | some v => simp [hvalue v (List.mem_of_getElem? hget)]
    rw [checkColumn, run_bind_eq_ok_iff]
    refine ⟨(), _, checkCancelled_quiet offset, ?_⟩
    dsimp only
    rw [if_neg hin, if_neg hlt, if_neg hnonzero]
    apply ih
    . intro k hk
      have := hrow (k + 1) (by omega)
      rwa [Nat.add_assoc, Nat.add_comm 1 k]
    . intro hpos p hp
      cases hp
      exact horder 0 (by omega)
    . intro k hk
      have := horder (k + 1) (by omega)
      rwa [Nat.add_assoc, Nat.add_comm 1 k, Nat.add_assoc, Nat.add_comm 1 (k + 1)]

theorem checkColumns_quiet {m : CscMatrix T} (h : m.Canonical) (count column : Nat)
    (hcount : column + count = m.columns)
    : (checkColumns m.rows m.colOffsets m.rowIndices m.values column count).run Host.quiet =
        .ok ((), Host.quiet) := by
  have hle : ∀ c ≤ m.columns, m.offset c ≤ m.nnz := by
    intro c hc
    have : ∀ d, c + d ≤ m.columns → m.offset c ≤ m.offset (c + d) := by
      intro d
      induction d with
      | zero =>
        intro _
        exact Nat.le_refl _
      | succ d ih =>
        intro hd
        exact Nat.le_trans (ih (by omega)) (h.offset_le (c + d) (by omega))
    have := this (m.columns - c) (by omega)
    rwa [Nat.add_sub_cancel' hc, h.last_offset] at this
  have hnnz := h.nnz_le
  induction count generalizing column with
  | zero => rfl
  | succ count ih =>
    have hstart := hle column (by omega)
    have hstop := hle (column + 1) (by omega)
    have hmono := h.offset_le column (by omega)
    unfold CscMatrix.nnz at hstart hstop hnnz
    have horder : ¬(m.offset column > m.offset (column + 1) ∨
        m.offset (column + 1) > m.values.length) := by omega
    rw [checkColumns, run_bind_eq_ok_iff]
    refine ⟨(), _, checkCancelled_quiet column, ?_⟩
    rw [run_bind_eq_ok_iff]
    refine ⟨_, _, @checkedUsize_quiet (m.offset column) (by omega), ?_⟩
    rw [run_bind_eq_ok_iff]
    refine ⟨_, _, @checkedUsize_quiet (m.offset (column + 1)) (by omega), ?_⟩
    rw [if_neg horder, run_bind_eq_ok_iff]
    have hlength := h.length_rows
    unfold CscMatrix.nnz at hlength
    have hslice := h.increasing column (by omega)
    rw [List.pairwise_iff_getElem] at hslice
    simp only [CscMatrix.columnRows, List.length_take, List.length_drop, List.getElem_take,
      List.getElem_drop] at hslice
    refine ⟨(), _, checkColumn_quiet _ none _ ?_ ?_ ?_ h.nonzero, ih (column + 1) (by omega)⟩
    . intro k hk
      rw [List.getD_eq_getElem _ _ (by omega)]
      exact h.row_lt _ (List.getElem_mem _)
    . intro _ p hp
      cases hp
    . intro k hk
      rw [List.getD_eq_getElem _ _ (by omega), List.getD_eq_getElem _ _ (by omega)]
      exact hslice k (k + 1) (by omega) (by omega) (by omega)

theorem tryFromCanonicalParts_quiet {m : CscMatrix T} (h : m.Canonical)
    : (tryFromCanonicalParts m.rows m.columns m.colOffsets m.rowIndices m.values m.reservedNnz).run
        Host.quiet = .ok (m, Host.quiet) := by
  have hcolumns := h.columns_lt
  have hnnz := h.nnz_le
  have hreserved := h.nnz_le_reserved
  have hlengthOffsets := h.length_offsets
  unfold CscMatrix.nnz at hnnz hreserved
  have hlength : ¬(m.columns + 1 > u64Max ∨ m.colOffsets.length ≠ m.columns + 1) := by omega
  have hstorage : ¬m.rowIndices.length ≠ m.values.length := fun hne => hne h.length_rows
  have hreserve : ¬m.reservedNnz < m.values.length := by omega
  have hfirst : ¬m.colOffsets.head? ≠ some 0 := by
    have := h.first_offset
    rw [CscMatrix.offset, List.getD_eq_getElem _ _ (by omega)] at this
    rw [List.head?_eq_getElem?, List.getElem?_eq_getElem (by omega), this]
    simp
  have hlast : ¬m.colOffsets.getLast? ≠ some m.values.length := by
    have := h.last_offset
    rw [CscMatrix.offset, List.getD_eq_getElem _ _ (by omega), CscMatrix.nnz] at this
    rw [List.getLast?_eq_getElem?, hlengthOffsets, Nat.add_sub_cancel,
      List.getElem?_eq_getElem (by omega), this]
    simp
  unfold tryFromCanonicalParts
  rw [run_bind_eq_ok_iff]
  refine ⟨(), _, sparseShape_quiet h.shape_le, ?_⟩
  rw [run_bind_eq_ok_iff]
  refine ⟨(), _, checkCancelled_quiet 0, ?_⟩
  rw [run_bind_eq_ok_iff]
  refine ⟨m.columns, _, checkedUsize_quiet (by omega), ?_⟩
  rw [if_neg hlength, if_neg hstorage, if_neg hreserve, if_neg hfirst, run_bind_eq_ok_iff]
  refine ⟨m.values.length, _, checkedU64_quiet hnnz, ?_⟩
  rw [if_neg hlast, run_bind_eq_ok_iff]
  refine ⟨(), _, checkColumns_quiet h m.columns 0 (by omega), ?_⟩
  rw [run_bind_eq_ok_iff]
  refine ⟨(), _, allocate_quiet h.reserved_le, ?_⟩
  rw [run_bind_eq_ok_iff]
  exact ⟨(), _, allocate_quiet h.reserved_le, rfl⟩

end Parts

end Sparse
end OpenMat
