import OpenMat.Sparse.Data

/-!
This module contains the entries that come from values at column-major offsets: there is at most one for each
coordinate, and zeros are left out.
-/

namespace OpenMat
namespace Sparse

variable {V : Type} [CscElement V]

/-- The values that are not zero, at the coordinates of their offsets. -/
def laidOut (rows : Nat) (cells : List (V × Nat)) : List (CooEntry V) :=
  cells.flatMap fun cell =>
    if CscElement.isExplicitZero cell.1 then
      []
    else
      [⟨cell.2 % rows, cell.2 / rows, cell.1⟩]

section LaidOut

variable {rows columns : Nat} {cells : List (V × Nat)}

theorem mem_laidOut {t : CooEntry V}
    : t ∈ laidOut rows cells ↔ ∃ cell ∈ cells, CscElement.isExplicitZero cell.1 = false ∧
        t = ⟨cell.2 % rows, cell.2 / rows, cell.1⟩ := by
  rw [laidOut, List.mem_flatMap]
  constructor
  . rintro ⟨cell, hcell, ht⟩
    split at ht
    . cases ht
    . next hnonzero => exact ⟨cell, hcell, by simpa using hnonzero, List.mem_singleton.mp ht⟩
  . rintro ⟨cell, hcell, hnonzero, rfl⟩
    refine ⟨cell, hcell, ?_⟩
    rw [hnonzero]
    exact List.mem_singleton.mpr rfl

theorem laidOut_increasing (h : cells.Pairwise fun a b => a.2 < b.2)
    : (laidOut rows cells).Pairwise fun a b => a.coordinate < b.coordinate := by
  rw [laidOut, List.pairwise_flatMap]
  constructor
  . intro cell _
    split
    . exact List.Pairwise.nil
    . exact List.pairwise_singleton _ _
  . apply h.imp
    intro a b hlt e he e' he'
    split at he
    . cases he
    . split at he'
      . cases he'
      . rw [List.mem_singleton.mp he, List.mem_singleton.mp he']
        exact coordinate_lt_of_offset_lt hlt

theorem length_laidOut_le (rows : Nat) (cells : List (V × Nat))
    : (laidOut rows cells).length ≤ cells.length := by
  apply length_flatMap_le_of_le_one
  intro cell
  split <;> simp

theorem laidOut_in (h : ∀ cell ∈ cells, cell.2 < rows * columns)
    : ∀ e ∈ laidOut rows cells, e.row < rows ∧ e.column < columns := by
  intro e he
  obtain ⟨cell, hcell, -, rfl⟩ := mem_laidOut.mp he
  exact coordinates_of_offset (h cell hcell)

/-- The offsets differ, so that a value is alone at its coordinate. -/
theorem combinedAt_laidOut (h : cells.Pairwise fun a b => a.2 < b.2) {value : V} {offset : Nat}
    (hcell : (value, offset) ∈ cells)
    : combinedAt (laidOut rows cells) (offset % rows) (offset / rows) =
        if CscElement.isExplicitZero value then none else some value := by
  have hmem : ∀ v, combinedAt (laidOut rows cells) (offset % rows) (offset / rows) = some v ↔
      CscElement.isExplicitZero value = false ∧ v = value := by
    intro v
    rw [combinedAt_eq_some_iff (laidOut_increasing h), mem_laidOut]
    constructor
    . rintro ⟨cell, hcell', hnonzero, heq⟩
      rw [CooEntry.mk.injEq] at heq
      have hoffset : cell.2 = offset := by
        rw [← Nat.div_add_mod cell.2 rows, ← Nat.div_add_mod offset rows, heq.1, heq.2.1]
      have hsame : cell = (value, offset) := by
        have hpairwise : cells.Pairwise fun a b => a.2 = b.2 → a = b :=
          h.imp fun hlt heq => absurd heq (Nat.ne_of_lt hlt)
        have hflip : cells.Pairwise (flip fun a b => a.2 = b.2 → a = b) :=
          h.imp fun hlt heq => absurd heq.symm (Nat.ne_of_lt hlt)
        exact hpairwise.forall_of_forall_of_flip (fun _ _ _ => rfl) hflip hcell' hcell hoffset
      rw [hsame] at hnonzero heq
      exact ⟨hnonzero, heq.2.2⟩
    . rintro ⟨hnonzero, rfl⟩
      exact ⟨_, hcell, hnonzero, rfl⟩
  cases hzero : CscElement.isExplicitZero value with
  | false => exact (hmem value).mpr ⟨hzero, rfl⟩
  | true =>
    cases hat : combinedAt (laidOut rows cells) (offset % rows) (offset / rows) with
    | none => rfl
    | some v => exact absurd (((hmem v).mp hat).1.symm.trans hzero) (by simp)

theorem laidOut_getD {zero : V} (hzero : ∀ v : V, CscElement.isExplicitZero v = true ↔ v = zero)
    (h : cells.Pairwise fun a b => a.2 < b.2) {value : V} {offset : Nat} (hcell : (value, offset) ∈ cells)
    : (combinedAt (laidOut rows cells) (offset % rows) (offset / rows)).getD zero = value := by
  rw [combinedAt_laidOut h hcell]
  split
  . next hvalue => exact ((hzero value).mp hvalue).symm
  . rfl

end LaidOut

section Values

variable {rows columns : Nat} {values : List V}

omit [CscElement V] in
theorem pairwise_zipIdx (values : List V)
    : values.zipIdx.Pairwise fun a b => a.2 < b.2 := by
  have hindices := List.pairwise_lt_range' (s := 0) (n := values.length)
  rwa [← List.zipIdx_map_snd, List.pairwise_map] at hindices

theorem laidOut_zipIdx_in (h : values.length = rows * columns)
    : ∀ e ∈ laidOut rows values.zipIdx, e.row < rows ∧ e.column < columns := by
  apply laidOut_in
  intro cell hcell
  rw [← h]
  exact (List.getElem?_eq_some_iff.mp (List.mem_zipIdx_iff_getElem?.mp hcell)).1

theorem length_laidOut_zipIdx_le (rows : Nat) (values : List V)
    : (laidOut rows values.zipIdx).length ≤ values.length := by
  have := length_laidOut_le rows values.zipIdx
  rwa [List.length_zipIdx] at this

theorem laidOut_zipIdx_getD {zero : V} (hzero : ∀ v : V, CscElement.isExplicitZero v = true ↔ v = zero)
    {k : Nat} (hk : k < values.length)
    : (combinedAt (laidOut rows values.zipIdx) (k % rows) (k / rows)).getD zero = values[k] :=
  laidOut_getD hzero (pairwise_zipIdx values) (List.mem_zipIdx_iff_getElem?.mpr (List.getElem?_eq_getElem hk))

end Values

end Sparse
end OpenMat
