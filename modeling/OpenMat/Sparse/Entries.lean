import OpenMat.Sparse.Parts

/-!
This module contains the three ways to the stored entries of compressed columns: the iterator over
them, the entry at a storage position and the lookup of a coordinate.
-/

namespace OpenMat
namespace Sparse

open Sequence

variable {T : Type}

namespace CscMatrix

def nzmax (m : CscMatrix T) : Nat := max m.reservedNnz 1

def storedEntry (m : CscMatrix T) (position : Nat) : Option (CooEntry T) := do
  let row ← m.rowIndices[position]?
  let upper := partitionPoint (fun columnOffset => decide (columnOffset ≤ position)) m.colOffsets
  guard (1 ≤ upper)
  let column := upper - 1
  let value ← m.values[position]?
  return ⟨row, column, value⟩

end CscMatrix

/-- The position of the iterator over the entries of a matrix. -/
structure CscEntries where
  offset : Nat
  column : Nat

namespace CscEntries

/-- Pass the columns that end at the offset or before it. -/
def skipColumns (colOffsets : List Nat) (offset : Nat) : Nat → Nat → Nat
  | 0, column => column
  | fuel + 1, column =>
    if colOffsets[column + 1]?.any (fun columnOffset => decide (columnOffset ≤ offset)) then
      skipColumns colOffsets offset fuel (column + 1)
    else
      column

def next (m : CscMatrix T) (it : CscEntries) : Option (CooEntry T × CscEntries) :=
  if it.offset ≥ m.values.length then
    none
  else do
    let column := skipColumns m.colOffsets it.offset m.colOffsets.length it.column
    let row ← m.rowIndices[it.offset]?
    let value ← m.values[it.offset]?
    return (⟨row, column, value⟩, { offset := it.offset + 1, column := column })

/-- What the iterator yields until it is exhausted, or until the fuel is. -/
def drain (m : CscMatrix T) : Nat → CscEntries → List (CooEntry T)
  | 0, _ => []
  | fuel + 1, it =>
    match next m it with
    | none => []
    | some (e, it) => e :: drain m fuel it

end CscEntries

/-- Each step of the iterator passes a value, so that this fuel is enough. -/
def CscMatrix.entries (m : CscMatrix T) : List (CooEntry T) :=
  CscEntries.drain m (m.values.length + 1) { offset := 0, column := 0 }

section Column

variable [CscElement T] {m : CscMatrix T}

theorem CscMatrix.Canonical.offset_mono (h : m.Canonical) {c d : Nat} (hcd : c ≤ d)
    (hd : d ≤ m.columns) : m.offset c ≤ m.offset d := by
  induction d, hcd using Nat.le_induction with
  | base => exact Nat.le_refl _
  | succ d hcd ih => exact Nat.le_trans (ih (by omega)) (h.offset_le d (by omega))

theorem CscMatrix.Canonical.getElem?_offsets (h : m.Canonical) {c : Nat} (hc : c ≤ m.columns)
    : m.colOffsets[c]? = some (m.offset c) := by
  have := h.length_offsets
  rw [CscMatrix.offset, List.getD_eq_getElem _ _ (by omega), List.getElem?_eq_getElem (by omega)]

/-- The column of a stored position. -/
theorem CscMatrix.Canonical.exists_column (h : m.Canonical) {i : Nat} (hi : i < m.nnz)
    : ∃ c < m.columns, m.offset c ≤ i ∧ i < m.offset (c + 1) := by
  have hbelow : ∀ n ≤ m.columns, i < m.offset n → ∃ c < n, m.offset c ≤ i ∧ i < m.offset (c + 1) := by
    intro n
    induction n with
    | zero =>
      intro _ hlt
      rw [h.first_offset] at hlt
      omega
    | succ n ih =>
      intro hn hlt
      by_cases hle : m.offset n ≤ i
      . exact ⟨n, by omega, hle, hlt⟩
      . obtain ⟨c, hc, hin⟩ := ih (by omega) (by omega)
        exact ⟨c, by omega, hin⟩
  apply hbelow m.columns (Nat.le_refl _)
  rw [h.last_offset]
  exact hi

variable {i c : Nat}

theorem CscMatrix.Canonical.partitionPoint_offsets (h : m.Canonical) (hc : c < m.columns)
    (hle : m.offset c ≤ i) (hlt : i < m.offset (c + 1))
    : partitionPoint (fun columnOffset => decide (columnOffset ≤ i)) m.colOffsets = c + 1 := by
  have hlength := h.length_offsets
  apply partitionPoint_eq (by omega)
  intro j hj
  rw [h.getElem?_offsets (by omega), Option.any_some, decide_eq_true_eq]
  constructor
  . intro hj
    by_contra hcontra
    have := h.offset_mono (c := c + 1) (d := j) (by omega) (by omega)
    omega
  . intro hj
    have := h.offset_mono (c := j) (d := c) (by omega) (by omega)
    omega

theorem CscMatrix.Canonical.storedEntry_eq (h : m.Canonical) (hc : c < m.columns)
    (hle : m.offset c ≤ i) (hlt : i < m.offset (c + 1))
    : m.storedEntry i = (do
        let row ← m.rowIndices[i]?
        let value ← m.values[i]?
        return ⟨row, c, value⟩) := by
  unfold CscMatrix.storedEntry
  rw [h.partitionPoint_offsets hc hle hlt]
  rfl

theorem CscEntries.skipColumns_eq (h : m.Canonical) (hc : c < m.columns) (hle : m.offset c ≤ i)
    (hlt : i < m.offset (c + 1)) (fuel column : Nat) (hcolumn : column ≤ c)
    (hfuel : c < fuel + column)
    : CscEntries.skipColumns m.colOffsets i fuel column = c := by
  induction fuel generalizing column with
  | zero => omega
  | succ fuel ih =>
    rw [CscEntries.skipColumns, h.getElem?_offsets (by omega), Option.any_some]
    split
    . next hpass =>
      rw [decide_eq_true_eq] at hpass
      apply ih
      . by_contra hcontra
        have : column = c := by omega
        rw [this] at hpass
        omega
      . omega
    . next hstop =>
      rw [decide_eq_true_eq] at hstop
      by_contra hcontra
      have := h.offset_mono (c := column + 1) (d := c) (by omega) (by omega)
      omega

theorem CscMatrix.Canonical.storedEntry_of_lt (h : m.Canonical) (hi : i < m.nnz)
    : ∃ c < m.columns, m.offset c ≤ i ∧ i < m.offset (c + 1) ∧
        ∃ hrow : i < m.rowIndices.length, ∃ hvalue : i < m.values.length,
          m.storedEntry i = some ⟨m.rowIndices[i], c, m.values[i]⟩ := by
  obtain ⟨c, hc, hle, hlt⟩ := h.exists_column hi
  have hrow : i < m.rowIndices.length := by rwa [h.length_rows]
  refine ⟨c, hc, hle, hlt, hrow, hi, ?_⟩
  rw [h.storedEntry_eq hc hle hlt, List.getElem?_eq_getElem hrow, List.getElem?_eq_getElem hi]
  rfl

omit [CscElement T] in
theorem CscMatrix.storedEntry_of_ge {m : CscMatrix T} (hi : m.nnz ≤ i) : m.storedEntry i = none := by
  have hvalue : m.values[i]? = none := List.getElem?_eq_none hi
  unfold CscMatrix.storedEntry
  rw [hvalue]
  cases m.rowIndices[i]? <;> simp

end Column

section Iterator

variable [CscElement T] {m : CscMatrix T}

omit [CscElement T] in
theorem CscEntries.next_eq_none {it : CscEntries} (hi : m.nnz ≤ it.offset)
    : CscEntries.next m it = none := by
  unfold CscMatrix.nnz at hi
  rw [CscEntries.next, if_pos hi]

theorem CscEntries.next_eq_some (h : m.Canonical) {it : CscEntries} {c : Nat}
    (hc : c < m.columns) (hle : m.offset c ≤ it.offset) (hlt : it.offset < m.offset (c + 1))
    (hcolumn : it.column ≤ c)
    : ∃ e, m.storedEntry it.offset = some e ∧
        CscEntries.next m it = some (e, { offset := it.offset + 1, column := c }) := by
  have hin : it.offset < m.nnz := by
    have := h.offset_mono (c := c + 1) (d := m.columns) (by omega) (Nat.le_refl _)
    rw [h.last_offset] at this
    omega
  have hrow : it.offset < m.rowIndices.length := by rwa [h.length_rows]
  have hskip := CscEntries.skipColumns_eq h hc hle hlt m.colOffsets.length it.column hcolumn
    (by rw [h.length_offsets]; omega)
  unfold CscMatrix.nnz at hin
  refine ⟨⟨m.rowIndices[it.offset], c, m.values[it.offset]⟩, ?_, ?_⟩
  . rw [h.storedEntry_eq hc hle hlt, List.getElem?_eq_getElem hrow, List.getElem?_eq_getElem hin]
    rfl
  . rw [CscEntries.next, if_neg (by omega), hskip, List.getElem?_eq_getElem hrow,
      List.getElem?_eq_getElem hin]
    rfl

/-- The column of the iterator is never behind that of the next entry. -/
theorem CscEntries.drain_eq (h : m.Canonical) (fuel : Nat) (it : CscEntries)
    (hfuel : m.nnz < fuel + it.offset) (hoffset : it.offset ≤ m.nnz)
    (hcolumn : ∀ c < m.columns, it.offset < m.offset (c + 1) → it.column ≤ c)
    : (CscEntries.drain m fuel it).length = m.nnz - it.offset ∧
        ∀ i, (CscEntries.drain m fuel it)[i]? = m.storedEntry (it.offset + i) := by
  induction fuel generalizing it with
  | zero => omega
  | succ fuel ih =>
    rw [CscEntries.drain]
    rcases Nat.lt_or_ge it.offset m.nnz with hlt | hge
    . obtain ⟨c, hc, hle, hin⟩ := h.exists_column hlt
      obtain ⟨e, he, hnext⟩ := CscEntries.next_eq_some h hc hle hin (hcolumn c hc hin)
      rw [hnext]
      have hnextColumn : ∀ d < m.columns, it.offset + 1 < m.offset (d + 1) → c ≤ d := by
        intro d hd hdin
        by_contra hcontra
        have := h.offset_mono (c := d + 1) (d := c) (by omega) (by omega)
        omega
      obtain ⟨hlength, hget⟩ := ih ⟨it.offset + 1, c⟩ (by dsimp only; omega) (by dsimp only; omega)
        hnextColumn
      dsimp only at hlength hget ⊢
      refine ⟨by rw [List.length_cons, hlength]; omega, ?_⟩
      intro i
      cases i with
      | zero => rw [List.getElem?_cons_zero, Nat.add_zero, he]
      | succ i =>
        rw [List.getElem?_cons_succ, hget i]
        congr 1
        omega
    . rw [CscEntries.next_eq_none hge]
      refine ⟨by rw [List.length_nil]; omega, ?_⟩
      intro i
      rw [List.getElem?_nil, CscMatrix.storedEntry_of_ge (by omega)]

theorem CscMatrix.Canonical.length_entries (h : m.Canonical) : m.entries.length = m.nnz := by
  have hdrain := CscEntries.drain_eq h (m.values.length + 1) ⟨0, 0⟩ (Nat.lt_succ_self _)
    (Nat.zero_le _) (fun _ _ _ => Nat.zero_le _)
  exact hdrain.1

theorem CscMatrix.Canonical.getElem?_entries (h : m.Canonical) (i : Nat)
    : m.entries[i]? = m.storedEntry i := by
  have hdrain := CscEntries.drain_eq h (m.values.length + 1) ⟨0, 0⟩ (Nat.lt_succ_self _)
    (Nat.zero_le _) (fun _ _ _ => Nat.zero_le _)
  rw [CscMatrix.entries, hdrain.2, Nat.zero_add]

theorem CscMatrix.Canonical.getElem_entries (h : m.Canonical) {i : Nat} (hi : i < m.entries.length)
    : ∃ c < m.columns, m.offset c ≤ i ∧ i < m.offset (c + 1) ∧
        ∃ hrow : i < m.rowIndices.length, ∃ hvalue : i < m.values.length,
          m.entries[i] = ⟨m.rowIndices[i], c, m.values[i]⟩ := by
  obtain ⟨c, hc, hle, hlt, hrow, hvalue, hstored⟩ := h.storedEntry_of_lt (h.length_entries ▸ hi)
  refine ⟨c, hc, hle, hlt, hrow, hvalue, ?_⟩
  rw [← h.getElem?_entries, List.getElem?_eq_getElem hi, Option.some.injEq] at hstored
  exact hstored

theorem CscMatrix.Canonical.entries_increasing (h : m.Canonical)
    : m.entries.Pairwise (fun a b => a.coordinate < b.coordinate) := by
  rw [List.pairwise_iff_getElem]
  intro i j hi hj hij
  obtain ⟨c, hc, hle, hlt, hrow, _, he⟩ := h.getElem_entries hi
  obtain ⟨d, hd, hle', hlt', hrow', _, he'⟩ := h.getElem_entries hj
  rw [he, he', CooEntry.coordinate, CooEntry.coordinate, Prod.Lex.toLex_lt_toLex]
  dsimp only
  have hcd : c ≤ d := by
    by_contra hcontra
    have := h.offset_mono (c := d + 1) (d := c) (by omega) (by omega)
    omega
  rcases Nat.lt_or_eq_of_le hcd with hcd | rfl
  . exact .inl hcd
  . have hslice := h.increasing c hc
    rw [List.pairwise_iff_getElem] at hslice
    have := hslice (i - m.offset c) (j - m.offset c)
    simp only [CscMatrix.columnRows, List.length_take, List.length_drop, List.getElem_take,
      List.getElem_drop, Nat.add_sub_cancel' hle, Nat.add_sub_cancel' hle'] at this
    exact .inr ⟨rfl, this (by omega) (by omega) (by omega)⟩

theorem CscMatrix.Canonical.entries_in (h : m.Canonical) {e : CooEntry T} (he : e ∈ m.entries)
    : e.row < m.rows ∧ e.column < m.columns ∧ CscElement.isExplicitZero e.value = false := by
  obtain ⟨i, hi, rfl⟩ := List.mem_iff_getElem.mp he
  obtain ⟨c, hc, -, -, hrow, hvalue, hget⟩ := h.getElem_entries hi
  rw [hget]
  exact ⟨h.row_lt _ (List.getElem_mem _), hc, h.nonzero _ (List.getElem_mem _)⟩

/-- The entries that the iterator yields are the ones that the columns encode. -/
theorem CscMatrix.Canonical.encodes (h : m.Canonical)
    : Encodes m.colOffsets m.rowIndices m.values m.columns m.entries := by
  have hlengthOffsets := h.length_offsets
  have hrows : m.rowIndices = m.entries.map CooEntry.row := by
    apply List.ext_getElem
    . rw [List.length_map, h.length_entries, h.length_rows]
    . intro i hi hi'
      rw [List.length_map] at hi'
      obtain ⟨c, -, -, -, _, _, hget⟩ := h.getElem_entries hi'
      rw [List.getElem_map, hget]
  have hvalues : m.values = m.entries.map CooEntry.value := by
    apply List.ext_getElem
    . rw [List.length_map, h.length_entries, CscMatrix.nnz]
    . intro i hi hi'
      rw [List.length_map] at hi'
      obtain ⟨c, -, -, -, _, _, hget⟩ := h.getElem_entries hi'
      rw [List.getElem_map, hget]
  refine ⟨?_, hrows, hvalues, h.entries_increasing, ?_⟩
  . apply List.ext_getElem
    . rw [List.length_map, List.length_range, h.length_offsets]
    . intro c hc hc'
      rw [List.getElem_map, List.getElem_range, below_eq_of_cut (k := m.colOffsets[c])]
      . have := h.offset_mono (c := c) (d := m.columns) (by omega) (Nat.le_refl _)
        rwa [h.last_offset, CscMatrix.offset, List.getD_eq_getElem _ _ hc, ← h.length_entries] at this
      . intro i e he
        obtain ⟨hi, rfl⟩ := List.getElem?_eq_some_iff.mp he
        obtain ⟨d, hd, hle, hlt, _, _, hget⟩ := h.getElem_entries hi
        have hoffset : m.offset c = m.colOffsets[c] := List.getD_eq_getElem _ _ hc
        rw [hget, ← hoffset]
        dsimp only
        constructor
        . intro hdc
          have := h.offset_mono (c := d + 1) (d := c) (by omega) (by omega)
          omega
        . intro hin
          by_contra hcontra
          have := h.offset_mono (c := c) (d := d) (by omega) (by omega)
          omega
  . intro e he
    exact Nat.le_of_lt (h.entries_in he).2.1

theorem CscMatrix.Canonical.getZeroBased_eq_some_iff (h : m.Canonical) {row column : Nat} {v : T}
    : m.getZeroBased row column = some v ↔ ⟨row, column, v⟩ ∈ m.entries :=
  h.encodes.getZeroBased (fun _ he => (h.entries_in he).1) (fun _ he => (h.entries_in he).2.1)
    row column v

/--
The iterator, the stored positions and the lookup describe the same partial map, in strictly
increasing order. More fuel than there are values makes no difference to the iterator.
-/
theorem entries_agree (m : CscMatrix T) (h : m.Canonical)
    : (∀ fuel, m.nnz < fuel → CscEntries.drain m fuel { offset := 0, column := 0 } = m.entries) ∧
      m.entries.length = m.nnz ∧
      (∀ i, m.entries[i]? = m.storedEntry i) ∧
      (∀ i, m.nnz ≤ i → m.storedEntry i = none) ∧
      m.entries.Pairwise (fun a b => toLex (a.column, a.row) < toLex (b.column, b.row)) ∧
      ∀ row column v, m.getZeroBased row column = some v ↔ ⟨row, column, v⟩ ∈ m.entries := by
  refine ⟨?_, h.length_entries, h.getElem?_entries, ?_, h.entries_increasing, ?_⟩
  . intro fuel hfuel
    apply List.ext_getElem?
    intro i
    have hdrain := CscEntries.drain_eq h fuel ⟨0, 0⟩ hfuel (Nat.zero_le _)
      (fun _ _ _ => Nat.zero_le _)
    rw [hdrain.2, h.getElem?_entries, Nat.zero_add]
  . intro i hi
    exact CscMatrix.storedEntry_of_ge hi
  . intro row column v
    exact h.getZeroBased_eq_some_iff

/-- Two entries between runs of empty columns. -/
def gapColumns : CscMatrix Bool where
  rows := 3
  columns := 5
  colOffsets := [0, 0, 1, 1, 2, 2]
  rowIndices := [2, 0]
  values := [true, true]
  reservedNnz := 2

theorem gapColumns_canonical : gapColumns.Canonical := by
  constructor <;> decide

theorem entries_agree_gapColumns
    : gapColumns.entries = [⟨2, 1, true⟩, ⟨0, 3, true⟩] ∧
      gapColumns.storedEntry 1 = some ⟨0, 3, true⟩ ∧ gapColumns.storedEntry 2 = none ∧
      gapColumns.getZeroBased 0 3 = some true := by
  obtain ⟨-, -, hget, hnone, -, hlookup⟩ := entries_agree gapColumns gapColumns_canonical
  have hentries : gapColumns.entries = [⟨2, 1, true⟩, ⟨0, 3, true⟩] := by decide
  refine ⟨hentries, ?_, hnone 2 (by decide), ?_⟩
  . rw [← hget 1, hentries]
    rfl
  . rw [hlookup, hentries]
    decide

end Iterator

end Sparse
end OpenMat
