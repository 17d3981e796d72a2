import OpenMat.Sparse.Coo
import OpenMat.Sparse.Entries

/-!
This module contains the success of the construction from coordinates: a host that neither cancels
nor rejects an allocation builds every matrix whose entries are in range. What it builds depends only
on the entries that are in the matrix.
-/

namespace OpenMat
namespace Sparse

open Sequence

variable {T : Type} [CscElement T]

section Uniqueness

omit [CscElement T] in
/-- Strictly increasing entries are determined by which entries they are. -/
theorem eq_of_increasing {ts ts' : List (CooEntry T)}
    (h : ts.Pairwise (fun a b => a.coordinate < b.coordinate))
    (h' : ts'.Pairwise (fun a b => a.coordinate < b.coordinate)) (hmem : ∀ t, t ∈ ts ↔ t ∈ ts')
    : ts = ts' := by
  have hnodup : ts.Nodup := h.imp (fun hlt heq => absurd (congrArg _ heq) (ne_of_lt hlt))
  have hnodup' : ts'.Nodup := h'.imp (fun hlt heq => absurd (congrArg _ heq) (ne_of_lt hlt))
  apply @List.Perm.eq_of_pairwise _ (fun a b : CooEntry T => a.coordinate < b.coordinate) _ _ _ h h'
  . exact (List.perm_ext_iff_of_nodup hnodup hnodup').mpr hmem
  . intro a b _ _ hab hba
    exact absurd hab (lt_asymm hba)

theorem combinedAt_eq_some_iff {ts : List (CooEntry T)}
    (h : ts.Pairwise (fun a b => a.coordinate < b.coordinate)) {row column : Nat} {v : T}
    : combinedAt ts row column = some v ↔ ⟨row, column, v⟩ ∈ ts := by
  induction ts with
  | nil => simp [combinedAt]
  | cons e ts ih =>
    rw [List.pairwise_cons] at h
    by_cases heq : e.row = row ∧ e.column = column
    . have hothers : ∀ a ∈ ts, ¬(a.row = row ∧ a.column = column) := by
        intro a ha hat
        have := h.1 a ha
        rw [coordinate_eq_iff.mpr ⟨heq.1.trans hat.1.symm, heq.2.trans hat.2.symm⟩] at this
        exact lt_irrefl _ this
      have hnil : ts.filter (fun a => decide (a.row = row ∧ a.column = column)) = [] := by
        rw [List.filter_eq_nil_iff]
        simpa using hothers
      have hat : combinedAt (e :: ts) row column = some e.value := by
        rw [combinedAt, List.filter_cons_of_pos (by simpa using heq), hnil]
        rfl
      rw [hat, Option.some.injEq, List.mem_cons]
      obtain ⟨rfl, rfl⟩ := heq
      constructor
      . rintro rfl
        exact .inl rfl
      . rintro (he | hmem)
        . exact (congrArg CooEntry.value he).symm
        . exact absurd ⟨rfl, rfl⟩ (hothers _ hmem)
    . have hat : combinedAt (e :: ts) row column = combinedAt ts row column := by
        rw [combinedAt, combinedAt, List.filter_cons_of_neg (by simpa using heq)]
      rw [hat, ih h.2, List.mem_cons]
      constructor
      . exact .inr
      . rintro (rfl | hmem)
        . exact absurd ⟨rfl, rfl⟩ heq
        . exact hmem

theorem CscMatrix.Canonical.entries_ext {m m' : CscMatrix T} (h : m.Canonical) (h' : m'.Canonical)
    (hget : ∀ row column, m.getZeroBased row column = m'.getZeroBased row column)
    : m.entries = m'.entries := by
  apply eq_of_increasing h.entries_increasing h'.entries_increasing
  intro t
  have := hget t.row t.column
  rw [← h.getZeroBased_eq_some_iff, ← h'.getZeroBased_eq_some_iff, this]

theorem CscMatrix.Canonical.ext {m m' : CscMatrix T} (h : m.Canonical) (h' : m'.Canonical)
    (hrows : m.rows = m'.rows) (hcolumns : m.columns = m'.columns)
    (hreserved : m.reservedNnz = m'.reservedNnz) (hentries : m.entries = m'.entries) : m = m' := by
  have hoffsets := h.encodes.offsets
  have hrowIndices := h.encodes.rows
  have hvalues := h.encodes.values
  rw [hentries] at hoffsets hrowIndices hvalues
  rw [hcolumns, ← h'.encodes.offsets] at hoffsets
  rw [← h'.encodes.rows] at hrowIndices
  rw [← h'.encodes.values] at hvalues
  cases m
  cases m'
  simp_all

/-- What is built does not depend on the host. -/
theorem tryFromCoo_unique {rows columns : Nat} {entries : List (CooEntry T)} {reservedNnz : Nat}
    {host host' host₁ host₁' : Host} {m m' : CscMatrix T}
    (h : (tryFromCoo rows columns entries reservedNnz).run host = .ok (m, host'))
    (h' : (tryFromCoo rows columns entries reservedNnz).run host₁ = .ok (m', host₁')) : m = m' := by
  have hget : ∀ row column, m.getZeroBased row column = m'.getZeroBased row column := by
    intro row column
    rw [tryFromCoo_getZeroBased h, tryFromCoo_getZeroBased h']
  obtain ⟨hrows, hcolumns, hreserved, hm, -⟩ := tryFromCoo_eq_ok h
  obtain ⟨hrows', hcolumns', hreserved', hm', -⟩ := tryFromCoo_eq_ok h'
  have hentries := hm.entries_ext hm' hget
  apply hm.ext hm' (hrows.trans hrows'.symm) (hcolumns.trans hcolumns'.symm) _ hentries
  rw [hreserved, hreserved', ← hm.length_entries, ← hm'.length_entries, hentries]

end Uniqueness

section Success

omit [CscElement T] in
theorem checkCoordinates_quiet {rows columns : Nat} {entries : List (CooEntry T)} (index : Nat)
    (hin : ∀ e ∈ entries, e.row < rows ∧ e.column < columns)
    : (checkCoordinates rows columns index entries).run Host.quiet = .ok ((), Host.quiet) := by
  induction entries generalizing index with
  | nil => rfl
  | cons e entries ih =>
    have he := hin e (by simp)
    have hnot : ¬(e.row ≥ rows ∨ e.column ≥ columns) := by omega
    rw [checkCoordinates, run_bind_eq_ok_iff]
    refine ⟨(), _, checkCancelled_quiet index, ?_⟩
    rw [if_neg hnot]
    exact ih (index + 1) (fun a ha => hin a (by simp [ha]))

theorem checkPositions_quiet (position count : Nat)
    : (checkPositions position count).run Host.quiet = .ok ((), Host.quiet) := by
  induction count generalizing position with
  | zero => rfl
  | succ count ih =>
    rw [checkPositions, run_bind_eq_ok_iff]
    exact ⟨(), _, checkCancelled_quiet position, ih (position + 1)⟩

theorem combineRun_quiet (coordinate : Nat ×ₗ Nat) (input : Nat) (value : T) (consumed : Nat)
    (rest : List (CooEntry T))
    : ∃ run, (combineRun coordinate input value consumed rest).run Host.quiet =
        .ok (run, Host.quiet) := by
  induction rest generalizing input value consumed with
  | nil => exact ⟨_, rfl⟩
  | cons e rest ih =>
    by_cases hne : e.coordinate ≠ coordinate
    . refine ⟨(value, consumed), ?_⟩
      rw [combineRun, run_bind_eq_ok_iff]
      refine ⟨(), _, checkCancelled_quiet input, ?_⟩
      rw [if_pos hne]
      rfl
    . obtain ⟨run, hrun⟩ := ih (input + 1) (CscElement.combine value e.value) (consumed + 1)
      refine ⟨run, ?_⟩
      rw [combineRun, run_bind_eq_ok_iff]
      refine ⟨(), _, checkCancelled_quiet input, ?_⟩
      rw [if_neg hne]
      exact hrun

omit [CscElement T] in
theorem pushOffset_quiet {s : Assembly T} (hs : s.values.length ≤ u64Max)
    : ∃ s', (pushOffset s).run Host.quiet = .ok (s', Host.quiet) ∧ s'.values = s.values := by
  refine ⟨{ s with
    colOffsets := s.colOffsets ++ [s.values.length], outputColumn := s.outputColumn + 1 }, ?_, rfl⟩
  rw [pushOffset, run_bind_eq_ok_iff]
  exact ⟨_, _, checkedU64_quiet hs, rfl⟩

omit [CscElement T] in
theorem startColumns_quiet {s : Assembly T} (hs : s.values.length ≤ u64Max) (count : Nat)
    : ∃ s', (startColumns s count).run Host.quiet = .ok (s', Host.quiet) ∧ s'.values = s.values := by
  induction count generalizing s with
  | zero => exact ⟨s, rfl, rfl⟩
  | succ count ih =>
    obtain ⟨s₁, hpush, hvalues⟩ := pushOffset_quiet hs
    obtain ⟨s₂, hstart, hvalues'⟩ := ih (s := s₁) (by rwa [hvalues])
    refine ⟨s₂, ?_, hvalues'.trans hvalues⟩
    rw [startColumns, run_bind_eq_ok_iff]
    exact ⟨_, _, hpush, hstart⟩

omit [CscElement T] in
theorem finishColumns_quiet {s : Assembly T} (hs : s.values.length ≤ u64Max) (count : Nat)
    : ∃ s', (finishColumns s count).run Host.quiet = .ok (s', Host.quiet) := by
  induction count generalizing s with
  | zero => exact ⟨s, rfl⟩
  | succ count ih =>
    obtain ⟨s₁, hpush, hvalues⟩ := pushOffset_quiet hs
    obtain ⟨s₂, hfinish⟩ := ih (s := s₁) (by rwa [hvalues])
    refine ⟨s₂, ?_⟩
    rw [finishColumns, run_bind_eq_ok_iff]
    refine ⟨(), _, checkCancelled_quiet _, ?_⟩
    rw [run_bind_eq_ok_iff]
    exact ⟨_, _, hpush, hfinish⟩

theorem length_values_store_le (s : Assembly T) (row : Nat) (value : T)
    : (store s row value).values.length ≤ s.values.length + 1 := by
  unfold store
  split
  . omega
  . rw [List.length_append, List.length_singleton]

/-- An entry stores at most one value. -/
theorem assemble_quiet (input skip : Nat) (s : Assembly T) (rest : List (CooEntry T))
    (hs : s.values.length + rest.length ≤ u64Max)
    : ∃ s', (assemble input s skip rest).run Host.quiet = .ok (s', Host.quiet) ∧
        s'.values.length ≤ s.values.length + rest.length := by
  induction rest generalizing input skip s with
  | nil => exact ⟨s, rfl, Nat.le_refl _⟩
  | cons e rest ih =>
    rw [List.length_cons] at hs ⊢
    cases skip with
    | succ skip =>
      obtain ⟨s', hassemble, hlength⟩ := ih input skip s (by omega)
      exact ⟨s', hassemble, by omega⟩
    | zero =>
      obtain ⟨⟨value, consumed⟩, hrun⟩ := combineRun_quiet e.coordinate (input + 1) e.value 0 rest
      obtain ⟨s₁, hstart, hvalues⟩ :=
        startColumns_quiet (s := s) (by omega) (e.column - s.outputColumn)
      have hstore := length_values_store_le s₁ e.row value
      rw [hvalues] at hstore
      obtain ⟨s', hassemble, hlength⟩ := ih (input + 1 + consumed) consumed (store s₁ e.row value)
        (by omega)
      refine ⟨s', ?_, by omega⟩
      rw [assemble, run_bind_eq_ok_iff]
      refine ⟨(), _, checkCancelled_quiet input, ?_⟩
      rw [run_bind_eq_ok_iff]
      refine ⟨_, _, hrun, ?_⟩
      rw [run_bind_eq_ok_iff]
      exact ⟨_, _, hstart, hassemble⟩

theorem tryFromCoo_quiet {rows columns : Nat} {entries : List (CooEntry T)} {reservedNnz : Nat}
    (hshape : rows * columns ≤ u64Max) (hcolumns : columns < u64Max)
    (hin : ∀ e ∈ entries, e.row < rows ∧ e.column < columns) (hlength : entries.length ≤ u64Max)
    (hreserved : reservedNnz ≤ u64Max)
    : ∃ m, (tryFromCoo rows columns entries reservedNnz).run Host.quiet = .ok (m, Host.quiet) := by
  have hordered : ((sortByKey CooEntry.coordinate entries).map Prod.fst).length = entries.length := by
    rw [List.length_map, length_sortByKey]
  have hcapacity : max reservedNnz ((sortByKey CooEntry.coordinate entries).map Prod.fst).length ≤
      u64Max := by
    rw [hordered]
    omega
  obtain ⟨s, hassemble, hvalues⟩ := assemble_quiet 0 0
    { colOffsets := [0], rowIndices := [], values := [], outputColumn := 0 }
    ((sortByKey CooEntry.coordinate entries).map Prod.fst)
    (by rw [hordered, List.length_nil, Nat.zero_add]; exact hlength)
  rw [hordered, List.length_nil, Nat.zero_add] at hvalues
  obtain ⟨s', hfinish⟩ := finishColumns_quiet (s := s) (by omega) (columns - s.outputColumn)
  have hnot : ¬columns + 1 > u64Max := by omega
  refine ⟨⟨rows, columns, s'.colOffsets, s'.rowIndices, s'.values,
    max reservedNnz s'.values.length⟩, ?_⟩
  unfold tryFromCoo
  simp only [run_bind_eq_ok_iff]
  refine ⟨(), _, sparseShape_quiet hshape, (), _, checkCancelled_quiet 0, (), _,
    checkCoordinates_quiet 0 hin, (), _, allocate_quiet hlength, (), _, checkPositions_quiet 0 _, (), _,
    checkCancelled_quiet _, (), _, allocate_quiet hcapacity, (), _, allocate_quiet hcapacity,
    columns, _, checkedUsize_quiet (by omega), ?_⟩
  rw [if_neg hnot]
  simp only [run_bind_eq_ok_iff]
  exact ⟨(), _, allocate_quiet (by omega), s, _, hassemble, s', _, hfinish, rfl⟩

end Success

end Sparse
end OpenMat
