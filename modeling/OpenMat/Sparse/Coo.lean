import OpenMat.Sparse.Parts

/-!
This module contains the correctness of the construction from coordinates: entries at one coordinate
are combined in the order in which they were given, and what is not zero is stored.
-/

namespace OpenMat
namespace Sparse

open Sequence

variable {T : Type} [CscElement T]

/-- The entries at a coordinate, combined from the first one to the last one. -/
def combinedAt (entries : List (CooEntry T)) (row column : Nat) : Option T :=
  match entries.filter (fun e => decide (e.row = row ∧ e.column = column)) with
  | [] => none
  | e :: rest => some (rest.foldl (fun v e => CscElement.combine v e.value) e.value)

section CombinedAt

variable {entries : List (CooEntry T)} {row column : Nat}

theorem combinedAt_eq_none_of (h : ∀ e ∈ entries, ¬(e.row = row ∧ e.column = column))
    : combinedAt entries row column = none := by
  have hnil : entries.filter (fun e => decide (e.row = row ∧ e.column = column)) = [] := by
    rw [List.filter_eq_nil_iff]
    simpa using h
  rw [combinedAt, hnil]

theorem exists_of_combinedAt {v : T} (h : combinedAt entries row column = some v)
    : ∃ e ∈ entries, e.row = row ∧ e.column = column := by
  by_contra hnone
  simp only [not_exists, not_and] at hnone
  rw [combinedAt_eq_none_of] at h
  . simp at h
  . rintro e he ⟨hrow, hcolumn⟩
    exact hnone e he hrow hcolumn

theorem combinedAt_append_of_right {run : List (CooEntry T)}
    (h : ∀ e ∈ run, ¬(e.row = row ∧ e.column = column))
    : combinedAt (entries ++ run) row column = combinedAt entries row column := by
  have hnil : run.filter (fun e => decide (e.row = row ∧ e.column = column)) = [] := by
    rw [List.filter_eq_nil_iff]
    simpa using h
  rw [combinedAt, combinedAt, List.filter_append, hnil, List.append_nil]

theorem combinedAt_append_of_left {run : List (CooEntry T)}
    (h : ∀ e ∈ entries, ¬(e.row = row ∧ e.column = column))
    : combinedAt (entries ++ run) row column = combinedAt run row column := by
  have hnil : entries.filter (fun e => decide (e.row = row ∧ e.column = column)) = [] := by
    rw [List.filter_eq_nil_iff]
    simpa using h
  rw [combinedAt, combinedAt, List.filter_append, hnil, List.nil_append]

theorem combinedAt_append_run {e : CooEntry T} {run : List (CooEntry T)}
    (hnone : ∀ a ∈ entries, ¬(a.row = e.row ∧ a.column = e.column))
    (hrun : ∀ a ∈ run, a.row = e.row ∧ a.column = e.column)
    : combinedAt (entries ++ e :: run) e.row e.column =
        some (run.foldl (fun v a => CscElement.combine v a.value) e.value) := by
  have hnil : entries.filter (fun a => decide (a.row = e.row ∧ a.column = e.column)) = [] := by
    rw [List.filter_eq_nil_iff]
    simpa using hnone
  have hall : (e :: run).filter (fun a => decide (a.row = e.row ∧ a.column = e.column)) = e :: run := by
    rw [List.filter_eq_self]
    intro a ha
    rcases List.mem_cons.mp ha with rfl | ha
    . simp
    . simpa using hrun a ha
  rw [combinedAt, List.filter_append, hnil, hall]
  rfl

omit [CscElement T] in
theorem coordinate_eq_iff {a b : CooEntry T}
    : a.coordinate = b.coordinate ↔ a.row = b.row ∧ a.column = b.column := by
  rw [CooEntry.coordinate, CooEntry.coordinate, toLex_inj, Prod.mk.injEq, and_comm]

theorem combinedAt_sort (entries : List (CooEntry T)) (row column : Nat)
    : combinedAt ((sortByKey CooEntry.coordinate entries).map Prod.fst) row column =
        combinedAt entries row column := by
  have hkey : (fun e : CooEntry T => decide (e.row = row ∧ e.column = column)) =
      fun e => decide (e.coordinate = toLex (column, row)) := by
    funext e
    rw [CooEntry.coordinate, decide_eq_decide, toLex_inj, Prod.mk.injEq, and_comm]
  rw [combinedAt, combinedAt, hkey, filter_sortByKey]

end CombinedAt

section Loop

/-- The state of the main loop after the entries `done`. -/
structure Assembled (done : List (CooEntry T)) (s : Assembly T) : Prop where
  encodes : ∃ ts, Encodes s.colOffsets s.rowIndices s.values s.outputColumn ts ∧
    ∀ t, t ∈ ts ↔
      combinedAt done t.row t.column = some t.value ∧ CscElement.isExplicitZero t.value = false
  length_le : s.values.length ≤ done.length

theorem combineRun_eq_ok {coordinate : Nat ×ₗ Nat} {input consumed consumed' : Nat} {value value' : T}
    {rest : List (CooEntry T)} {host host' : Host}
    (h : (combineRun coordinate input value consumed rest).run host = .ok ((value', consumed'), host'))
    : value' = (rest.takeWhile (fun e => decide (e.coordinate = coordinate))).foldl
        (fun v e => CscElement.combine v e.value) value ∧
      consumed' =
        consumed + (rest.takeWhile (fun e => decide (e.coordinate = coordinate))).length := by
  induction rest generalizing input consumed value host with
  | nil =>
    cases h
    exact ⟨rfl, rfl⟩
  | cons e rest ih =>
    rw [combineRun, run_bind_eq_ok_iff] at h
    obtain ⟨_, host₁, -, h⟩ := h
    split at h
    . next hne =>
      cases h
      simp [hne]
    . next heq =>
      have heq : e.coordinate = coordinate := Decidable.not_not.mp heq
      obtain ⟨hvalue, hconsumed⟩ := ih h
      simp only [List.takeWhile_cons, heq, decide_true, ↓reduceIte, List.foldl_cons,
        List.length_cons]
      refine ⟨hvalue, ?_⟩
      omega

omit [CscElement T] in
theorem pushOffset_eq_ok {s s' : Assembly T} {host host' : Host}
    (h : (pushOffset s).run host = .ok (s', host'))
    : s' = { s with
        colOffsets := s.colOffsets ++ [s.values.length], outputColumn := s.outputColumn + 1 } ∧
      s.values.length ≤ u64Max := by
  rw [pushOffset, run_bind_eq_ok_iff] at h
  obtain ⟨nnz, host₁, hnnz, h⟩ := h
  unfold checkedU64 at hnnz
  split at hnnz
  . next hle =>
    cases hnnz
    cases h
    exact ⟨rfl, hle⟩
  . cases hnnz

theorem Assembled.pushOffset {done : List (CooEntry T)} {s s' : Assembly T} {host host' : Host}
    (hs : Assembled done s) (h : (pushOffset s).run host = .ok (s', host')) : Assembled done s' := by
  obtain ⟨rfl, -⟩ := pushOffset_eq_ok h
  obtain ⟨ts, hts, hmem⟩ := hs.encodes
  exact ⟨⟨ts, hts.pushOffset, hmem⟩, hs.length_le⟩

theorem startColumns_eq_ok {done : List (CooEntry T)} {count : Nat} {s s' : Assembly T}
    {host host' : Host} (hs : Assembled done s)
    (h : (startColumns s count).run host = .ok (s', host'))
    : Assembled done s' ∧ s'.outputColumn = s.outputColumn + count := by
  induction count generalizing s host with
  | zero =>
    cases h
    exact ⟨hs, rfl⟩
  | succ count ih =>
    rw [startColumns, run_bind_eq_ok_iff] at h
    obtain ⟨s₁, host₁, hpush, h⟩ := h
    obtain ⟨hs', hcolumn⟩ := ih (hs.pushOffset hpush) h
    refine ⟨hs', ?_⟩
    rw [hcolumn, (pushOffset_eq_ok hpush).1]
    dsimp only
    omega

theorem finishColumns_eq_ok {done : List (CooEntry T)} {count : Nat} {s s' : Assembly T}
    {host host' : Host} (hs : Assembled done s)
    (h : (finishColumns s count).run host = .ok (s', host'))
    : Assembled done s' ∧ s'.outputColumn = s.outputColumn + count := by
  induction count generalizing s host with
  | zero =>
    cases h
    exact ⟨hs, rfl⟩
  | succ count ih =>
    rw [finishColumns, run_bind_eq_ok_iff] at h
    obtain ⟨_, host₁, -, h⟩ := h
    rw [run_bind_eq_ok_iff] at h
    obtain ⟨s₁, host₂, hpush, h⟩ := h
    obtain ⟨hs', hcolumn⟩ := ih (hs.pushOffset hpush) h
    refine ⟨hs', ?_⟩
    rw [hcolumn, (pushOffset_eq_ok hpush).1]
    dsimp only
    omega

/-- One iteration: the entries of a coordinate are combined and stored unless they are zero. -/
theorem Assembled.store {done run : List (CooEntry T)} {e : CooEntry T} {s : Assembly T}
    (hs : Assembled done s) (hcolumn : s.outputColumn = e.column)
    (hdone : ∀ a ∈ done, a.coordinate < e.coordinate)
    (hrun : ∀ a ∈ run, a.coordinate = e.coordinate)
    : Assembled (done ++ e :: run) (store s e.row
        (run.foldl (fun v a => CscElement.combine v a.value) e.value)) := by
  obtain ⟨ts, hts, hmem⟩ := hs.encodes
  have hlt : ∀ t ∈ ts, t.coordinate < e.coordinate := by
    intro t ht
    obtain ⟨a, ha, hrow, hcol⟩ := exists_of_combinedAt ((hmem t).mp ht).1
    have := hdone a ha
    rwa [coordinate_eq_iff.mpr ⟨hrow, hcol⟩] at this
  have hnone : ∀ a ∈ done, ¬(a.row = e.row ∧ a.column = e.column) := by
    intro a ha heq
    exact absurd (coordinate_eq_iff.mpr heq) (ne_of_lt (hdone a ha))
  have hsame : ∀ a ∈ run, a.row = e.row ∧ a.column = e.column := by
    intro a ha
    exact coordinate_eq_iff.mp (hrun a ha)
  have hat : combinedAt (done ++ e :: run) e.row e.column =
      some (run.foldl (fun v a => CscElement.combine v a.value) e.value) :=
    combinedAt_append_run hnone hsame
  have hother : ∀ row column, ¬(e.row = row ∧ e.column = column) →
      combinedAt (done ++ e :: run) row column = combinedAt done row column := by
    intro row column hne
    apply combinedAt_append_of_right
    intro a ha
    rcases List.mem_cons.mp ha with rfl | ha
    . exact hne
    . rwa [(hsame a ha).1, (hsame a ha).2]
  have hdoneAt : combinedAt done e.row e.column = none := combinedAt_eq_none_of hnone
  have hlength := hs.length_le
  unfold Sparse.store
  split
  . next hzero =>
    refine ⟨⟨ts, hts, ?_⟩, ?_⟩
    . intro t
      rw [hmem t]
      by_cases heq : e.row = t.row ∧ e.column = t.column
      . rw [← heq.1, ← heq.2, hat, hdoneAt, Option.some.injEq]
        constructor
        . rintro ⟨hcontra, -⟩
          simp at hcontra
        . rintro ⟨hvalue, hnonzero⟩
          rw [← hvalue, hzero] at hnonzero
          simp at hnonzero
      . rw [hother _ _ heq]
    . rw [List.length_append]
      omega
  . next hnonzero =>
    have hencodes := hts.store (t := ⟨e.row, e.column,
      run.foldl (fun v a => CscElement.combine v a.value) e.value⟩) hcolumn.symm hlt
    refine ⟨⟨_, hencodes, ?_⟩, ?_⟩
    . intro t
      rw [List.mem_append, List.mem_singleton, hmem t]
      by_cases heq : e.row = t.row ∧ e.column = t.column
      . obtain ⟨row, column, value⟩ := t
        obtain ⟨rfl, rfl⟩ := heq
        dsimp only
        rw [hat, hdoneAt, CooEntry.mk.injEq, Option.some.injEq]
        constructor
        . rintro (⟨hcontra, -⟩ | ⟨-, -, rfl⟩)
          . simp at hcontra
          . exact ⟨rfl, by simpa using hnonzero⟩
        . rintro ⟨rfl, -⟩
          exact .inr ⟨rfl, rfl, rfl⟩
      . rw [hother _ _ heq]
        constructor
        . rintro (hold | rfl)
          . exact hold
          . exact absurd ⟨rfl, rfl⟩ heq
        . exact .inl
    . simp only [List.length_append, List.length_cons, List.length_nil]
      omega

/-- Every entry that the main loop has still to take is behind those that it has taken. -/
theorem assemble_eq_ok {input skip : Nat} {done rest : List (CooEntry T)} {s s' : Assembly T}
    {host host' : Host} (hs : Assembled (done ++ rest.take skip) s)
    (hsorted : (done ++ rest).Pairwise (fun a b => a.coordinate ≤ b.coordinate))
    (hsplit : ∀ a ∈ done ++ rest.take skip, ∀ b ∈ rest.drop skip, a.coordinate < b.coordinate)
    (hcolumn : ∀ b ∈ rest.drop skip, s.outputColumn ≤ b.column)
    (h : (assemble input s skip rest).run host = .ok (s', host'))
    : Assembled (done ++ rest) s' ∧
        ∀ n, s.outputColumn ≤ n → (∀ e ∈ rest, e.column ≤ n) → s'.outputColumn ≤ n := by
  induction rest generalizing input skip done s host with
  | nil =>
    cases h
    simp only [List.take_nil] at hs
    exact ⟨hs, fun n hn _ => hn⟩
  | cons e rest ih =>
    cases skip with
    | succ skip =>
      rw [assemble] at h
      simp only [List.take_succ_cons, List.drop_succ_cons] at hs hsplit hcolumn
      rw [List.append_cons] at hs hsplit hsorted
      obtain ⟨hs', hle⟩ := ih hs hsorted hsplit hcolumn h
      rw [← List.append_cons] at hs'
      exact ⟨hs', fun n hn hrest => hle n hn fun a ha => hrest a (by simp [ha])⟩
    | zero =>
      rw [assemble, run_bind_eq_ok_iff] at h
      obtain ⟨_, host₁, -, h⟩ := h
      rw [run_bind_eq_ok_iff] at h
      obtain ⟨⟨value, consumed⟩, host₂, hrun, h⟩ := h
      rw [run_bind_eq_ok_iff] at h
      obtain ⟨s₁, host₃, hstart, h⟩ := h
      simp only [List.take_zero, List.append_nil, List.drop_zero] at hs hsplit hcolumn
      obtain ⟨hs₁, hcolumn₁⟩ := startColumns_eq_ok hs hstart
      have hle : s.outputColumn ≤ e.column := hcolumn e (by simp)
      have hcolumn₁ : s₁.outputColumn = e.column := by omega
      obtain ⟨hvalue, hconsumed⟩ := combineRun_eq_ok hrun
      rw [Nat.zero_add] at hconsumed
      have htake : rest.take consumed =
          rest.takeWhile (fun a => decide (a.coordinate = e.coordinate)) := by
        rw [hconsumed]
        exact (List.prefix_iff_eq_take.mp (List.takeWhile_prefix _)).symm
      have hsame : ∀ a ∈ rest.take consumed, a.coordinate = e.coordinate := by
        intro a ha
        rw [htake] at ha
        simpa using List.all_eq_true.mp List.all_takeWhile a ha
      have hrest := List.pairwise_cons.mp (List.pairwise_append.mp hsorted).2.1
      have hlater : ∀ b ∈ rest.drop consumed, e.coordinate < b.coordinate := by
        rw [hconsumed]
        exact lt_of_mem_drop_takeWhile hrest.2 hrest.1
      have hstored := hs₁.store hcolumn₁ (fun a ha => hsplit a ha e (by simp)) hsame
      rw [htake, ← hvalue, ← htake, List.append_cons] at hstored
      rw [List.append_cons] at hsorted
      have hout : (store s₁ e.row value).outputColumn = e.column := by
        unfold store
        split <;> exact hcolumn₁
      have hsplit' : ∀ a ∈ done ++ [e] ++ rest.take consumed, ∀ b ∈ rest.drop consumed,
          a.coordinate < b.coordinate := by
        intro a ha b hb
        simp only [List.mem_append, List.mem_singleton] at ha
        rcases ha with (ha | rfl) | ha
        . exact hsplit a ha b (List.mem_cons_of_mem _ (List.mem_of_mem_drop hb))
        . exact hlater b hb
        . rw [hsame a ha]
          exact hlater b hb
      have hcolumn' : ∀ b ∈ rest.drop consumed, (store s₁ e.row value).outputColumn ≤ b.column := by
        intro b hb
        rw [hout]
        exact column_le_of_coordinate_le (le_of_lt (hlater b hb))
      obtain ⟨hs', hbound⟩ := ih hstored hsorted hsplit' hcolumn' h
      rw [← List.append_cons] at hs'
      refine ⟨hs', ?_⟩
      intro n _ hall
      apply hbound n
      . rw [hout]
        exact hall e (by simp)
      . intro a ha
        exact hall a (by simp [ha])

end Loop

section Construction

omit [CscElement T] in
theorem checkCoordinates_eq_ok {rows columns index : Nat} {entries : List (CooEntry T)}
    {host host' : Host}
    (h : (checkCoordinates rows columns index entries).run host = .ok ((), host'))
    : ∀ e ∈ entries, e.row < rows ∧ e.column < columns := by
  induction entries generalizing index host with
  | nil => simp
  | cons e entries ih =>
    rw [checkCoordinates, run_bind_eq_ok_iff] at h
    obtain ⟨_, host₁, -, h⟩ := h
    split at h
    . rw [run_bind_eq_ok_iff] at h
      obtain ⟨_, _, hthrow, -⟩ := h
      cases hthrow
    . next hin =>
      intro a ha
      rcases List.mem_cons.mp ha with rfl | ha
      . omega
      . exact ih h a ha

omit [CscElement T] in
theorem allocate_eq_ok {storage : String} {elements : Nat} {host host' : Host}
    (h : (allocate storage elements).run host = .ok ((), host')) : elements ≤ u64Max := by
  unfold allocate at h
  rw [run_bind_eq_ok_iff] at h
  obtain ⟨_, host₁, -, h⟩ := h
  rw [run_bind_eq_ok_iff] at h
  obtain ⟨_, host₂, -, h⟩ := h
  split at h
  . cases h
  . omega

theorem assembled_nil : Assembled ([] : List (CooEntry T))
    { colOffsets := [0], rowIndices := [], values := [], outputColumn := 0 } := by
  refine ⟨⟨[], ⟨rfl, rfl, rfl, List.Pairwise.nil, by simp⟩, ?_⟩, Nat.le_refl _⟩
  intro t
  simp [combinedAt]

/-- What a successful construction stores. -/
theorem tryFromCoo_eq_ok {rows columns : Nat} {entries : List (CooEntry T)} {reservedNnz : Nat}
    {host host' : Host} {m : CscMatrix T}
    (h : (tryFromCoo rows columns entries reservedNnz).run host = .ok (m, host'))
    : m.rows = rows ∧ m.columns = columns ∧ m.reservedNnz = max reservedNnz m.nnz ∧ m.Canonical ∧
        (∀ e ∈ entries, e.row < rows ∧ e.column < columns) ∧
        ∃ ts, Encodes m.colOffsets m.rowIndices m.values m.columns ts ∧
          ∀ t, t ∈ ts ↔ combinedAt entries t.row t.column = some t.value ∧
            CscElement.isExplicitZero t.value = false := by
  unfold tryFromCoo at h
  simp only [run_bind_eq_ok_iff] at h
  obtain ⟨_, h₁, hshape, _, h₂, -, _, h₃, hcoordinates, _, h₄, -, _, h₅, -, _, h₆, -, _, h₇,
    hcapacity, _, h₈, -, columnCount, h₉, hcount, h⟩ := h
  have hin := checkCoordinates_eq_ok hcoordinates
  have hcapacity := allocate_eq_ok hcapacity
  rw [List.length_map, length_sortByKey] at hcapacity
  have hshape : rows * columns ≤ u64Max := by
    unfold sparseShape at hshape
    split at hshape
    . next hle => exact hle
    . cases hshape
  have hcolumnCount : columnCount = columns := checkedUsize_eq_ok hcount
  split at h
  . cases h
  . next hcolumns =>
    simp only [run_bind_eq_ok_iff] at h
    obtain ⟨_, h₁₀, -, s, h₁₁, hassemble, s', h₁₂, hfinish, h⟩ := h
    cases h
    have hinSorted : ∀ e ∈ (sortByKey CooEntry.coordinate entries).map Prod.fst,
        e.row < rows ∧ e.column < columns := fun e he => hin e (mem_sortByKey he)
    have hnil : Assembled ([] ++ ((sortByKey CooEntry.coordinate entries).map Prod.fst).take 0)
        ({ colOffsets := [0], rowIndices := [], values := [], outputColumn := 0 } : Assembly T) :=
      assembled_nil
    obtain ⟨hassembled, hbound⟩ := assemble_eq_ok hnil (sortByKey_sorted entries) (by simp)
      (by simp) hassemble
    have hle : s.outputColumn ≤ columns := by
      apply hbound columns (Nat.zero_le _)
      intro e he
      exact Nat.le_of_lt (hinSorted e he).2
    obtain ⟨hfinished, hcolumn⟩ := finishColumns_eq_ok hassembled hfinish
    rw [Nat.add_sub_cancel' hle] at hcolumn
    obtain ⟨ts, hts, hmem⟩ := hfinished.encodes
    rw [hcolumn] at hts
    have hlength := hfinished.length_le
    rw [List.nil_append, List.length_map, length_sortByKey] at hlength
    have htsIn : ∀ t ∈ ts, t.row < rows ∧ t.column < columns := by
      intro t ht
      obtain ⟨e, he, hrow, hcol⟩ := exists_of_combinedAt ((hmem t).mp ht).1
      rw [← hrow, ← hcol]
      exact hinSorted e he
    refine ⟨rfl, rfl, rfl, ?_, hin, ts, hts, ?_⟩
    . apply Encodes.canonical hts
      . exact fun t ht => (htsIn t ht).1
      . exact fun t ht => (htsIn t ht).2
      . exact fun t ht => ((hmem t).mp ht).2
      . exact hshape
      . dsimp only
        omega
      . exact Nat.le_max_right _ _
      . dsimp only
        omega
    . intro t
      rw [hmem t, List.nil_append, combinedAt_sort]

theorem tryFromCoo_getZeroBased {rows columns : Nat} {entries : List (CooEntry T)} {reservedNnz : Nat}
    {host host' : Host} {m : CscMatrix T}
    (h : (tryFromCoo rows columns entries reservedNnz).run host = .ok (m, host')) (row column : Nat)
    : m.getZeroBased row column =
        (combinedAt entries row column).filter (fun v => !CscElement.isExplicitZero v) := by
  obtain ⟨rfl, rfl, -, -, hin, ts, hts, hmem⟩ := tryFromCoo_eq_ok h
  have htsIn : ∀ t ∈ ts, t.row < m.rows ∧ t.column < m.columns := by
    intro t ht
    obtain ⟨e, he, hrow, hcol⟩ := exists_of_combinedAt ((hmem t).mp ht).1
    rw [← hrow, ← hcol]
    exact hin e he
  apply Option.ext
  intro v
  rw [hts.getZeroBased (fun t ht => (htsIn t ht).1) (fun t ht => (htsIn t ht).2), hmem,
    Option.filter_eq_some_iff]
  simp

/--
A successful construction is canonical, has the same parts as the matrix that is rebuilt from them,
and holds at each coordinate what the entries there combine to. It fails on an entry outside of the
matrix.
-/
theorem tryFromCoo_correct (rows columns : Nat) (entries : List (CooEntry T)) (reservedNnz : Nat)
    (host : Host)
    : (∀ m host', (tryFromCoo rows columns entries reservedNnz).run host = .ok (m, host') →
        (m.rows = rows ∧ m.columns = columns ∧ m.Canonical) ∧
        (tryFromCanonicalParts m.rows m.columns m.colOffsets m.rowIndices m.values
          m.reservedNnz).run Host.quiet = .ok (m, Host.quiet) ∧
        ∀ row column, m.getZeroBased row column =
          (combinedAt entries row column).filter (fun v => !CscElement.isExplicitZero v)) ∧
      ((∃ e ∈ entries, rows ≤ e.row ∨ columns ≤ e.column) →
        ∃ error, (tryFromCoo rows columns entries reservedNnz).run host = .error error) := by
  constructor
  . intro m host' h
    obtain ⟨rfl, rfl, -, hcanonical, -⟩ := tryFromCoo_eq_ok h
    exact ⟨⟨rfl, rfl, hcanonical⟩, tryFromCanonicalParts_quiet hcanonical,
      tryFromCoo_getZeroBased h⟩
  . rintro ⟨e, he, hout⟩
    cases hrun : (tryFromCoo rows columns entries reservedNnz).run host with
    | error error => exact ⟨error, rfl⟩
    | ok p =>
      obtain ⟨-, -, -, -, hin, -⟩ := tryFromCoo_eq_ok hrun
      have := hin e he
      omega

def logicalEntries : List (CooEntry Bool) :=
  [⟨2, 2, true⟩, ⟨0, 0, false⟩, ⟨1, 2, false⟩, ⟨1, 2, true⟩, ⟨2, 2, false⟩]

theorem tryFromCoo_correct_logicalEntries
    : ∃ m, (tryFromCoo 3 4 logicalEntries 0).run Host.quiet = .ok (m, Host.quiet) ∧
        m.Canonical ∧ m.getZeroBased 1 2 = some true ∧ m.getZeroBased 0 0 = none := by
  have hrun : (tryFromCoo 3 4 logicalEntries 0).run Host.quiet =
      .ok (⟨3, 4, [0, 0, 0, 2, 2], [1, 2], [true, true], 2⟩, Host.quiet) := by rfl
  obtain ⟨⟨-, -, hcanonical⟩, -, hget⟩ :=
    (tryFromCoo_correct 3 4 logicalEntries 0 Host.quiet).1 _ _ hrun
  exact ⟨_, hrun, hcanonical, hget 1 2, hget 0 0⟩

end Construction

end Sparse
end OpenMat
