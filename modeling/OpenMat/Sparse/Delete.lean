import OpenMat.Arrays.Shape
import OpenMat.Sparse.Arithmetic
import OpenMat.Sparse.Relayout

/-!
This module contains the deletion of elements, of rows and of columns: each survivor moves down by the number of
positions that are removed before it.
-/

namespace OpenMat
namespace Sparse

open Sequence

/-- The checked positions, sorted and without repetitions. -/
def normalized (storage : String) (check : Nat → Fallible Nat) (positions : List Nat) : Fallible (List Nat) := do
  allocate storage positions.length
  let positions ← collect (fun position => do
    let position ← check position
    return [position]) 0 positions
  return sortUnique positions

def normalizedOffsets (offsets : List Nat) (extent : Nat) : Fallible (List Nat) :=
  normalized "deletion offsets" (fun offset => do
    let offset ← checkedU64 offset
    if offset ≥ extent then
      throw (.linearIndexOutOfBounds (saturatingAdd offset 1) extent)
    return offset) offsets

def normalizedIndices (indices : List Nat) (extent dimension : Nat) : Fallible (List Nat) :=
  normalized "deletion subscripts" (fun index => do
    if index ≥ extent then
      throw (.subscriptOutOfBounds dimension (saturatingAdd index 1) extent)
    return index) indices

namespace SparseArrayData

variable {R : Type} [Zero R] [Add R] [Double R] [DecidableEq R]

def tryDeleteLinearOffsets (d : SparseArrayData R) (offsets : List Nat) (shape : Arrays.Shape)
    : Fallible (SparseArrayData R) := do
  let removed ← normalizedOffsets offsets d.numel
  let count ← checkedU64 removed.length
  if count > d.numel then
    throw .offsetOverflow
  let remaining := d.numel - count
  if shape.numel ≠ remaining then
    throw (.elementCountMismatch remaining shape.numel)
  let oldRows := d.rows
  let newRows := shape.extent 0
  d.relayout "linear deletion COO" (shape.extent 0) (shape.extent 1) fun row column => do
    let offset := row + column * oldRows
    match binarySearchResult removed offset with
    | .ok _ => return none
    | .error before =>
      let before ← checkedU64 before
      if before > offset then
        throw .offsetOverflow
      let shifted := offset - before
      return some (shifted % newRows, shifted / newRows)

def tryDeleteRows (d : SparseArrayData R) (rows : List Nat) : Fallible (SparseArrayData R) := do
  let removed ← normalizedIndices rows d.rows 0
  let count ← checkedU64 removed.length
  d.relayout "row deletion COO" (d.rows - count) d.columns fun row column =>
    match binarySearchResult removed row with
    | .ok _ => return none
    | .error before => do
      let before ← checkedU64 before
      return some (row - before, column)

def tryDeleteColumns (d : SparseArrayData R) (columns : List Nat) : Fallible (SparseArrayData R) := do
  let removed ← normalizedIndices columns d.columns 1
  let count ← checkedU64 removed.length
  d.relayout "column deletion COO" d.rows (d.columns - count) fun row column =>
    match binarySearchResult removed column with
    | .ok _ => return none
    | .error before => do
      let before ← checkedU64 before
      return some (row, column - before)

end SparseArrayData

section Normalized

variable {storage : String} {check : Nat → Fallible Nat} {positions removed : List Nat} {extent : Nat}
variable {host host' : Host}

/-- A check that passes the positions below an extent as they are, and refuses the others. -/
structure Bounds (check : Nat → Fallible Nat) (extent : Nat) : Prop where
  passes : ∀ position < extent, ∀ host, (check position).run host = .ok (position, host)
  refuses : ∀ position, extent ≤ position → ∀ host, ∃ error, (check position).run host = .error error

theorem Bounds.eq_ok (hcheck : Bounds check extent) {position value : Nat}
    (h : (check position).run host = .ok (value, host')) : position < extent ∧ value = position := by
  by_cases hlt : position < extent
  . rw [hcheck.passes position hlt] at h
    cases h
    exact ⟨hlt, rfl⟩
  . obtain ⟨error, herror⟩ := hcheck.refuses position (Nat.le_of_not_lt hlt) host
    rw [herror] at h
    cases h

theorem normalized_eq_ok (hcheck : Bounds check extent)
    (h : (normalized storage check positions).run host = .ok (removed, host'))
    : (∀ position ∈ positions, position < extent) ∧ removed = sortUnique positions := by
  rw [normalized] at h
  simp only [run_bind_eq_ok_iff] at h
  obtain ⟨_, _, -, kept, _, hkept, h⟩ := h
  cases h
  constructor
  . intro position hposition
    obtain ⟨h₁, h₂, ys, hrun⟩ := collect_forall_ok hkept position hposition
    rw [run_bind_eq_ok_iff] at hrun
    obtain ⟨value, _, hvalue, -⟩ := hrun
    exact (hcheck.eq_ok hvalue).1
  . have hcollected := collect_eq_ok (g := fun position => [position]) (by
      intro position _ h₁ h₂ ys hrun
      rw [run_bind_eq_ok_iff] at hrun
      obtain ⟨value, _, hvalue, hrun⟩ := hrun
      cases hrun
      rw [(hcheck.eq_ok hvalue).2]) hkept
    rw [hcollected, List.flatMap_singleton']

theorem normalized_quiet (hcheck : Bounds check extent) (hin : ∀ position ∈ positions, position < extent)
    (hlength : positions.length ≤ u64Max)
    : (normalized storage check positions).run Host.quiet = .ok (sortUnique positions, Host.quiet) := by
  have hcollect : (collect (fun position => do
      let position ← check position
      return [position]) 0 positions).run Host.quiet =
        .ok (positions.flatMap fun position => [position], Host.quiet) := by
    apply collect_quiet 0
    intro position hposition
    rw [run_bind_of_eq_ok (hcheck.passes position (hin position hposition) Host.quiet)]
    rfl
  rw [normalized, run_bind_of_eq_ok (allocate_quiet hlength), run_bind_of_eq_ok hcollect,
    List.flatMap_singleton']
  rfl

theorem bounds_offsets (hextent : extent ≤ u64Max)
    : Bounds (fun offset => do
        let offset ← checkedU64 offset
        if offset ≥ extent then
          throw (.linearIndexOutOfBounds (saturatingAdd offset 1) extent)
        return offset) extent := by
  constructor
  . intro offset hoffset host
    rw [run_bind_of_eq_ok (checkedU64_run (by omega) host), if_neg (by omega)]
    rfl
  . intro offset hoffset host
    by_cases hle : offset ≤ u64Max
    . rw [run_bind_of_eq_ok (checkedU64_run hle host), if_pos hoffset]
      exact ⟨_, rfl⟩
    . rw [checkedU64, if_neg hle]
      exact ⟨_, rfl⟩

theorem bounds_indices (dimension : Nat)
    : Bounds (fun index => do
        if index ≥ extent then
          throw (.subscriptOutOfBounds dimension (saturatingAdd index 1) extent)
        return index) extent := by
  constructor
  . intro index hindex host
    rw [if_neg (by omega)]
    rfl
  . intro index hindex host
    rw [if_pos hindex]
    exact ⟨_, rfl⟩

end Normalized

section Removed

variable {positions : List Nat} {extent : Nat}

/-- Where a position moves when others are removed. -/
def shifted (removed : List Nat) (position : Nat) : Option Nat :=
  if position ∈ removed then none else some (position - removed.countP fun other => decide (other < position))

theorem length_sortUnique_le_extent (hin : ∀ position ∈ positions, position < extent)
    : (sortUnique positions).length ≤ extent :=
  length_le_of_lt (nodup_sortUnique positions) fun position hposition =>
    hin position (((sortUnique_spec positions).2 position).mp hposition)

theorem length_survivors_of_lt (hin : ∀ position ∈ positions, position < extent)
    : (survivors extent positions).length = extent - (sortUnique positions).length := by
  rw [← survivors_sortUnique]
  exact length_survivors (nodup_sortUnique positions) fun position hposition =>
    hin position (((sortUnique_spec positions).2 position).mp hposition)

theorem shifted_eq_some_iff {position k : Nat} (hlt : position < extent)
    : shifted (sortUnique positions) position = some k ↔ (survivors extent positions)[k]? = some position := by
  rw [← survivors_sortUnique, getElem?_survivors_iff (nodup_sortUnique positions) hlt, shifted]
  split
  . next hmem => simp [hmem]
  . next hnot => simp [hnot]

/-- What the search for a position finds: itself, or how many are removed before it. -/
theorem search_sortUnique {α : Type} (positions : List Nat) (position : Nat) (hlt : position < extent)
    (hextent : extent ≤ u64Max) (found : Fallible α) (moves : Nat → Fallible α) (host : Host)
    : (match binarySearchResult (sortUnique positions) position with
        | .ok _ => found
        | .error before => do
          let before ← checkedU64 before
          moves before).run host =
        (if position ∈ sortUnique positions then
          found
        else
          moves ((sortUnique positions).countP fun other => decide (other < position))).run host := by
  have hsorted := (sortUnique_spec positions).1
  by_cases hmem : position ∈ sortUnique positions
  . obtain ⟨i, hi⟩ := binarySearchResult_of_mem hsorted hmem
    rw [hi, if_pos hmem]
  . rw [binarySearchResult_of_not_mem hsorted hmem, if_neg hmem]
    have := countP_lt_le (nodup_sortUnique positions) position
    exact run_bind_of_eq_ok (checkedU64_run (by omega) host)

end Removed

section Destinations

variable {positions : List Nat} {oldRows oldColumns rows columns extent : Nat}

theorem getElem?_survivors_getD {k : Nat} (hk : k < (survivors extent positions).length)
    : (survivors extent positions)[k]? = some ((survivors extent positions).getD k 0) := by
  rw [List.getD_eq_getElem?_getD, List.getElem?_eq_getElem hk, Option.getD_some]

theorem getD_survivors_lt {k : Nat} (hk : k < (survivors extent positions).length)
    : (survivors extent positions).getD k 0 < extent :=
  (mem_survivors.mp (List.mem_of_getElem? (getElem?_survivors_getD hk))).1

theorem shifted_eq_some_iff_getD {position k : Nat} (hlt : position < extent)
    (hk : k < (survivors extent positions).length)
    : shifted (sortUnique positions) position = some k ↔
        position = (survivors extent positions).getD k 0 := by
  rw [shifted_eq_some_iff hlt, getElem?_survivors_getD hk, Option.some.injEq, eq_comm]

theorem shifted_lt {position k : Nat} (hlt : position < extent)
    (h : shifted (sortUnique positions) position = some k) : k < (survivors extent positions).length :=
  (List.getElem?_eq_some_iff.mp ((shifted_eq_some_iff hlt).mp h)).1

/-- Where a linear deletion lays out the survivor at an old coordinate. -/
def linearDestination (oldRows newRows : Nat) (offsets : List Nat) (row column : Nat) : Option (Nat × Nat) :=
  (shifted (sortUnique offsets) (row + column * oldRows)).map fun s => (s % newRows, s / newRows)

theorem linear_origin (hnumel : rows * columns = (survivors (oldRows * oldColumns) positions).length)
    : Origin oldRows oldColumns rows columns (linearDestination oldRows rows positions)
        fun k => (survivors (oldRows * oldColumns) positions).getD k 0 := by
  constructor
  . intro k hk
    exact getD_survivors_lt (hnumel ▸ hk)
  . intro k hk row hrow column hcolumn
    obtain ⟨hlt, -, -⟩ := offset_of_coordinates hrow hcolumn
    rw [linearDestination, Option.map_eq_some_iff, ← shifted_eq_some_iff_getD hlt (hnumel ▸ hk)]
    constructor
    . rintro ⟨s, hs, heq⟩
      rw [hs, divMod_inj.mp heq]
    . intro hs
      exact ⟨k, hs, rfl⟩

theorem linear_in (hnumel : rows * columns = (survivors (oldRows * oldColumns) positions).length)
    : ∀ row < oldRows, ∀ column < oldColumns, ∀ p, linearDestination oldRows rows positions row column = some p →
        p.1 < rows ∧ p.2 < columns := by
  intro row hrow column hcolumn p hp
  obtain ⟨hlt, -, -⟩ := offset_of_coordinates hrow hcolumn
  rw [linearDestination, Option.map_eq_some_iff] at hp
  obtain ⟨s, hs, rfl⟩ := hp
  exact coordinates_of_offset (hnumel ▸ shifted_lt hlt hs)

def rowDestination (rows : List Nat) (row column : Nat) : Option (Nat × Nat) :=
  (shifted (sortUnique rows) row).map fun row => (row, column)

theorem row_origin
    : Origin oldRows oldColumns (survivors oldRows positions).length oldColumns (rowDestination positions)
        fun k => (survivors oldRows positions).getD (k % (survivors oldRows positions).length) 0 +
          k / (survivors oldRows positions).length * oldRows := by
  constructor
  . intro k hk
    obtain ⟨hrow, hcolumn⟩ := coordinates_of_offset hk
    exact (offset_of_coordinates (getD_survivors_lt hrow) hcolumn).1
  . intro k hk row hrow column hcolumn
    obtain ⟨hrow', hcolumn'⟩ := coordinates_of_offset hk
    rw [offset_inj hrow hcolumn (getD_survivors_lt hrow') hcolumn', ← shifted_eq_some_iff_getD hrow hrow',
      rowDestination, Option.map_eq_some_iff]
    constructor
    . rintro ⟨s, hs, heq⟩
      rw [Prod.mk.injEq] at heq
      exact ⟨heq.1 ▸ hs, heq.2⟩
    . rintro ⟨hs, rfl⟩
      exact ⟨_, hs, rfl⟩

theorem row_in
    : ∀ row < oldRows, ∀ column < oldColumns, ∀ p, rowDestination positions row column = some p →
        p.1 < (survivors oldRows positions).length ∧ p.2 < oldColumns := by
  intro row hrow column hcolumn p hp
  rw [rowDestination, Option.map_eq_some_iff] at hp
  obtain ⟨s, hs, rfl⟩ := hp
  exact ⟨shifted_lt hrow hs, hcolumn⟩

def columnDestination (columns : List Nat) (row column : Nat) : Option (Nat × Nat) :=
  (shifted (sortUnique columns) column).map fun column => (row, column)

theorem column_origin
    : Origin oldRows oldColumns oldRows (survivors oldColumns positions).length (columnDestination positions)
        fun k => k % oldRows + (survivors oldColumns positions).getD (k / oldRows) 0 * oldRows := by
  constructor
  . intro k hk
    obtain ⟨hrow, hcolumn⟩ := coordinates_of_offset hk
    exact (offset_of_coordinates hrow (getD_survivors_lt hcolumn)).1
  . intro k hk row hrow column hcolumn
    obtain ⟨hrow', hcolumn'⟩ := coordinates_of_offset hk
    rw [offset_inj hrow hcolumn hrow' (getD_survivors_lt hcolumn'), ← shifted_eq_some_iff_getD hcolumn hcolumn',
      columnDestination, Option.map_eq_some_iff]
    constructor
    . rintro ⟨s, hs, heq⟩
      rw [Prod.mk.injEq] at heq
      exact ⟨heq.1, heq.2 ▸ hs⟩
    . rintro ⟨rfl, hs⟩
      exact ⟨_, hs, rfl⟩

theorem column_in
    : ∀ row < oldRows, ∀ column < oldColumns, ∀ p, columnDestination positions row column = some p →
        p.1 < oldRows ∧ p.2 < (survivors oldColumns positions).length := by
  intro row hrow column hcolumn p hp
  rw [columnDestination, Option.map_eq_some_iff] at hp
  obtain ⟨s, hs, rfl⟩ := hp
  exact ⟨hrow, shifted_lt hcolumn hs⟩

end Destinations

section Offsets

variable {rows columns : Nat} {positions : List Nat}

/-- The origins of the elements when rows are deleted, in their order. -/
theorem map_row_origin
    : (List.range ((survivors rows positions).length * columns)).map (fun k =>
        (survivors rows positions).getD (k % (survivors rows positions).length) 0 +
          k / (survivors rows positions).length * rows) =
        (List.range (rows * columns)).filter fun offset => decide (offset % rows ∉ positions) := by
  rw [range_mul, range_mul, List.map_flatMap, List.filter_flatMap]
  apply List.flatMap_congr
  intro column hcolumn
  rw [List.map_map, List.filter_map]
  have hfilter : (List.range rows).filter ((fun offset => decide (offset % rows ∉ positions)) ∘
      fun row => row + column * rows) = survivors rows positions := by
    rw [survivors]
    apply List.filter_congr
    intro row hrow
    simp only [Function.comp_apply]
    rw [(offset_of_coordinates (List.mem_range.mp hrow) (List.mem_range.mp hcolumn)).2.1]
  rw [hfilter]
  conv => rhs; rw [← map_range_getD (survivors rows positions) 0, List.map_map]
  apply List.map_congr_left
  intro row hrow
  obtain ⟨-, hmod, hdiv⟩ := offset_of_coordinates (List.mem_range.mp hrow) (List.mem_range.mp hcolumn)
  simp only [Function.comp_apply, hmod, hdiv]

theorem flatMap_filter {α β : Type} (p : α → Bool) (f : α → List β) (as : List α)
    : (as.filter p).flatMap f = as.flatMap fun a => if p a then f a else [] := by
  induction as with
  | nil => rfl
  | cons a as ih =>
    rw [List.flatMap_cons, List.filter_cons]
    split
    . rw [List.flatMap_cons, ih]
    . rw [ih, List.nil_append]

/-- The origins of the elements when columns are deleted, in their order. -/
theorem map_column_origin
    : (List.range (rows * (survivors columns positions).length)).map (fun k =>
        k % rows + (survivors columns positions).getD (k / rows) 0 * rows) =
        (List.range (rows * columns)).filter fun offset => decide (offset / rows ∉ positions) := by
  have hblocks : (List.range (rows * (survivors columns positions).length)).map (fun k =>
      k % rows + (survivors columns positions).getD (k / rows) 0 * rows) =
      (survivors columns positions).flatMap fun column => (List.range rows).map fun row => row + column * rows := by
    conv => rhs; rw [← map_range_getD (survivors columns positions) 0, List.flatMap_map]
    rw [range_mul, List.map_flatMap]
    apply List.flatMap_congr
    intro column hcolumn
    rw [List.map_map]
    apply List.map_congr_left
    intro row hrow
    obtain ⟨-, hmod, hdiv⟩ := offset_of_coordinates (List.mem_range.mp hrow) (List.mem_range.mp hcolumn)
    simp only [Function.comp_apply, hmod, hdiv]
  rw [hblocks, survivors, flatMap_filter, range_mul, List.filter_flatMap]
  apply List.flatMap_congr
  intro column hcolumn
  rw [List.filter_map]
  have hfilter : (List.range rows).filter ((fun offset => decide (offset / rows ∉ positions)) ∘
      fun row => row + column * rows) = (List.range rows).filter fun _ => decide (column ∉ positions) := by
    apply List.filter_congr
    intro row hrow
    simp only [Function.comp_apply]
    rw [(offset_of_coordinates (List.mem_range.mp hrow) (List.mem_range.mp hcolumn)).2.2]
  rw [hfilter]
  split
  . next hkept => rw [List.filter_eq_self.mpr fun _ _ => hkept]
  . next hremoved => rw [List.filter_eq_nil_iff.mpr fun _ _ => hremoved, List.map_nil]

end Offsets

namespace SparseArrayData

variable {R : Type} [Zero R] [One R] [Add R] [Double R] [DecidableEq R] {d d' : SparseArrayData R}
variable {positions : List Nat} {shape : Arrays.Shape} {host host' : Host}

omit [One R] in
theorem linear_computes (hd : d.Canonical) (offsets : List Nat) (newRows : Nat)
    : Computes d.rows d.columns (fun row column => do
        let offset := row + column * d.rows
        match binarySearchResult (sortUnique offsets) offset with
        | .ok _ => return none
        | .error before =>
          let before ← checkedU64 before
          if before > offset then
            throw .offsetOverflow
          let shifted := offset - before
          return some (shifted % newRows, shifted / newRows)) (linearDestination d.rows newRows offsets) := by
  intro row hrow column hcolumn host
  obtain ⟨hlt, -, -⟩ := offset_of_coordinates hrow hcolumn
  dsimp only
  rw [search_sortUnique offsets (row + column * d.rows) hlt hd.numel_le]
  have hle := countP_lt_le (nodup_sortUnique offsets) (row + column * d.rows)
  unfold linearDestination shifted
  split
  . rfl
  . rw [if_neg (by omega)]
    rfl

theorem row_computes {oldRows oldColumns : Nat} (hshape : oldRows * oldColumns ≤ u64Max) (rows : List Nat)
    : Computes oldRows oldColumns (fun row column =>
        match binarySearchResult (sortUnique rows) row with
        | .ok _ => return none
        | .error before => do
          let before ← checkedU64 before
          return some (row - before, column)) (rowDestination rows) := by
  intro row hrow column hcolumn host
  have hrows : oldRows ≤ u64Max := Nat.le_trans (Nat.le_mul_of_pos_right _ (by omega)) hshape
  dsimp only
  rw [search_sortUnique rows row hrow hrows]
  unfold rowDestination shifted
  split <;> rfl

theorem column_computes {oldRows oldColumns : Nat} (hcolumns : oldColumns ≤ u64Max) (columns : List Nat)
    : Computes oldRows oldColumns (fun row column =>
        match binarySearchResult (sortUnique columns) column with
        | .ok _ => return none
        | .error before => do
          let before ← checkedU64 before
          return some (row, column - before)) (columnDestination columns) := by
  intro row hrow column hcolumn host
  dsimp only
  rw [search_sortUnique columns column hcolumn hcolumns]
  unfold columnDestination shifted
  split <;> rfl

theorem tryDeleteLinearOffsets_eq_ok (hd : d.Canonical)
    (h : (d.tryDeleteLinearOffsets positions shape).run host = .ok (d', host'))
    : (∀ offset ∈ positions, offset < d.numel) ∧ shape.numel = (survivors d.numel positions).length ∧
        (shape.ndims = 2 → Rearranges d d' (shape.extent 0) (shape.extent 1)
          fun k => (survivors d.numel positions).getD k 0) := by
  rw [tryDeleteLinearOffsets, run_bind_eq_ok_iff] at h
  obtain ⟨removed, h₁, hremoved, h⟩ := h
  obtain ⟨hin, rfl⟩ := normalized_eq_ok (bounds_offsets hd.numel_le) hremoved
  rw [run_bind_eq_ok_iff] at h
  obtain ⟨count, h₂, hcount, h⟩ := h
  obtain rfl := checkedU64_eq_ok hcount
  split at h
  . cases h
  dsimp only at h
  split at h
  . cases h
  next hnumel =>
    have hlength := length_survivors_of_lt hin
    refine ⟨hin, by omega, fun hndims => ?_⟩
    have hshape : shape.extent 0 * shape.extent 1 = (survivors d.numel positions).length := by
      rw [← Arrays.Shape.numel_of_ndims_eq_two hndims]
      omega
    exact relayout_eq_ok hd (linear_computes hd positions _) (linear_origin hshape) h

omit [One R] in
theorem tryDeleteLinearOffsets_quiet (hd : d.Canonical) (hndims : shape.ndims = 2)
    (hnumel : shape.numel = (survivors d.numel positions).length) (hcolumns : shape.extent 1 < u64Max)
    (hin : ∀ offset ∈ positions, offset < d.numel) (hlength : positions.length ≤ u64Max)
    : ∃ d', (d.tryDeleteLinearOffsets positions shape).run Host.quiet = .ok (d', Host.quiet) := by
  have hcount := length_sortUnique_le_extent hin
  have hsurvivors := length_survivors_of_lt hin
  have hle := hd.numel_le
  have hshape : shape.extent 0 * shape.extent 1 = (survivors d.numel positions).length := by
    rw [← Arrays.Shape.numel_of_ndims_eq_two hndims, hnumel]
  rw [tryDeleteLinearOffsets, normalizedOffsets,
    run_bind_of_eq_ok (normalized_quiet (bounds_offsets hd.numel_le) hin hlength),
    run_bind_of_eq_ok (checkedU64_quiet (by omega)), if_neg (by omega)]
  dsimp only
  rw [if_neg (by omega)]
  exact relayout_quiet hd (linear_computes hd positions _) (linear_in hshape) (by omega) hcolumns

theorem tryDeleteRows_eq_ok (hd : d.Canonical)
    (h : (d.tryDeleteRows positions).run host = .ok (d', host'))
    : (∀ row ∈ positions, row < d.rows) ∧
        Rearranges d d' (survivors d.rows positions).length d.columns (fun k =>
          (survivors d.rows positions).getD (k % (survivors d.rows positions).length) 0 +
            k / (survivors d.rows positions).length * d.rows) := by
  rw [tryDeleteRows, run_bind_eq_ok_iff] at h
  obtain ⟨removed, h₁, hremoved, h⟩ := h
  obtain ⟨hin, rfl⟩ := normalized_eq_ok (bounds_indices 0) hremoved
  rw [run_bind_eq_ok_iff] at h
  obtain ⟨count, h₂, hcount, h⟩ := h
  obtain rfl := checkedU64_eq_ok hcount
  rw [← length_survivors_of_lt hin] at h
  exact ⟨hin, relayout_eq_ok hd (row_computes hd.numel_le positions) row_origin h⟩

omit [One R] in
theorem tryDeleteRows_quiet (hd : d.Canonical) (hin : ∀ row ∈ positions, row < d.rows)
    (hlength : positions.length ≤ u64Max)
    : ∃ d', (d.tryDeleteRows positions).run Host.quiet = .ok (d', Host.quiet) := by
  have hcount := length_sortUnique_le positions
  have hshape : (survivors d.rows positions).length * d.columns ≤ u64Max := by
    refine Nat.le_trans (Nat.mul_le_mul_right _ ?_) hd.numel_le
    rw [length_survivors_of_lt hin]
    omega
  rw [tryDeleteRows, normalizedIndices,
    run_bind_of_eq_ok (normalized_quiet (bounds_indices 0) hin hlength),
    run_bind_of_eq_ok (checkedU64_quiet (by omega)), ← length_survivors_of_lt hin]
  exact relayout_quiet hd (row_computes hd.numel_le positions) row_in hshape hd.columns_lt

theorem tryDeleteColumns_eq_ok (hd : d.Canonical)
    (h : (d.tryDeleteColumns positions).run host = .ok (d', host'))
    : (∀ column ∈ positions, column < d.columns) ∧
        Rearranges d d' d.rows (survivors d.columns positions).length (fun k =>
          k % d.rows + (survivors d.columns positions).getD (k / d.rows) 0 * d.rows) := by
  rw [tryDeleteColumns, run_bind_eq_ok_iff] at h
  obtain ⟨removed, h₁, hremoved, h⟩ := h
  obtain ⟨hin, rfl⟩ := normalized_eq_ok (bounds_indices 1) hremoved
  rw [run_bind_eq_ok_iff] at h
  obtain ⟨count, h₂, hcount, h⟩ := h
  obtain rfl := checkedU64_eq_ok hcount
  rw [← length_survivors_of_lt hin] at h
  exact ⟨hin, relayout_eq_ok hd (column_computes (Nat.le_of_lt hd.columns_lt) positions) column_origin h⟩

omit [One R] in
theorem tryDeleteColumns_quiet (hd : d.Canonical) (hin : ∀ column ∈ positions, column < d.columns)
    (hlength : positions.length ≤ u64Max)
    : ∃ d', (d.tryDeleteColumns positions).run Host.quiet = .ok (d', Host.quiet) := by
  have hcount := length_sortUnique_le positions
  have hsurvivors : (survivors d.columns positions).length ≤ d.columns := by
    rw [length_survivors_of_lt hin]
    omega
  have hcolumns := hd.columns_lt
  rw [tryDeleteColumns, normalizedIndices,
    run_bind_of_eq_ok (normalized_quiet (bounds_indices 1) hin hlength),
    run_bind_of_eq_ok (checkedU64_quiet (by omega)), ← length_survivors_of_lt hin]
  exact relayout_quiet hd (column_computes (Nat.le_of_lt hd.columns_lt) positions) column_in
    (Nat.le_trans (Nat.mul_le_mul_left _ hsurvivors) hd.numel_le) (by omega)

/--
A completed deletion is canonical and holds the elements whose positions are not listed, in their order. It fails
on a position out of range, and otherwise a quiet host completes it.
-/
theorem deletions_correct (d : SparseArrayData R) (hd : d.Canonical) (host : Host)
    : (∀ (offsets : List Nat) (shape : Arrays.Shape),
        (shape.ndims = 2 → ∀ d' host', (d.tryDeleteLinearOffsets offsets shape).run host = .ok (d', host') →
          d'.rows = shape.extent 0 ∧ d'.columns = shape.extent 1 ∧ d'.Canonical ∧
          d'.contents.map d.present =
            ((List.range d.numel).filter fun offset => offset ∉ offsets).map d.elementAt) ∧
        ((∃ offset ∈ offsets, d.numel ≤ offset) →
          ∃ error, (d.tryDeleteLinearOffsets offsets shape).run host = .error error) ∧
        (shape.ndims = 2 → (∀ offset ∈ offsets, offset < d.numel) → offsets.length ≤ u64Max →
          shape.numel = ((List.range d.numel).filter fun offset => offset ∉ offsets).length →
          shape.extent 1 < u64Max →
          ∃ d', (d.tryDeleteLinearOffsets offsets shape).run Host.quiet = .ok (d', Host.quiet))) ∧
      (∀ rows : List Nat,
        (∀ d' host', (d.tryDeleteRows rows).run host = .ok (d', host') →
          d'.rows = ((List.range d.rows).filter fun row => row ∉ rows).length ∧ d'.columns = d.columns ∧
          d'.Canonical ∧ d'.contents.map d.present =
            ((List.range d.numel).filter fun offset => offset % d.rows ∉ rows).map d.elementAt) ∧
        ((∃ row ∈ rows, d.rows ≤ row) → ∃ error, (d.tryDeleteRows rows).run host = .error error) ∧
        ((∀ row ∈ rows, row < d.rows) → rows.length ≤ u64Max →
          ∃ d', (d.tryDeleteRows rows).run Host.quiet = .ok (d', Host.quiet))) ∧
      ∀ columns : List Nat,
        (∀ d' host', (d.tryDeleteColumns columns).run host = .ok (d', host') →
          d'.rows = d.rows ∧ d'.columns = ((List.range d.columns).filter fun column => column ∉ columns).length ∧
          d'.Canonical ∧ d'.contents.map d.present =
            ((List.range d.numel).filter fun offset => offset / d.rows ∉ columns).map d.elementAt) ∧
        ((∃ column ∈ columns, d.columns ≤ column) →
          ∃ error, (d.tryDeleteColumns columns).run host = .error error) ∧
        ((∀ column ∈ columns, column < d.columns) → columns.length ≤ u64Max →
          ∃ d', (d.tryDeleteColumns columns).run Host.quiet = .ok (d', Host.quiet)) := by
  have hout {positions : List Nat} {extent : Nat} {run : Except SparseError (SparseArrayData R × Host)}
      (hok : ∀ d' host', run = .ok (d', host') → ∀ position ∈ positions, position < extent)
      (hbad : ∃ position ∈ positions, extent ≤ position) : ∃ error, run = .error error := by
    obtain ⟨position, hposition, hle⟩ := hbad
    cases hrun : run with
    | error error => exact ⟨error, rfl⟩
    | ok p => exact absurd (hok p.1 p.2 hrun position hposition) (Nat.not_lt.mpr hle)
  refine ⟨fun offsets shape => ⟨fun hndims d' host' hrun => ?_,
    hout fun d' host' hrun => (tryDeleteLinearOffsets_eq_ok hd hrun).1,
    fun hndims hin hlength hnumel hcolumns => ?_⟩, fun rows => ⟨fun d' host' hrun => ?_,
    hout fun d' host' hrun => (tryDeleteRows_eq_ok hd hrun).1, tryDeleteRows_quiet hd⟩,
    fun columns => ⟨fun d' host' hrun => ?_, hout fun d' host' hrun => (tryDeleteColumns_eq_ok hd hrun).1,
    tryDeleteColumns_quiet hd⟩⟩
  . obtain ⟨-, hnumel, hrearranges⟩ := tryDeleteLinearOffsets_eq_ok hd hrun
    have hrearranges := hrearranges hndims
    refine ⟨hrearranges.rows_eq, hrearranges.columns_eq, hrearranges.canonical, ?_⟩
    have hsurvivors : (survivors d.numel offsets).map d.elementAt =
        ((List.range (survivors d.numel offsets).length).map
          fun k => (survivors d.numel offsets).getD k 0).map d.elementAt := by
      rw [map_range_getD]
    rw [hrearranges.contents, ← Arrays.Shape.numel_of_ndims_eq_two hndims, hnumel, ← survivors, hsurvivors,
      List.map_map]
    rfl
  . exact tryDeleteLinearOffsets_quiet hd hndims hnumel hcolumns hin hlength
  . obtain ⟨-, hrearranges⟩ := tryDeleteRows_eq_ok hd hrun
    refine ⟨hrearranges.rows_eq, hrearranges.columns_eq, hrearranges.canonical, ?_⟩
    rw [hrearranges.contents, numel, ← map_row_origin, List.map_map]
    rfl
  . obtain ⟨-, hrearranges⟩ := tryDeleteColumns_eq_ok hd hrun
    refine ⟨hrearranges.rows_eq, hrearranges.columns_eq, hrearranges.canonical, ?_⟩
    rw [hrearranges.contents, numel, ← map_column_origin, List.map_map]
    rfl

/-- A repeated row is deleted once. -/
theorem deletions_correct_triangle
    : ∃ d, (triangle.tryDeleteRows [0, 0]).run Host.quiet = .ok (d, Host.quiet) ∧ d.Canonical ∧
        d.contents.map triangle.present = [.f64 0, .f64 3] := by
  obtain ⟨hholds, -, hquiet⟩ := (deletions_correct triangle triangle_canonical Host.quiet).2.1 [0, 0]
  obtain ⟨d, hd⟩ := hquiet (by decide) (by decide)
  obtain ⟨-, -, hcanonical, hcontents⟩ := hholds d _ hd
  exact ⟨d, hd, hcanonical, hcontents.trans (by decide)⟩

end SparseArrayData

end Sparse
end OpenMat
