import OpenMat.Sparse.Assign
import OpenMat.Sparse.Dense

/-!
This module contains concatenation along rows or along columns: the entries of each input move by the extents of the
inputs before it, and the values take the class that holds all of them.
-/

namespace OpenMat
namespace Sparse

open Sequence

variable {R V : Type}

def CscMatrix.tryEmpty (rows columns reservedNnz : Nat) : Fallible (CscMatrix V) := do
  sparseShape rows columns
  checkCancelled 0
  let columnCount ← checkedUsize columns
  if columnCount + 1 > u64Max then
    throw (.hostLengthOverflow columns)
  allocate "column offsets" (columnCount + 1)
  checkPositions 0 (columnCount + 1)
  allocate "row indices" reservedNnz
  allocate "values" reservedNnz
  return {
    rows := rows
    columns := columns
    colOffsets := List.replicate (columnCount + 1) 0
    rowIndices := []
    values := []
    reservedNnz := reservedNnz
  }

/-- What the loop over the inputs has found. -/
structure Conformity where
  nnz : Nat
  complex : Bool
  logical : Bool

namespace SparseArrayData

def trySpalloc (rows columns reservedNnz : Nat) : Fallible (SparseArrayData R) := do
  let m ← CscMatrix.tryEmpty rows columns reservedNnz
  return .f64 m

def checkConforming (dimension : Nat) (first : SparseArrayData R) (s : Conformity)
    : List (SparseArrayData R) → Fallible Conformity
  | [] => return s
  | input :: inputs => do
    let nnz ← checkedAddUsize s.nnz input.nnz
    if dimension = 0 ∧ input.columns ≠ first.columns then
      throw (.shapeMismatch "vertical concatenation" first.dimensions input.dimensions)
    if dimension ≠ 0 ∧ input.rows ≠ first.rows then
      throw (.shapeMismatch "horizontal concatenation" first.dimensions input.dimensions)
    checkConforming dimension first ⟨nnz, s.complex || input.isComplex, s.logical && input.isLogical⟩ inputs

def sumExtents (error : SparseError) (sum : Nat) : List Nat → Fallible Nat
  | [] => return sum
  | extent :: extents =>
    if sum + extent ≤ u64Max then sumExtents error (sum + extent) extents else throw error

def concatenatedShape (inputs : List (SparseArrayData R)) (dimension : Nat) (first : SparseArrayData R)
    : Fallible (Nat × Nat) :=
  if dimension = 0 then do
    let rows ← sumExtents (.shapeOverflow u64Max first.columns) 0 (inputs.map SparseArrayData.rows)
    return (rows, first.columns)
  else do
    let columns ← sumExtents (.shapeOverflow first.rows u64Max) 0 (inputs.map SparseArrayData.columns)
    return (first.rows, columns)

/-- The offsets do not overflow, since the extents have been added up. -/
def concatenateEntries (dimension : Nat) (convert : SparseScalarValue R → V) (rowOffset columnOffset count : Nat)
    : List (SparseArrayData R) → Fallible (List (CooEntry V))
  | [] => return []
  | input :: inputs => do
    let entries ← collect (fun position => return (input.storedEntry position).elim [] fun e =>
      [⟨e.row + rowOffset, e.column + columnOffset, convert e.value⟩]) count (List.range input.nnz)
    let rowOffset' := if dimension = 0 then rowOffset + input.rows else rowOffset
    let columnOffset' := if dimension = 0 then columnOffset else columnOffset + input.columns
    let rest ← concatenateEntries dimension convert rowOffset' columnOffset' (count + entries.length) inputs
    return entries ++ rest

variable [Zero R] [One R] [Add R] [Double R] [DecidableEq R]

def concatenateLogical (inputs : List (SparseArrayData R)) (dimension rows columns nnz : Nat)
    : Fallible (SparseArrayData R) := do
  allocate "logical concatenation COO" nnz
  let entries ← concatenateEntries dimension nonzero 0 0 0 inputs
  tryFromLogicalCoo rows columns entries nnz

def concatenateReal (inputs : List (SparseArrayData R)) (dimension rows columns nnz : Nat)
    : Fallible (SparseArrayData R) := do
  allocate "real concatenation COO" nnz
  let entries ← concatenateEntries dimension realValue 0 0 0 inputs
  tryFromF64Coo rows columns entries nnz

def concatenateComplex (inputs : List (SparseArrayData R)) (dimension rows columns nnz : Nat)
    : Fallible (SparseArrayData R) := do
  allocate "complex concatenation COO" nnz
  let entries ← concatenateEntries dimension complexValue 0 0 0 inputs
  tryFromComplexF64Coo rows columns entries nnz

def tryConcatenate2d (inputs : List (SparseArrayData R)) (dimension : Nat) : Fallible (SparseArrayData R) := do
  if dimension > 1 then
    throw (.unsupportedConcatenationDimension dimension)
  match inputs with
  | [] => trySpalloc 0 0 0
  | first :: _ => do
    let s ← checkConforming dimension first ⟨0, false, true⟩ inputs
    let (rows, columns) ← concatenatedShape inputs dimension first
    if s.complex then
      concatenateComplex inputs dimension rows columns s.nnz
    else if s.logical then
      concatenateLogical inputs dimension rows columns s.nnz
    else
      concatenateReal inputs dimension rows columns s.nnz

end SparseArrayData

section Empty

variable [CscElement V] {m : CscMatrix V} {rows columns reservedNnz : Nat} {host host' : Host}

theorem tryEmpty_eq_ok (h : (CscMatrix.tryEmpty rows columns reservedNnz).run host = .ok (m, host'))
    : m.rows = rows ∧ m.columns = columns ∧ m.Canonical := by
  rw [CscMatrix.tryEmpty] at h
  simp only [run_bind_eq_ok_iff] at h
  obtain ⟨_, _, hshape, _, _, -, columnCount, _, hcount, h⟩ := h
  obtain rfl := checkedUsize_eq_ok hcount
  have hshape : rows * columnCount ≤ u64Max := by
    unfold sparseShape at hshape
    split at hshape
    . next hle => exact hle
    . cases hshape
  split at h
  . cases h
  next hcolumns =>
  simp only [run_bind_eq_ok_iff] at h
  obtain ⟨_, _, -, _, _, -, _, _, hreserved, _, _, -, h⟩ := h
  have hreserved := allocate_eq_ok hreserved
  cases h
  have hencodes : Encodes (List.replicate (columnCount + 1) 0) [] ([] : List V) columnCount [] := by
    refine ⟨?_, rfl, rfl, List.Pairwise.nil, by simp⟩
    apply List.ext_getElem
    . simp
    . intro i hi hi'
      simp [below]
  refine ⟨rfl, rfl, Encodes.canonical hencodes (by simp) (by simp) (by simp) hshape ?_ (Nat.zero_le _) hreserved⟩
  dsimp only
  omega

omit [CscElement V] in
theorem tryEmpty_quiet (hshape : rows * columns ≤ u64Max) (hcolumns : columns < u64Max)
    (hreserved : reservedNnz ≤ u64Max)
    : ∃ m : CscMatrix V, (CscMatrix.tryEmpty rows columns reservedNnz).run Host.quiet = .ok (m, Host.quiet) := by
  rw [CscMatrix.tryEmpty, run_bind_of_eq_ok (sparseShape_quiet hshape),
    run_bind_of_eq_ok (checkCancelled_quiet 0), run_bind_of_eq_ok (checkedUsize_quiet (by omega)),
    if_neg (by omega), run_bind_of_eq_ok (allocate_quiet (by omega)),
    run_bind_of_eq_ok (checkPositions_quiet 0 _), run_bind_of_eq_ok (allocate_quiet hreserved),
    run_bind_of_eq_ok (allocate_quiet hreserved)]
  exact ⟨_, rfl⟩

end Empty

namespace SparseArrayData

section Blocks

variable [Zero R] [Add R] [Double R] [DecidableEq R]
variable {dimension offset : Nat} {convert : SparseScalarValue R → V} {inputs : List (SparseArrayData R)}
variable {d : SparseArrayData R}

/-- The coordinate at a position along a dimension. -/
def along (dimension position across : Nat) : Nat × Nat :=
  if dimension = 0 then (position, across) else (across, position)

def extent (dimension : Nat) (d : SparseArrayData R) : Nat :=
  if dimension = 0 then d.rows else d.columns

def elementAlong (dimension : Nat) (d : SparseArrayData R) (position across : Nat) : SparseScalarValue R :=
  d.element (along dimension position across).1 (along dimension position across).2

/-- Every position along the dimension of the result, with the input that it comes from. -/
def blocks (dimension : Nat) (inputs : List (SparseArrayData R)) : List (SparseArrayData R × Nat) :=
  inputs.flatMap fun d => (List.range (d.extent dimension)).map fun i => (d, i)

/-- The entries of an input, moved along the dimension. -/
def shiftedEntries (dimension offset : Nat) (convert : SparseScalarValue R → V) (d : SparseArrayData R)
    : List (CooEntry V) :=
  d.scalarEntries.map fun e =>
    ⟨e.row + (along dimension offset 0).1, e.column + (along dimension offset 0).2, convert e.value⟩

def concatenated (dimension : Nat) (convert : SparseScalarValue R → V)
    : Nat → List (SparseArrayData R) → List (CooEntry V)
  | _, [] => []
  | offset, d :: inputs =>
    shiftedEntries dimension offset convert d ++
      concatenated dimension convert (offset + d.extent dimension) inputs

omit [Zero R] [Add R] [Double R] [DecidableEq R] in
theorem length_blocks : (blocks dimension inputs).length = (inputs.map (extent dimension)).sum := by
  rw [blocks, List.length_flatMap]
  simp only [List.length_map, List.length_range]

omit [Zero R] [Add R] [Double R] [DecidableEq R] in
theorem shiftedEntries_eq_moved
    : shiftedEntries dimension offset convert d =
        moved (fun row column =>
          some (row + (along dimension offset 0).1, column + (along dimension offset 0).2))
          (mapValues convert d.scalarEntries) := by
  rw [shiftedEntries, moved, mapValues, List.flatMap_map, List.map_eq_flatMap]
  rfl

theorem combinedAt_shiftedEntries [CscElement V] {zero : V} (hconvert : ConvertsZero convert zero)
    (hd : d.Canonical) (i across : Nat)
    : (combinedAt (shiftedEntries dimension offset convert d) (along dimension (offset + i) across).1
        (along dimension (offset + i) across).2).getD zero = convert (elementAlong dimension d i across) := by
  rw [shiftedEntries_eq_moved, elementAlong, ← combinedAt_scalarEntries hconvert hd]
  congr 1
  apply combinedAt_moved
  intro e _
  unfold along
  split
  . simp only [Option.some.injEq, Prod.mk.injEq]
    omega
  . simp only [Option.some.injEq, Prod.mk.injEq]
    omega

/-- The entries of an input are at the positions of its block. -/
theorem shiftedEntries_position (hd : d.Canonical) {position across : Nat} {e : CooEntry V}
    (he : e ∈ shiftedEntries dimension offset convert d) (hrow : e.row = (along dimension position across).1)
    (hcolumn : e.column = (along dimension position across).2)
    : offset ≤ position ∧ position < offset + d.extent dimension := by
  obtain ⟨a, ha, rfl⟩ := List.mem_map.mp he
  have hin := scalarEntries_in hd ha
  unfold along at hrow hcolumn
  unfold extent
  split at hrow
  . next hzero =>
    rw [if_pos hzero] at hcolumn ⊢
    simp only [hzero, ↓reduceIte] at hrow hcolumn
    omega
  . next hne =>
    rw [if_neg hne] at hcolumn ⊢
    simp only [hne, ↓reduceIte] at hrow hcolumn
    omega

theorem concatenated_position (hinputs : ∀ d ∈ inputs, d.Canonical) {position across : Nat} {e : CooEntry V}
    (he : e ∈ concatenated dimension convert offset inputs)
    (hrow : e.row = (along dimension position across).1)
    (hcolumn : e.column = (along dimension position across).2)
    : offset ≤ position := by
  induction inputs generalizing offset with
  | nil => cases he
  | cons d inputs ih =>
    rcases List.mem_append.mp he with he | he
    . exact (shiftedEntries_position (hinputs d (List.mem_cons_self ..)) he hrow hcolumn).1
    . have := ih (fun a ha => hinputs a (List.mem_cons_of_mem _ ha)) he
      omega

/-- What the entries combine to along the dimension is what the input there holds. -/
theorem combinedAt_concatenated [CscElement V] {zero : V} (hconvert : ConvertsZero convert zero)
    (hinputs : ∀ d ∈ inputs, d.Canonical) {k i : Nat} (hblock : (blocks dimension inputs)[k]? = some (d, i))
    (across : Nat)
    : (combinedAt (concatenated dimension convert offset inputs) (along dimension (offset + k) across).1
        (along dimension (offset + k) across).2).getD zero = convert (elementAlong dimension d i across) := by
  induction inputs generalizing offset k with
  | nil => simp [blocks] at hblock
  | cons a inputs ih =>
    have ha := hinputs a (List.mem_cons_self ..)
    have hrest : ∀ d ∈ inputs, d.Canonical := fun b hb => hinputs b (List.mem_cons_of_mem _ hb)
    rw [blocks, List.flatMap_cons, ← blocks] at hblock
    rw [concatenated]
    by_cases hk : k < a.extent dimension
    . rw [List.getElem?_append_left (by rwa [List.length_map, List.length_range]), List.getElem?_map,
        List.getElem?_range hk] at hblock
      cases hblock
      rw [combinedAt_append_of_right, combinedAt_shiftedEntries hconvert ha]
      rintro e he ⟨hrow, hcolumn⟩
      have := concatenated_position hrest he hrow hcolumn
      omega
    . rw [List.getElem?_append_right (by rw [List.length_map, List.length_range]; omega), List.length_map,
        List.length_range] at hblock
      rw [combinedAt_append_of_left, show offset + k = offset + a.extent dimension + (k - a.extent dimension) by
        omega, ih hrest hblock]
      rintro e he ⟨hrow, hcolumn⟩
      have := (shiftedEntries_position ha he hrow hcolumn).2
      omega

variable {count : Nat} {host host' : Host}

omit [Zero R] [Add R] [Double R] [DecidableEq R] in
theorem along_add (d : SparseArrayData R)
    : (if dimension = 0 then (along dimension offset 0).1 + d.rows else (along dimension offset 0).1) =
        (along dimension (offset + d.extent dimension) 0).1 ∧
      (if dimension = 0 then (along dimension offset 0).2 else (along dimension offset 0).2 + d.columns) =
        (along dimension (offset + d.extent dimension) 0).2 := by
  unfold along extent
  split <;> exact ⟨rfl, rfl⟩

theorem flatMap_storedEntry (hd : d.Canonical)
    : (List.range d.nnz).flatMap (fun position => (d.storedEntry position).elim [] fun e =>
        [(⟨e.row + (along dimension offset 0).1, e.column + (along dimension offset 0).2, convert e.value⟩ :
          CooEntry V)]) = shiftedEntries dimension offset convert d := by
  simp only [storedEntry_eq hd]
  rw [← length_scalarEntries hd, flatMap_range_getElem?, shiftedEntries, List.map_eq_flatMap]

theorem concatenateEntries_eq_ok (hinputs : ∀ d ∈ inputs, d.Canonical) {entries : List (CooEntry V)}
    (h : (concatenateEntries dimension convert (along dimension offset 0).1 (along dimension offset 0).2 count
      inputs).run host = .ok (entries, host'))
    : entries = concatenated dimension convert offset inputs := by
  induction inputs generalizing offset count entries host with
  | nil =>
    cases h
    rfl
  | cons d inputs ih =>
    rw [concatenateEntries] at h
    simp only [run_bind_eq_ok_iff] at h
    obtain ⟨own, _, hown, rest, _, hrest, h⟩ := h
    cases h
    rw [(along_add d).1, (along_add d).2] at hrest
    rw [concatenated, ih (fun a ha => hinputs a (List.mem_cons_of_mem _ ha)) hrest,
      ← flatMap_storedEntry (hinputs d (List.mem_cons_self ..))]
    congr 1
    apply collect_eq_ok _ hown
    intro position _ h₁ h₂ ys hys
    cases hys
    rfl

theorem concatenateEntries_quiet (hinputs : ∀ d ∈ inputs, d.Canonical)
    : (concatenateEntries dimension convert (along dimension offset 0).1 (along dimension offset 0).2 count
        inputs).run Host.quiet = .ok (concatenated dimension convert offset inputs, Host.quiet) := by
  induction inputs generalizing offset count with
  | nil => rfl
  | cons d inputs ih =>
    have hown := @collect_quiet _ (CooEntry V) (fun position => return (d.storedEntry position).elim [] fun e =>
      [⟨e.row + (along dimension offset 0).1, e.column + (along dimension offset 0).2, convert e.value⟩]) _
        (List.range d.nnz) count fun _ _ => rfl
    rw [flatMap_storedEntry (hinputs d (List.mem_cons_self ..))] at hown
    rw [concatenateEntries, run_bind_of_eq_ok hown]
    dsimp only
    rw [(along_add d).1, (along_add d).2,
      run_bind_of_eq_ok (ih fun a ha => hinputs a (List.mem_cons_of_mem _ ha))]
    rfl

theorem length_concatenated (hinputs : ∀ d ∈ inputs, d.Canonical)
    : (concatenated dimension convert offset inputs).length = (inputs.map nnz).sum := by
  induction inputs generalizing offset with
  | nil => rfl
  | cons d inputs ih =>
    rw [concatenated, List.length_append, ih fun a ha => hinputs a (List.mem_cons_of_mem _ ha), shiftedEntries,
      List.length_map, length_scalarEntries (hinputs d (List.mem_cons_self ..)), List.map_cons, List.sum_cons]

/-- The inputs agree across the dimension. -/
def Conform (dimension across : Nat) (inputs : List (SparseArrayData R)) : Prop :=
  ∀ d ∈ inputs, d.extent (1 - dimension) = across

theorem concatenated_in (hdimension : dimension ≤ 1) (hinputs : ∀ d ∈ inputs, d.Canonical) {across : Nat}
    (hconform : Conform dimension across inputs)
    : ∀ e ∈ concatenated dimension convert offset inputs,
        e.row < (along dimension (offset + (inputs.map (extent dimension)).sum) across).1 ∧
        e.column < (along dimension (offset + (inputs.map (extent dimension)).sum) across).2 := by
  induction inputs generalizing offset with
  | nil => nofun
  | cons d inputs ih =>
    intro e he
    rw [List.map_cons, List.sum_cons, ← Nat.add_assoc]
    rcases List.mem_append.mp he with he | he
    . obtain ⟨a, ha, rfl⟩ := List.mem_map.mp he
      obtain ⟨hrow, hcolumn⟩ := scalarEntries_in (hinputs d (List.mem_cons_self ..)) ha
      have hacross := hconform d (List.mem_cons_self ..)
      unfold extent at hacross
      unfold along extent
      rcases Nat.le_one_iff_eq_zero_or_eq_one.mp hdimension with rfl | rfl
      . simp only [Nat.sub_zero, one_ne_zero, ↓reduceIte] at hacross
        simp only [↓reduceIte]
        omega
      . simp only [Nat.sub_self, ↓reduceIte] at hacross
        simp only [one_ne_zero, ↓reduceIte]
        omega
    . exact ih (fun a ha => hinputs a (List.mem_cons_of_mem _ ha))
        (fun a ha => hconform a (List.mem_cons_of_mem _ ha)) e he

end Blocks

section Contents

variable [Zero R] [Add R] [Double R] [DecidableEq R]
variable {dimension across : Nat} {convert : SparseScalarValue R → V} {inputs : List (SparseArrayData R)}
variable {d : SparseArrayData R} {β : Type}

/-- The dense columns below each other. -/
def denseVertical (columns : Nat) (inputs : List (SparseArrayData R)) : List (SparseScalarValue R) :=
  (List.range columns).flatMap fun column => inputs.flatMap fun d =>
    (List.range d.rows).map fun row => d.element row column

/-- The dense elements of the inputs one after another. -/
def denseHorizontal (inputs : List (SparseArrayData R)) : List (SparseScalarValue R) :=
  inputs.flatMap SparseArrayData.contents

omit [Zero R] [Add R] [Double R] [DecidableEq R] in
theorem map_range_blocks {F : Nat → β} {G : SparseArrayData R × Nat → β}
    (h : ∀ k p, (blocks dimension inputs)[k]? = some p → F k = G p)
    : (List.range (inputs.map (extent dimension)).sum).map F = (blocks dimension inputs).map G := by
  rw [← length_blocks]
  apply List.ext_getElem
  . rw [List.length_map, List.length_map, List.length_range]
  . intro k hk hk'
    rw [List.length_map] at hk'
    rw [List.getElem_map, List.getElem_map, List.getElem_range]
    exact h k _ (List.getElem?_eq_getElem hk')

variable {g : SparseScalarValue R → β} {wrap : V → β}

theorem contents_vertical [CscElement V] {zero : V} (hconvert : ConvertsZero convert zero)
    (hinputs : ∀ d ∈ inputs, d.Canonical) (hrows : d.rows = (inputs.map (extent 0)).sum)
    (helement : ∀ row column, g (d.element row column) =
      wrap ((combinedAt (concatenated 0 convert 0 inputs) row column).getD zero))
    : d.contents.map g = (denseVertical d.columns inputs).map fun value => wrap (convert value) := by
  rw [contents_eq_flatMap, denseVertical, List.map_flatMap, List.map_flatMap, hrows]
  apply List.flatMap_congr
  intro column _
  rw [List.map_map, map_range_blocks (G := fun p => wrap (convert (p.1.element p.2 column))), blocks,
    List.map_flatMap, List.map_flatMap]
  . apply List.flatMap_congr
    intro a _
    rw [List.map_map, List.map_map]
    rfl
  . intro k p hblock
    have hcombined := @combinedAt_concatenated R _ _ _ _ _ _ 0 _ _ _ _ _ hconvert hinputs _ _ hblock column
    rw [Nat.zero_add] at hcombined
    rw [Function.comp_apply, helement]
    exact congrArg wrap hcombined

theorem contents_horizontal [CscElement V] {zero : V} (hconvert : ConvertsZero convert zero)
    (hinputs : ∀ d ∈ inputs, d.Canonical) (hconform : Conform 1 d.rows inputs)
    (hcolumns : d.columns = (inputs.map (extent 1)).sum)
    (helement : ∀ row column, g (d.element row column) =
      wrap ((combinedAt (concatenated 1 convert 0 inputs) row column).getD zero))
    : d.contents.map g = (denseHorizontal inputs).map fun value => wrap (convert value) := by
  rw [contents_eq_flatMap, denseHorizontal, List.map_flatMap, List.map_flatMap, hcolumns, List.flatMap_def,
    map_range_blocks (G := fun p => (List.range d.rows).map fun row => wrap (convert (p.1.element row p.2))),
    ← List.flatMap_def, blocks, List.flatMap_assoc]
  . apply List.flatMap_congr
    intro a ha
    have hacross : a.rows = d.rows := hconform a ha
    rw [contents_eq_flatMap, List.flatMap_map, List.map_flatMap, hacross]
    simp only [List.map_map]
    rfl
  . intro k p hblock
    rw [List.map_map]
    apply List.map_congr_left
    intro row _
    have hcombined := @combinedAt_concatenated R _ _ _ _ _ _ 0 _ _ _ _ _ hconvert hinputs _ _ hblock row
    rw [Nat.zero_add] at hcombined
    rw [Function.comp_apply, helement]
    exact congrArg wrap hcombined

end Contents

section Checks

variable [Zero R] [Add R] [Double R] [DecidableEq R]
variable {dimension across : Nat} {inputs : List (SparseArrayData R)} {first : SparseArrayData R}
variable {s s' : Conformity} {host host' : Host}

omit [Zero R] [Add R] [Double R] [DecidableEq R] in
theorem checkConforming_eq_ok (hdimension : dimension ≤ 1)
    (h : (checkConforming dimension first s inputs).run host = .ok (s', host'))
    : Conform dimension (first.extent (1 - dimension)) inputs ∧ s'.nnz = s.nnz + (inputs.map nnz).sum ∧
        s'.complex = (s.complex || inputs.any isComplex) ∧ s'.logical = (s.logical && inputs.all isLogical) := by
  induction inputs generalizing s host with
  | nil =>
    cases h
    exact ⟨nofun, rfl, (Bool.or_false _).symm, (Bool.and_true _).symm⟩
  | cons d inputs ih =>
    rw [checkConforming, run_bind_eq_ok_iff] at h
    obtain ⟨nnz', _, hnnz, h⟩ := h
    have hnnz : nnz' = s.nnz + d.nnz := by
      unfold checkedAddUsize at hnnz
      split at hnnz <;> cases hnnz
      rfl
    by_cases hvertical : dimension = 0 ∧ d.columns ≠ first.columns
    . rw [if_pos hvertical] at h
      cases h
    rw [if_neg hvertical] at h
    by_cases hhorizontal : dimension ≠ 0 ∧ d.rows ≠ first.rows
    . rw [if_pos hhorizontal] at h
      cases h
    rw [if_neg hhorizontal] at h
    obtain ⟨hconform, hsum, hcomplex, hlogical⟩ := ih h
    refine ⟨?_, ?_, ?_, ?_⟩
    . intro a ha
      rcases List.mem_cons.mp ha with rfl | ha
      . unfold extent
        rcases Nat.le_one_iff_eq_zero_or_eq_one.mp hdimension with rfl | rfl
        . simpa using hvertical
        . simpa using hhorizontal
      . exact hconform a ha
    . rw [hsum, List.map_cons, List.sum_cons, hnnz, Nat.add_assoc]
    . rw [hcomplex, List.any_cons, Bool.or_assoc]
    . rw [hlogical, List.all_cons, Bool.and_assoc]

omit [Zero R] [Add R] [Double R] [DecidableEq R] in
theorem checkConforming_quiet (hdimension : dimension ≤ 1)
    (hconform : Conform dimension (first.extent (1 - dimension)) inputs)
    (hnnz : s.nnz + (inputs.map nnz).sum ≤ u64Max)
    : ∃ s', (checkConforming dimension first s inputs).run Host.quiet = .ok (s', Host.quiet) := by
  induction inputs generalizing s with
  | nil => exact ⟨s, rfl⟩
  | cons d inputs ih =>
    rw [List.map_cons, List.sum_cons] at hnnz
    have hd := hconform d (List.mem_cons_self ..)
    unfold extent at hd
    have hvertical : ¬(dimension = 0 ∧ d.columns ≠ first.columns) := by
      rintro ⟨rfl, hne⟩
      exact hne hd
    have hhorizontal : ¬(dimension ≠ 0 ∧ d.rows ≠ first.rows) := by
      rintro ⟨hne, hrows⟩
      rw [show 1 - dimension = 0 by omega] at hd
      exact hrows hd
    rw [checkConforming, run_bind_of_eq_ok (checkedAddUsize_quiet (by omega)), if_neg hvertical,
      if_neg hhorizontal]
    exact ih (fun a ha => hconform a (List.mem_cons_of_mem _ ha)) (by dsimp only; omega)

theorem sumExtents_eq_ok {error : SparseError} {sum total : Nat} {extents : List Nat}
    (h : (sumExtents error sum extents).run host = .ok (total, host'))
    : total = sum + extents.sum := by
  induction extents generalizing sum with
  | nil =>
    cases h
    rfl
  | cons extent extents ih =>
    rw [sumExtents] at h
    split at h
    . rw [ih h, List.sum_cons, Nat.add_assoc]
    . cases h

theorem sumExtents_quiet {error : SparseError} {sum : Nat} {extents : List Nat}
    (h : sum + extents.sum ≤ u64Max)
    : (sumExtents error sum extents).run Host.quiet = .ok (sum + extents.sum, Host.quiet) := by
  induction extents generalizing sum with
  | nil => rfl
  | cons extent extents ih =>
    rw [List.sum_cons, ← Nat.add_assoc] at h
    rw [sumExtents, if_pos (by omega), ih h, List.sum_cons, Nat.add_assoc]

omit [Zero R] [Add R] [Double R] [DecidableEq R] in
theorem concatenatedShape_eq_ok (hdimension : dimension ≤ 1) {shape : Nat × Nat}
    (h : (concatenatedShape inputs dimension first).run host = .ok (shape, host'))
    : shape = along dimension (inputs.map (extent dimension)).sum (first.extent (1 - dimension)) := by
  unfold concatenatedShape at h
  rcases Nat.le_one_iff_eq_zero_or_eq_one.mp hdimension with rfl | rfl
  . rw [if_pos rfl, run_bind_eq_ok_iff] at h
    obtain ⟨rows, _, hrows, h⟩ := h
    cases h
    rw [sumExtents_eq_ok hrows, Nat.zero_add]
    rfl
  . rw [if_neg (by decide), run_bind_eq_ok_iff] at h
    obtain ⟨columns, _, hcolumns, h⟩ := h
    cases h
    rw [sumExtents_eq_ok hcolumns, Nat.zero_add]
    rfl

omit [Zero R] [Add R] [Double R] [DecidableEq R] in
theorem concatenatedShape_quiet (hdimension : dimension ≤ 1)
    (htotal : (inputs.map (extent dimension)).sum ≤ u64Max)
    : ∃ shape, (concatenatedShape inputs dimension first).run Host.quiet = .ok (shape, Host.quiet) := by
  unfold concatenatedShape
  rcases Nat.le_one_iff_eq_zero_or_eq_one.mp hdimension with rfl | rfl
  . have hrows : 0 + (inputs.map SparseArrayData.rows).sum ≤ u64Max := by
      rw [Nat.zero_add]
      exact htotal
    rw [if_pos rfl, run_bind_of_eq_ok (sumExtents_quiet hrows)]
    exact ⟨_, rfl⟩
  . have hcolumns : 0 + (inputs.map SparseArrayData.columns).sum ≤ u64Max := by
      rw [Nat.zero_add]
      exact htotal
    rw [if_neg (by decide), run_bind_of_eq_ok (sumExtents_quiet hcolumns)]
    exact ⟨_, rfl⟩

theorem nnz_le_numel {d : SparseArrayData R} (hd : d.Canonical)
    : d.nnz ≤ d.numel := by
  rw [← length_scalarEntries hd]
  rw [← List.length_map fun e : CooEntry (SparseScalarValue R) => e.row + e.column * d.rows]
  apply length_le_of_lt
  . rw [List.Nodup, List.pairwise_map]
    apply (scalarEntries_increasing hd).imp_of_mem
    intro a b ha hb hlt heq
    have hin := scalarEntries_in hd ha
    have hin' := scalarEntries_in hd hb
    have hsame := (offset_inj hin.1 hin.2 hin'.1 hin'.2).mp heq
    exact absurd (coordinate_eq_iff.mpr hsame) (ne_of_lt hlt)
  . intro offset hoffset
    obtain ⟨e, he, rfl⟩ := List.mem_map.mp hoffset
    have hin := scalarEntries_in hd he
    exact (offset_of_coordinates hin.1 hin.2).1

end Checks

section Join

variable [Zero R] [One R] [Add R] [Double R] [DecidableEq R]
variable {dimension across rows columns nnz : Nat} {inputs : List (SparseArrayData R)} {d : SparseArrayData R}
variable {host host' : Host}

/-- A value in the class that holds the values of all inputs. -/
def promoted (inputs : List (SparseArrayData R)) (value : SparseScalarValue R) : SparseScalarValue R :=
  if inputs.any isComplex then
    .complexF64 (complexValue value)
  else if inputs.all isLogical then
    .logical (nonzero value)
  else
    .f64 (realValue value)

def denseConcatenation (dimension across : Nat) (inputs : List (SparseArrayData R))
    : List (SparseScalarValue R) :=
  if dimension = 0 then denseVertical across inputs else denseHorizontal inputs

/-- A canonical matrix that holds the inputs behind each other along a dimension. -/
structure Joins (dimension across : Nat) (inputs : List (SparseArrayData R)) (d : SparseArrayData R) : Prop where
  shape_eq : (d.rows, d.columns) = along dimension (inputs.map (extent dimension)).sum across
  canonical : d.Canonical
  contents_eq : d.contents.map (presentAs (inputs.any isComplex)) =
    (denseConcatenation dimension across inputs).map (promoted inputs)

omit [One R] in
theorem contents_joined [CscElement V] {convert : SparseScalarValue R → V} {zero : V} {β : Type}
    {g : SparseScalarValue R → β} {wrap : V → β} (hdimension : dimension ≤ 1)
    (hconvert : ConvertsZero convert zero) (hinputs : ∀ d ∈ inputs, d.Canonical)
    (hconform : Conform dimension across inputs)
    (hshape : (d.rows, d.columns) = along dimension (inputs.map (extent dimension)).sum across)
    (helement : ∀ row column, g (d.element row column) =
      wrap ((combinedAt (concatenated dimension convert 0 inputs) row column).getD zero))
    : d.contents.map g = (denseConcatenation dimension across inputs).map fun value => wrap (convert value) := by
  unfold along at hshape
  rcases Nat.le_one_iff_eq_zero_or_eq_one.mp hdimension with rfl | rfl
  . rw [if_pos rfl, Prod.mk.injEq] at hshape
    rw [denseConcatenation, if_pos rfl, ← hshape.2]
    exact contents_vertical hconvert hinputs hshape.1 helement
  . rw [if_neg (by decide), Prod.mk.injEq] at hshape
    rw [denseConcatenation, if_neg (by decide)]
    exact contents_horizontal hconvert hinputs (hshape.1 ▸ hconform) hshape.2 helement

variable (hdimension : dimension ≤ 1) (hinputs : ∀ d ∈ inputs, d.Canonical)
variable (hconform : Conform dimension across inputs)
variable (hshape : (rows, columns) = along dimension (inputs.map (extent dimension)).sum across)

include hdimension hinputs hconform hshape

theorem concatenateLogical_eq_ok (hcomplex : inputs.any isComplex = false) (hlogical : inputs.all isLogical = true)
    (h : (concatenateLogical inputs dimension rows columns nnz).run host = .ok (d, host'))
    : Joins dimension across inputs d := by
  rw [concatenateLogical] at h
  simp only [run_bind_eq_ok_iff] at h
  obtain ⟨_, _, -, entries, _, hentries, h⟩ := h
  obtain rfl := @concatenateEntries_eq_ok R _ _ _ _ _ _ 0 _ _ _ _ _ hinputs _
    (by simpa [along] using hentries)
  rw [tryFromLogicalCoo, run_bind_eq_ok_iff] at h
  obtain ⟨m, _, hm, h⟩ := h
  cases h
  obtain ⟨hrows, hcolumns, -, hcanonical, -⟩ := tryFromCoo_eq_ok hm
  have hshape' : ((logical m : SparseArrayData R).rows, (logical m : SparseArrayData R).columns) =
      along dimension (inputs.map (extent dimension)).sum across := by
    rw [← hshape, ← hrows, ← hcolumns]
    rfl
  have hpromoted : promoted inputs = fun value => .logical (nonzero value) := by
    funext value
    rw [promoted, if_neg (by simp [hcomplex]), if_pos hlogical]
  refine ⟨hshape', hcanonical, ?_⟩
  rw [hpromoted]
  apply contents_joined hdimension convertsZero_nonzero hinputs hconform hshape'
  intro row column
  rw [hcomplex, element, getZeroBased_getD_of isExplicitZero_bool hm]
  rfl

theorem concatenateReal_eq_ok (hcomplex : inputs.any isComplex = false) (hlogical : inputs.all isLogical = false)
    (h : (concatenateReal inputs dimension rows columns nnz).run host = .ok (d, host'))
    : Joins dimension across inputs d := by
  rw [concatenateReal] at h
  simp only [run_bind_eq_ok_iff] at h
  obtain ⟨_, _, -, entries, _, hentries, h⟩ := h
  obtain rfl := @concatenateEntries_eq_ok R _ _ _ _ _ _ 0 _ _ _ _ _ hinputs _
    (by simpa [along] using hentries)
  obtain ⟨hrows, hcolumns, hcanonical, -, helement⟩ := tryFromF64Coo_spec h
  have hpromoted : promoted inputs = fun value => .f64 (realValue value) := by
    funext value
    rw [promoted, if_neg (by simp [hcomplex]), if_neg (by simp [hlogical])]
  refine ⟨by rw [hrows, hcolumns, hshape], hcanonical, ?_⟩
  rw [hpromoted]
  apply contents_joined hdimension convertsZero_realValue hinputs hconform (by rw [hrows, hcolumns, hshape])
  intro row column
  rw [hcomplex, helement]
  rfl

theorem concatenateComplex_eq_ok (hcomplex : inputs.any isComplex = true)
    (h : (concatenateComplex inputs dimension rows columns nnz).run host = .ok (d, host'))
    : Joins dimension across inputs d := by
  rw [concatenateComplex] at h
  simp only [run_bind_eq_ok_iff] at h
  obtain ⟨_, _, -, entries, _, hentries, h⟩ := h
  obtain rfl := @concatenateEntries_eq_ok R _ _ _ _ _ _ 0 _ _ _ _ _ hinputs _
    (by simpa [along] using hentries)
  obtain ⟨hrows, hcolumns, hcanonical, helement⟩ := tryFromComplexF64Coo_spec h
  have hpromoted : promoted inputs = fun value => .complexF64 (complexValue value) := by
    funext value
    rw [promoted, if_pos hcomplex]
  refine ⟨by rw [hrows, hcolumns, hshape], hcanonical, ?_⟩
  rw [hpromoted]
  apply contents_joined hdimension convertsZero_complexValue hinputs hconform (by rw [hrows, hcolumns, hshape])
  intro row column
  rw [hcomplex, presentAs, if_pos rfl, helement]

omit hdimension hinputs hconform hshape

theorem tryConcatenate2d_eq_ok (hinputs : ∀ d ∈ inputs, d.Canonical)
    (hconform : Conform dimension across inputs) (hempty : inputs = [] → across = 0)
    (h : (tryConcatenate2d inputs dimension).run host = .ok (d, host'))
    : Joins dimension across inputs d := by
  unfold tryConcatenate2d at h
  by_cases hdimension : dimension > 1
  . rw [if_pos hdimension] at h
    cases h
  rw [if_neg hdimension] at h
  have hdimension : dimension ≤ 1 := Nat.le_of_not_lt hdimension
  cases inputs with
  | nil =>
    dsimp only at h
    rw [trySpalloc, run_bind_eq_ok_iff] at h
    obtain ⟨m, _, hm, h⟩ := h
    cases h
    obtain ⟨hrows, hcolumns, hcanonical⟩ := tryEmpty_eq_ok hm
    obtain rfl := hempty rfl
    refine ⟨?_, hcanonical, ?_⟩
    . rw [show (f64 m).rows = 0 from hrows, show (f64 m).columns = 0 from hcolumns]
      unfold along
      split <;> rfl
    . rw [contents, numel, show (f64 m).rows = 0 from hrows, Nat.zero_mul, denseConcatenation]
      split <;> rfl
  | cons first rest =>
    dsimp only at h
    simp only [run_bind_eq_ok_iff] at h
    obtain ⟨s, _, hs, ⟨rows, columns⟩, _, hshape, h⟩ := h
    obtain ⟨-, -, hcomplex, hlogical⟩ := checkConforming_eq_ok hdimension hs
    have hshape := concatenatedShape_eq_ok hdimension hshape
    rw [hconform first (List.mem_cons_self ..)] at hshape
    rw [Bool.false_or] at hcomplex
    rw [Bool.true_and] at hlogical
    rw [hcomplex, hlogical] at h
    by_cases hany : (first :: rest).any isComplex = true
    . rw [if_pos hany] at h
      exact concatenateComplex_eq_ok hdimension hinputs hconform hshape hany h
    . rw [if_neg hany] at h
      rw [Bool.not_eq_true] at hany
      by_cases hall : (first :: rest).all isLogical = true
      . rw [if_pos hall] at h
        exact concatenateLogical_eq_ok hdimension hinputs hconform hshape hany hall h
      . rw [if_neg hall] at h
        rw [Bool.not_eq_true] at hall
        exact concatenateReal_eq_ok hdimension hinputs hconform hshape hany hall h

omit [One R] in
theorem sum_nnz_le (hdimension : dimension ≤ 1) (hinputs : ∀ d ∈ inputs, d.Canonical)
    (hconform : Conform dimension across inputs)
    : (inputs.map SparseArrayData.nnz).sum ≤ (inputs.map (extent dimension)).sum * across := by
  induction inputs with
  | nil => exact Nat.zero_le _
  | cons d inputs ih =>
    have hd := nnz_le_numel (hinputs d (List.mem_cons_self ..))
    have hacross := hconform d (List.mem_cons_self ..)
    have hrest := ih (fun a ha => hinputs a (List.mem_cons_of_mem _ ha))
      (fun a ha => hconform a (List.mem_cons_of_mem _ ha))
    have hnumel : d.numel = d.extent dimension * across := by
      rw [← hacross, numel]
      unfold extent
      rcases Nat.le_one_iff_eq_zero_or_eq_one.mp hdimension with rfl | rfl
      . rfl
      . exact Nat.mul_comm _ _
    rw [List.map_cons, List.map_cons, List.sum_cons, List.sum_cons, Nat.add_mul]
    omega

theorem tryConcatenate2d_quiet (hdimension : dimension ≤ 1) (hinputs : ∀ d ∈ inputs, d.Canonical)
    (hconform : Conform dimension across inputs) (htotal : (inputs.map (extent dimension)).sum ≤ u64Max)
    (hproduct : (inputs.map (extent dimension)).sum * across ≤ u64Max)
    (hcolumns : (along dimension (inputs.map (extent dimension)).sum across).2 < u64Max)
    : ∃ d, (tryConcatenate2d inputs dimension).run Host.quiet = .ok (d, Host.quiet) := by
  unfold tryConcatenate2d
  rw [if_neg (by omega)]
  cases inputs with
  | nil =>
    obtain ⟨m, hm⟩ := @tryEmpty_quiet R 0 0 0 (by decide) (by decide) (by decide)
    exact ⟨_, run_bind_of_eq_ok hm⟩
  | cons first rest =>
    have hfirst := hconform first (List.mem_cons_self ..)
    obtain ⟨s, hs⟩ := @checkConforming_quiet R dimension (first :: rest) first ⟨0, false, true⟩ hdimension
      (hfirst.symm ▸ hconform) (by
        have := sum_nnz_le hdimension hinputs hconform
        dsimp only
        omega)
    obtain ⟨-, hnnz, -, -⟩ := checkConforming_eq_ok hdimension hs
    rw [Nat.zero_add] at hnnz
    have hnnz_le : s.nnz ≤ u64Max := by
      have := sum_nnz_le hdimension hinputs hconform
      omega
    dsimp only
    rw [run_bind_of_eq_ok hs]
    obtain ⟨⟨rows, columns⟩, hrun⟩ := @concatenatedShape_quiet R dimension (first :: rest) first hdimension htotal
    have hshape := concatenatedShape_eq_ok hdimension hrun
    rw [hfirst] at hshape
    rw [run_bind_of_eq_ok hrun]
    dsimp only
    have hsize : rows * columns ≤ u64Max := by
      unfold along at hshape
      split at hshape
      . rw [Prod.mk.injEq] at hshape
        rwa [hshape.1, hshape.2]
      . rw [Prod.mk.injEq] at hshape
        rwa [hshape.1, hshape.2, Nat.mul_comm]
    have hlt : columns < u64Max := by
      rw [← hshape] at hcolumns
      exact hcolumns
    have hin {V : Type} (convert : SparseScalarValue R → V)
        : ∀ e ∈ concatenated dimension convert 0 (first :: rest), e.row < rows ∧ e.column < columns := by
      have := @concatenated_in R _ _ _ _ _ _ 0 convert _ hdimension hinputs _ hconform
      rwa [Nat.zero_add, ← hshape] at this
    have hlength {V : Type} (convert : SparseScalarValue R → V)
        : (concatenated dimension convert 0 (first :: rest)).length ≤ u64Max := by
      rw [length_concatenated hinputs, ← hnnz]
      exact hnnz_le
    have hentries {V : Type} (convert : SparseScalarValue R → V)
        : (concatenateEntries dimension convert 0 0 0 (first :: rest)).run Host.quiet =
          .ok (concatenated dimension convert 0 (first :: rest), Host.quiet) := by
      have := @concatenateEntries_quiet R V _ _ _ _ dimension 0 convert _ 0 hinputs
      simpa [along] using this
    split
    . rw [concatenateComplex, run_bind_of_eq_ok (allocate_quiet hnnz_le), run_bind_of_eq_ok (hentries _)]
      exact tryFromComplexF64Coo_quiet hsize hlt hnnz_le (hin _) (hlength _)
    . split
      . obtain ⟨m, hm⟩ := tryFromCoo_quiet hsize hlt (hin nonzero) (hlength _) hnnz_le
        rw [concatenateLogical, run_bind_of_eq_ok (allocate_quiet hnnz_le), run_bind_of_eq_ok (hentries _),
          tryFromLogicalCoo, run_bind_of_eq_ok hm]
        exact ⟨_, rfl⟩
      . rw [concatenateReal, run_bind_of_eq_ok (allocate_quiet hnnz_le), run_bind_of_eq_ok (hentries _)]
        exact tryFromF64Coo_quiet hsize hlt hnnz_le (hin _) (hlength _)

end Join

section Relayouts

variable [NegZeroClass R] [One R] [Add R] [Double R] [DecidableEq R]

/-- What is returned satisfies `P`, and where the result fits, a quiet host returns one. -/
def Yields {α : Type} (action : Fallible α) (fits : Prop) (P : α → Prop) : Prop :=
  (∀ host result host', action.run host = .ok (result, host') → P result) ∧
    (fits → ∃ result, action.run Host.quiet = .ok (result, Host.quiet))

def roundTrip (a : DenseArrayData R) : Fallible (SparseArrayData R × DenseArrayData R) := do
  let d ← tryFromDense a
  let b ← d.tryToDense
  return (d, b)

def reverseTrip (d : SparseArrayData R) : Fallible (DenseArrayData R × SparseArrayData R) := do
  let a ← d.tryToDense
  let d' ← tryFromDense a
  return (a, d')

omit [One R] in
theorem roundTrip_yields {a : DenseArrayData R} {rows columns : Nat} (ha : a.isSupported = true)
    (hdimensions : a.dimensions = [rows, columns])
    : Yields (roundTrip a) (columns < u64Max) fun p => p.1.Canonical ∧ p.2 = a.restored := by
  constructor
  . intro host ⟨d, b⟩ host' h
    rw [roundTrip] at h
    simp only [run_bind_eq_ok_iff] at h
    obtain ⟨_, _, hd, _, _, hb, h⟩ := h
    cases h
    obtain ⟨hcanonical, hmaterializes⟩ := tryFromDense_eq_ok hd
    exact ⟨hcanonical, (tryToDense_eq_ok hcanonical hb).unique hmaterializes⟩
  . intro hcolumns
    obtain ⟨d, hd⟩ := @tryFromDense_quiet R _ _ _ _ a rows columns ha hdimensions hcolumns
    obtain ⟨hcanonical, hmaterializes⟩ := tryFromDense_eq_ok hd
    have hrows : d.rows ≤ u64Max := by
      have hshape := hmaterializes.contents.1
      rw [dimensions_restored, hdimensions] at hshape
      obtain ⟨rfl, -⟩ : rows = d.rows ∧ columns = d.columns := by
        simpa [SparseArrayData.dimensions] using hshape
      exact rows_le_of_dimensions ha hdimensions
    obtain ⟨b, hb⟩ := tryToDense_quiet hcanonical hrows
    rw [roundTrip, run_bind_of_eq_ok hd, run_bind_of_eq_ok hb]
    exact ⟨_, rfl⟩

theorem reverseTrip_yields {d : SparseArrayData R} (hd : d.Canonical)
    : Yields (reverseTrip d) (d.rows ≤ u64Max) fun p =>
        p.1.dimensions = d.dimensions ∧ p.1.contents = d.contents ∧
        p.2.dimensions = d.dimensions ∧ p.2.contents.map d.present = d.contents ∧ p.2.Canonical ∧
        (d.isRealAsComplex = false → p.2 = d.withoutReserve) := by
  constructor
  . intro host ⟨a, d'⟩ host' h
    rw [reverseTrip] at h
    simp only [run_bind_eq_ok_iff] at h
    obtain ⟨_, _, ha, _, _, hd', h⟩ := h
    cases h
    have hmaterializes := tryToDense_eq_ok hd ha
    obtain ⟨hcanonical, hrestored⟩ := tryFromDense_eq_ok hd'
    obtain ⟨hdimensions, hcontents⟩ := hmaterializes.contents
    refine ⟨hdimensions, hcontents, ?_, ?_, hcanonical, fun hreal => tryFromDense_restores hd hmaterializes hreal hd'⟩
    . rw [← hrestored.contents.1, dimensions_restored, hdimensions]
    . rw [← hrestored.contents.2]
      exact contents_restored hmaterializes
  . intro hrows
    obtain ⟨a, ha⟩ := tryToDense_quiet hd hrows
    have hmaterializes := tryToDense_eq_ok hd ha
    have hsupported : a.isSupported = true := by
      cases hmaterializes <;> rfl
    obtain ⟨d', hd'⟩ := @tryFromDense_quiet R _ _ _ _ a d.rows d.columns hsupported hmaterializes.contents.1
      hd.columns_lt
    rw [reverseTrip, run_bind_of_eq_ok ha, run_bind_of_eq_ok hd']
    exact ⟨_, rfl⟩

/--
Gathering, reshaping, transposing and concatenating give canonical matrices with the dense contents that the
operation gives on the dense contents, and the conversions are inverse, except that complex storage without complex
elements becomes real and that the reserve is lost.
-/
theorem relayouts_correct
    : (∀ d : SparseArrayData R, d.Canonical →
        (∀ (offsets : List Nat) (shape : Arrays.Shape), shape.ndims = 2 → shape.numel = offsets.length →
          (∀ offset ∈ offsets, offset < d.numel) →
          Yields (d.tryGatherOffsets offsets shape) (shape.extent 1 < u64Max) fun d' =>
            d'.rows = shape.extent 0 ∧ d'.columns = shape.extent 1 ∧ d'.Canonical ∧
            d'.contents.map d.present = offsets.map d.elementAt) ∧
        (∀ rows columns, rows * columns = d.numel →
          Yields (d.tryReshape2d rows columns) (columns < u64Max) fun d' =>
            d'.rows = rows ∧ d'.columns = columns ∧ d'.Canonical ∧ d'.contents.map d.present = d.contents) ∧
        (∀ conjugate, Yields (d.tryTranspose conjugate) (d.rows < u64Max) fun d' =>
          d'.rows = d.columns ∧ d'.columns = d.rows ∧ d'.Canonical ∧
          d'.contents = (List.range d.rows).flatMap fun row =>
            (List.range d.columns).map fun column => conjugated conjugate (d.element row column)) ∧
        Yields (reverseTrip d) (d.rows ≤ u64Max) fun p =>
          p.1.dimensions = d.dimensions ∧ p.1.contents = d.contents ∧
          p.2.dimensions = d.dimensions ∧ p.2.contents.map d.present = d.contents ∧ p.2.Canonical ∧
          (d.isRealAsComplex = false → p.2 = d.withoutReserve)) ∧
      (∀ inputs : List (SparseArrayData R), (∀ d ∈ inputs, d.Canonical) →
        (∀ columns, (∀ d ∈ inputs, d.columns = columns) → (inputs = [] → columns = 0) →
          Yields (tryConcatenate2d inputs 0) ((inputs.map rows).sum ≤ u64Max ∧
              (inputs.map rows).sum * columns ≤ u64Max ∧ columns < u64Max) fun d' =>
            d'.rows = (inputs.map rows).sum ∧ d'.columns = columns ∧ d'.Canonical ∧
            d'.contents.map (presentAs (inputs.any isComplex)) =
              (denseVertical columns inputs).map (promoted inputs)) ∧
        (∀ rows, (∀ d ∈ inputs, d.rows = rows) → (inputs = [] → rows = 0) →
          Yields (tryConcatenate2d inputs 1) (rows * (inputs.map SparseArrayData.columns).sum ≤ u64Max ∧
              (inputs.map SparseArrayData.columns).sum < u64Max) fun d' =>
            d'.rows = rows ∧ d'.columns = (inputs.map SparseArrayData.columns).sum ∧ d'.Canonical ∧
            d'.contents.map (presentAs (inputs.any isComplex)) =
              (denseHorizontal inputs).map (promoted inputs))) ∧
      ∀ (a : DenseArrayData R) (rows columns : Nat), a.isSupported = true → a.dimensions = [rows, columns] →
        Yields (roundTrip a) (columns < u64Max) fun p => p.1.Canonical ∧ p.2 = a.restored := by
  refine ⟨fun d hd => ⟨fun offsets shape hndims hnumel hin => ⟨fun host d' host' h => ?_,
    fun hcolumns => tryGatherOffsets_quiet hd hndims hnumel hcolumns hin⟩,
    fun rows columns hnumel => ⟨fun host d' host' h => ?_, tryReshape2d_quiet hd hnumel⟩,
    fun conjugate => ⟨fun host d' host' h => ?_, tryTranspose_quiet conjugate hd⟩, reverseTrip_yields hd⟩,
    fun inputs hinputs => ⟨fun columns hconform hempty => ⟨fun host d' host' h => ?_, ?_⟩,
    fun rows hconform hempty => ⟨fun host d' host' h => ?_, ?_⟩⟩, fun a rows columns => roundTrip_yields⟩
  . obtain ⟨hrows, hcolumns, hcanonical, hcontents⟩ := tryGatherOffsets_eq_ok hd hndims h
    exact ⟨hrows, hcolumns, hcanonical, hcontents⟩
  . obtain ⟨-, hrearranges⟩ := tryReshape2d_eq_ok hd h
    refine ⟨hrearranges.rows_eq, hrearranges.columns_eq, hrearranges.canonical, ?_⟩
    rw [hrearranges.contents, hnumel]
    rfl
  . have htransposes := tryTranspose_eq_ok hd h
    exact ⟨htransposes.rows_eq, htransposes.columns_eq, htransposes.canonical, htransposes.contents⟩
  . have hconform : Conform 0 columns inputs := hconform
    have hjoins := tryConcatenate2d_eq_ok hinputs hconform hempty h
    obtain ⟨hrows, hcolumns⟩ := Prod.mk.inj hjoins.shape_eq
    exact ⟨hrows, hcolumns, hjoins.canonical, hjoins.contents_eq⟩
  . rintro ⟨htotal, hproduct, hcolumns⟩
    exact tryConcatenate2d_quiet (Nat.zero_le _) hinputs hconform htotal hproduct hcolumns
  . have hconform : Conform 1 rows inputs := hconform
    have hjoins := tryConcatenate2d_eq_ok hinputs hconform hempty h
    obtain ⟨hrows, hcolumns⟩ := Prod.mk.inj hjoins.shape_eq
    exact ⟨hrows, hcolumns, hjoins.canonical, hjoins.contents_eq⟩
  . rintro ⟨hproduct, hcolumns⟩
    rw [Nat.mul_comm] at hproduct
    exact tryConcatenate2d_quiet (Nat.le_refl _) hinputs hconform (Nat.le_of_lt hcolumns) hproduct hcolumns

def threeColumns : Arrays.Shape := .matrix 1 3

/-- A corner is gathered twice, and a matrix is put beside itself. -/
theorem relayouts_correct_triangle
    : (∃ d, (triangle.tryGatherOffsets [3, 0, 3] threeColumns).run Host.quiet = .ok (d, Host.quiet) ∧
        d.contents.map triangle.present = [.f64 3, .f64 1, .f64 3]) ∧
      ∃ d, (tryConcatenate2d [triangle, triangle] 1).run Host.quiet = .ok (d, Host.quiet) ∧
        d.columns = 4 ∧ d.Canonical := by
  obtain ⟨hmatrices, hlists, -⟩ := @relayouts_correct Int _ _ _ _ _
  obtain ⟨hgather, hquiet⟩ := (hmatrices triangle triangle_canonical).1 [3, 0, 3] threeColumns (by decide)
    (by decide) (by decide)
  obtain ⟨d, hd⟩ := hquiet (by decide)
  obtain ⟨hholds, hquiet'⟩ := (hlists [triangle, triangle] (by
    intro d hd
    simp only [List.mem_cons, List.not_mem_nil, or_false, or_self] at hd
    rw [hd]
    exact triangle_canonical)).2 2 (by
    intro d hd
    simp only [List.mem_cons, List.not_mem_nil, or_false, or_self] at hd
    rw [hd]
    rfl) nofun
  obtain ⟨d', hd'⟩ := hquiet' (by decide)
  obtain ⟨-, hcolumns, hcanonical, -⟩ := hholds _ d' _ hd'
  exact ⟨⟨d, hd, ((hgather _ d _ hd).2.2.2).trans (by decide)⟩, d', hd', hcolumns, hcanonical⟩

def onePlusZero : DenseArrayData Int := .complexF64 ⟨Arrays.Shape.scalar, [⟨1, 0⟩], rfl⟩

def reservedOne : SparseArrayData Int := .f64 ⟨1, 1, [0, 1], [0], [1], 5⟩

def twoPages : Arrays.Shape where
  dimensions := [1, 1, 2]
  canonical := rfl
  products_lt := Arrays.products_lt_iff.mpr (by decide)

/--
A complex array without imaginary parts comes back real, a reserve is lost, elements are not gathered into pages and
there are shapes with too many columns.
-/
theorem relayouts_counterexample
    : (∃ d b, (roundTrip onePlusZero).run Host.quiet = .ok ((d, b), Host.quiet) ∧ b ≠ onePlusZero) ∧
      (∃ a d, (reverseTrip reservedOne).run Host.quiet = .ok ((a, d), Host.quiet) ∧ d ≠ reservedOne) ∧
      (reservedOne.tryGatherOffsets [0, 0] twoPages).run Host.quiet =
        .error (.coordinateOutOfBounds 0 1 1 1) ∧
      ((.f64 ⟨0, 0, [0], [], [], 0⟩ : SparseArrayData Int).tryReshape2d 0 u64Max).run Host.quiet =
        .error (.hostLengthOverflow u64Max) := by
  refine ⟨⟨_, _, rfl, nofun⟩, ⟨_, _, rfl, by decide⟩, rfl, rfl⟩

end Relayouts

end SparseArrayData

end Sparse
end OpenMat
