import OpenMat.Sequence.LastWrite
import OpenMat.Sparse.Arithmetic
import OpenMat.Sparse.Layout

/-!
This module contains indexed assignment: the writes are sorted by offset, only the last one to an
offset is kept, and the entries that are not written are copied.
-/

namespace OpenMat
namespace Sparse

variable {R V : Type}

structure Update (R : Type) where
  offset : Nat
  position : Nat
  value : SparseScalarValue R

namespace Update

def key (u : Update R) : Nat ×ₗ Nat := toLex (u.offset, u.position)

/-- The positions differ, so that the order of the updates is determined. -/
def sort (updates : List (Update R)) : List (Update R) :=
  updates.insertionSort (fun a b => a.key ≤ b.key)

def normalize (updates : List (Update R)) : List (Update R) :=
  Sequence.keepLast Update.offset [] updates

end Update

namespace SparseArrayData

def isLogical : SparseArrayData R → Bool
  | .logical _ => true
  | _ => false

variable [Zero R]

def gatherUpdates (target supplied : SparseArrayData R) (offsets : List Nat)
    : Fallible (List (Update R)) :=
  collect (fun (offset, position) => do
    if offset ≥ target.numel then
      throw (.linearIndexOutOfBounds (saturatingAdd offset 1) target.numel)
    let source := if supplied.numel = 1 then 0 else position
    let value ← supplied.elementAtOffset source
    return [⟨offset, position, value⟩]) 0 offsets.zipIdx

omit [Zero R] in
/-- Validated storage has an entry at every position. -/
def copyUnmodified (target : SparseArrayData R) (updates : List (Update R))
    (convert : SparseScalarValue R → V) : Fallible (List (CooEntry V)) :=
  collect (fun position => return (target.storedEntry position).elim [] fun stored =>
    let offset := stored.row + stored.column * target.rows
    if (Sequence.binarySearch (updates.map Update.offset) offset).isNone then
      [⟨stored.row, stored.column, convert stored.value⟩]
    else
      []) 0 (List.range target.nnz)

def targetCoordinates (target : SparseArrayData R) (offset : Nat) : Nat × Nat :=
  (offset % target.rows, offset / target.rows)

/-- The entries that stay, and behind them the nonzero ones that are written. -/
def assignedEntries [CscElement V] (storage : String) (convert : SparseScalarValue R → V)
    (target : SparseArrayData R) (updates : List (Update R)) : Fallible (List (CooEntry V)) := do
  let capacity ← checkedAddUsize target.nnz updates.length
  allocate storage capacity
  let copied ← target.copyUnmodified updates convert
  return copied ++ updates.flatMap (fun update =>
    let value := convert update.value
    if CscElement.isExplicitZero value then
      []
    else
      let (row, column) := target.targetCoordinates update.offset
      [⟨row, column, value⟩])

variable [One R] [Add R] [Double R] [DecidableEq R]

def assignLogical (target : SparseArrayData R) (updates : List (Update R))
    : Fallible (SparseArrayData R) := do
  let entries ← assignedEntries "logical assignment COO" nonzero target updates
  tryFromLogicalCoo target.rows target.columns entries target.nzmax

def assignReal (target : SparseArrayData R) (updates : List (Update R))
    : Fallible (SparseArrayData R) := do
  let entries ← assignedEntries "real assignment COO" realValue target updates
  tryFromF64Coo target.rows target.columns entries target.nzmax

def assignComplex (target : SparseArrayData R) (updates : List (Update R))
    : Fallible (SparseArrayData R) := do
  let entries ← assignedEntries "complex assignment COO" complexValue target updates
  tryFromComplexF64Coo target.rows target.columns entries target.nzmax

def tryAssignOffsets (target : SparseArrayData R) (offsets : List Nat) (supplied : SparseArrayData R)
    : Fallible (SparseArrayData R) := do
  let selected ← checkedU64 offsets.length
  if supplied.numel ≠ 1 ∧ supplied.numel ≠ selected then
    throw (.assignmentSizeMismatch selected supplied.numel)
  if offsets.isEmpty then
    return target
  allocate "assignment updates" offsets.length
  let updates ← target.gatherUpdates supplied offsets
  let updates := Update.sort updates
  allocate "normalized assignment updates" updates.length
  let normalized := Update.normalize updates
  if target.isLogical then
    target.assignLogical normalized
  else if target.isComplex || supplied.isComplex then
    target.assignComplex normalized
  else
    target.assignReal normalized

end SparseArrayData

section Updates

variable {updates : List (Update R)}

instance : Std.Total (fun a b : Update R => a.key ≤ b.key) :=
  ⟨fun _ _ => le_total _ _⟩

instance : IsTrans (Update R) (fun a b => a.key ≤ b.key) :=
  ⟨fun _ _ _ => le_trans⟩

theorem Update.sort_pairwise (updates : List (Update R))
    : (Update.sort updates).Pairwise (fun a b => a.key ≤ b.key) :=
  List.pairwise_insertionSort _ _

/-- The updates of an offset stay in the order of their positions. -/
theorem Update.filter_sort (h : updates.Pairwise (fun a b => a.position < b.position)) (k : Nat)
    : (Update.sort updates).filter (fun u => decide (u.offset = k)) =
        updates.filter (fun u => decide (u.offset = k)) := by
  have hperm : (Update.sort updates).Perm updates := List.perm_insertionSort _ _
  have hposition : ∀ a ∈ updates, ∀ b ∈ updates, a.position = b.position → a = b := by
    have hpairwise : updates.Pairwise (fun a b => a.position = b.position → a = b) :=
      h.imp (fun hlt heq => absurd heq (Nat.ne_of_lt hlt))
    have hflip : updates.Pairwise (flip (fun a b => a.position = b.position → a = b)) :=
      h.imp (fun hlt heq => absurd heq.symm (Nat.ne_of_lt hlt))
    intro a ha b hb
    exact hpairwise.forall_of_forall_of_flip (fun _ _ _ => rfl) hflip ha hb
  apply @List.Perm.eq_of_pairwise _ (fun a b : Update R => a.position ≤ b.position)
  . intro a b ha hb hab hba
    exact hposition a (hperm.mem_iff.mp (List.mem_of_mem_filter ha)) b (List.mem_of_mem_filter hb)
      (Nat.le_antisymm hab hba)
  . rw [List.pairwise_filter]
    apply (Update.sort_pairwise updates).imp
    intro a b hle ha hb
    rw [Update.key, Update.key, Prod.Lex.toLex_le_toLex] at hle
    simp only [decide_eq_true_eq] at ha hb
    rw [ha, hb] at hle
    simpa using hle
  . exact (h.imp Nat.le_of_lt).filter _
  . exact hperm.filter _

theorem Update.normalize_sort_spec (h : updates.Pairwise (fun a b => a.position < b.position))
    : (Update.normalize (Update.sort updates)).Pairwise (fun a b => a.offset < b.offset) ∧
        ∀ k, (Update.normalize (Update.sort updates)).filter (fun u => decide (u.offset = k)) =
          (updates.filter (fun u => decide (u.offset = k))).getLast?.toList := by
  have hsorted : (Update.sort updates).Pairwise (fun a b => a.offset ≤ b.offset) := by
    apply (Update.sort_pairwise updates).imp
    intro a b hle
    exact (Prod.Lex.le_iff'.mp hle).1
  obtain ⟨hpairwise, hfilter⟩ :=
    Sequence.keepLast_spec (f := Update.offset) [] (Update.sort updates) List.Pairwise.nil hsorted
  refine ⟨hpairwise, ?_⟩
  intro k
  rw [Update.normalize, hfilter k, List.nil_append, Update.filter_sort h]

end Updates

section Entries

/-- The stored entries with their values as scalars. -/
def SparseArrayData.scalarEntries : SparseArrayData R → List (CooEntry (SparseScalarValue R))
  | .logical m => mapValues .logical m.entries
  | .f64 m => mapValues .f64 m.entries
  | .complexF64 m => mapValues .complexF64 m.entries

theorem mapValues_mapValues {S T : Type} (f : S → T) (g : T → V) (ts : List (CooEntry S))
    : mapValues g (mapValues f ts) = mapValues (g ∘ f) ts := by
  rw [mapValues, mapValues, mapValues, List.map_map]
  rfl

theorem flatMap_range_getElem? {α β : Type} (xs : List α) (g : α → List β)
    : (List.range xs.length).flatMap (fun i => xs[i]?.elim [] g) = xs.flatMap g := by
  induction xs with
  | nil => rfl
  | cons a xs ih =>
    rw [List.length_cons, List.range_succ_eq_map, List.flatMap_cons, List.flatMap_map,
      List.flatMap_cons, ← ih]
    rfl

variable [Zero R] [Add R] [Double R] [DecidableEq R] {d : SparseArrayData R}

namespace SparseArrayData

theorem storedEntry_eq (h : d.Canonical) (i : Nat) : d.storedEntry i = d.scalarEntries[i]? := by
  cases d with
  | logical m =>
    rw [scalarEntries, mapValues, List.getElem?_map, CscMatrix.Canonical.getElem?_entries h]
    cases hi : m.storedEntry i <;> simp [storedEntry, hi]
  | f64 m =>
    rw [scalarEntries, mapValues, List.getElem?_map, CscMatrix.Canonical.getElem?_entries h]
    cases hi : m.storedEntry i <;> simp [storedEntry, hi]
  | complexF64 m =>
    rw [scalarEntries, mapValues, List.getElem?_map, CscMatrix.Canonical.getElem?_entries h]
    cases hi : m.storedEntry i <;> simp [storedEntry, hi]

theorem length_scalarEntries (h : d.Canonical) : d.scalarEntries.length = d.nnz := by
  cases d with
  | logical m =>
    rw [scalarEntries, mapValues, List.length_map, CscMatrix.Canonical.length_entries h, nnz]
  | f64 m =>
    rw [scalarEntries, mapValues, List.length_map, CscMatrix.Canonical.length_entries h, nnz]
  | complexF64 m =>
    rw [scalarEntries, mapValues, List.length_map, CscMatrix.Canonical.length_entries h, nnz]

theorem scalarEntries_increasing (h : d.Canonical)
    : d.scalarEntries.Pairwise (fun a b => a.coordinate < b.coordinate) := by
  cases d with
  | logical m => exact mapValues_increasing h
  | f64 m => exact mapValues_increasing h
  | complexF64 m => exact mapValues_increasing h

theorem scalarEntries_in (h : d.Canonical) {e : CooEntry (SparseScalarValue R)}
    (he : e ∈ d.scalarEntries) : e.row < d.rows ∧ e.column < d.columns := by
  cases d with
  | logical m => exact mapValues_in h he
  | f64 m => exact mapValues_in h he
  | complexF64 m => exact mapValues_in h he

/-- A conversion that takes the zero of every class to `zero`. -/
structure ConvertsZero (convert : SparseScalarValue R → V) (zero : V) : Prop where
  logical : convert (.logical false) = zero
  f64 : convert (.f64 0) = zero
  complexF64 : convert (.complexF64 0) = zero

theorem combinedAt_scalarEntries [CscElement V] {convert : SparseScalarValue R → V} {zero : V}
    (hconvert : ConvertsZero convert zero) (h : d.Canonical) (row column : Nat)
    : (combinedAt (mapValues convert d.scalarEntries) row column).getD zero =
        convert (d.element row column) := by
  cases d with
  | logical m =>
    rw [scalarEntries, mapValues_mapValues, combinedAt_mapValues h, element]
    cases m.getZeroBased row column with
    | none => exact hconvert.logical.symm
    | some v => rfl
  | f64 m =>
    rw [scalarEntries, mapValues_mapValues, combinedAt_mapValues h, element]
    cases m.getZeroBased row column with
    | none => exact hconvert.f64.symm
    | some v => rfl
  | complexF64 m =>
    rw [scalarEntries, mapValues_mapValues, combinedAt_mapValues h, element]
    cases m.getZeroBased row column with
    | none => exact hconvert.complexF64.symm
    | some v => rfl

/-- Whether an entry is at an offset that is not written. -/
def unmodified (d : SparseArrayData R) (updates : List (Update R))
    (e : CooEntry (SparseScalarValue R)) : Bool :=
  (Sequence.binarySearch (updates.map Update.offset) (e.row + e.column * d.rows)).isNone

theorem copyUnmodified_spec (h : d.Canonical) (updates : List (Update R))
    (convert : SparseScalarValue R → V)
    : (∀ copied host host', (d.copyUnmodified updates convert).run host = .ok (copied, host') →
        copied = mapValues convert (d.scalarEntries.filter (d.unmodified updates))) ∧
      (d.copyUnmodified updates convert).run Host.quiet =
        .ok (mapValues convert (d.scalarEntries.filter (d.unmodified updates)), Host.quiet) := by
  have hgathered : (List.range d.nnz).flatMap (fun position =>
      (d.storedEntry position).elim [] fun stored =>
        if (Sequence.binarySearch (updates.map Update.offset)
            (stored.row + stored.column * d.rows)).isNone then
          [(⟨stored.row, stored.column, convert stored.value⟩ : CooEntry V)]
        else
          []) = mapValues convert (d.scalarEntries.filter (d.unmodified updates)) := by
    simp only [storedEntry_eq h]
    rw [← length_scalarEntries h, flatMap_range_getElem?, mapValues]
    generalize d.scalarEntries = ts
    induction ts with
    | nil => rfl
    | cons e ts ih =>
      rw [List.flatMap_cons, ih, List.filter_cons, unmodified]
      split <;> simp
  constructor
  . intro copied host host' hrun
    rw [← hgathered]
    apply collect_eq_ok _ hrun
    intro position _ h₁ h₂ ys hys
    cases hys
    rfl
  . rw [← hgathered]
    exact collect_quiet 0 (fun _ _ => rfl)

variable [CscElement V] {convert : SparseScalarValue R → V} {zero : V} {updates : List (Update R)}

/-- The nonzero values that are written. -/
def writtenEntries (d : SparseArrayData R) (convert : SparseScalarValue R → V)
    (updates : List (Update R)) : List (CooEntry V) :=
  updates.flatMap (fun update =>
    if CscElement.isExplicitZero (convert update.value) then
      []
    else
      [⟨update.offset % d.rows, update.offset / d.rows, convert update.value⟩])

omit [Zero R] [Add R] [Double R] [DecidableEq R] in
theorem writtenEntries_eq_laidOut
    : d.writtenEntries convert updates = laidOut d.rows (updates.map fun u => (convert u.value, u.offset)) := by
  rw [writtenEntries, laidOut, List.flatMap_map]

omit [Zero R] [Add R] [Double R] [DecidableEq R] in
theorem mem_writtenEntries {t : CooEntry V}
    : t ∈ d.writtenEntries convert updates ↔ ∃ u ∈ updates,
        CscElement.isExplicitZero (convert u.value) = false ∧
        t = ⟨u.offset % d.rows, u.offset / d.rows, convert u.value⟩ := by
  rw [writtenEntries_eq_laidOut, mem_laidOut]
  simp only [List.mem_map, exists_exists_and_eq_and]

omit [Zero R] [Add R] [Double R] [DecidableEq R] in
theorem unmodified_iff (hupdates : updates.Pairwise (fun a b => a.offset < b.offset))
    {e : CooEntry (SparseScalarValue R)}
    : d.unmodified updates e = true ↔ ∀ u ∈ updates, u.offset ≠ e.row + e.column * d.rows := by
  have hoffsets : (updates.map Update.offset).Pairwise (· < ·) := List.pairwise_map.mpr hupdates
  rw [unmodified, Option.isNone_iff_eq_none, Sequence.binarySearch_eq_none_iff hoffsets, List.mem_map]
  simp only [not_exists, not_and]

variable (convert) in
omit [Zero R] [Add R] [Double R] [DecidableEq R] in
theorem writtenEntries_getD (hzero : ∀ v : V, CscElement.isExplicitZero v = true ↔ v = zero)
    (hupdates : updates.Pairwise (fun a b => a.offset < b.offset)) {u : Update R} (hu : u ∈ updates)
    : (combinedAt (d.writtenEntries convert updates) (u.offset % d.rows) (u.offset / d.rows)).getD
        zero = convert u.value := by
  rw [writtenEntries_eq_laidOut]
  exact laidOut_getD hzero (List.pairwise_map.mpr hupdates) (List.mem_map.mpr ⟨u, hu, rfl⟩)

/-- An update decides where there is one, and elsewhere the element stays. -/
theorem combinedAt_assigned (h : d.Canonical) (hconvert : ConvertsZero convert zero)
    (hzero : ∀ v : V, CscElement.isExplicitZero v = true ↔ v = zero)
    (hupdates : updates.Pairwise (fun a b => a.offset < b.offset)) {row column : Nat}
    (hrow : row < d.rows) (hcolumn : column < d.columns)
    : (combinedAt (mapValues convert (d.scalarEntries.filter (d.unmodified updates)) ++
        d.writtenEntries convert updates) row column).getD zero =
          (((updates.filter (fun u => decide (u.offset = row + column * d.rows))).getLast?).map
            (fun u => convert u.value)).getD (convert (d.element row column)) := by
  obtain ⟨-, hmod, hdiv⟩ := offset_of_coordinates hrow hcolumn
  cases hlast : (updates.filter (fun u => decide (u.offset = row + column * d.rows))).getLast? with
  | some u =>
    have hmem := List.mem_filter.mp (List.mem_of_getLast? hlast)
    have hoffset : u.offset = row + column * d.rows := by simpa using hmem.2
    have hcopied : ∀ e ∈ mapValues convert (d.scalarEntries.filter (d.unmodified updates)),
        ¬(e.row = row ∧ e.column = column) := by
      rintro e he ⟨hrow', hcolumn'⟩
      obtain ⟨a, ha, rfl⟩ := List.mem_map.mp he
      have hnot := (unmodified_iff hupdates).mp (List.mem_filter.mp ha).2 u hmem.1
      dsimp only at hrow' hcolumn'
      rw [hrow', hcolumn'] at hnot
      exact hnot hoffset
    have hwritten := writtenEntries_getD (d := d) convert hzero hupdates hmem.1
    rw [hoffset, hmod, hdiv] at hwritten
    rw [combinedAt_append_of_left hcopied, hwritten]
    rfl
  | none =>
    rw [List.getLast?_eq_none_iff, List.filter_eq_nil_iff] at hlast
    simp only [decide_eq_true_eq] at hlast
    have hwritten : ∀ e ∈ d.writtenEntries convert updates, ¬(e.row = row ∧ e.column = column) := by
      rintro e he ⟨hrow', hcolumn'⟩
      obtain ⟨u, hu, -, rfl⟩ := mem_writtenEntries.mp he
      apply hlast u hu
      dsimp only at hrow' hcolumn'
      rw [← Nat.div_add_mod u.offset d.rows, hrow', hcolumn', Nat.mul_comm, Nat.add_comm]
    have hsub : (mapValues convert (d.scalarEntries.filter (d.unmodified updates))).Pairwise
        (fun a b => a.coordinate < b.coordinate) := by
      rw [mapValues, List.pairwise_map]
      exact (scalarEntries_increasing h).sublist List.filter_sublist
    have hall : (mapValues convert d.scalarEntries).Pairwise
        (fun a b => a.coordinate < b.coordinate) := by
      rw [mapValues, List.pairwise_map]
      exact scalarEntries_increasing h
    have hsame : combinedAt (mapValues convert (d.scalarEntries.filter (d.unmodified updates))) row
        column = combinedAt (mapValues convert d.scalarEntries) row column := by
      apply Option.ext
      intro v
      rw [combinedAt_eq_some_iff hsub, combinedAt_eq_some_iff hall, mapValues, mapValues, List.mem_map,
        List.mem_map]
      constructor
      . rintro ⟨e, he, heq⟩
        exact ⟨e, List.mem_of_mem_filter he, heq⟩
      . rintro ⟨e, he, heq⟩
        refine ⟨e, List.mem_filter.mpr ⟨he, ?_⟩, heq⟩
        rw [CooEntry.mk.injEq] at heq
        rw [unmodified_iff hupdates, heq.1, heq.2.1]
        exact hlast
    rw [combinedAt_append_of_right hwritten, hsame, combinedAt_scalarEntries hconvert h]
    rfl

end SparseArrayData

end Entries

namespace SparseArrayData

section Gather

variable [Zero R] [Add R] [Double R] [DecidableEq R] {target supplied : SparseArrayData R}
variable {offsets : List Nat}

/-- A single supplied value is written everywhere. -/
def suppliedValue (supplied : SparseArrayData R) (position : Nat) : SparseScalarValue R :=
  let source := if supplied.numel = 1 then 0 else position
  supplied.element (source % supplied.rows) (source / supplied.rows)

def updatesOf (supplied : SparseArrayData R) (offsets : List Nat) : List (Update R) :=
  offsets.zipIdx.map (fun p => ⟨p.1, p.2, supplied.suppliedValue p.2⟩)

omit [Add R] [Double R] [DecidableEq R] in
theorem updatesOf_positions
    : (updatesOf supplied offsets).Pairwise (fun a b => a.position < b.position) := by
  rw [updatesOf, List.pairwise_map]
  exact pairwise_zipIdx offsets

omit [Add R] [Double R] [DecidableEq R] in
/-- What one write gathers. -/
theorem gatherUpdate_run (hsize : supplied.numel = 1 ∨ supplied.numel = offsets.length) {p : Nat × Nat}
    (hp : p ∈ offsets.zipIdx) (host : Host)
    : (do
        if p.1 ≥ target.numel then
          throw (.linearIndexOutOfBounds (saturatingAdd p.1 1) target.numel)
        let source := if supplied.numel = 1 then 0 else p.2
        let value ← supplied.elementAtOffset source
        return [(⟨p.1, p.2, value⟩ : Update R)] : Fallible (List (Update R))).run host =
      if p.1 ≥ target.numel then
        .error (.linearIndexOutOfBounds (saturatingAdd p.1 1) target.numel)
      else
        .ok ([⟨p.1, p.2, supplied.suppliedValue p.2⟩], host) := by
  have hposition : p.2 < offsets.length := by
    have := List.mem_zipIdx_iff_getElem?.mp hp
    exact (List.getElem?_eq_some_iff.mp this).1
  have hsource : (if supplied.numel = 1 then 0 else p.2) < supplied.numel := by
    split <;> omega
  by_cases hout : p.1 ≥ target.numel
  . rw [if_pos hout, if_pos hout]
    rfl
  . rw [if_neg hout, if_neg hout]
    exact run_bind_of_eq_ok (elementAtOffset_run hsource host)

omit [Add R] [Double R] [DecidableEq R] in
theorem gatherUpdates_eq_ok (hsize : supplied.numel = 1 ∨ supplied.numel = offsets.length)
    {updates : List (Update R)} {host host' : Host}
    (h : (target.gatherUpdates supplied offsets).run host = .ok (updates, host'))
    : (∀ offset ∈ offsets, offset < target.numel) ∧ updates = updatesOf supplied offsets := by
  constructor
  . intro offset hoffset
    obtain ⟨i, hi, rfl⟩ := List.mem_iff_getElem.mp hoffset
    have hp : (offsets[i], i) ∈ offsets.zipIdx :=
      List.mem_zipIdx_iff_getElem?.mpr (List.getElem?_eq_getElem hi)
    obtain ⟨h₁, h₂, ys, hrun⟩ := collect_forall_ok h _ hp
    rw [gatherUpdate_run hsize hp] at hrun
    split at hrun
    . cases hrun
    . next hin => exact Nat.lt_of_not_le hin
  . rw [updatesOf, List.map_eq_flatMap]
    apply collect_eq_ok _ h
    intro p hp h₁ h₂ ys hrun
    rw [gatherUpdate_run hsize hp] at hrun
    split at hrun
    . cases hrun
    . cases hrun
      rfl

omit [Add R] [Double R] [DecidableEq R] in
theorem gatherUpdates_quiet (hsize : supplied.numel = 1 ∨ supplied.numel = offsets.length)
    (hin : ∀ offset ∈ offsets, offset < target.numel)
    : (target.gatherUpdates supplied offsets).run Host.quiet =
        .ok (updatesOf supplied offsets, Host.quiet) := by
  rw [updatesOf, List.map_eq_flatMap]
  apply collect_quiet 0
  intro p hp
  have hoffset : p.1 < target.numel := by
    apply hin
    exact List.mem_of_getElem? (List.mem_zipIdx_iff_getElem?.mp hp)
  rw [gatherUpdate_run hsize hp, if_neg (by omega)]

end Gather

section Dense

variable [Zero R] {target supplied : SparseArrayData R} {offsets : List Nat}

/-- The dense elements after the values have been written one by one. -/
def assigned (convert : SparseScalarValue R → V) (target supplied : SparseArrayData R)
    (offsets : List Nat) : Nat → V :=
  Sequence.writeAll (fun offset => convert (target.element (offset % target.rows)
    (offset / target.rows))) (offsets.zipIdx.map (fun p => (p.1, convert (supplied.suppliedValue p.2))))

theorem assigned_apply (convert : SparseScalarValue R → V) (k : Nat)
    : assigned convert target supplied offsets k =
        ((((updatesOf supplied offsets).filter (fun u => decide (u.offset = k))).getLast?).map
          (fun u => convert u.value)).getD
            (convert (target.element (k % target.rows) (k / target.rows))) := by
  rw [assigned, Sequence.writeAll_apply, updatesOf, List.filter_map, List.filter_map,
    List.getLast?_map, List.getLast?_map, Option.map_map, Option.map_map]
  rfl

/-- The updates that are applied. -/
def applied (supplied : SparseArrayData R) (offsets : List Nat) : List (Update R) :=
  Update.normalize (Update.sort (updatesOf supplied offsets))

theorem applied_increasing : (applied supplied offsets).Pairwise (fun a b => a.offset < b.offset) :=
  (Update.normalize_sort_spec updatesOf_positions).1

theorem filter_applied (k : Nat)
    : ((applied supplied offsets).filter (fun u => decide (u.offset = k))).getLast? =
        ((updatesOf supplied offsets).filter (fun u => decide (u.offset = k))).getLast? := by
  rw [applied, (Update.normalize_sort_spec updatesOf_positions).2 k]
  cases ((updatesOf supplied offsets).filter (fun u => decide (u.offset = k))).getLast? <;> rfl

theorem offset_of_applied {u : Update R} (hu : u ∈ applied supplied offsets) : u.offset ∈ offsets := by
  have hmem : u ∈ (applied supplied offsets).filter (fun w => decide (w.offset = u.offset)) :=
    List.mem_filter.mpr ⟨hu, by simp⟩
  rw [applied, (Update.normalize_sort_spec updatesOf_positions).2, Option.mem_toList] at hmem
  obtain ⟨p, hp, hpu⟩ := List.mem_map.mp (List.mem_of_mem_filter (List.mem_of_getLast? hmem))
  rw [← hpu]
  exact List.mem_of_getElem? (List.mem_zipIdx_iff_getElem?.mp hp)

theorem length_applied_le : (applied supplied offsets).length ≤ offsets.length := by
  have hkeep := Sequence.length_keepLast_le (f := Update.offset) []
    (Update.sort (updatesOf supplied offsets))
  have hperm : (Update.sort (updatesOf supplied offsets)).Perm (updatesOf supplied offsets) :=
    List.perm_insertionSort _ _
  rw [hperm.length_eq, updatesOf, List.length_map, List.length_zipIdx, List.length_nil,
    Nat.zero_add] at hkeep
  exact hkeep

end Dense

section Assign

variable [Zero R] [One R] [Add R] [Double R] [DecidableEq R] {target supplied d : SparseArrayData R}
variable {offsets : List Nat} {host host' : Host}

section AssignedEntries

variable [CscElement V] {convert : SparseScalarValue R → V} {zero : V} {storage : String}

omit [One R] in
theorem assignedEntries_eq_ok (h : target.Canonical) {updates : List (Update R)}
    {entries : List (CooEntry V)}
    (hrun : (assignedEntries storage convert target updates).run host = .ok (entries, host'))
    : entries = mapValues convert (target.scalarEntries.filter (target.unmodified updates)) ++
        target.writtenEntries convert updates := by
  rw [assignedEntries] at hrun
  simp only [run_bind_eq_ok_iff] at hrun
  obtain ⟨_, _, -, _, _, -, copied, _, hcopied, hrun⟩ := hrun
  cases hrun
  rw [(copyUnmodified_spec h updates convert).1 _ _ _ hcopied]
  rfl

omit [One R] in
theorem assignedEntries_quiet (h : target.Canonical) {updates : List (Update R)}
    (hcapacity : target.nnz + updates.length ≤ u64Max)
    : (assignedEntries storage convert target updates).run Host.quiet =
        .ok (mapValues convert (target.scalarEntries.filter (target.unmodified updates)) ++
          target.writtenEntries convert updates, Host.quiet) := by
  rw [assignedEntries, run_bind_of_eq_ok (checkedAddUsize_quiet hcapacity),
    run_bind_of_eq_ok (allocate_quiet hcapacity),
    run_bind_of_eq_ok (copyUnmodified_spec h updates convert).2]
  rfl

omit [One R] in
theorem assignedEntries_in (h : target.Canonical) (hin : ∀ offset ∈ offsets, offset < target.numel)
    : ∀ e ∈ mapValues convert (target.scalarEntries.filter
        (target.unmodified (applied supplied offsets))) ++
          target.writtenEntries convert (applied supplied offsets),
        e.row < target.rows ∧ e.column < target.columns := by
  intro e he
  rcases List.mem_append.mp he with he | he
  . obtain ⟨a, ha, rfl⟩ := List.mem_map.mp he
    exact scalarEntries_in h (List.mem_of_mem_filter ha)
  . obtain ⟨u, hu, -, rfl⟩ := mem_writtenEntries.mp he
    exact coordinates_of_offset (hin _ (offset_of_applied hu))

omit [One R] in
theorem length_assignedEntries_le (h : target.Canonical) (updates : List (Update R))
    : (mapValues convert (target.scalarEntries.filter (target.unmodified updates)) ++
        target.writtenEntries convert updates).length ≤ target.nnz + updates.length := by
  rw [List.length_append, mapValues, List.length_map, ← length_scalarEntries h]
  apply Nat.add_le_add (List.length_filter_le _ _)
  exact length_flatMap_le_of_le_one _ (by intro u; split <;> simp) updates

omit [One R] in
/-- The gathered entries are those of the dense elements after the writes. -/
theorem combinedAt_assignedEntries (h : target.Canonical) (hconvert : ConvertsZero convert zero)
    (hzero : ∀ v : V, CscElement.isExplicitZero v = true ↔ v = zero) {row column : Nat}
    (hrow : row < target.rows) (hcolumn : column < target.columns)
    : (combinedAt (mapValues convert (target.scalarEntries.filter
        (target.unmodified (applied supplied offsets))) ++
          target.writtenEntries convert (applied supplied offsets)) row column).getD zero =
        assigned convert target supplied offsets (row + column * target.rows) := by
  obtain ⟨-, hmod, hdiv⟩ := offset_of_coordinates hrow hcolumn
  rw [combinedAt_assigned h hconvert hzero applied_increasing hrow hcolumn, assigned_apply,
    filter_applied, hmod, hdiv]

end AssignedEntries

omit [Add R] [Double R] [One R] in
theorem convertsZero_nonzero : ConvertsZero (nonzero : SparseScalarValue R → Bool) false where
  logical := rfl
  f64 := by simp [nonzero]
  complexF64 := by
    have hre : (0 : Complex64 R).re = 0 := rfl
    have him : (0 : Complex64 R).im = 0 := rfl
    simp [nonzero, hre, him]

omit [Add R] [Double R] [DecidableEq R] in
theorem convertsZero_realValue : ConvertsZero (realValue : SparseScalarValue R → R) 0 :=
  ⟨rfl, rfl, rfl⟩

omit [Add R] [Double R] [DecidableEq R] in
theorem convertsZero_complexValue : ConvertsZero (complexValue : SparseScalarValue R → Complex64 R) 0 :=
  ⟨rfl, rfl, rfl⟩

/-- A matrix of the shape of the target with the given dense elements. -/
structure Holds (target d : SparseArrayData R) (element : Nat → Nat → SparseScalarValue R → Prop)
    : Prop where
  rows : d.rows = target.rows
  columns : d.columns = target.columns
  canonical : d.Canonical
  element : ∀ row < target.rows, ∀ column < target.columns, element row column (d.element row column)

omit [One R] in
theorem assignLogical_eq_ok (h : target.Canonical)
    (hrun : (target.assignLogical (applied supplied offsets)).run host = .ok (d, host'))
    : Holds target d (fun row column v =>
        v = .logical (assigned nonzero target supplied offsets (row + column * target.rows))) := by
  rw [assignLogical, run_bind_eq_ok_iff] at hrun
  obtain ⟨entries, h₁, hentries, hrun⟩ := hrun
  rw [assignedEntries_eq_ok h hentries, tryFromLogicalCoo, run_bind_eq_ok_iff] at hrun
  obtain ⟨m, h₂, hm, hrun⟩ := hrun
  cases hrun
  obtain ⟨hrows, hcolumns, -, hcanonical, -⟩ := tryFromCoo_eq_ok hm
  have hzero : ∀ v : Bool, CscElement.isExplicitZero v = true ↔ v = false := by
    intro v
    cases v <;> decide
  refine ⟨hrows, hcolumns, hcanonical, ?_⟩
  intro row hrow column hcolumn
  rw [element, getZeroBased_getD_of hzero hm,
    combinedAt_assignedEntries h convertsZero_nonzero hzero hrow hcolumn]

theorem assignReal_eq_ok (h : target.Canonical)
    (hrun : (target.assignReal (applied supplied offsets)).run host = .ok (d, host'))
    : Holds target d (fun row column v =>
        v = .f64 (assigned realValue target supplied offsets (row + column * target.rows))) := by
  rw [assignReal, run_bind_eq_ok_iff] at hrun
  obtain ⟨entries, h₁, hentries, hrun⟩ := hrun
  rw [assignedEntries_eq_ok h hentries] at hrun
  obtain ⟨hrows, hcolumns, hcanonical, -, helement⟩ := tryFromF64Coo_spec hrun
  refine ⟨hrows, hcolumns, hcanonical, ?_⟩
  intro row hrow column hcolumn
  rw [helement, combinedAt_assignedEntries h convertsZero_realValue
    AdditiveElement.isExplicitZero_iff hrow hcolumn]

theorem assignComplex_eq_ok (h : target.Canonical)
    (hrun : (target.assignComplex (applied supplied offsets)).run host = .ok (d, host'))
    : Holds target d (fun row column v =>
        complexValue v = assigned complexValue target supplied offsets (row + column * target.rows)) := by
  rw [assignComplex, run_bind_eq_ok_iff] at hrun
  obtain ⟨entries, h₁, hentries, hrun⟩ := hrun
  rw [assignedEntries_eq_ok h hentries] at hrun
  obtain ⟨hrows, hcolumns, hcanonical, helement⟩ := tryFromComplexF64Coo_spec hrun
  refine ⟨hrows, hcolumns, hcanonical, ?_⟩
  intro row hrow column hcolumn
  rw [helement, combinedAt_assignedEntries h convertsZero_complexValue
    AdditiveElement.isExplicitZero_iff hrow hcolumn]

section Quiet

variable (h : target.Canonical) (hcapacity : target.nnz + (applied supplied offsets).length ≤ u64Max)
variable (hin : ∀ offset ∈ offsets, offset < target.numel)

include h hcapacity hin

theorem assign_quiet
    : (∃ d, (target.assignLogical (applied supplied offsets)).run Host.quiet = .ok (d, Host.quiet)) ∧
      (∃ d, (target.assignReal (applied supplied offsets)).run Host.quiet = .ok (d, Host.quiet)) ∧
      ∃ d, (target.assignComplex (applied supplied offsets)).run Host.quiet = .ok (d, Host.quiet) := by
  have hnumel := h.numel_le
  have hcolumns := h.columns_lt
  have hreserved : target.nzmax ≤ u64Max := by
    cases target with
    | logical m => exact Nat.max_le.mpr ⟨CscMatrix.Canonical.reserved_le h, by decide⟩
    | f64 m => exact Nat.max_le.mpr ⟨CscMatrix.Canonical.reserved_le h, by decide⟩
    | complexF64 m => exact Nat.max_le.mpr ⟨CscMatrix.Canonical.reserved_le h, by decide⟩
  refine ⟨?_, ?_, ?_⟩
  . rw [assignLogical, run_bind_of_eq_ok (assignedEntries_quiet (V := Bool) h hcapacity),
      tryFromLogicalCoo]
    obtain ⟨m, hm⟩ : ∃ m, (tryFromCoo target.rows target.columns
        (mapValues nonzero (target.scalarEntries.filter
          (target.unmodified (applied supplied offsets))) ++
            target.writtenEntries nonzero (applied supplied offsets)) target.nzmax).run Host.quiet =
              .ok (m, Host.quiet) :=
      tryFromCoo_quiet hnumel hcolumns (assignedEntries_in h hin)
        (Nat.le_trans (length_assignedEntries_le h _) hcapacity) hreserved
    rw [run_bind_of_eq_ok hm]
    exact ⟨_, rfl⟩
  . rw [assignReal, run_bind_of_eq_ok (assignedEntries_quiet h hcapacity)]
    exact tryFromF64Coo_quiet hnumel hcolumns hreserved (assignedEntries_in h hin)
      (Nat.le_trans (length_assignedEntries_le h _) hcapacity)
  . rw [assignComplex, run_bind_of_eq_ok (assignedEntries_quiet h hcapacity)]
    exact tryFromComplexF64Coo_quiet hnumel hcolumns hreserved (assignedEntries_in h hin)
      (Nat.le_trans (length_assignedEntries_le h _) hcapacity)

end Quiet

/-- What the checks of a completed assignment have accepted. -/
theorem tryAssignOffsets_checked
    (hrun : (target.tryAssignOffsets offsets supplied).run host = .ok (d, host'))
    : (supplied.numel = 1 ∨ supplied.numel = offsets.length) ∧
        ∀ offset ∈ offsets, offset < target.numel := by
  rw [tryAssignOffsets, run_bind_eq_ok_iff] at hrun
  obtain ⟨selected, h₁, hselected, hrun⟩ := hrun
  have hselected := checkedU64_eq_ok hselected
  by_cases hdisagree : supplied.numel ≠ 1 ∧ supplied.numel ≠ selected
  . rw [if_pos hdisagree, run_bind_eq_ok_iff] at hrun
    obtain ⟨_, _, hthrow, -⟩ := hrun
    cases hthrow
  . rw [if_neg hdisagree] at hrun
    have hsize : supplied.numel = 1 ∨ supplied.numel = offsets.length := by omega
    refine ⟨hsize, ?_⟩
    split at hrun
    . next hempty =>
      rw [List.isEmpty_iff] at hempty
      simp [hempty]
    . simp only [run_bind_eq_ok_iff] at hrun
      obtain ⟨_, _, -, updates, _, hupdates, -⟩ := hrun
      exact (gatherUpdates_eq_ok hsize hupdates).1

omit [One R] [Add R] [Double R] [DecidableEq R] in
theorem assigned_nil (convert : SparseScalarValue R → V) {row column : Nat} (hrow : row < target.rows)
    (hcolumn : column < target.columns)
    : assigned convert target supplied [] (row + column * target.rows) =
        convert (target.element row column) := by
  obtain ⟨-, hmod, hdiv⟩ := offset_of_coordinates hrow hcolumn
  rw [assigned_apply, hmod, hdiv]
  rfl

theorem tryAssignOffsets_eq_ok (htarget : target.Canonical)
    (hrun : (target.tryAssignOffsets offsets supplied).run host = .ok (d, host'))
    : Holds target d (fun row column v =>
        if target.isLogical then
          v = .logical (assigned nonzero target supplied offsets (row + column * target.rows))
        else if target.isComplex || supplied.isComplex then
          complexValue v = assigned complexValue target supplied offsets (row + column * target.rows)
        else
          v = .f64 (assigned realValue target supplied offsets (row + column * target.rows))) := by
  obtain ⟨hsize, -⟩ := tryAssignOffsets_checked hrun
  rw [tryAssignOffsets, run_bind_eq_ok_iff] at hrun
  obtain ⟨selected, h₁, hselected, hrun⟩ := hrun
  have hselected := checkedU64_eq_ok hselected
  rw [if_neg (by omega)] at hrun
  split at hrun
  . next hempty =>
    rw [List.isEmpty_iff] at hempty
    cases hrun
    subst hempty
    refine ⟨rfl, rfl, htarget, ?_⟩
    intro row hrow column hcolumn
    rw [assigned_nil _ hrow hcolumn, assigned_nil _ hrow hcolumn, assigned_nil _ hrow hcolumn]
    cases target with
    | logical m => rfl
    | f64 m =>
      split
      . next hcontra => cases hcontra
      . split <;> rfl
    | complexF64 m => rfl
  . simp only [run_bind_eq_ok_iff] at hrun
    obtain ⟨_, _, -, updates, _, hupdates, _, _, -, hrun⟩ := hrun
    rw [(gatherUpdates_eq_ok hsize hupdates).2] at hrun
    split at hrun
    . next hlogical =>
      simp only [hlogical]
      exact assignLogical_eq_ok htarget hrun
    . next hlogical =>
      simp only [hlogical]
      split at hrun
      . next hcomplex =>
        simp only [hcomplex]
        exact assignComplex_eq_ok htarget hrun
      . next hreal =>
        simp only [hreal]
        exact assignReal_eq_ok htarget hrun

/--
A completed assignment is canonical, has the shape of the target and holds what writing the values one
by one into the dense elements gives. It fails on an offset out of range and on sizes that disagree,
and otherwise a quiet host completes it.
-/
theorem tryAssignOffsets_correct (target supplied : SparseArrayData R) (offsets : List Nat)
    (htarget : target.Canonical) (host : Host)
    : (∀ d host', (target.tryAssignOffsets offsets supplied).run host = .ok (d, host') →
        d.rows = target.rows ∧ d.columns = target.columns ∧ d.Canonical ∧
        ∀ row < target.rows, ∀ column < target.columns,
          if target.isLogical then
            d.element row column =
              .logical (assigned nonzero target supplied offsets (row + column * target.rows))
          else if target.isComplex || supplied.isComplex then
            complexValue (d.element row column) =
              assigned complexValue target supplied offsets (row + column * target.rows)
          else
            d.element row column =
              .f64 (assigned realValue target supplied offsets (row + column * target.rows))) ∧
      ((supplied.numel ≠ 1 ∧ supplied.numel ≠ offsets.length) ∨
          (∃ offset ∈ offsets, target.numel ≤ offset) →
        ∃ error, (target.tryAssignOffsets offsets supplied).run host = .error error) ∧
      (supplied.numel = 1 ∨ supplied.numel = offsets.length →
        (∀ offset ∈ offsets, offset < target.numel) → target.nnz + offsets.length ≤ u64Max →
          ∃ d, (target.tryAssignOffsets offsets supplied).run Host.quiet = .ok (d, Host.quiet)) := by
  refine ⟨?_, ?_, ?_⟩
  . intro d host' hrun
    have hholds := tryAssignOffsets_eq_ok htarget hrun
    refine ⟨hholds.rows, hholds.columns, hholds.canonical, ?_⟩
    intro row hrow column hcolumn
    exact hholds.element row hrow column hcolumn
  . intro hbad
    cases hrun : (target.tryAssignOffsets offsets supplied).run host with
    | error error => exact ⟨error, rfl⟩
    | ok p =>
      obtain ⟨hsize, hin⟩ := tryAssignOffsets_checked hrun
      rcases hbad with hbad | ⟨offset, hoffset, hbad⟩
      . omega
      . have := hin offset hoffset
        omega
  . intro hsize hin hcapacity
    have hselected : offsets.length ≤ u64Max := by omega
    have happlied := @length_applied_le R _ supplied offsets
    have hsorted : (Update.sort (updatesOf supplied offsets)).length = offsets.length := by
      have hperm : (Update.sort (updatesOf supplied offsets)).Perm (updatesOf supplied offsets) :=
        List.perm_insertionSort _ _
      rw [hperm.length_eq, updatesOf, List.length_map, List.length_zipIdx]
    obtain ⟨hlogical, hreal, hcomplex⟩ := assign_quiet htarget
      (Nat.le_trans (Nat.add_le_add_left happlied _) hcapacity) hin
    rw [tryAssignOffsets, run_bind_of_eq_ok (checkedU64_quiet hselected), if_neg (by omega)]
    split
    . exact ⟨target, rfl⟩
    . rw [run_bind_of_eq_ok (allocate_quiet hselected),
        run_bind_of_eq_ok (gatherUpdates_quiet hsize hin),
        run_bind_of_eq_ok (allocate_quiet (by rw [hsorted]; exact hselected))]
      split
      . exact hlogical
      . split
        . exact hcomplex
        . exact hreal

end Assign

section Integers

def replacements : SparseArrayData Int := .f64 ⟨4, 1, [0, 2], [0, 2], [5, 6], 2⟩

/-- The second write to the first offset wins, and the written zeros delete entries. -/
theorem tryAssignOffsets_correct_triangle
    : ∃ d, (triangle.tryAssignOffsets [0, 3, 0, 2] replacements).run Host.quiet =
          .ok (d, Host.quiet) ∧
        d.Canonical ∧ d.element 0 0 = .f64 6 ∧ d.element 0 1 = .f64 0 ∧ d.element 1 1 = .f64 0 := by
  obtain ⟨hholds, -, hquiet⟩ := tryAssignOffsets_correct triangle replacements [0, 3, 0, 2]
    triangle_canonical Host.quiet
  obtain ⟨d, hd⟩ := hquiet (by decide) (by decide) (by decide)
  obtain ⟨-, -, hcanonical, helement⟩ := hholds d _ hd
  exact ⟨d, hd, hcanonical, helement 0 (by decide) 0 (by decide), helement 0 (by decide) 1 (by decide),
    helement 1 (by decide) 1 (by decide)⟩

end Integers

end SparseArrayData

end Sparse
end OpenMat
