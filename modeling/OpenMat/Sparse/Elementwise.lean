import OpenMat.Sparse.Arithmetic

/-!
This module contains element-wise arithmetic on two sparse matrices: the merge of the entries of
operands of the same shape, and the sweep over all elements of the result where a shape is expanded.
-/

namespace OpenMat
namespace Sparse

variable {R V : Type}

def broadcastExtent (left right : Nat) : Option Nat :=
  if left = right then
    some left
  else if left = 1 then
    some right
  else if right = 1 then
    some left
  else
    none

def coordinates (rows offset : Nat) : Nat × Nat := (offset % rows, offset / rows)

/-- The nonzero results, in column-major order, from the elements of the two operands. -/
def sweep [CscElement V] (operation : V → V → V) (left right : Nat → Fallible V) (rows columns : Nat)
    : Fallible (List (CooEntry V)) :=
  collect (fun offset => do
    let lhs ← left offset
    let rhs ← right offset
    let value := operation lhs rhs
    if CscElement.isExplicitZero value then
      return []
    else
      let (row, column) := coordinates rows offset
      return [⟨row, column, value⟩]) 0 (List.range (rows * columns))

/-- The next coordinate of either operand, with the values of both there, and what is left of them. -/
def mergeStep [Zero V] : List (CooEntry V) → List (CooEntry V) →
    Option (CooEntry (V × V) × List (CooEntry V) × List (CooEntry V))
  | [], [] => none
  | l :: left, [] => some (⟨l.row, l.column, (l.value, 0)⟩, left, [])
  | [], r :: right => some (⟨r.row, r.column, (0, r.value)⟩, [], right)
  | l :: left, r :: right =>
    if l.coordinate = r.coordinate then
      some (⟨l.row, l.column, (l.value, r.value)⟩, left, right)
    else if l.coordinate < r.coordinate then
      some (⟨l.row, l.column, (l.value, 0)⟩, left, r :: right)
    else
      some (⟨r.row, r.column, (0, r.value)⟩, l :: left, right)

/-- Each step takes an entry of an operand, so that their number is enough fuel. -/
def mergeEntries [Zero V] [CscElement V] (operation : V → V → V) (entries : List (CooEntry V))
    : Nat → List (CooEntry V) → List (CooEntry V) → Fallible (List (CooEntry V))
  | 0, _, _ => return entries
  | fuel + 1, left, right =>
    match mergeStep left right with
    | none => return entries
    | some (e, left, right) => do
      checkCancelled entries.length
      let value := operation e.value.1 e.value.2
      if CscElement.isExplicitZero value then
        mergeEntries operation entries fuel left right
      else
        mergeEntries operation (entries ++ [⟨e.row, e.column, value⟩]) fuel left right

namespace SparseArrayData

def broadcastShape (lhs rhs : SparseArrayData R) (operator : SparseBinaryOperator)
    : Fallible (Nat × Nat) :=
  match broadcastExtent lhs.rows rhs.rows, broadcastExtent lhs.columns rhs.columns with
  | some rows, some columns => do
    sparseShape rows columns
    return (rows, columns)
  | _, _ => throw (.shapeMismatch operator.name lhs.dimensions rhs.dimensions)

def broadcastOffset (source : SparseArrayData R) (rows offset : Nat) : Nat :=
  let (row, column) := coordinates rows offset
  let sourceRow := if source.rows = 1 then 0 else row
  let sourceColumn := if source.columns = 1 then 0 else column
  sourceRow + sourceColumn * source.rows

variable [Zero R] [One R]

/-- Complex storage does not come here. -/
def sparseRealBroadcast (value : SparseArrayData R) (rows offset : Nat) : Fallible R := do
  let element ← value.elementAtOffset (value.broadcastOffset rows offset)
  return realValue element

def sparseComplexBroadcast (value : SparseArrayData R) (rows offset : Nat)
    : Fallible (Complex64 R) := do
  let element ← value.elementAtOffset (value.broadcastOffset rows offset)
  return complexValue element

variable [Add R] [Sub R] [Mul R] [Div R] [Neg R] [Double R] [DecidableEq R]

def mergeSparseReal (lhs rhs : SparseArrayData R) (operator : SparseBinaryOperator)
    : Fallible (SparseArrayData R) := do
  let capacity ← checkedAddUsize lhs.nnz rhs.nnz
  allocate "merged arithmetic COO" capacity
  let entries ← mergeEntries (realOperation operator) []
    (lhs.realEntries.length + rhs.realEntries.length) lhs.realEntries rhs.realEntries
  tryFromF64Coo lhs.rows lhs.columns entries 0

def mergeSparseComplex (lhs rhs : SparseArrayData R) (operator : SparseBinaryOperator)
    : Fallible (SparseArrayData R) := do
  let capacity ← checkedAddUsize lhs.nnz rhs.nnz
  allocate "complex merged arithmetic COO" capacity
  let entries ← mergeEntries (complexOperation operator) []
    (lhs.numericEntries.length + rhs.numericEntries.length) lhs.numericEntries rhs.numericEntries
  tryFromComplexF64Coo lhs.rows lhs.columns entries 0

def sweepSparseReal (lhs rhs : SparseArrayData R) (operator : SparseBinaryOperator)
    (rows columns : Nat) : Fallible (SparseArrayData R) := do
  let capacity ← checkedUsize (rows * columns)
  allocate "arithmetic COO" capacity
  let entries ← sweep (realOperation operator) (lhs.sparseRealBroadcast rows)
    (rhs.sparseRealBroadcast rows) rows columns
  tryFromF64Coo rows columns entries 0

def sweepSparseComplex (lhs rhs : SparseArrayData R) (operator : SparseBinaryOperator)
    (rows columns : Nat) : Fallible (SparseArrayData R) := do
  let capacity ← checkedUsize (rows * columns)
  allocate "complex arithmetic COO" capacity
  let entries ← sweep (complexOperation operator) (lhs.sparseComplexBroadcast rows)
    (rhs.sparseComplexBroadcast rows) rows columns
  tryFromComplexF64Coo rows columns entries 0

def sparseRealResult (lhs rhs : SparseArrayData R) (operator : SparseBinaryOperator)
    (rows columns : Nat) : Fallible (SparseArrayData R) :=
  if (lhs.rows = rhs.rows ∧ lhs.columns = rhs.columns) ∧ operator ≠ .elementDivide then
    lhs.mergeSparseReal rhs operator
  else
    lhs.sweepSparseReal rhs operator rows columns

def sparseComplexResult (lhs rhs : SparseArrayData R) (operator : SparseBinaryOperator)
    (rows columns : Nat) : Fallible (SparseArrayData R) :=
  if (lhs.rows = rhs.rows ∧ lhs.columns = rhs.columns) ∧ operator ≠ .elementDivide then
    lhs.mergeSparseComplex rhs operator
  else
    lhs.sweepSparseComplex rhs operator rows columns

def tryBinarySparse (lhs rhs : SparseArrayData R) (operator : SparseBinaryOperator)
    : Fallible (SparseArrayData R) := do
  let (rows, columns) ← lhs.broadcastShape rhs operator
  if lhs.isComplex || rhs.isComplex then
    lhs.sparseComplexResult rhs operator rows columns
  else
    lhs.sparseRealResult rhs operator rows columns

end SparseArrayData

section Merge

variable [Zero V]

/-- The value at a coordinate, where an absent one is zero. -/
def lookup : List (CooEntry V) → Nat ×ₗ Nat → V
  | [], _ => 0
  | e :: ts, k => if e.coordinate = k then e.value else lookup ts k

def HasCoordinate (ts : List (CooEntry V)) (k : Nat ×ₗ Nat) : Prop := ∃ a ∈ ts, a.coordinate = k

theorem lookup_eq_zero {ts : List (CooEntry V)} {k : Nat ×ₗ Nat} (h : ¬HasCoordinate ts k)
    : lookup ts k = 0 := by
  induction ts with
  | nil => rfl
  | cons e ts ih =>
    have hne : e.coordinate ≠ k := fun heq => h ⟨e, by simp, heq⟩
    rw [lookup, if_neg hne]
    apply ih
    rintro ⟨a, ha, heq⟩
    exact h ⟨a, by simp [ha], heq⟩

theorem lookup_of_mem {ts : List (CooEntry V)}
    (h : ts.Pairwise (fun a b => a.coordinate < b.coordinate)) {t : CooEntry V} (ht : t ∈ ts)
    : lookup ts t.coordinate = t.value := by
  induction ts with
  | nil => cases ht
  | cons e ts ih =>
    rw [List.pairwise_cons] at h
    rcases List.mem_cons.mp ht with rfl | ht
    . rw [lookup, if_pos rfl]
    . rw [lookup, if_neg (ne_of_lt (h.1 t ht)), ih h.2 ht]

omit [Zero V] in
theorem hasCoordinate_cons {e : CooEntry V} {ts : List (CooEntry V)} {k : Nat ×ₗ Nat}
    : HasCoordinate (e :: ts) k ↔ k = e.coordinate ∨ HasCoordinate ts k := by
  unfold HasCoordinate
  simp only [List.mem_cons, exists_eq_or_imp]
  exact or_congr_left eq_comm

theorem lookup_cons_of_ne {e : CooEntry V} {ts : List (CooEntry V)} {k : Nat ×ₗ Nat}
    (h : k ≠ e.coordinate) : lookup (e :: ts) k = lookup ts k := by
  rw [lookup, if_neg (fun heq => h heq.symm)]

omit [Zero V] in
theorem not_hasCoordinate_of_lt {ts : List (CooEntry V)} {k : Nat ×ₗ Nat}
    (h : ∀ a ∈ ts, k < a.coordinate) : ¬HasCoordinate ts k := by
  rintro ⟨a, ha, heq⟩
  have := h a ha
  rw [heq] at this
  exact lt_irrefl _ this

/-- What a step of the merge takes from the operands. -/
structure MergeStep (left right : List (CooEntry V)) (e : CooEntry (V × V))
    (left' right' : List (CooEntry V)) : Prop where
  increasing_left : left'.Pairwise (fun a b => a.coordinate < b.coordinate)
  increasing_right : right'.Pairwise (fun a b => a.coordinate < b.coordinate)
  value : e.value = (lookup left e.coordinate, lookup right e.coordinate)
  later_left : ∀ a ∈ left', e.coordinate < a.coordinate
  later_right : ∀ a ∈ right', e.coordinate < a.coordinate
  lookup_left : ∀ k ≠ e.coordinate, lookup left k = lookup left' k
  lookup_right : ∀ k ≠ e.coordinate, lookup right k = lookup right' k
  coordinates : ∀ k, HasCoordinate left k ∨ HasCoordinate right k ↔
    k = e.coordinate ∨ HasCoordinate left' k ∨ HasCoordinate right' k
  length_lt : left'.length + right'.length < left.length + right.length

section Steps

variable {l r : CooEntry V} {left right : List (CooEntry V)}

theorem mergeStep_left (hl : (l :: left).Pairwise (fun a b => a.coordinate < b.coordinate))
    (hr : right.Pairwise (fun a b => a.coordinate < b.coordinate))
    (hlt : ∀ a ∈ right, l.coordinate < a.coordinate)
    : MergeStep (l :: left) right ⟨l.row, l.column, (l.value, 0)⟩ left right := by
  have hl' := List.pairwise_cons.mp hl
  refine ⟨hl'.2, hr, ?_, hl'.1, hlt, fun k hk => lookup_cons_of_ne hk, fun k _ => rfl, ?_, ?_⟩
  . change (l.value, 0) = (lookup (l :: left) l.coordinate, lookup right l.coordinate)
    rw [lookup, if_pos rfl, lookup_eq_zero (not_hasCoordinate_of_lt hlt)]
  . intro k
    rw [hasCoordinate_cons, or_assoc]
    rfl
  . rw [List.length_cons]
    omega

theorem mergeStep_right (hl : left.Pairwise (fun a b => a.coordinate < b.coordinate))
    (hr : (r :: right).Pairwise (fun a b => a.coordinate < b.coordinate))
    (hlt : ∀ a ∈ left, r.coordinate < a.coordinate)
    : MergeStep left (r :: right) ⟨r.row, r.column, (0, r.value)⟩ left right := by
  have hr' := List.pairwise_cons.mp hr
  refine ⟨hl, hr'.2, ?_, hlt, hr'.1, fun k _ => rfl, fun k hk => lookup_cons_of_ne hk, ?_, ?_⟩
  . change (0, r.value) = (lookup left r.coordinate, lookup (r :: right) r.coordinate)
    rw [lookup_eq_zero (not_hasCoordinate_of_lt hlt), lookup, if_pos rfl]
  . intro k
    rw [hasCoordinate_cons, or_left_comm]
    rfl
  . rw [List.length_cons]
    omega

theorem mergeStep_both (hl : (l :: left).Pairwise (fun a b => a.coordinate < b.coordinate))
    (hr : (r :: right).Pairwise (fun a b => a.coordinate < b.coordinate))
    (heq : l.coordinate = r.coordinate)
    : MergeStep (l :: left) (r :: right) ⟨l.row, l.column, (l.value, r.value)⟩ left right := by
  have hl' := List.pairwise_cons.mp hl
  have hr' := List.pairwise_cons.mp hr
  refine ⟨hl'.2, hr'.2, ?_, hl'.1, ?_, fun k hk => lookup_cons_of_ne hk, ?_, ?_, ?_⟩
  . change (l.value, r.value) =
      (lookup (l :: left) l.coordinate, lookup (r :: right) l.coordinate)
    rw [lookup, if_pos rfl, lookup, if_pos heq.symm]
  . intro a ha
    exact heq.trans_lt (hr'.1 a ha)
  . intro k hk
    exact lookup_cons_of_ne (fun hkr => hk (hkr.trans heq.symm))
  . intro k
    rw [hasCoordinate_cons, hasCoordinate_cons, ← heq]
    change _ ↔ k = l.coordinate ∨ _
    tauto
  . rw [List.length_cons, List.length_cons]
    omega

theorem mergeStep_eq_none : mergeStep left right = none → left = [] ∧ right = [] := by
  intro h
  cases left with
  | nil =>
    cases right with
    | nil => exact ⟨rfl, rfl⟩
    | cons r right => simp [mergeStep] at h
  | cons l left =>
    cases right with
    | nil => simp [mergeStep] at h
    | cons r right =>
      rw [mergeStep] at h
      split at h
      . cases h
      . split at h <;> cases h

theorem mergeStep_eq_some {left' right' : List (CooEntry V)} {e : CooEntry (V × V)}
    (hl : left.Pairwise (fun a b => a.coordinate < b.coordinate))
    (hr : right.Pairwise (fun a b => a.coordinate < b.coordinate))
    (h : mergeStep left right = some (e, left', right')) : MergeStep left right e left' right' := by
  cases left with
  | nil =>
    cases right with
    | nil => cases h
    | cons r right =>
      cases h
      exact mergeStep_right hl hr (by simp)
  | cons l left =>
    cases right with
    | nil =>
      cases h
      exact mergeStep_left hl hr (by simp)
    | cons r right =>
      rw [mergeStep] at h
      split at h
      . next heq =>
        cases h
        exact mergeStep_both hl hr heq
      . next hne =>
        split at h
        . next hlt =>
          cases h
          apply mergeStep_left hl hr
          intro a ha
          rcases List.mem_cons.mp ha with rfl | ha
          . exact hlt
          . exact lt_trans hlt ((List.pairwise_cons.mp hr).1 a ha)
        . next hge =>
          cases h
          have hlt : r.coordinate < l.coordinate :=
            lt_of_le_of_ne (not_lt.mp hge) (fun heq => hne heq.symm)
          apply mergeStep_right hl hr
          intro a ha
          rcases List.mem_cons.mp ha with rfl | ha
          . exact hlt
          . exact lt_trans hlt ((List.pairwise_cons.mp hl).1 a ha)

end Steps

variable [CscElement V] {operation : V → V → V} {left right : List (CooEntry V)}

/-- The merged entries are the nonzero results at the coordinates of either operand. -/
structure Merged (operation : V → V → V) (left right merged : List (CooEntry V)) : Prop where
  increasing : merged.Pairwise (fun a b => a.coordinate < b.coordinate)
  mem_iff : ∀ t, t ∈ merged ↔ CscElement.isExplicitZero t.value = false ∧
    (HasCoordinate left t.coordinate ∨ HasCoordinate right t.coordinate) ∧
    t.value = operation (lookup left t.coordinate) (lookup right t.coordinate)

theorem MergeStep.merged {e : CooEntry (V × V)} {left' right' merged : List (CooEntry V)}
    (hs : MergeStep left right e left' right') (hm : Merged operation left' right' merged)
    : Merged operation left right
        (if CscElement.isExplicitZero (operation e.value.1 e.value.2) then
          merged
        else
          ⟨e.row, e.column, operation e.value.1 e.value.2⟩ :: merged) := by
  have hlater : ∀ t ∈ merged, e.coordinate < t.coordinate := by
    intro t ht
    rcases ((hm.mem_iff t).mp ht).2.1 with ⟨a, ha, heq⟩ | ⟨a, ha, heq⟩
    . rw [← heq]
      exact hs.later_left a ha
    . rw [← heq]
      exact hs.later_right a ha
  have hvalue : operation e.value.1 e.value.2 =
      operation (lookup left e.coordinate) (lookup right e.coordinate) := by
    rw [hs.value]
  have hother : ∀ t : CooEntry V, t.coordinate ≠ e.coordinate → (t ∈ merged ↔
      CscElement.isExplicitZero t.value = false ∧
        (HasCoordinate left t.coordinate ∨ HasCoordinate right t.coordinate) ∧
        t.value = operation (lookup left t.coordinate) (lookup right t.coordinate)) := by
    intro t hne
    rw [hm.mem_iff, hs.lookup_left _ hne, hs.lookup_right _ hne, hs.coordinates]
    simp only [hne, false_or]
  have hat : ∀ t : CooEntry V, t.coordinate = e.coordinate → t ∉ merged := by
    intro t heq ht
    have := hlater t ht
    rw [heq] at this
    exact lt_irrefl _ this
  split
  . next hzero =>
    refine ⟨hm.increasing, ?_⟩
    intro t
    by_cases heq : t.coordinate = e.coordinate
    . constructor
      . intro ht
        exact absurd ht (hat t heq)
      . rintro ⟨hnonzero, -, ht⟩
        rw [ht, heq, ← hvalue, hzero] at hnonzero
        cases hnonzero
    . exact hother t heq
  . next hnonzero =>
    refine ⟨List.pairwise_cons.mpr ⟨hlater, hm.increasing⟩, ?_⟩
    intro t
    rw [List.mem_cons]
    by_cases heq : t.coordinate = e.coordinate
    . constructor
      . rintro (rfl | ht)
        . exact ⟨by simpa using hnonzero, (hs.coordinates _).mpr (.inl rfl), hvalue⟩
        . exact absurd ht (hat t heq)
      . rintro ⟨-, -, ht⟩
        rw [heq, ← hvalue] at ht
        obtain ⟨row, column, value⟩ := t
        rw [CooEntry.coordinate, CooEntry.coordinate, toLex_inj, Prod.mk.injEq] at heq
        obtain ⟨rfl, rfl⟩ := heq
        exact .inl (congrArg _ ht)
    . rw [← hother t heq]
      constructor
      . rintro (rfl | ht)
        . exact absurd rfl heq
        . exact ht
      . exact .inr

theorem merged_nil : Merged operation [] [] [] := by
  refine ⟨List.Pairwise.nil, ?_⟩
  intro t
  simp [HasCoordinate]

theorem mergeEntries_eq_ok (fuel : Nat) {left right entries gathered : List (CooEntry V)}
    {host host' : Host} (hl : left.Pairwise (fun a b => a.coordinate < b.coordinate))
    (hr : right.Pairwise (fun a b => a.coordinate < b.coordinate))
    (hfuel : left.length + right.length ≤ fuel)
    (h : (mergeEntries operation entries fuel left right).run host = .ok (gathered, host'))
    : ∃ merged, gathered = entries ++ merged ∧ Merged operation left right merged := by
  induction fuel generalizing left right entries host with
  | zero =>
    cases h
    have hleft : left = [] := List.eq_nil_of_length_eq_zero (by omega)
    have hright : right = [] := List.eq_nil_of_length_eq_zero (by omega)
    subst hleft hright
    exact ⟨[], (List.append_nil _).symm, merged_nil⟩
  | succ fuel ih =>
    rw [mergeEntries] at h
    cases hstep : mergeStep left right with
    | none =>
      rw [hstep] at h
      cases h
      obtain ⟨rfl, rfl⟩ := mergeStep_eq_none hstep
      exact ⟨[], (List.append_nil _).symm, merged_nil⟩
    | some p =>
      obtain ⟨e, left', right'⟩ := p
      have hs := mergeStep_eq_some hl hr hstep
      have hlength := hs.length_lt
      rw [hstep] at h
      dsimp only at h
      rw [run_bind_eq_ok_iff] at h
      obtain ⟨_, _, -, h⟩ := h
      split at h
      . next hzero =>
        obtain ⟨merged, hgathered, hm⟩ :=
          ih hs.increasing_left hs.increasing_right (by omega) h
        have := hs.merged hm
        rw [if_pos hzero] at this
        exact ⟨merged, hgathered, this⟩
      . next hnonzero =>
        obtain ⟨merged, hgathered, hm⟩ :=
          ih hs.increasing_left hs.increasing_right (by omega) h
        have := hs.merged hm
        rw [if_neg hnonzero] at this
        refine ⟨_, ?_, this⟩
        rw [hgathered, List.append_assoc, List.singleton_append]

theorem mergeEntries_quiet (fuel : Nat) (left right entries : List (CooEntry V))
    : ∃ gathered, (mergeEntries operation entries fuel left right).run Host.quiet =
        .ok (gathered, Host.quiet) := by
  induction fuel generalizing left right entries with
  | zero => exact ⟨entries, rfl⟩
  | succ fuel ih =>
    rw [mergeEntries]
    cases mergeStep left right with
    | none => exact ⟨entries, rfl⟩
    | some p =>
      dsimp only
      rw [run_bind_of_eq_ok (checkCancelled_quiet _)]
      split
      . exact ih _ _ _
      . exact ih _ _ _

end Merge

section Sweep

variable [CscElement V] {rows columns : Nat} {f : Nat → Nat → V}

/-- The nonzero values of a function of the coordinates, in column-major order. -/
def sweepList (f : Nat → Nat → V) (rows columns : Nat) : List (CooEntry V) :=
  (List.range (rows * columns)).flatMap (fun offset =>
    if CscElement.isExplicitZero (f (offset % rows) (offset / rows)) then
      []
    else
      [⟨offset % rows, offset / rows, f (offset % rows) (offset / rows)⟩])

theorem length_sweepList_le : (sweepList f rows columns).length ≤ rows * columns := by
  have hone := length_flatMap_le_of_le_one (fun offset => if CscElement.isExplicitZero
    (f (offset % rows) (offset / rows)) then [] else [(⟨offset % rows, offset / rows,
      f (offset % rows) (offset / rows)⟩ : CooEntry V)]) (by intro offset; split <;> simp)
    (List.range (rows * columns))
  rwa [List.length_range] at hone

theorem mem_sweepList {t : CooEntry V}
    : t ∈ sweepList f rows columns ↔ t.row < rows ∧ t.column < columns ∧
        CscElement.isExplicitZero t.value = false ∧ t.value = f t.row t.column := by
  rw [sweepList, List.mem_flatMap]
  constructor
  . rintro ⟨offset, hoffset, ht⟩
    rw [List.mem_range] at hoffset
    split at ht
    . cases ht
    . next hnonzero =>
      rw [List.mem_singleton.mp ht]
      have hin := coordinates_of_offset hoffset
      exact ⟨hin.1, hin.2, by simpa using hnonzero, rfl⟩
  . rintro ⟨hrow, hcolumn, hnonzero, hvalue⟩
    obtain ⟨hlt, hmod, hdiv⟩ := offset_of_coordinates hrow hcolumn
    refine ⟨_, List.mem_range.mpr hlt, ?_⟩
    rw [hmod, hdiv, ← hvalue, if_neg (by simp [hnonzero])]
    exact List.mem_singleton.mpr rfl

theorem sweepList_increasing
    : (sweepList f rows columns).Pairwise (fun a b => a.coordinate < b.coordinate) := by
  rw [sweepList, List.pairwise_flatMap]
  constructor
  . intro offset _
    split
    . exact List.Pairwise.nil
    . exact List.pairwise_singleton _ _
  . apply List.pairwise_lt_range.imp
    intro a b hlt e he e' he'
    split at he
    . cases he
    . split at he'
      . cases he'
      . rw [List.mem_singleton.mp he, List.mem_singleton.mp he']
        exact coordinate_lt_of_offset_lt hlt

theorem combinedAt_sweepList [Zero V] [Add V] [AdditiveElement V] {row column : Nat}
    (hrow : row < rows) (hcolumn : column < columns)
    : (combinedAt (sweepList f rows columns) row column).getD 0 = f row column := by
  have hmem := @mem_sweepList V _ rows columns f ⟨row, column, f row column⟩
  rw [← combinedAt_eq_some_iff sweepList_increasing] at hmem
  cases hzero : CscElement.isExplicitZero (f row column) with
  | false =>
    rw [hmem.mpr ⟨hrow, hcolumn, hzero, rfl⟩]
    rfl
  | true =>
    rw [AdditiveElement.isExplicitZero_iff] at hzero
    cases hat : combinedAt (sweepList f rows columns) row column with
    | none => exact hzero.symm
    | some v =>
      rw [combinedAt_eq_some_iff sweepList_increasing, mem_sweepList] at hat
      exact hat.2.2.2

end Sweep

section Paths

theorem lookup_eq_combinedAt [Zero V] [CscElement V] {ts : List (CooEntry V)}
    (h : ts.Pairwise (fun a b => a.coordinate < b.coordinate)) (row column : Nat)
    : lookup ts (toLex (column, row)) = (combinedAt ts row column).getD 0 := by
  cases hat : combinedAt ts row column with
  | some v =>
    rw [combinedAt_eq_some_iff h] at hat
    exact lookup_of_mem h hat
  | none =>
    apply lookup_eq_zero
    rintro ⟨a, ha, heq⟩
    rw [CooEntry.coordinate, toLex_inj, Prod.mk.injEq] at heq
    obtain ⟨rfl, rfl⟩ := heq
    have := (combinedAt_eq_some_iff h).mpr ha
    rw [hat] at this
    cases this

/-- The merge gathers the same entries as the sweep, if zeros give zero. -/
theorem Merged.eq_sweepList [Zero V] [Add V] [CscElement V] [AdditiveElement V]
    {operation : V → V → V} {left right merged : List (CooEntry V)} {rows columns : Nat}
    {f : Nat → Nat → V} (hm : Merged operation left right merged) (hzero : operation 0 0 = 0)
    (hleft : ∀ e ∈ left, e.row < rows ∧ e.column < columns)
    (hright : ∀ e ∈ right, e.row < rows ∧ e.column < columns)
    (hf : ∀ row < rows, ∀ column < columns, f row column =
      operation (lookup left (toLex (column, row))) (lookup right (toLex (column, row))))
    : merged = sweepList f rows columns := by
  apply eq_of_increasing hm.increasing sweepList_increasing
  intro t
  rw [hm.mem_iff, mem_sweepList]
  constructor
  . rintro ⟨hnonzero, hcoordinate, hvalue⟩
    have hin : t.row < rows ∧ t.column < columns := by
      rcases hcoordinate with ⟨a, ha, heq⟩ | ⟨a, ha, heq⟩
      . obtain ⟨hrow, hcolumn⟩ := coordinate_eq_iff.mp heq
        rw [← hrow, ← hcolumn]
        exact hleft a ha
      . obtain ⟨hrow, hcolumn⟩ := coordinate_eq_iff.mp heq
        rw [← hrow, ← hcolumn]
        exact hright a ha
    exact ⟨hin.1, hin.2, hnonzero, hvalue.trans (hf _ hin.1 _ hin.2).symm⟩
  . rintro ⟨hrow, hcolumn, hnonzero, hvalue⟩
    have hvalue := hvalue.trans (hf _ hrow _ hcolumn)
    refine ⟨hnonzero, ?_, hvalue⟩
    by_contra hnone
    rw [not_or] at hnone
    rw [← CooEntry.coordinate, lookup_eq_zero hnone.1, lookup_eq_zero hnone.2, hzero,
      ← AdditiveElement.isExplicitZero_iff, hnonzero] at hvalue
    cases hvalue

theorem merge_spec [Zero V] [Add V] [CscElement V] [AdditiveElement V]
    {operation : V → V → V} {left right : List (CooEntry V)} {rows columns : Nat} {f : Nat → Nat → V}
    (hl : left.Pairwise (fun a b => a.coordinate < b.coordinate))
    (hr : right.Pairwise (fun a b => a.coordinate < b.coordinate)) (hzero : operation 0 0 = 0)
    (hleft : ∀ e ∈ left, e.row < rows ∧ e.column < columns)
    (hright : ∀ e ∈ right, e.row < rows ∧ e.column < columns)
    (hf : ∀ row < rows, ∀ column < columns, f row column =
      operation ((combinedAt left row column).getD 0) ((combinedAt right row column).getD 0))
    : (∀ gathered host host', (mergeEntries operation [] (left.length + right.length) left right).run
        host = .ok (gathered, host') → gathered = sweepList f rows columns) ∧
      (mergeEntries operation [] (left.length + right.length) left right).run Host.quiet =
        .ok (sweepList f rows columns, Host.quiet) := by
  have hgathers : ∀ gathered host host', (mergeEntries operation [] (left.length + right.length) left
      right).run host = .ok (gathered, host') → gathered = sweepList f rows columns := by
    intro gathered host host' h
    obtain ⟨merged, hmerged, hm⟩ := mergeEntries_eq_ok _ hl hr (Nat.le_refl _) h
    rw [hmerged, List.nil_append]
    apply hm.eq_sweepList hzero hleft hright
    intro row hrow column hcolumn
    rw [hf row hrow column hcolumn, lookup_eq_combinedAt hl, lookup_eq_combinedAt hr]
  obtain ⟨gathered, hquiet⟩ := mergeEntries_quiet (left.length + right.length) left right []
  refine ⟨hgathers, ?_⟩
  rw [hquiet, hgathers _ _ _ hquiet]

theorem sweep_spec [CscElement V] {operation : V → V → V} {left right : Nat → Fallible V}
    {l r : Nat → Nat → V} {rows columns : Nat}
    (hleft : ∀ offset < rows * columns, ∀ host,
      (left offset).run host = .ok (l (offset % rows) (offset / rows), host))
    (hright : ∀ offset < rows * columns, ∀ host,
      (right offset).run host = .ok (r (offset % rows) (offset / rows), host))
    : (∀ gathered host host', (sweep operation left right rows columns).run host =
        .ok (gathered, host') →
          gathered = sweepList (fun row column => operation (l row column) (r row column)) rows columns) ∧
      (sweep operation left right rows columns).run Host.quiet =
        .ok (sweepList (fun row column => operation (l row column) (r row column)) rows columns,
          Host.quiet) := by
  have helement : ∀ offset ∈ List.range (rows * columns), ∀ host, (do
      let lhs ← left offset
      let rhs ← right offset
      let value := operation lhs rhs
      if CscElement.isExplicitZero value then
        return []
      else
        let (row, column) := coordinates rows offset
        return [(⟨row, column, value⟩ : CooEntry V)] : Fallible (List (CooEntry V))).run host =
      .ok (if CscElement.isExplicitZero (operation (l (offset % rows) (offset / rows))
          (r (offset % rows) (offset / rows))) then [] else [⟨offset % rows, offset / rows,
            operation (l (offset % rows) (offset / rows)) (r (offset % rows) (offset / rows))⟩],
        host) := by
    intro offset hoffset host
    have hlt := List.mem_range.mp hoffset
    rw [run_bind_of_eq_ok (hleft offset hlt host), run_bind_of_eq_ok (hright offset hlt host)]
    dsimp only
    split <;> rfl
  constructor
  . intro gathered host host' h
    apply collect_eq_ok _ h
    intro offset hoffset h₁ h₂ ys hys
    rw [helement offset hoffset h₁] at hys
    cases hys
    rfl
  . exact collect_quiet 0 fun offset hoffset => helement offset hoffset Host.quiet

end Paths

namespace SparseArrayData

/-- The element that stands at a coordinate when a single row or column is expanded. -/
def broadcastElement [Zero R] (d : SparseArrayData R) (row column : Nat) : SparseScalarValue R :=
  d.element (if d.rows = 1 then 0 else row) (if d.columns = 1 then 0 else column)

theorem broadcastElement_same [Zero R] {d : SparseArrayData R} {row column : Nat} (hrow : row < d.rows) (hcolumn : column < d.columns)
    : d.broadcastElement row column = d.element row column := by
  have hrow' : (if d.rows = 1 then 0 else row) = row := by
    split <;> omega
  have hcolumn' : (if d.columns = 1 then 0 else column) = column := by
    split <;> omega
  rw [broadcastElement, hrow', hcolumn']

theorem broadcastExtent_cases {left right extent : Nat} (h : broadcastExtent left right = some extent)
    : (left = 1 ∨ left = extent) ∧ (right = 1 ∨ right = extent) := by
  unfold broadcastExtent at h
  split at h
  . cases h
    omega
  . split at h
    . cases h
      omega
    . split at h
      . cases h
        omega
      . cases h

theorem elementAtOffset_broadcast [Zero R] {d : SparseArrayData R} {rows columns offset : Nat}
    (hrows : d.rows = 1 ∨ d.rows = rows) (hcolumns : d.columns = 1 ∨ d.columns = columns)
    (hoffset : offset < rows * columns) (host : Host)
    : (d.elementAtOffset (d.broadcastOffset rows offset)).run host =
        .ok (d.broadcastElement (offset % rows) (offset / rows), host) := by
  obtain ⟨hrow, hcolumn⟩ := coordinates_of_offset hoffset
  have hsourceRow : (if d.rows = 1 then 0 else offset % rows) < d.rows := by
    split <;> omega
  have hsourceColumn : (if d.columns = 1 then 0 else offset / rows) < d.columns := by
    split <;> omega
  obtain ⟨hlt, hmod, hdiv⟩ := offset_of_coordinates hsourceRow hsourceColumn
  rw [broadcastOffset, coordinates]
  dsimp only
  rw [elementAtOffset_run hlt, hmod, hdiv]
  rfl

section Results

variable [Zero R] [One R] [Add R] [Sub R] [Mul R] [Div R] [Neg R] [Double R] [DecidableEq R]
variable {lhs rhs d : SparseArrayData R} {operator : SparseBinaryOperator} {rows columns : Nat}
variable {host host' : Host}

/-- The real result at a coordinate. -/
def realResult (lhs rhs : SparseArrayData R) (operator : SparseBinaryOperator) (row column : Nat) : R :=
  realOperation operator (realValue (lhs.broadcastElement row column))
    (realValue (rhs.broadcastElement row column))

def complexResult (lhs rhs : SparseArrayData R) (operator : SparseBinaryOperator) (row column : Nat)
    : Complex64 R :=
  complexOperation operator (complexValue (lhs.broadcastElement row column))
    (complexValue (rhs.broadcastElement row column))

/-- The extents of the operands are those of the result, or one. -/
structure Broadcasts (lhs rhs : SparseArrayData R) (rows columns : Nat) : Prop where
  lhs_rows : lhs.rows = 1 ∨ lhs.rows = rows
  lhs_columns : lhs.columns = 1 ∨ lhs.columns = columns
  rhs_rows : rhs.rows = 1 ∨ rhs.rows = rows
  rhs_columns : rhs.columns = 1 ∨ rhs.columns = columns

omit [Neg R] in
theorem sweepReal_spec (h : Broadcasts lhs rhs rows columns)
    : (∀ gathered host host', (sweep (realOperation operator) (lhs.sparseRealBroadcast rows)
        (rhs.sparseRealBroadcast rows) rows columns).run host = .ok (gathered, host') →
          gathered = sweepList (lhs.realResult rhs operator) rows columns) ∧
      (sweep (realOperation operator) (lhs.sparseRealBroadcast rows) (rhs.sparseRealBroadcast rows) rows
        columns).run Host.quiet =
          .ok (sweepList (lhs.realResult rhs operator) rows columns, Host.quiet) := by
  apply sweep_spec
    (l := fun row column => realValue (lhs.broadcastElement row column))
    (r := fun row column => realValue (rhs.broadcastElement row column))
  . intro offset hoffset host
    rw [sparseRealBroadcast,
      run_bind_of_eq_ok (elementAtOffset_broadcast h.lhs_rows h.lhs_columns hoffset host)]
    rfl
  . intro offset hoffset host
    rw [sparseRealBroadcast,
      run_bind_of_eq_ok (elementAtOffset_broadcast h.rhs_rows h.rhs_columns hoffset host)]
    rfl

theorem sweepComplex_spec (h : Broadcasts lhs rhs rows columns)
    : (∀ gathered host host', (sweep (complexOperation operator) (lhs.sparseComplexBroadcast rows)
        (rhs.sparseComplexBroadcast rows) rows columns).run host = .ok (gathered, host') →
          gathered = sweepList (lhs.complexResult rhs operator) rows columns) ∧
      (sweep (complexOperation operator) (lhs.sparseComplexBroadcast rows)
        (rhs.sparseComplexBroadcast rows) rows columns).run Host.quiet =
          .ok (sweepList (lhs.complexResult rhs operator) rows columns, Host.quiet) := by
  apply sweep_spec
    (l := fun row column => complexValue (lhs.broadcastElement row column))
    (r := fun row column => complexValue (rhs.broadcastElement row column))
  . intro offset hoffset host
    rw [sparseComplexBroadcast,
      run_bind_of_eq_ok (elementAtOffset_broadcast h.lhs_rows h.lhs_columns hoffset host)]
    rfl
  . intro offset hoffset host
    rw [sparseComplexBroadcast,
      run_bind_of_eq_ok (elementAtOffset_broadcast h.rhs_rows h.rhs_columns hoffset host)]
    rfl

omit [Neg R] in
theorem sweepSparseReal_eq_ok (h : Broadcasts lhs rhs rows columns)
    (hrun : (lhs.sweepSparseReal rhs operator rows columns).run host = .ok (d, host'))
    : ∃ h₁, (tryFromF64Coo rows columns (sweepList (lhs.realResult rhs operator) rows columns) 0).run h₁ =
        .ok (d, host') := by
  rw [sweepSparseReal] at hrun
  simp only [run_bind_eq_ok_iff] at hrun
  obtain ⟨_, _, -, _, _, -, entries, h₁, hentries, hrun⟩ := hrun
  rw [(sweepReal_spec h).1 _ _ _ hentries] at hrun
  exact ⟨h₁, hrun⟩

theorem sweepSparseComplex_eq_ok (h : Broadcasts lhs rhs rows columns)
    (hrun : (lhs.sweepSparseComplex rhs operator rows columns).run host = .ok (d, host'))
    : ∃ h₁, (tryFromComplexF64Coo rows columns
        (sweepList (lhs.complexResult rhs operator) rows columns) 0).run h₁ = .ok (d, host') := by
  rw [sweepSparseComplex] at hrun
  simp only [run_bind_eq_ok_iff] at hrun
  obtain ⟨_, _, -, _, _, -, entries, h₁, hentries, hrun⟩ := hrun
  rw [(sweepComplex_spec h).1 _ _ _ hentries] at hrun
  exact ⟨h₁, hrun⟩

section SameShape

variable (hlhs : lhs.Canonical) (hrhs : rhs.Canonical)
variable (hrows : lhs.rows = rhs.rows) (hcolumns : lhs.columns = rhs.columns)

include hlhs hrhs hrows hcolumns

omit [Neg R] in
theorem mergeReal_spec (hreal : lhs.isComplex = false) (hreal' : rhs.isComplex = false)
    (hzero : realOperation operator (0 : R) 0 = 0)
    : (∀ gathered host host', (mergeEntries (realOperation operator) []
        (lhs.realEntries.length + rhs.realEntries.length) lhs.realEntries rhs.realEntries).run host =
          .ok (gathered, host') →
          gathered = sweepList (lhs.realResult rhs operator) lhs.rows lhs.columns) ∧
      (mergeEntries (realOperation operator) []
        (lhs.realEntries.length + rhs.realEntries.length) lhs.realEntries rhs.realEntries).run
          Host.quiet =
            .ok (sweepList (lhs.realResult rhs operator) lhs.rows lhs.columns, Host.quiet) := by
  apply merge_spec (realEntries_increasing hlhs) (realEntries_increasing hrhs) hzero
    (fun e he => realEntries_in hlhs he) (fun e he => hrows ▸ hcolumns ▸ realEntries_in hrhs he)
  intro row hrow column hcolumn
  rw [combinedAt_realEntries hlhs hreal, combinedAt_realEntries hrhs hreal', realResult,
    broadcastElement_same hrow hcolumn, broadcastElement_same (hrows ▸ hrow) (hcolumns ▸ hcolumn)]

theorem mergeComplex_spec (hzero : complexOperation operator (0 : Complex64 R) 0 = 0)
    : (∀ gathered host host', (mergeEntries (complexOperation operator) []
        (lhs.numericEntries.length + rhs.numericEntries.length) lhs.numericEntries
          rhs.numericEntries).run host = .ok (gathered, host') →
          gathered = sweepList (lhs.complexResult rhs operator) lhs.rows lhs.columns) ∧
      (mergeEntries (complexOperation operator) []
        (lhs.numericEntries.length + rhs.numericEntries.length) lhs.numericEntries
          rhs.numericEntries).run Host.quiet =
            .ok (sweepList (lhs.complexResult rhs operator) lhs.rows lhs.columns, Host.quiet) := by
  apply merge_spec (numericEntries_increasing hlhs) (numericEntries_increasing hrhs) hzero
    (fun e he => numericEntries_in hlhs he) (fun e he => hrows ▸ hcolumns ▸ numericEntries_in hrhs he)
  intro row hrow column hcolumn
  rw [combinedAt_numericEntries hlhs, combinedAt_numericEntries hrhs, complexResult,
    broadcastElement_same hrow hcolumn, broadcastElement_same (hrows ▸ hrow) (hcolumns ▸ hcolumn)]

omit [Neg R] in
/-- The merge builds what the sweep builds. -/
theorem mergeSparseReal_eq_ok (hreal : lhs.isComplex = false) (hreal' : rhs.isComplex = false)
    (hzero : realOperation operator (0 : R) 0 = 0)
    (hrun : (lhs.mergeSparseReal rhs operator).run host = .ok (d, host'))
    : ∃ h₁, (tryFromF64Coo lhs.rows lhs.columns
        (sweepList (lhs.realResult rhs operator) lhs.rows lhs.columns) 0).run h₁ = .ok (d, host') := by
  rw [mergeSparseReal] at hrun
  simp only [run_bind_eq_ok_iff] at hrun
  obtain ⟨_, _, -, _, _, -, entries, h₁, hentries, hrun⟩ := hrun
  rw [(mergeReal_spec hlhs hrhs hrows hcolumns hreal hreal' hzero).1 _ _ _ hentries] at hrun
  exact ⟨h₁, hrun⟩

theorem mergeSparseComplex_eq_ok (hzero : complexOperation operator (0 : Complex64 R) 0 = 0)
    (hrun : (lhs.mergeSparseComplex rhs operator).run host = .ok (d, host'))
    : ∃ h₁, (tryFromComplexF64Coo lhs.rows lhs.columns
        (sweepList (lhs.complexResult rhs operator) lhs.rows lhs.columns) 0).run h₁ =
          .ok (d, host') := by
  rw [mergeSparseComplex] at hrun
  simp only [run_bind_eq_ok_iff] at hrun
  obtain ⟨_, _, -, _, _, -, entries, h₁, hentries, hrun⟩ := hrun
  rw [(mergeComplex_spec hlhs hrhs hrows hcolumns hzero).1 _ _ _ hentries] at hrun
  exact ⟨h₁, hrun⟩

end SameShape

section Quiet

variable (hshape : rows * columns ≤ u64Max) (hlt : columns < u64Max)

include hshape hlt

omit [One R] [Sub R] [Mul R] [Div R] [Neg R] in
theorem tryFromF64Coo_sweepList_quiet (f : Nat → Nat → R)
    : ∃ d, (tryFromF64Coo rows columns (sweepList f rows columns) 0).run Host.quiet =
        .ok (d, Host.quiet) := by
  apply tryFromF64Coo_quiet hshape hlt (Nat.zero_le _)
  . intro e he
    have := mem_sweepList.mp he
    exact ⟨this.1, this.2.1⟩
  . exact Nat.le_trans length_sweepList_le hshape

omit [One R] [Sub R] [Mul R] [Div R] [Neg R] in
theorem tryFromComplexF64Coo_sweepList_quiet (f : Nat → Nat → Complex64 R)
    : ∃ d : SparseArrayData R, (tryFromComplexF64Coo rows columns (sweepList f rows columns) 0).run
        Host.quiet = .ok (d, Host.quiet) := by
  apply tryFromComplexF64Coo_quiet hshape hlt (Nat.zero_le _)
  . intro e he
    have := mem_sweepList.mp he
    exact ⟨this.1, this.2.1⟩
  . exact Nat.le_trans length_sweepList_le hshape

variable (hlhs : lhs.Canonical) (hrhs : rhs.Canonical) (h : Broadcasts lhs rhs rows columns)
variable (hcapacity : lhs.nnz + rhs.nnz ≤ u64Max)

include hlhs hrhs h hcapacity

omit [Neg R] in
theorem sparseRealResult_quiet (hreal : lhs.isComplex = false) (hreal' : rhs.isComplex = false)
    (hzero : operator ≠ .elementDivide → realOperation operator (0 : R) 0 = 0)
    (hsame : lhs.rows = rhs.rows ∧ lhs.columns = rhs.columns → lhs.rows = rows ∧ lhs.columns = columns)
    : ∃ d, (lhs.sparseRealResult rhs operator rows columns).run Host.quiet = .ok (d, Host.quiet) := by
  obtain ⟨d, hd⟩ := tryFromF64Coo_sweepList_quiet hshape hlt (lhs.realResult rhs operator)
  refine ⟨d, ?_⟩
  rw [sparseRealResult]
  split
  . next hmerge =>
    obtain ⟨rfl, rfl⟩ := hsame hmerge.1
    rw [mergeSparseReal, run_bind_of_eq_ok (checkedAddUsize_quiet hcapacity),
      run_bind_of_eq_ok (allocate_quiet hcapacity),
      run_bind_of_eq_ok (mergeReal_spec hlhs hrhs hmerge.1.1 hmerge.1.2 hreal hreal'
        (hzero hmerge.2)).2]
    exact hd
  . rw [sweepSparseReal, run_bind_of_eq_ok (checkedUsize_quiet hshape),
      run_bind_of_eq_ok (allocate_quiet hshape), run_bind_of_eq_ok (sweepReal_spec h).2]
    exact hd

theorem sparseComplexResult_quiet
    (hzero : operator ≠ .elementDivide → complexOperation operator (0 : Complex64 R) 0 = 0)
    (hsame : lhs.rows = rhs.rows ∧ lhs.columns = rhs.columns → lhs.rows = rows ∧ lhs.columns = columns)
    : ∃ d, (lhs.sparseComplexResult rhs operator rows columns).run Host.quiet =
        .ok (d, Host.quiet) := by
  obtain ⟨d, hd⟩ := tryFromComplexF64Coo_sweepList_quiet hshape hlt (lhs.complexResult rhs operator)
  refine ⟨d, ?_⟩
  rw [sparseComplexResult]
  split
  . next hmerge =>
    obtain ⟨rfl, rfl⟩ := hsame hmerge.1
    rw [mergeSparseComplex, run_bind_of_eq_ok (checkedAddUsize_quiet hcapacity),
      run_bind_of_eq_ok (allocate_quiet hcapacity),
      run_bind_of_eq_ok (mergeComplex_spec hlhs hrhs hmerge.1.1 hmerge.1.2 (hzero hmerge.2)).2]
    exact hd
  . rw [sweepSparseComplex, run_bind_of_eq_ok (checkedUsize_quiet hshape),
      run_bind_of_eq_ok (allocate_quiet hshape), run_bind_of_eq_ok (sweepComplex_spec h).2]
    exact hd

end Quiet

theorem broadcastExtent_eq {left right extent : Nat} (h : broadcastExtent left right = some extent)
    : (extent = left ∨ extent = right) ∧ (left = right → left = extent) := by
  unfold broadcastExtent at h
  split at h
  . cases h
    omega
  . split at h
    . cases h
      omega
    . split at h
      . cases h
        omega
      . cases h

theorem tryBinarySparse_eq_ok (hlhs : lhs.Canonical) (hrhs : rhs.Canonical)
    (hzero : operator ≠ .elementDivide →
      realOperation operator (0 : R) 0 = 0 ∧ complexOperation operator (0 : Complex64 R) 0 = 0)
    (hrows : broadcastExtent lhs.rows rhs.rows = some rows)
    (hcolumns : broadcastExtent lhs.columns rhs.columns = some columns)
    (hrun : (lhs.tryBinarySparse rhs operator).run host = .ok (d, host'))
    : if lhs.isComplex || rhs.isComplex then
        ∃ h₁, (tryFromComplexF64Coo rows columns
          (sweepList (lhs.complexResult rhs operator) rows columns) 0).run h₁ = .ok (d, host')
      else
        ∃ h₁, (tryFromF64Coo rows columns (sweepList (lhs.realResult rhs operator) rows columns) 0).run
          h₁ = .ok (d, host') := by
  obtain ⟨hlhsRows, hrhsRows⟩ := broadcastExtent_cases hrows
  obtain ⟨hlhsColumns, hrhsColumns⟩ := broadcastExtent_cases hcolumns
  have h : Broadcasts lhs rhs rows columns := ⟨hlhsRows, hlhsColumns, hrhsRows, hrhsColumns⟩
  rw [tryBinarySparse, broadcastShape, hrows, hcolumns] at hrun
  dsimp only at hrun
  rw [run_bind_eq_ok_iff] at hrun
  obtain ⟨shape, h₁, hshape, hrun⟩ := hrun
  rw [run_bind_eq_ok_iff] at hshape
  obtain ⟨_, h₂, -, hshape⟩ := hshape
  cases hshape
  dsimp only at hrun
  split at hrun
  . next hcomplex =>
    rw [if_pos hcomplex]
    rw [sparseComplexResult] at hrun
    split at hrun
    . next hmerge =>
      have hsameRows := (broadcastExtent_eq hrows).2 hmerge.1.1
      have hsameColumns := (broadcastExtent_eq hcolumns).2 hmerge.1.2
      have := mergeSparseComplex_eq_ok hlhs hrhs hmerge.1.1 hmerge.1.2 (hzero hmerge.2).2 hrun
      rwa [hsameRows, hsameColumns] at this
    . exact sweepSparseComplex_eq_ok h hrun
  . next hreal =>
    rw [if_neg hreal]
    simp only [Bool.or_eq_true, not_or, Bool.not_eq_true] at hreal
    rw [sparseRealResult] at hrun
    split at hrun
    . next hmerge =>
      have hsameRows := (broadcastExtent_eq hrows).2 hmerge.1.1
      have hsameColumns := (broadcastExtent_eq hcolumns).2 hmerge.1.2
      have := mergeSparseReal_eq_ok hlhs hrhs hmerge.1.1 hmerge.1.2 hreal.1 hreal.2
        (hzero hmerge.2).1 hrun
      rwa [hsameRows, hsameColumns] at this
    . exact sweepSparseReal_eq_ok h hrun

theorem tryBinarySparse_quiet (hlhs : lhs.Canonical) (hrhs : rhs.Canonical)
    (hzero : operator ≠ .elementDivide →
      realOperation operator (0 : R) 0 = 0 ∧ complexOperation operator (0 : Complex64 R) 0 = 0)
    (hrows : broadcastExtent lhs.rows rhs.rows = some rows)
    (hcolumns : broadcastExtent lhs.columns rhs.columns = some columns)
    (hshape : rows * columns ≤ u64Max) (hcapacity : lhs.nnz + rhs.nnz ≤ u64Max)
    : ∃ d, (lhs.tryBinarySparse rhs operator).run Host.quiet = .ok (d, Host.quiet) := by
  obtain ⟨hlhsRows, hrhsRows⟩ := broadcastExtent_cases hrows
  obtain ⟨hlhsColumns, hrhsColumns⟩ := broadcastExtent_cases hcolumns
  have h : Broadcasts lhs rhs rows columns := ⟨hlhsRows, hlhsColumns, hrhsRows, hrhsColumns⟩
  have hlt : columns < u64Max := by
    have := hlhs.columns_lt
    have := hrhs.columns_lt
    rcases (broadcastExtent_eq hcolumns).1 with heq | heq <;> omega
  have hsame : lhs.rows = rhs.rows ∧ lhs.columns = rhs.columns →
      lhs.rows = rows ∧ lhs.columns = columns := fun heq =>
    ⟨(broadcastExtent_eq hrows).2 heq.1, (broadcastExtent_eq hcolumns).2 heq.2⟩
  have hbroadcast : (lhs.broadcastShape rhs operator).run Host.quiet =
      .ok ((rows, columns), Host.quiet) := by
    rw [broadcastShape, hrows, hcolumns]
    dsimp only
    rw [run_bind_of_eq_ok (sparseShape_quiet hshape)]
    rfl
  rw [tryBinarySparse, run_bind_of_eq_ok hbroadcast]
  dsimp only
  split
  . exact sparseComplexResult_quiet hshape hlt hlhs hrhs h hcapacity (fun hne => (hzero hne).2) hsame
  . next hreal =>
    simp only [Bool.or_eq_true, not_or, Bool.not_eq_true] at hreal
    exact sparseRealResult_quiet hshape hlt hlhs hrhs h hcapacity hreal.1 hreal.2
      (fun hne => (hzero hne).1) hsame

/--
What is completed for operands that can be expanded to one shape is canonical and holds the operator
applied to the expanded elements, a quiet host completes it exactly if the shape is one, and merging
builds the same matrix as sweeping.
-/
theorem tryBinarySparse_correct
    (hzero : ∀ operator : SparseBinaryOperator, operator ≠ .elementDivide →
      realOperation operator (0 : R) 0 = 0 ∧ complexOperation operator (0 : Complex64 R) 0 = 0)
    (lhs rhs : SparseArrayData R) (hlhs : lhs.Canonical) (hrhs : rhs.Canonical)
    (operator : SparseBinaryOperator) (rows columns : Nat)
    (hrows : broadcastExtent lhs.rows rhs.rows = some rows)
    (hcolumns : broadcastExtent lhs.columns rhs.columns = some columns) (host : Host)
    : (∀ d host', (lhs.tryBinarySparse rhs operator).run host = .ok (d, host') →
        d.rows = rows ∧ d.columns = columns ∧ d.Canonical ∧
        if lhs.isComplex || rhs.isComplex then
          ∀ row < rows, ∀ column < columns, complexValue (d.element row column) =
            complexOperation operator (complexValue (lhs.broadcastElement row column))
              (complexValue (rhs.broadcastElement row column))
        else
          ∀ row < rows, ∀ column < columns, d.element row column =
            .f64 (realOperation operator (realValue (lhs.broadcastElement row column))
              (realValue (rhs.broadcastElement row column)))) ∧
      (rows * columns ≤ u64Max → lhs.nnz + rhs.nnz ≤ u64Max →
        ∃ d, (lhs.tryBinarySparse rhs operator).run Host.quiet = .ok (d, Host.quiet)) ∧
      (u64Max < rows * columns →
        (lhs.tryBinarySparse rhs operator).run host = .error (.shapeOverflow rows columns)) ∧
      (lhs.rows = rhs.rows → lhs.columns = rhs.columns → operator ≠ .elementDivide →
        (lhs.isComplex = false → rhs.isComplex = false → ∀ d d' host' host₁ host₁',
          (lhs.mergeSparseReal rhs operator).run host = .ok (d, host') →
          (lhs.sweepSparseReal rhs operator rows columns).run host₁ = .ok (d', host₁') → d = d') ∧
        ∀ d d' host' host₁ host₁',
          (lhs.mergeSparseComplex rhs operator).run host = .ok (d, host') →
          (lhs.sweepSparseComplex rhs operator rows columns).run host₁ = .ok (d', host₁') →
          d = d') := by
  refine ⟨?_, tryBinarySparse_quiet hlhs hrhs (hzero operator) hrows hcolumns, ?_, ?_⟩
  . intro d host' hrun
    have hbuilt := tryBinarySparse_eq_ok hlhs hrhs (hzero operator) hrows hcolumns hrun
    split at hbuilt
    . next hcomplex =>
      obtain ⟨h₁, hbuilt⟩ := hbuilt
      obtain ⟨hdRows, hdColumns, hcanonical, helement⟩ := tryFromComplexF64Coo_spec hbuilt
      refine ⟨hdRows, hdColumns, hcanonical, ?_⟩
      rw [if_pos hcomplex]
      intro row hrow column hcolumn
      rw [helement, combinedAt_sweepList hrow hcolumn]
      rfl
    . next hreal =>
      obtain ⟨h₁, hbuilt⟩ := hbuilt
      obtain ⟨hdRows, hdColumns, hcanonical, -, helement⟩ := tryFromF64Coo_spec hbuilt
      refine ⟨hdRows, hdColumns, hcanonical, ?_⟩
      rw [if_neg hreal]
      intro row hrow column hcolumn
      rw [helement, combinedAt_sweepList hrow hcolumn]
      rfl
  . intro hlt
    have hbroadcast : (lhs.broadcastShape rhs operator).run host = .error (.shapeOverflow rows columns) := by
      rw [broadcastShape, hrows, hcolumns]
      dsimp only
      rw [StateT.run_bind, sparseShape, if_neg (by omega)]
      rfl
    rw [tryBinarySparse, StateT.run_bind, hbroadcast]
    rfl
  . intro hsameRows hsameColumns hne
    obtain ⟨hlhsRows, hrhsRows⟩ := broadcastExtent_cases hrows
    obtain ⟨hlhsColumns, hrhsColumns⟩ := broadcastExtent_cases hcolumns
    have h : Broadcasts lhs rhs rows columns := ⟨hlhsRows, hlhsColumns, hrhsRows, hrhsColumns⟩
    obtain rfl := (broadcastExtent_eq hrows).2 hsameRows
    obtain rfl := (broadcastExtent_eq hcolumns).2 hsameColumns
    constructor
    . intro hreal hreal' d d' host' host₁ host₁' hmerge hsweep
      obtain ⟨_, hbuilt⟩ := mergeSparseReal_eq_ok hlhs hrhs hsameRows hsameColumns hreal hreal'
        (hzero operator hne).1 hmerge
      obtain ⟨_, hbuilt'⟩ := sweepSparseReal_eq_ok h hsweep
      exact tryFromF64Coo_unique hbuilt hbuilt'
    . intro d d' host' host₁ host₁' hmerge hsweep
      obtain ⟨_, hbuilt⟩ := mergeSparseComplex_eq_ok hlhs hrhs hsameRows hsameColumns
        (hzero operator hne).2 hmerge
      obtain ⟨_, hbuilt'⟩ := sweepSparseComplex_eq_ok h hsweep
      exact tryFromComplexF64Coo_unique hbuilt hbuilt'

end Results

section Integers

theorem operation_zero_int (operator : SparseBinaryOperator) (hne : operator ≠ .elementDivide)
    : realOperation operator (0 : Int) 0 = 0 ∧ complexOperation operator (0 : Complex64 Int) 0 = 0 := by
  cases operator with
  | elementDivide => exact absurd rfl hne
  | _ => exact ⟨rfl, rfl⟩

/-- The column is expanded to both columns. -/
theorem tryBinarySparse_correct_triangle
    : ∃ d, (triangle.tryBinarySparse negatedColumn .elementMultiply).run Host.quiet =
          .ok (d, Host.quiet) ∧
        d.Canonical ∧ d.element 0 1 = .f64 8 ∧ d.element 1 0 = .f64 0 ∧ d.element 1 1 = .f64 (-6) := by
  obtain ⟨hholds, hquiet, -⟩ := tryBinarySparse_correct operation_zero_int triangle negatedColumn
    triangle_canonical negatedColumn_canonical .elementMultiply 2 2 rfl rfl Host.quiet
  obtain ⟨d, hd⟩ := hquiet (by decide) (by decide)
  obtain ⟨-, -, hcanonical, helement⟩ := hholds d _ hd
  exact ⟨d, hd, hcanonical, helement 0 (by decide) 1 (by decide), helement 1 (by decide) 0 (by decide),
    helement 1 (by decide) 1 (by decide)⟩

theorem tryBinarySparse_overflow
    : tallColumn.Canonical ∧ emptyRow.Canonical ∧
        broadcastExtent tallColumn.rows emptyRow.rows = some 9223372036854775808 ∧
        broadcastExtent tallColumn.columns emptyRow.columns = some 2 ∧
        (tallColumn.tryBinarySparse emptyRow .add).run Host.quiet =
          .error (.shapeOverflow 9223372036854775808 2) :=
  ⟨tallColumn_canonical, emptyRow_canonical, rfl, rfl, rfl⟩

end Integers

end SparseArrayData

end Sparse
end OpenMat
