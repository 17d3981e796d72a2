import Mathlib.Order.Lattice
import Mathlib.Data.List.Basic

/-!
This module contains binary search in strictly increasing lists and in lists that a predicate cuts
into two parts.
-/

namespace OpenMat
namespace Sequence

variable {α : Type} [LinearOrder α]

/-- Halve the window of `size` positions from `base` until one position is left. -/
def searchBase (xs : List α) (x : α) : Nat → Nat → Nat → Nat
  | 0, base, _ => base
  | fuel + 1, base, size =>
    if size > 1 then
      let half := size / 2
      let mid := base + half
      let base := if xs[mid]?.any (fun y => decide (x < y)) then base else mid
      searchBase xs x fuel base (size - half)
    else
      base

def binarySearch (xs : List α) (x : α) : Option Nat :=
  let base := searchBase xs x xs.length 0 xs.length
  if xs[base]? = some x then some base else none

theorem getElem?_lt_iff {xs : List α} (h : xs.Pairwise (· < ·)) {i j : Nat} {x y : α}
    (hi : xs[i]? = some x) (hj : xs[j]? = some y) : x < y ↔ i < j := by
  rw [List.getElem?_eq_some_iff] at hi hj
  obtain ⟨hi, rfl⟩ := hi
  obtain ⟨hj, rfl⟩ := hj
  rw [List.pairwise_iff_getElem] at h
  constructor
  . intro hlt
    by_contra hle
    cases Nat.eq_or_lt_of_le (Nat.le_of_not_lt hle) with
    | inl heq =>
      subst heq
      exact absurd hlt (lt_irrefl _)
    | inr hgt => exact absurd hlt (lt_asymm (h j i hj hi hgt))
  . intro hlt
    exact h i j hi hj hlt

theorem searchBase_eq {xs : List α} (h : xs.Pairwise (· < ·)) {i : Nat} {x : α}
    (hi : xs[i]? = some x) (fuel base size : Nat) (hfuel : size ≤ fuel) (hbase : base ≤ i)
    (hsize : i < base + size) (hlength : base + size ≤ xs.length)
    : searchBase xs x fuel base size = i := by
  induction fuel generalizing base size with
  | zero => omega
  | succ fuel ih =>
    rw [searchBase]
    split
    . next hgt =>
      dsimp only
      have hmid : base + size / 2 < xs.length := by omega
      have hget : xs[base + size / 2]? = some xs[base + size / 2] := List.getElem?_eq_getElem hmid
      have hlt := getElem?_lt_iff h hi hget
      rw [hget, Option.any_some]
      split
      . next hbelow =>
        have : i < base + size / 2 := hlt.mp (by simpa using hbelow)
        apply ih <;> omega
      . next habove =>
        have : ¬i < base + size / 2 := fun hcontra => habove (by simpa using hlt.mpr hcontra)
        apply ih <;> omega
    . omega

theorem binarySearch_eq_some_iff {xs : List α} (h : xs.Pairwise (· < ·)) {i : Nat} {x : α}
    : binarySearch xs x = some i ↔ xs[i]? = some x := by
  unfold binarySearch
  dsimp only
  constructor
  . intro hsome
    split at hsome
    . next hfound =>
      cases hsome
      exact hfound
    . simp at hsome
  . intro hi
    have hlt : i < xs.length := (List.getElem?_eq_some_iff.mp hi).1
    rw [searchBase_eq h hi xs.length 0 xs.length (Nat.le_refl _) (by omega) (by omega) (by omega),
      if_pos hi]

theorem binarySearch_eq_none_iff {xs : List α} (h : xs.Pairwise (· < ·)) {x : α}
    : binarySearch xs x = none ↔ x ∉ xs := by
  rw [Option.eq_none_iff_forall_ne_some]
  constructor
  . intro hnone hmem
    obtain ⟨i, hi, rfl⟩ := List.mem_iff_getElem.mp hmem
    exact hnone i ((binarySearch_eq_some_iff h).mpr (List.getElem?_eq_getElem hi))
  . intro hnot i hsome
    exact hnot (List.mem_of_getElem? ((binarySearch_eq_some_iff h).mp hsome))

/-- The elements below `x` are the first ones. -/
theorem lt_countP_iff {xs : List α} (h : xs.Pairwise (· < ·)) {x : α} {i : Nat} (hi : i < xs.length)
    : i < xs.countP (fun y => decide (y < x)) ↔ xs[i] < x := by
  induction xs generalizing i with
  | nil => cases hi
  | cons y ys ih =>
    rw [List.pairwise_cons] at h
    rw [List.countP_cons]
    by_cases hlt : y < x
    . rw [decide_eq_true hlt, if_pos rfl]
      cases i with
      | zero => simpa using hlt
      | succ i => simpa using ih h.2 (Nat.lt_of_succ_lt_succ hi)
    . have hzero : ys.countP (fun z => decide (z < x)) = 0 := by
        rw [List.countP_eq_zero]
        intro z hz
        have := h.1 z hz
        simpa using le_of_lt (lt_of_le_of_lt (le_of_not_gt hlt) this)
      rw [hzero, decide_eq_false hlt]
      constructor
      . simp
      . intro hbelow
        cases i with
        | zero => exact absurd hbelow hlt
        | succ i =>
          rw [List.getElem_cons_succ] at hbelow
          exact absurd (lt_trans (h.1 _ (List.getElem_mem _)) hbelow) hlt

section PartitionPoint

variable {β : Type}

/-- Halve the window of `size` positions from `base` until one position is left. -/
def partitionBase (p : β → Bool) (xs : List β) : Nat → Nat → Nat → Nat
  | 0, base, _ => base
  | fuel + 1, base, size =>
    if size > 1 then
      let half := size / 2
      let mid := base + half
      let base := if xs[mid]?.any p then mid else base
      partitionBase p xs fuel base (size - half)
    else
      base

/-- The position of the first element that does not satisfy the predicate. -/
def partitionPoint (p : β → Bool) (xs : List β) : Nat :=
  let base := partitionBase p xs xs.length 0 xs.length
  if xs[base]?.any p then base + 1 else base

variable {p : β → Bool} {xs : List β} {k : Nat}

/-- The window keeps the cut between its ends. -/
theorem partitionBase_bounds
    (hcut : ∀ i, i < xs.length → (xs[i]?.any p = true ↔ i < k)) (fuel base size : Nat)
    (hfuel : size ≤ fuel) (hbase : base = 0 ∨ base < k) (hend : k ≤ base + size)
    (hlength : base + size ≤ xs.length)
    : (partitionBase p xs fuel base size = 0 ∨ partitionBase p xs fuel base size < k) ∧
        k ≤ partitionBase p xs fuel base size + 1 := by
  induction fuel generalizing base size with
  | zero =>
    rw [partitionBase]
    omega
  | succ fuel ih =>
    rw [partitionBase]
    split
    . next hgt =>
      dsimp only
      have hmid := hcut (base + size / 2) (by omega)
      split
      . next hbelow =>
        have := hmid.mp hbelow
        apply ih <;> omega
      . next habove =>
        have : ¬base + size / 2 < k := fun hcontra => habove (hmid.mpr hcontra)
        apply ih <;> omega
    . omega

theorem partitionPoint_eq (hk : k ≤ xs.length)
    (hcut : ∀ i, i < xs.length → (xs[i]?.any p = true ↔ i < k)) : partitionPoint p xs = k := by
  obtain ⟨hbase, hend⟩ := partitionBase_bounds hcut xs.length 0 xs.length (Nat.le_refl _)
    (.inl rfl) (by omega) (by omega)
  unfold partitionPoint
  dsimp only
  generalize partitionBase p xs xs.length 0 xs.length = base at hbase hend
  by_cases hin : base < xs.length
  . have := hcut base hin
    split
    . next hbelow =>
      have := this.mp hbelow
      omega
    . next habove =>
      have : ¬base < k := fun hcontra => habove (this.mpr hcontra)
      omega
  . rw [List.getElem?_eq_none (by omega), if_neg (by simp)]
    omega

end PartitionPoint

section Insertion

/-- The position of the element, or the one where it could be inserted. -/
def binarySearchResult (xs : List α) (x : α) : Except Nat Nat :=
  let base := searchBase xs x xs.length 0 xs.length
  if xs[base]? = some x then
    .ok base
  else
    .error (if xs[base]?.any (fun y => decide (y < x)) then base + 1 else base)

variable {xs : List α} {x : α}

theorem searchBase_eq_partitionBase (fuel base size : Nat) (h : base + size ≤ xs.length)
    : searchBase xs x fuel base size = partitionBase (fun y => decide (y ≤ x)) xs fuel base size := by
  induction fuel generalizing base size with
  | zero => rfl
  | succ fuel ih =>
    rw [searchBase, partitionBase]
    split
    . dsimp only
      have hget : xs[base + size / 2]? = some xs[base + size / 2] := List.getElem?_eq_getElem (by omega)
      rw [hget, Option.any_some, Option.any_some]
      by_cases hlt : x < xs[base + size / 2]
      . rw [decide_eq_true hlt, decide_eq_false (not_le_of_gt hlt), if_pos rfl, if_neg Bool.false_ne_true]
        exact ih _ _ (by omega)
      . rw [decide_eq_false hlt, decide_eq_true (le_of_not_gt hlt), if_pos rfl, if_neg Bool.false_ne_true]
        exact ih _ _ (by omega)
    . rfl

theorem binarySearchResult_of_mem (h : xs.Pairwise (· < ·)) (hx : x ∈ xs)
    : ∃ i, binarySearchResult xs x = .ok i := by
  obtain ⟨i, hi, rfl⟩ := List.mem_iff_getElem.mp hx
  have hget := List.getElem?_eq_getElem hi
  refine ⟨i, ?_⟩
  rw [binarySearchResult, searchBase_eq h hget xs.length 0 xs.length (Nat.le_refl _) (by omega) (by omega)
    (by omega)]
  exact if_pos hget

/-- The number of elements below an element that is not in the list. -/
theorem binarySearchResult_of_not_mem (h : xs.Pairwise (· < ·)) (hx : x ∉ xs)
    : binarySearchResult xs x = .error (xs.countP fun y => decide (y < x)) := by
  have hcut : ∀ i, i < xs.length →
      (xs[i]?.any (fun y => decide (y ≤ x)) = true ↔ i < xs.countP fun y => decide (y < x)) := by
    intro i hi
    rw [List.getElem?_eq_getElem hi, Option.any_some, decide_eq_true_eq]
    have hne : xs[i] ≠ x := fun heq => hx (heq ▸ List.getElem_mem hi)
    rw [← lt_iff_le_and_ne.trans (and_iff_left hne)]
    exact (lt_countP_iff h hi).symm
  obtain ⟨hbase, hend⟩ := partitionBase_bounds hcut xs.length 0 xs.length (Nat.le_refl _) (.inl rfl)
    (by rw [Nat.zero_add]; exact List.countP_le_length) (by omega)
  rw [← searchBase_eq_partitionBase _ _ _ (by omega)] at hbase hend
  unfold binarySearchResult
  dsimp only
  generalize searchBase xs x xs.length 0 xs.length = base at hbase hend
  rw [if_neg (fun hget => hx (List.mem_of_getElem? hget))]
  congr 1
  by_cases hin : base < xs.length
  . have hlt := lt_countP_iff h hin (x := x)
    rw [List.getElem?_eq_getElem hin, Option.any_some]
    split
    . next hbelow =>
      have := hlt.mpr (by simpa using hbelow)
      omega
    . next habove =>
      have : ¬base < xs.countP fun y => decide (y < x) := fun hcontra =>
        habove (by simpa using hlt.mp hcontra)
      omega
  . have := List.countP_le_length (p := fun y => decide (y < x)) (l := xs)
    rw [List.getElem?_eq_none (by omega), Option.any_none, if_neg Bool.false_ne_true]
    omega

end Insertion

end Sequence
end OpenMat
