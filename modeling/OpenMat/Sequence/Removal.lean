import Mathlib.Data.List.Sort
import Mathlib.Data.List.Nodup
import Mathlib.Order.Lattice
import OpenMat.Sequence.BinarySearch
import OpenMat.Sequence.LastWrite

/-!
This module contains the removal of positions: which positions survive, and how far each survivor moves.
-/

namespace OpenMat
namespace Sequence

/-- Sorted, and without repetitions. -/
def sortUnique (positions : List Nat) : List Nat :=
  keepLast id [] (positions.insertionSort (· ≤ ·))

/-- The positions below `n` that are not removed. -/
def survivors (n : Nat) (removed : List Nat) : List Nat :=
  (List.range n).filter fun position => decide (position ∉ removed)

section SortUnique

variable {positions : List Nat}

theorem sortUnique_spec (positions : List Nat)
    : (sortUnique positions).Pairwise (· < ·) ∧ ∀ position, position ∈ sortUnique positions ↔
        position ∈ positions := by
  have hsorted : ([] ++ positions.insertionSort (· ≤ ·)).Pairwise (fun a b => id a ≤ id b) :=
    List.pairwise_insertionSort _ _
  obtain ⟨hpairwise, hfilter⟩ := keepLast_spec [] (positions.insertionSort (· ≤ ·)) List.Pairwise.nil hsorted
  refine ⟨hpairwise, fun position => ?_⟩
  have hmem : ∀ l : List Nat, position ∈ l ↔ l.filter (fun a => decide (id a = position)) ≠ [] := by
    intro l
    rw [ne_eq, List.filter_eq_nil_iff]
    simp
  rw [hmem, sortUnique, hfilter, List.nil_append]
  have hsort : position ∈ positions ↔ position ∈ positions.insertionSort (· ≤ ·) :=
    (List.mem_insertionSort _).symm
  rw [hsort, hmem]
  cases (positions.insertionSort (· ≤ ·)).filter (fun a => decide (id a = position)) with
  | nil => simp
  | cons a l => simp [List.getLast?_cons]

theorem length_sortUnique_le (positions : List Nat)
    : (sortUnique positions).length ≤ positions.length := by
  have := length_keepLast_le (f := id) [] (positions.insertionSort (· ≤ ·))
  rwa [List.length_nil, Nat.zero_add, List.length_insertionSort] at this

end SortUnique

section Survivors

variable {n position : Nat} {removed : List Nat}

theorem mem_survivors
    : position ∈ survivors n removed ↔ position < n ∧ position ∉ removed := by
  rw [survivors, List.mem_filter, List.mem_range, decide_eq_true_eq]

theorem survivors_congr {removed' : List Nat} (h : ∀ position, position ∈ removed ↔ position ∈ removed')
    : survivors n removed = survivors n removed' := by
  unfold survivors
  apply List.filter_congr
  intro position _
  exact decide_eq_decide.mpr (not_congr (h position))

theorem nodup_survivors (n : Nat) (removed : List Nat)
    : (survivors n removed).Nodup :=
  List.Nodup.filter _ List.nodup_range

theorem getElem?_filter_range {p : Nat → Bool} (h : position < n) (hp : p position = true)
    : ((List.range n).filter p)[(List.range position).countP p]? = some position := by
  obtain ⟨rest, rfl⟩ : ∃ rest, n = position + (rest + 1) := ⟨n - position - 1, by omega⟩
  rw [List.range_add, List.filter_append, List.countP_eq_length_filter,
    List.getElem?_append_right (Nat.le_refl _), Nat.sub_self, List.range_succ_eq_map, List.map_cons,
    Nat.add_zero, List.filter_cons_of_pos hp]
  rfl

/-- What is removed below a position. -/
theorem countP_range_mem (h : removed.Nodup) (position : Nat)
    : (List.range position).countP (fun other => decide (other ∈ removed)) =
        removed.countP fun other => decide (other < position) := by
  rw [List.countP_eq_length_filter, List.countP_eq_length_filter]
  apply List.Perm.length_eq
  rw [List.perm_ext_iff_of_nodup (List.Nodup.filter _ List.nodup_range) (h.filter _)]
  intro other
  simp only [List.mem_filter, List.mem_range, decide_eq_true_eq]
  exact and_comm

theorem countP_range_survivors (h : removed.Nodup) (position : Nat)
    : (List.range position).countP (fun other => decide (other ∉ removed)) =
        position - removed.countP fun other => decide (other < position) := by
  have hsplit := List.length_eq_countP_add_countP (fun other => decide (other ∉ removed))
    (l := List.range position)
  have hmem : (List.range position).countP (fun other => decide ¬decide (other ∉ removed) = true) =
      (List.range position).countP (fun other => decide (other ∈ removed)) := by
    congr 1
    funext other
    simp
  rw [hmem, countP_range_mem h, List.length_range] at hsplit
  omega

/-- A survivor moves down by the number of positions that are removed below it. -/
theorem getElem?_survivors (h : removed.Nodup) (hlt : position < n) (hnot : position ∉ removed)
    : (survivors n removed)[position - removed.countP fun other => decide (other < position)]? =
        some position := by
  rw [survivors, ← countP_range_survivors h]
  exact getElem?_filter_range hlt (by simpa using hnot)

theorem getElem?_survivors_iff (h : removed.Nodup) (hlt : position < n) {k : Nat}
    : (survivors n removed)[k]? = some position ↔
        position ∉ removed ∧ position - (removed.countP fun other => decide (other < position)) = k := by
  constructor
  . intro hk
    have hnot := (mem_survivors.mp (List.mem_of_getElem? hk)).2
    refine ⟨hnot, ?_⟩
    have hget := getElem?_survivors h hlt hnot
    obtain ⟨hi, hvalue⟩ := List.getElem?_eq_some_iff.mp hget
    obtain ⟨hj, hvalue'⟩ := List.getElem?_eq_some_iff.mp hk
    exact (List.Nodup.getElem_inj_iff (nodup_survivors n removed)).mp (hvalue.trans hvalue'.symm)
  . rintro ⟨hnot, rfl⟩
    exact getElem?_survivors h hlt hnot

theorem length_survivors (h : removed.Nodup) (hin : ∀ position ∈ removed, position < n)
    : (survivors n removed).length = n - removed.length := by
  rw [survivors, ← List.countP_eq_length_filter, countP_range_survivors h]
  congr 1
  rw [List.countP_eq_length]
  intro position hposition
  simpa using hin position hposition

theorem nodup_sortUnique (positions : List Nat)
    : (sortUnique positions).Nodup :=
  (sortUnique_spec positions).1.imp Nat.ne_of_lt

theorem survivors_sortUnique (n : Nat) (positions : List Nat)
    : survivors n (sortUnique positions) = survivors n positions :=
  survivors_congr (sortUnique_spec positions).2

theorem countP_lt_le (h : removed.Nodup) (position : Nat)
    : (removed.countP fun other => decide (other < position)) ≤ position := by
  rw [← countP_range_mem h]
  exact Nat.le_trans List.countP_le_length (Nat.le_of_eq List.length_range)

theorem length_le_of_lt (h : removed.Nodup) (hin : ∀ position ∈ removed, position < n)
    : removed.length ≤ n := by
  have hall : (removed.countP fun other => decide (other < n)) = removed.length := by
    rw [List.countP_eq_length]
    intro position hposition
    simpa using hin position hposition
  exact hall ▸ countP_lt_le h n

theorem map_range_getD {α : Type} (l : List α) (default : α)
    : (List.range l.length).map (fun i => l.getD i default) = l := by
  apply List.ext_getElem?
  intro i
  rw [List.getElem?_map]
  by_cases hi : i < l.length
  . rw [List.getElem?_range hi, Option.map_some, List.getD_eq_getElem?_getD, List.getElem?_eq_getElem hi]
    rfl
  . rw [List.getElem?_eq_none (by simpa using hi), List.getElem?_eq_none (by omega)]
    rfl

/-- The offsets of a matrix, column by column. -/
theorem range_mul (rows columns : Nat)
    : List.range (rows * columns) =
        (List.range columns).flatMap fun column => (List.range rows).map fun row => row + column * rows := by
  induction columns with
  | zero => rfl
  | succ columns ih =>
    rw [Nat.mul_succ, List.range_add, ih, List.range_succ, List.flatMap_append, List.flatMap_singleton]
    congr 1
    apply List.map_congr_left
    intro row _
    rw [Nat.add_comm, Nat.mul_comm]

end Survivors

end Sequence
end OpenMat
