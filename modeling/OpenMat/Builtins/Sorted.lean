import OpenMat.Builtins.Sort
import OpenMat.Sequence.StableSort

/-!
This module contains that the bottom-up merge sort of the built-in sorts its entries stably.
-/

namespace OpenMat
namespace Builtins

open Sequence

variable {T : Type} [SortElement T]

/-- The comparison is a total preorder of the elements that are not missing. -/
structure OrdersPresent (T : Type) [SortElement T] (method : ComparisonMethod) : Prop where
  swap : ∀ a b : T, SortElement.isMissing a = false → SortElement.isMissing b = false →
    SortElement.compareValue b a method = (SortElement.compareValue a b method).swap
  trans : ∀ a b c : T, SortElement.isMissing a = false → SortElement.isMissing b = false →
    SortElement.isMissing c = false → SortElement.compareValue a b method ≠ .gt →
    SortElement.compareValue b c method ≠ .gt → SortElement.compareValue a c method ≠ .gt

def notGreater (options : SortOptions) (left right : SortEntry T) : Bool :=
  compareEntry left right options != .gt

variable {options : SortOptions} {a b c : SortEntry T}

theorem notGreater_iff
    : notGreater options a b = true ↔ compareEntry a b options ≠ .gt := by
  rw [notGreater, bne_iff_ne]

theorem compareEntry_swap (h : OrdersPresent T options.comparison) (a b : SortEntry T)
    : compareEntry b a options = (compareEntry a b options).swap := by
  rw [compareEntry, compareEntry]
  cases ha : SortElement.isMissing a.value <;> cases hb : SortElement.isMissing b.value
  . dsimp only
    rw [h.swap a.value b.value ha hb]
    split <;> rfl
  . cases effectiveMissing options <;> rfl
  . cases effectiveMissing options <;> rfl
  . rfl

theorem compareEntry_of_present (ha : SortElement.isMissing a.value = false)
    (hb : SortElement.isMissing b.value = false)
    : compareEntry a b options =
        if options.direction = .descending then
          (SortElement.compareValue a.value b.value options.comparison).swap
        else
          SortElement.compareValue a.value b.value options.comparison := by
  rw [compareEntry, ha, hb]

/-- Present elements are transitive in both directions. -/
theorem compareEntry_trans_of_present (h : OrdersPresent T options.comparison)
    (ha : SortElement.isMissing a.value = false) (hb : SortElement.isMissing b.value = false)
    (hc : SortElement.isMissing c.value = false) (hab : compareEntry a b options ≠ .gt)
    (hbc : compareEntry b c options ≠ .gt)
    : compareEntry a c options ≠ .gt := by
  rw [compareEntry_of_present ha hb] at hab
  rw [compareEntry_of_present hb hc] at hbc
  rw [compareEntry_of_present ha hc]
  by_cases hdirection : options.direction = .descending
  . simp only [hdirection, if_true] at hab hbc ⊢
    rw [← h.swap _ _ ha hb] at hab
    rw [← h.swap _ _ hb hc] at hbc
    rw [← h.swap _ _ ha hc]
    exact h.trans _ _ _ hc hb ha hbc hab
  . simp only [hdirection, if_false] at hab hbc ⊢
    exact h.trans _ _ _ ha hb hc hab hbc

theorem compareEntry_trans (h : OrdersPresent T options.comparison)
    (hab : compareEntry a b options ≠ .gt) (hbc : compareEntry b c options ≠ .gt)
    : compareEntry a c options ≠ .gt := by
  cases ha : SortElement.isMissing a.value <;> cases hb : SortElement.isMissing b.value <;>
    cases hc : SortElement.isMissing c.value
  case false.false.false => exact compareEntry_trans_of_present h ha hb hc hab hbc
  all_goals
    simp only [compareEntry, ha, hb, hc] at hab hbc ⊢
    cases hplacement : effectiveMissing options <;> simp_all

theorem totalPreorder_notGreater (h : OrdersPresent T options.comparison)
    : TotalPreorder (notGreater (T := T) options) where
  total a b := by
    rw [notGreater_iff, notGreater_iff, compareEntry_swap h a b]
    cases compareEntry a b options <;> simp
  trans a b c hab hbc :=
    notGreater_iff.mpr (compareEntry_trans h (notGreater_iff.mp hab) (notGreater_iff.mp hbc))

section Merge

variable {values : List (SortEntry T)} {middle last left right width : Nat}

theorem take_drop_succ {α : Type} {l : List α} {i : Nat} (h : i < l.length) (n : Nat)
    : (l.drop i).take (n + 1) = l[i] :: (l.drop (i + 1)).take n := by
  rw [List.drop_eq_getElem_cons h, List.take_succ_cons]

/-- The merge is the one of what is left of the two runs. -/
theorem mergeRun_eq (hmiddle : middle ≤ values.length) (hlast : last ≤ values.length) (left right : Nat)
    (hleft : left ≤ middle) (hright : right ≤ last)
    : mergeRun options values middle last (middle - left + (last - right)) left right =
        .ok (((values.drop left).take (middle - left)).merge ((values.drop right).take (last - right))
          (notGreater options)) := by
  generalize hcount : middle - left + (last - right) = count
  induction count generalizing left right with
  | zero =>
    have hl : middle - left = 0 := by omega
    have hr : last - right = 0 := by omega
    rw [mergeRun, hl, hr, List.take_zero, List.take_zero, List.nil_merge]
  | succ count ih =>
    rw [mergeRun]
    by_cases hdone : right = last
    . -- the right run is used up
      have hl : middle - left = (middle - (left + 1)) + 1 := by omega
      have hlt : left < values.length := by omega
      have hnext := ih (left + 1) right (by omega) hright (by omega)
      rw [hdone, Nat.sub_self, List.take_zero, List.merge_right] at hnext ⊢
      rw [takeLeft, if_pos rfl, hl, take_drop_succ hlt, List.getElem?_eq_getElem hlt]
      simp only [bind, Except.bind, okOr, if_true, hnext]
    . have hr : last - right = (last - (right + 1)) + 1 := by omega
      have hrlt : right < values.length := by omega
      by_cases hmore : left < middle
      . have hl : middle - left = (middle - (left + 1)) + 1 := by omega
        have hllt : left < values.length := by omega
        rw [takeLeft, if_neg hdone, if_pos hmore, List.getElem?_eq_getElem hllt,
          List.getElem?_eq_getElem hrlt]
        by_cases hle : notGreater options values[left] values[right] = true
        . have hnext := ih (left + 1) right (by omega) hright (by omega)
          rw [hr, take_drop_succ hrlt] at hnext ⊢
          rw [hl, take_drop_succ hllt, List.cons_merge_cons_pos _ _ _ hle]
          rw [notGreater] at hle
          simp only [bind, Except.bind, okOr, hle, if_true, hnext]
        . have hnext := ih left (right + 1) hleft (by omega) (by omega)
          rw [hl, take_drop_succ hllt] at hnext ⊢
          rw [hr, take_drop_succ hrlt, List.cons_merge_cons_neg _ _ _ hle]
          rw [Bool.not_eq_true, notGreater] at hle
          simp only [bind, Except.bind, okOr, hle, hnext, Bool.false_eq_true, if_false]
      . -- the left run is used up
        have hl : middle - left = 0 := by omega
        have hnext := ih left (right + 1) hleft (by omega) (by omega)
        rw [hl, List.take_zero, List.nil_merge] at hnext ⊢
        rw [takeLeft, if_neg hdone, if_neg hmore, hr, take_drop_succ hrlt, List.getElem?_eq_getElem hrlt]
        simp only [bind, Except.bind, okOr, hnext, Bool.false_eq_true, if_false]

theorem saturatingAdd_min {bits a b length : Nat} (h : length < 2 ^ bits)
    : min (saturatingAdd bits a b) length = min (a + b) length := by
  rw [saturatingAdd]
  omega

theorem mergePass_eq (hlength : values.length < 2 ^ 64) (hwidth : 0 < width) (fuel start : Nat)
    (hfuel : values.length - start ≤ fuel)
    : mergePass options values width fuel start =
        .ok (mergedRuns (notGreater options) width hwidth (values.drop start)) := by
  induction fuel generalizing start with
  | zero =>
    rw [mergePass, if_neg (by omega), List.drop_eq_nil_of_le (by omega), mergedRuns_nil]
  | succ fuel ih =>
    by_cases hlt : start < values.length
    . rw [mergePass, if_pos hlt]
      dsimp only
      rw [saturatingAdd_min hlength, saturatingAdd_min hlength]
      have hne : values.drop start ≠ [] := by
        rw [Ne, List.drop_eq_nil_iff]
        omega
      let middle := min (start + width) values.length
      let last := min (middle + width) values.length
      have hcount : last - start = (middle - start) + (last - middle) := by omega
      have hrun := @mergeRun_eq _ _ options values middle last (by omega) (by omega) start middle
        (by omega) (by omega)
      have hleft : (values.drop start).take (middle - start) = (values.drop start).take width := by
        rw [List.take_eq_take_iff, List.length_drop]
        omega
      have hright : (values.drop middle).take (last - middle) =
          ((values.drop start).drop width).take width := by
        have hdrop : values.drop middle = values.drop (start + width) :=
          List.drop_eq_drop_iff.mpr (by omega)
        rw [List.drop_drop, hdrop, List.take_eq_take_iff, List.length_drop]
        omega
      have hrest : values.drop last = (values.drop start).drop (2 * width) := by
        rw [List.drop_drop, List.drop_eq_drop_iff]
        omega
      rw [mergedRuns_of_ne_nil hwidth hne, ← hleft, ← hright, ← hrest, hcount, hrun]
      simp only [bind, Except.bind]
      rw [ih _ (by omega)]
    . rw [mergePass, if_neg hlt, List.drop_eq_nil_of_le (by omega), mergedRuns_nil]

/-- The passes end, since every pass widens the runs. -/
theorem mergePasses_eq (h : OrdersPresent T options.comparison) (hlength : values.length < 2 ^ 64)
    (hwidth : 0 < width) (fuel : Nat) (hfuel : values.length - width ≤ fuel)
    (hruns : StableRuns (notGreater options) SortEntry.originalAxisIndex width values)
    : ∃ sorted, mergePasses options fuel width values = .ok sorted ∧ sorted.Perm values ∧
        sorted.Pairwise (Before (notGreater options) SortEntry.originalAxisIndex) := by
  induction fuel generalizing width values with
  | zero =>
    have hle : values.length ≤ width := by omega
    rw [mergePasses, if_neg (by omega)]
    exact ⟨values, rfl, .refl _, hruns.pairwise hle⟩
  | succ fuel ih =>
    rw [mergePasses]
    by_cases hlt : width < values.length
    . rw [if_pos hlt]
      have hpass := @mergePass_eq _ _ options _ _ hlength hwidth values.length 0 (by omega)
      rw [List.drop_zero] at hpass
      have hperm : (mergedRuns (notGreater options) width hwidth values).Perm values :=
        mergedRuns_perm hwidth values
      have hmerged := hruns.merged (totalPreorder_notGreater h) hwidth
      have hnext : StableRuns (notGreater options) SortEntry.originalAxisIndex (min (width * 2) (2 ^ 64 - 1))
          (mergedRuns (notGreater options) width hwidth values) := by
        rcases Nat.le_total (width * 2) (2 ^ 64 - 1) with hle | hge
        . rw [Nat.min_eq_left hle, Nat.mul_comm]
          exact hmerged
        . -- the width is saturated, and no list is longer
          rw [Nat.min_eq_right hge]
          have hlength := hperm.length_eq
          exact .of_pairwise (hmerged.pairwise (by omega)) (by omega)
      obtain ⟨sorted, hsorted, hpermSorted, hpairwise⟩ :=
        ih (by rw [hperm.length_eq]; exact hlength) (by omega) (by rw [hperm.length_eq]; omega) hnext
      refine ⟨sorted, ?_, hpermSorted.trans hperm, hpairwise⟩
      simp only [hpass, bind, Except.bind, hsorted]
    . rw [if_neg hlt]
      exact ⟨values, rfl, .refl _, hruns.pairwise (by omega)⟩

theorem stableMergeSort_eq (h : OrdersPresent T options.comparison) (hlength : values.length < 2 ^ 64)
    (hranks : values.Pairwise fun a b => a.originalAxisIndex < b.originalAxisIndex)
    : ∃ sorted, stableMergeSort options values = .ok sorted ∧ sorted.Perm values ∧
        sorted.Pairwise (Before (notGreater options) SortEntry.originalAxisIndex) := by
  rw [stableMergeSort]
  have hruns : StableRuns (notGreater options) SortEntry.originalAxisIndex 1 values := stableRuns_one hranks
  split
  . exact ⟨values, rfl, .refl _, hruns.pairwise (by omega)⟩
  . exact mergePasses_eq h hlength Nat.one_pos values.length (by omega) hruns

end Merge

end Builtins
end OpenMat
