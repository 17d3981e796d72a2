import Mathlib.Algebra.BigOperators.Group.Finset.Piecewise
import Mathlib.Algebra.BigOperators.Group.List.Basic
import OpenMat.Sparse.Data

/-!
This module contains the totals of coordinate entries: what the entries at each coordinate add up to,
and that the products of entries add up to the product of the totals.
-/

namespace OpenMat
namespace Sparse

variable {V : Type} [AddCommMonoid V]

/-- What the entries at a coordinate add up to. -/
def total (entries : List (CooEntry V)) (row column : Nat) : V :=
  (entries.map (fun e => if e.row = row ∧ e.column = column then e.value else 0)).sum

section Total

variable {row column : Nat}

@[simp]
theorem total_nil : total ([] : List (CooEntry V)) row column = 0 := rfl

theorem total_cons (e : CooEntry V) (entries : List (CooEntry V))
    : total (e :: entries) row column =
        (if e.row = row ∧ e.column = column then e.value else 0) + total entries row column := by
  rw [total, total, List.map_cons, List.sum_cons]

theorem total_append (entries entries' : List (CooEntry V))
    : total (entries ++ entries') row column = total entries row column + total entries' row column := by
  rw [total, total, total, List.map_append, List.sum_append]

variable [CscElement V] [AdditiveElement V]

theorem foldl_combine (entries : List (CooEntry V)) (v : V)
    (h : ∀ e ∈ entries, e.row = row ∧ e.column = column)
    : entries.foldl (fun v e => CscElement.combine v e.value) v = v + total entries row column := by
  induction entries generalizing v with
  | nil => rw [List.foldl_nil, total_nil, add_zero]
  | cons e entries ih =>
    rw [List.foldl_cons, ih _ (fun a ha => h a (by simp [ha])), total_cons, if_pos (h e (by simp)),
      AdditiveElement.combine_eq, add_assoc]

omit [CscElement V] [AdditiveElement V] in
theorem total_filter (entries : List (CooEntry V))
    : total (entries.filter (fun e => decide (e.row = row ∧ e.column = column))) row column =
        total entries row column := by
  induction entries with
  | nil => rfl
  | cons e entries ih =>
    by_cases h : e.row = row ∧ e.column = column
    . rw [List.filter_cons_of_pos (by simpa using h), total_cons, total_cons, ih]
    . rw [List.filter_cons_of_neg (by simpa using h), total_cons, ih, if_neg h, zero_add]

theorem combinedAt_getD (entries : List (CooEntry V)) (row column : Nat)
    : (combinedAt entries row column).getD 0 = total entries row column := by
  rw [← total_filter, combinedAt]
  have hall : ∀ e ∈ entries.filter (fun e => decide (e.row = row ∧ e.column = column)),
      e.row = row ∧ e.column = column := by
    intro e he
    simpa using (List.mem_filter.mp he).2
  generalize entries.filter (fun e => decide (e.row = row ∧ e.column = column)) = run at hall ⊢
  cases run with
  | nil => rfl
  | cons e run =>
    dsimp only
    rw [Option.getD_some, foldl_combine run e.value (fun a ha => hall a (by simp [ha])), total_cons,
      if_pos (hall e (by simp))]

end Total

section Products

variable (mul : V → V → V)

/-- Multiplication that distributes over addition. -/
structure Distributes : Prop where
  zero_left (a : V) : mul 0 a = 0
  zero_right (a : V) : mul a 0 = 0
  add_left (a b c : V) : mul (a + b) c = mul a c + mul b c
  add_right (a b c : V) : mul a (b + c) = mul a b + mul a c

variable {mul}

/-- The products with one entry of the right factor. -/
theorem total_products_entry (h : Distributes mul) (ts : List (CooEntry V)) (e : CooEntry V)
    (row column : Nat)
    : total ((ts.filter (fun a => decide (a.column = e.row))).map
        (fun a => ⟨a.row, e.column, mul a.value e.value⟩)) row column =
          if e.column = column then mul (total ts row e.row) e.value else 0 := by
  induction ts with
  | nil =>
    rw [List.filter_nil, List.map_nil, total_nil, total_nil, h.zero_left, ite_self]
  | cons a ts ih =>
    by_cases hcolumn : a.column = e.row
    . rw [List.filter_cons_of_pos (by simpa using hcolumn), List.map_cons, total_cons, ih, total_cons]
      dsimp only
      by_cases hrow : a.row = row
      . by_cases he : e.column = column
        . rw [if_pos ⟨hrow, he⟩, if_pos he, if_pos he, if_pos ⟨hrow, hcolumn⟩, h.add_left]
        . rw [if_neg (fun hand => he hand.2), if_neg he, if_neg he, zero_add]
      . have hproduct : ¬(a.row = row ∧ e.column = column) := fun hand => hrow hand.1
        have hfactor : ¬(a.row = row ∧ a.column = e.row) := fun hand => hrow hand.1
        rw [if_neg hproduct, if_neg hfactor, zero_add, zero_add]
    . have hfactor : ¬(a.row = row ∧ a.column = e.row) := fun hand => hcolumn hand.2
      rw [List.filter_cons_of_neg (by simpa using hcolumn), ih, total_cons, if_neg hfactor, zero_add]

/-- The products of entries add up to the matrix product of the totals. -/
theorem total_products (h : Distributes mul) (ts ts' : List (CooEntry V)) (inner : Nat)
    (hinner : ∀ e ∈ ts', e.row < inner) (row column : Nat)
    : total (ts'.flatMap (fun e => (ts.filter (fun a => decide (a.column = e.row))).map
        (fun a => ⟨a.row, e.column, mul a.value e.value⟩))) row column =
          (Finset.range inner).sum (fun k => mul (total ts row k) (total ts' k column)) := by
  induction ts' with
  | nil => simp [h.zero_right]
  | cons e ts' ih =>
    have hsplit : ∀ k, mul (total ts row k) (total (e :: ts') k column) =
        (if e.row = k then (if e.column = column then mul (total ts row k) e.value else 0) else 0) +
          mul (total ts row k) (total ts' k column) := by
      intro k
      rw [total_cons, h.add_right]
      by_cases hrow : e.row = k
      . by_cases hcolumn : e.column = column
        . rw [if_pos ⟨hrow, hcolumn⟩, if_pos hrow, if_pos hcolumn]
        . rw [if_neg (fun hand => hcolumn hand.2), if_pos hrow, if_neg hcolumn, h.zero_right]
      . rw [if_neg (fun hand => hrow hand.1), if_neg hrow, h.zero_right]
    have hmem : e.row ∈ Finset.range inner := Finset.mem_range.mpr (hinner e (by simp))
    rw [List.flatMap_cons, total_append, total_products_entry h,
      ih (fun a ha => hinner a (by simp [ha])), Finset.sum_congr rfl (fun k _ => hsplit k),
      Finset.sum_add_distrib, Finset.sum_ite_eq, if_pos hmem]

end Products

end Sparse
end OpenMat
