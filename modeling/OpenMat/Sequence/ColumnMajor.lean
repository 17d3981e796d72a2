import Mathlib.Algebra.BigOperators.Group.List.Basic
import Mathlib.Algebra.Group.Action.Defs
import Mathlib.Data.List.Forall2

/-!
This module contains the Cartesian products of lists, with the tuples in column-major order: the component
of the first list runs fastest.
-/

namespace OpenMat
namespace Sequence

variable {α β : Type}

def columnMajor : List (List α) → List (List α)
  | [] => [[]]
  | l :: lists => (columnMajor lists).flatMap fun tuple => l.map (· :: tuple)

theorem length_columnMajor (lists : List (List α))
    : (columnMajor lists).length = (lists.map List.length).prod := by
  induction lists with
  | nil => rfl
  | cons l lists ih =>
    rw [columnMajor, List.length_flatMap, List.map_cons, List.prod_cons, ← ih]
    simp only [List.length_map, List.map_const', List.sum_replicate, smul_eq_mul]
    rw [Nat.mul_comm]

theorem mem_columnMajor {lists : List (List α)} {tuple : List α}
    : tuple ∈ columnMajor lists ↔ List.Forall₂ (· ∈ ·) tuple lists := by
  induction lists generalizing tuple with
  | nil => simp [columnMajor]
  | cons l lists ih =>
    simp only [columnMajor, List.mem_flatMap, List.mem_map, ih]
    constructor
    . rintro ⟨rest, hrest, a, ha, rfl⟩
      exact .cons ha hrest
    . rintro (_ | ⟨ha, hrest⟩)
      exact ⟨_, hrest, _, ha, rfl⟩

theorem length_of_mem_columnMajor {lists : List (List α)} {tuple : List α}
    (h : tuple ∈ columnMajor lists)
    : tuple.length = lists.length :=
  (mem_columnMajor.mp h).length_eq

theorem columnMajor_singleton (l : List α)
    : columnMajor [l] = l.map fun a => [a] := by
  simp [columnMajor]

theorem getElem?_flatMap_map {s : List α} (t : List β) {γ : Type} (f : β → α → γ) (h : 0 < s.length)
    (n : Nat)
    : (t.flatMap fun b => s.map (f b))[n]? =
        t[n / s.length]?.bind fun b => s[n % s.length]?.map (f b) := by
  induction t generalizing n with
  | nil => simp
  | cons b t ih =>
    rw [List.flatMap_cons]
    by_cases hlt : n < s.length
    . rw [List.getElem?_append_left (by rwa [List.length_map]), Nat.div_eq_of_lt hlt, Nat.mod_eq_of_lt hlt,
        List.getElem?_map]
      rfl
    . have hle : s.length ≤ n := by omega
      rw [List.getElem?_append_right (by rwa [List.length_map]), List.length_map, ih, Nat.mod_eq_sub_mod hle,
        Nat.div_eq_sub_div h hle]
      rfl

/-- The position of a component is the next digit of the position of the tuple. -/
theorem getElem?_columnMajor_cons {l : List α} (h : 0 < l.length) (lists : List (List α)) (n : Nat)
    : (columnMajor (l :: lists))[n]? =
        (columnMajor lists)[n / l.length]?.bind fun tuple => l[n % l.length]?.map (· :: tuple) :=
  getElem?_flatMap_map _ _ h n

end Sequence
end OpenMat
