import Mathlib.Algebra.Order.Ring.Nat
import Mathlib.Data.List.Basic
import Std.Data.TreeMap.Lemmas

/-!
This module contains tables that are made from lists of entries, and totals over the entries of a table.
-/

namespace OpenMat
namespace Table

open Std

section OfList

variable {κ α : Type} [Ord κ] [TransOrd κ] [LawfulEqOrd κ] [BEq κ] [LawfulBEq κ]

end OfList

section Contains

variable {κ α : Type} [Ord κ] [TransOrd κ] {t : TreeMap κ α} {k k' : κ} {a : α}

theorem contains_of_getElem?_eq_some (h : t[k]? = some a)
    : t.contains k := by
  rw [TreeMap.contains_eq_isSome_getElem?, h]
  rfl

theorem getElem?_eq_none_of_not_contains (h : ¬t.contains k)
    : t[k]? = none := by
  rw [TreeMap.contains_eq_isSome_getElem?] at h
  simpa using h

variable [LawfulEqOrd κ]

theorem getElem?_insert [DecidableEq κ]
    : (t.insert k a)[k']? = if k = k' then some a else t[k']? := by
  simp only [TreeMap.getElem?_insert, LawfulEqCmp.compare_eq_iff_eq]

theorem contains_insert_iff
    : (t.insert k a).contains k' ↔ k' = k ∨ t.contains k' := by
  rw [TreeMap.contains_insert, Bool.or_eq_true, beq_iff_eq, LawfulEqCmp.compare_eq_iff_eq, eq_comm]

theorem contains_erase_iff
    : (t.erase k).contains k' ↔ k' ≠ k ∧ t.contains k' := by
  simp only [TreeMap.contains_erase, Bool.and_eq_true, bne_iff_ne, Ne,
    LawfulEqCmp.compare_eq_iff_eq, @eq_comm _ k]

end Contains

section Total

variable {κ α : Type} [Ord κ] {t : TreeMap κ α} {k : κ} {a : α}

/-- The sum of the weights of all entries. -/
def total (weight : α → Nat) (t : TreeMap κ α) : Nat :=
  (t.toList.map fun entry => weight entry.2).sum

theorem total_empty (weight : α → Nat)
    : total weight (∅ : TreeMap κ α) = 0 := by
  rw [total, List.map_eq_nil_iff.mpr, List.sum_nil]
  exact List.eq_nil_of_length_eq_zero (by rw [TreeMap.length_toList, TreeMap.size_emptyc])

variable [TransOrd κ] [LawfulEqOrd κ]

theorem nodup_toList (t : TreeMap κ α)
    : t.toList.Nodup := by
  rw [List.nodup_iff_pairwise_ne]
  refine t.distinct_keys_toList.imp fun hne heq => hne ?_
  rw [heq, LawfulEqCmp.compare_eq_iff_eq]

theorem size_pos (h : t[k]? = some a)
    : 0 < t.size := by
  rw [← TreeMap.length_toList]
  exact List.length_pos_of_mem (TreeMap.mem_toList_iff_getElem?_eq_some.mpr h)

variable (weight : α → Nat)

theorem total_congr {t' : TreeMap κ α} (h : ∀ k : κ, t[k]? = t'[k]?)
    : total weight t = total weight t' := by
  have hperm : t.toList.Perm t'.toList := by
    rw [List.perm_ext_iff_of_nodup (nodup_toList t) (nodup_toList t')]
    rintro ⟨k, a⟩
    rw [TreeMap.mem_toList_iff_getElem?_eq_some, TreeMap.mem_toList_iff_getElem?_eq_some, h]
  exact (hperm.map fun entry => weight entry.2).sum_nat

theorem total_insert_of_getElem?_eq_none (h : t[k]? = none)
    : total weight (t.insert k a) = weight a + total weight t := by
  classical
  have hfilter : t.toList.filter (fun entry => ¬k == entry.1) = t.toList := by
    rw [List.filter_eq_self]
    rintro ⟨k', a'⟩ hmem
    rw [TreeMap.mem_toList_iff_getElem?_eq_some] at hmem
    have hne : k ≠ k' := by
      rintro rfl
      rw [h] at hmem
      cases hmem
    simpa using hne
  have hperm := (TreeMap.toList_insert_perm (t := t) (k := k) (v := a)).map fun entry => weight entry.2
  rw [total, hperm.sum_nat, hfilter, List.map_cons, List.sum_cons, total]

theorem total_erase (h : t[k]? = some a)
    : total weight t = weight a + total weight (t.erase k) := by
  have hnone : (t.erase k)[k]? = none := by
    rw [TreeMap.getElem?_erase, if_pos ReflCmp.compare_self]
  rw [← total_insert_of_getElem?_eq_none weight hnone]
  apply total_congr
  intro k'
  rw [TreeMap.getElem?_insert, TreeMap.getElem?_erase]
  split
  . next heq => rw [← LawfulEqCmp.eq_of_compare heq, h]
  . rfl

/-- An entry is replaced by one of the same weight. -/
theorem total_insert_of_getElem?_eq_some {b : α} (h : t[k]? = some b) (hweight : weight a = weight b)
    : total weight (t.insert k a) = total weight t := by
  have hnone : (t.erase k)[k]? = none := by
    rw [TreeMap.getElem?_erase, if_pos ReflCmp.compare_self]
  rw [total_erase weight h, ← hweight, ← total_insert_of_getElem?_eq_none weight hnone]
  apply total_congr
  intro k'
  rw [TreeMap.getElem?_insert, TreeMap.getElem?_insert, TreeMap.getElem?_erase]
  split <;> rfl

end Total

end Table
end OpenMat
