import Mathlib.Data.List.Sort
import Mathlib.Data.Prod.Lex

/-!
This module contains lists that are sorted by a key: how they are cut into the parts with one key,
and that sorting with the position as the last key keeps the order within every part.
-/

namespace OpenMat
namespace Sequence

variable {α : Type}

section Cuts

variable {f : α → Nat} {l : List α}

/-- The number of elements with a smaller key. -/
def below (f : α → Nat) (l : List α) (c : Nat) : Nat := l.countP (fun a => decide (f a < c))

theorem below_le_length (c : Nat) : below f l c ≤ l.length := List.countP_le_length

theorem below_mono {c c' : Nat} (h : c ≤ c') : below f l c ≤ below f l c' := by
  apply List.countP_mono_left
  intro a _ ha
  simp only [decide_eq_true_eq] at ha ⊢
  omega

theorem below_eq_length {c : Nat} (h : ∀ a ∈ l, f a < c) : below f l c = l.length := by
  rw [below, List.countP_eq_length]
  simpa using h

theorem below_eq_of_cut {c k : Nat} (hk : k ≤ l.length)
    (h : ∀ i a, l[i]? = some a → (f a < c ↔ i < k)) : below f l c = k := by
  have htake : (l.take k).countP (fun a => decide (f a < c)) = (l.take k).length := by
    rw [List.countP_eq_length]
    intro a ha
    obtain ⟨i, hi, rfl⟩ := List.mem_take_iff_getElem.mp ha
    have := h i _ (List.getElem?_eq_getElem (by omega))
    simp only [decide_eq_true_eq]
    omega
  have hdrop : (l.drop k).countP (fun a => decide (f a < c)) = 0 := by
    rw [List.countP_eq_zero]
    intro a ha
    obtain ⟨i, hi, rfl⟩ := List.mem_drop_iff_getElem.mp ha
    have := h (k + i) _ (List.getElem?_eq_getElem (by omega))
    simp only [decide_eq_true_eq]
    omega
  rw [below]
  conv => lhs; rw [← List.take_append_drop k l]
  rw [List.countP_append, htake, hdrop, List.length_take]
  omega

theorem take_below (h : l.Pairwise (fun a b => f a ≤ f b)) (c : Nat)
    : l.take (below f l c) = l.filter (fun a => decide (f a < c)) := by
  induction l with
  | nil => rfl
  | cons a l ih =>
    rw [List.pairwise_cons] at h
    by_cases ha : f a < c
    . simp only [below, List.countP_cons, ha, decide_true, ↓reduceIte, List.take_succ_cons,
        List.filter_cons_of_pos, List.cons.injEq, true_and]
      exact ih h.2
    . have hnone : ∀ b ∈ a :: l, decide (f b < c) = false := by
        intro b hb
        cases List.mem_cons.mp hb with
        | inl heq => simpa [heq] using ha
        | inr hmem =>
          have := h.1 b hmem
          simp only [decide_eq_false_iff_not]
          omega
      have hzero : below f (a :: l) c = 0 := by
        rw [below, List.countP_eq_zero]
        intro b hb
        simp [hnone b hb]
      rw [hzero, List.take_zero]
      symm
      rw [List.filter_eq_nil_iff]
      intro b hb
      simp [hnone b hb]

theorem drop_below (h : l.Pairwise (fun a b => f a ≤ f b)) (c : Nat)
    : l.drop (below f l c) = l.filter (fun a => decide (c ≤ f a)) := by
  induction l with
  | nil => rfl
  | cons a l ih =>
    rw [List.pairwise_cons] at h
    by_cases ha : f a < c
    . have hnot : ¬c ≤ f a := by omega
      simp only [below, List.countP_cons, ha, decide_true, ↓reduceIte, List.drop_succ_cons,
        List.filter_cons, hnot, decide_false, Bool.false_eq_true]
      exact ih h.2
    . have hall : ∀ b ∈ a :: l, c ≤ f b := by
        intro b hb
        cases List.mem_cons.mp hb with
        | inl heq =>
          rw [heq]
          omega
        | inr hmem =>
          have := h.1 b hmem
          omega
      have hzero : below f (a :: l) c = 0 := by
        rw [below, List.countP_eq_zero]
        intro b hb
        have := hall b hb
        simp only [decide_eq_true_eq, Nat.not_lt]
        omega
      rw [hzero, List.drop_zero]
      symm
      rw [List.filter_eq_self]
      simpa using hall

/-- The elements between two neighbouring cuts are those with the key between them. -/
theorem slice_below (h : l.Pairwise (fun a b => f a ≤ f b)) (c : Nat)
    : (l.drop (below f l c)).take (below f l (c + 1) - below f l c) =
        l.filter (fun a => decide (f a = c)) := by
  have hcount : below f l (c + 1) - below f l c = below f (l.drop (below f l c)) (c + 1) := by
    have hsplit := congrArg (fun l' => below f l' (c + 1)) (List.take_append_drop (below f l c) l)
    simp only [below, List.countP_append] at hsplit ⊢
    have htake : (l.take (l.countP fun a => decide (f a < c))).countP (fun a => decide (f a < c + 1)) =
        l.countP (fun a => decide (f a < c)) := by
      have := take_below h c
      unfold below at this
      rw [this, List.countP_filter]
      apply List.countP_congr
      intro a _
      simp only [Bool.and_eq_true, decide_eq_true_eq]
      omega
    omega
  have hdrop : (l.drop (below f l c)).Pairwise (fun a b => f a ≤ f b) :=
    h.sublist (List.drop_sublist _ _)
  rw [hcount, take_below hdrop, drop_below h, List.filter_filter]
  apply List.filter_congr
  intro a _
  rw [Bool.eq_iff_iff]
  simp only [Bool.and_eq_true, decide_eq_true_eq]
  omega

end Cuts

section SortByKey

variable {κ : Type} [LinearOrder κ] {key : α → κ}

/-- The key of an element with its position, where the position decides between equal keys. -/
def positioned (key : α → κ) (p : α × Nat) : κ ×ₗ Nat := toLex (key p.1, p.2)

/-- The elements with their positions in the list, sorted by key and position. -/
def sortByKey (key : α → κ) (l : List α) : List (α × Nat) :=
  l.zipIdx.insertionSort (fun p q => positioned key p ≤ positioned key q)

instance : Std.Total (fun p q : α × Nat => positioned key p ≤ positioned key q) :=
  ⟨fun _ _ => le_total _ _⟩

instance : IsTrans (α × Nat) (fun p q => positioned key p ≤ positioned key q) :=
  ⟨fun _ _ _ => le_trans⟩

theorem sortByKey_perm (l : List α) : (sortByKey key l).Perm l.zipIdx :=
  List.perm_insertionSort _ _

theorem length_sortByKey (l : List α) : (sortByKey key l).length = l.length := by
  rw [(sortByKey_perm l).length_eq, List.length_zipIdx]

theorem mem_sortByKey {l : List α} {a : α} (h : a ∈ (sortByKey key l).map Prod.fst) : a ∈ l := by
  have hperm := (@sortByKey_perm _ _ _ key l).map Prod.fst
  rw [List.zipIdx_map_fst] at hperm
  exact hperm.mem_iff.mp h

theorem sortByKey_pairwise (l : List α)
    : (sortByKey key l).Pairwise (fun p q => positioned key p ≤ positioned key q) :=
  List.pairwise_insertionSort _ _

theorem sortByKey_sorted (l : List α)
    : ((sortByKey key l).map Prod.fst).Pairwise (fun a b => key a ≤ key b) := by
  rw [List.pairwise_map]
  apply (sortByKey_pairwise l).imp
  intro p q h
  exact (Prod.Lex.le_iff'.mp h).1

/-- Elements with the same key stay in the order of the list. -/
theorem filter_sortByKey (l : List α) (k : κ)
    : ((sortByKey key l).map Prod.fst).filter (fun a => decide (key a = k)) =
        l.filter (fun a => decide (key a = k)) := by
  have hparts : (sortByKey key l).filter (fun p => decide (key p.1 = k)) =
      l.zipIdx.filter (fun p => decide (key p.1 = k)) := by
    apply @List.Perm.eq_of_pairwise _ (fun p q : α × Nat => p.2 ≤ q.2)
    . intro p q hp hq hpq hqp
      have hp' : p ∈ l.zipIdx := (sortByKey_perm l).mem_iff.mp (List.mem_of_mem_filter hp)
      have hq' : q ∈ l.zipIdx := List.mem_of_mem_filter hq
      rw [List.mem_zipIdx_iff_getElem?] at hp' hq'
      have hindex : p.2 = q.2 := Nat.le_antisymm hpq hqp
      rw [hindex, hq', Option.some.injEq] at hp'
      exact Prod.ext hp'.symm hindex
    . rw [List.pairwise_filter]
      apply (sortByKey_pairwise l).imp
      intro p q hle hp hq
      rw [positioned, positioned, Prod.Lex.toLex_le_toLex] at hle
      simp only [decide_eq_true_eq] at hp hq
      rw [hp, hq] at hle
      simpa using hle
    . apply List.Pairwise.filter
      have hindices := List.pairwise_lt_range' (s := 0) (n := l.length)
      rw [← List.zipIdx_map_snd, List.pairwise_map] at hindices
      exact hindices.imp Nat.le_of_lt
    . exact (sortByKey_perm l).filter _
  rw [List.filter_map, Function.comp_def, hparts]
  conv => rhs; rw [← List.zipIdx_map_fst 0 l, List.filter_map]
  rfl

/-- Behind the leading elements with the least key, all keys are greater. -/
theorem lt_of_mem_drop_takeWhile {l : List α} {k : κ}
    (h : l.Pairwise (fun a b => key a ≤ key b)) (hk : ∀ a ∈ l, k ≤ key a)
    : ∀ b ∈ l.drop (l.takeWhile (fun a => decide (key a = k))).length, k < key b := by
  induction l with
  | nil => simp
  | cons a l ih =>
    rw [List.pairwise_cons] at h
    rw [List.takeWhile_cons]
    split
    . next heq =>
      rw [List.length_cons, List.drop_succ_cons]
      exact ih h.2 (fun b hb => hk b (by simp [hb]))
    . next hne =>
      have hlt : k < key a := by
        apply lt_of_le_of_ne (hk a (by simp))
        intro heq
        exact hne (by simp [heq])
      intro b hb
      rw [List.length_nil, List.drop_zero] at hb
      rcases List.mem_cons.mp hb with rfl | hb
      . exact hlt
      . exact lt_of_lt_of_le hlt (h.1 b hb)

end SortByKey

end Sequence
end OpenMat
