import Mathlib.Order.Lattice
import Mathlib.Data.List.Basic
import Mathlib.Data.List.Induction
import Mathlib.Logic.Function.Basic

/-!
This module contains writes that replace one another: what is left after writing one by one, and that
keeping the last one of neighbouring equal keys keeps the last write to each key.
-/

namespace OpenMat
namespace Sequence

section WriteAll

variable {κ V : Type} [DecidableEq κ]

/-- Write the values one by one. -/
def writeAll (contents : κ → V) (writes : List (κ × V)) : κ → V :=
  writes.foldl (fun contents w => Function.update contents w.1 w.2) contents

theorem writeAll_concat (contents : κ → V) (writes : List (κ × V)) (w : κ × V)
    : writeAll contents (writes ++ [w]) = Function.update (writeAll contents writes) w.1 w.2 := by
  rw [writeAll, List.foldl_append]
  rfl

/-- The last write to a key decides. -/
theorem writeAll_apply (contents : κ → V) (writes : List (κ × V)) (k : κ)
    : writeAll contents writes k =
        (((writes.filter (fun w => decide (w.1 = k))).getLast?).map Prod.snd).getD (contents k) := by
  induction writes using List.reverseRecOn with
  | nil => rfl
  | append_singleton writes w ih =>
    rw [writeAll, List.foldl_append, List.foldl_cons, List.foldl_nil, List.filter_append]
    by_cases heq : w.1 = k
    . rw [heq, Function.update_self, List.filter_cons_of_pos (by simpa using heq), List.filter_nil,
        List.getLast?_append]
      rfl
    . rw [Function.update_of_ne (fun hk => heq hk.symm),
        List.filter_cons_of_neg (by simpa using heq), List.filter_nil, List.append_nil]
      exact ih

theorem filter_key_eq_nil {writes : List (κ × V)} {k : κ} (h : ∀ w ∈ writes, w.1 ≠ k)
    : writes.filter (fun w => decide (w.1 = k)) = [] := by
  rw [List.filter_eq_nil_iff]
  intro w hw
  simpa using h w hw

theorem writeAll_of_forall_ne (contents : κ → V) {writes : List (κ × V)} {k : κ} (h : ∀ w ∈ writes, w.1 ≠ k)
    : writeAll contents writes k = contents k := by
  rw [writeAll_apply, filter_key_eq_nil h]
  rfl

theorem writeAll_append_cons (contents : κ → V) (before : List (κ × V)) {after : List (κ × V)} {k : κ} (v : V)
    (h : ∀ w ∈ after, w.1 ≠ k)
    : writeAll contents (before ++ (k, v) :: after) k = v := by
  rw [writeAll_apply, List.filter_append, List.filter_cons_of_pos (by simp), filter_key_eq_nil h,
    List.getLast?_concat]
  rfl

end WriteAll

section KeepLast

variable {α κ : Type} [LinearOrder κ] {f : α → κ}

/-- Keep the last one of neighbouring elements with one key. -/
def keepLast (f : α → κ) (kept : List α) : List α → List α
  | [] => kept
  | a :: as =>
    if kept.getLast?.any (fun last => decide (f last = f a)) then
      keepLast f (kept.dropLast ++ [a]) as
    else
      keepLast f (kept ++ [a]) as

theorem filter_eq_getLast? {l : List α} (h : l.Pairwise (fun a b => f a < f b)) (k : κ)
    : l.filter (fun a => decide (f a = k)) =
        (l.filter (fun a => decide (f a = k))).getLast?.toList := by
  have hpairwise : (l.filter (fun a => decide (f a = k))).Pairwise (fun a b => f a < f b) :=
    h.sublist List.filter_sublist
  have hkey : ∀ a ∈ l.filter (fun a => decide (f a = k)), f a = k := by
    intro a ha
    simpa using (List.mem_filter.mp ha).2
  generalize l.filter (fun a => decide (f a = k)) = run at hpairwise hkey
  match run, hpairwise, hkey with
  | [], _, _ => rfl
  | [a], _, _ => rfl
  | a :: b :: run, hpairwise, hkey =>
    have hlt := (List.pairwise_cons.mp hpairwise).1 b (by simp)
    rw [hkey a (by simp), hkey b (by simp)] at hlt
    exact absurd hlt (lt_irrefl k)

theorem length_keepLast_le (kept as : List α)
    : (keepLast f kept as).length ≤ kept.length + as.length := by
  induction as generalizing kept with
  | nil => exact Nat.le_refl _
  | cons a as ih =>
    rw [keepLast, List.length_cons]
    split
    . have := ih (kept.dropLast ++ [a])
      rw [List.length_append, List.length_dropLast, List.length_singleton] at this
      omega
    . have := ih (kept ++ [a])
      rw [List.length_append, List.length_singleton] at this
      omega

theorem keepLast_spec (kept as : List α) (hkept : kept.Pairwise (fun a b => f a < f b))
    (hsorted : (kept ++ as).Pairwise (fun a b => f a ≤ f b))
    : (keepLast f kept as).Pairwise (fun a b => f a < f b) ∧
        ∀ k, (keepLast f kept as).filter (fun a => decide (f a = k)) =
          ((kept ++ as).filter (fun a => decide (f a = k))).getLast?.toList := by
  induction as generalizing kept with
  | nil =>
    rw [List.append_nil, keepLast]
    exact ⟨hkept, filter_eq_getLast? hkept⟩
  | cons a as ih =>
    rw [keepLast]
    split
    . next hsame =>
      obtain ⟨init, last, rfl⟩ : ∃ init last, kept = init ++ [last] := by
        cases hnil : kept.getLast? with
        | none =>
          rw [hnil] at hsame
          cases hsame
        | some last => exact ⟨_, _, (List.getLast?_eq_some_iff.mp hnil).choose_spec⟩
      rw [List.getLast?_concat, Option.any_some, decide_eq_true_eq] at hsame
      rw [List.dropLast_concat]
      rw [List.pairwise_append] at hkept
      have hkept' : (init ++ [a]).Pairwise (fun a b => f a < f b) := by
        rw [List.pairwise_append]
        refine ⟨hkept.1, List.pairwise_singleton _ _, ?_⟩
        intro b hb c hc
        rw [List.mem_singleton.mp hc, ← hsame]
        exact hkept.2.2 b hb last (by simp)
      have hsorted' : ((init ++ [a]) ++ as).Pairwise (fun a b => f a ≤ f b) := by
        refine List.Pairwise.sublist ?_ hsorted
        rw [List.append_assoc, List.append_assoc]
        exact (List.sublist_cons_self last (a :: as)).append_left init
      obtain ⟨hpairwise, hfilter⟩ := ih _ hkept' hsorted'
      refine ⟨hpairwise, ?_⟩
      intro k
      rw [hfilter k]
      simp only [List.filter_append, List.filter_cons, List.filter_nil]
      by_cases hk : f a = k
      . simp [hk, hsame]
      . simp [hk, hsame]
    . next hdiffers =>
      have hkept' : (kept ++ [a]).Pairwise (fun a b => f a < f b) := by
        rw [List.pairwise_append]
        refine ⟨hkept, List.pairwise_singleton _ _, ?_⟩
        intro b hb c hc
        rw [List.mem_singleton.mp hc]
        have hle := (List.pairwise_append.mp hsorted).2.2 b hb a (by simp)
        apply lt_of_le_of_ne hle
        intro heq
        apply hdiffers
        obtain ⟨init, last, rfl⟩ : ∃ init last, kept = init ++ [last] :=
          ⟨_, _, (List.dropLast_append_getLast (List.ne_nil_of_mem hb)).symm⟩
        rw [List.getLast?_concat, Option.any_some, decide_eq_true_eq]
        have hlast := (List.pairwise_append.mp hsorted).2.2 last (by simp) a (by simp)
        apply le_antisymm hlast
        rw [← heq]
        rcases List.mem_append.mp hb with hb | hb
        . exact le_of_lt ((List.pairwise_append.mp hkept).2.2 b hb last (by simp))
        . rw [List.mem_singleton.mp hb]
      rw [List.append_cons] at hsorted
      obtain ⟨hpairwise, hfilter⟩ := ih _ hkept' hsorted
      refine ⟨hpairwise, ?_⟩
      intro k
      rw [hfilter k, ← List.append_cons]

end KeepLast

end Sequence
end OpenMat
