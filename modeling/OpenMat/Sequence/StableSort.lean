import Mathlib.Data.List.Pairwise

/-!
This module contains stable sorting by a total preorder: the order in which entries that compare equal keep
their ranks, the merge of two runs in this order, and the bottom-up pass that merges the runs of a width in
pairs.
-/

namespace OpenMat
namespace Sequence

section Order

variable {α : Type} (le : α → α → Bool) (rank : α → Nat)

/-- The order of a stable sort: equal entries stand in the order of their ranks. -/
def Before (a b : α) : Prop :=
  le a b = true ∧ (le b a = true → rank a < rank b)

structure TotalPreorder : Prop where
  total : ∀ a b, le a b = true ∨ le b a = true
  trans : ∀ a b c, le a b = true → le b c = true → le a c = true

variable {le rank} {a b : α}

theorem Before.of_not_le (h : TotalPreorder le) (hnot : ¬ le a b = true)
    : Before le rank b a :=
  ⟨(h.total b a).resolve_right hnot, fun hle => absurd hle hnot⟩

/-- What stands before an entry stands before all that this entry stands before. -/
theorem Before.of_not_le_of_before (h : TotalPreorder le) {c : α} (hnot : ¬ le a b = true)
    (hac : Before le rank a c)
    : Before le rank b c := by
  have hba : le b a = true := (h.total b a).resolve_right hnot
  refine ⟨h.trans b a c hba hac.1, fun hcb => ?_⟩
  exact absurd (h.trans a c b hac.1 hcb) hnot

theorem Before.of_le_of_before (h : TotalPreorder le) {c : α} (hab : le a b = true)
    (hbc : Before le rank b c) (hrank : rank a < rank c)
    : Before le rank a c :=
  ⟨h.trans a b c hab hbc.1, fun _ => hrank⟩

/-- A merge that prefers its left run is sorted stably where the left run has the lower ranks. -/
theorem pairwise_merge_before (h : TotalPreorder le) {left right : List α}
    (hleft : left.Pairwise (Before le rank)) (hright : right.Pairwise (Before le rank))
    (hrank : ∀ a ∈ left, ∀ b ∈ right, rank a < rank b)
    : (left.merge right le).Pairwise (Before le rank) := by
  induction left generalizing right with
  | nil => rwa [List.nil_merge]
  | cons a left ihleft =>
    induction right with
    | nil => rwa [List.merge_right]
    | cons b right ihright =>
      have hl := List.pairwise_cons.mp hleft
      have hr := List.pairwise_cons.mp hright
      have hab : rank a < rank b := hrank a List.mem_cons_self b List.mem_cons_self
      by_cases hle : le a b = true
      . rw [List.cons_merge_cons_pos _ _ _ hle, List.pairwise_cons]
        constructor
        . intro c hc
          rcases List.mem_merge.mp hc with hc | hc
          . exact hl.1 c hc
          . rcases List.mem_cons.mp hc with rfl | hmem
            . exact ⟨hle, fun _ => hab⟩
            . exact .of_le_of_before h hle (hr.1 c hmem) (hrank a List.mem_cons_self c hc)
        . exact ihleft hl.2 hright fun c hc => hrank c (List.mem_cons_of_mem a hc)
      . rw [List.cons_merge_cons_neg _ _ _ hle, List.pairwise_cons]
        constructor
        . intro c hc
          rcases List.mem_merge.mp hc with hc | hc
          . rcases List.mem_cons.mp hc with rfl | hmem
            . exact .of_not_le h hle
            . exact .of_not_le_of_before h hle (hl.1 c hmem)
          . exact hr.1 c hc
        . exact ihright hr.2 fun c hc d hd => hrank c hc d (List.mem_cons_of_mem b hd)

theorem not_pair_sublist_of_nodup {l : List α} (h : l.Nodup) (hab : [a, b].Sublist l)
    : ¬ [b, a].Sublist l := by
  intro hba
  induction l with
  | nil => cases hab
  | cons c l ih =>
    have hc := List.nodup_cons.mp h
    cases hab with
    | cons _ hab =>
      cases hba with
      | cons _ hba => exact ih hc.2 hab hba
      | cons_cons _ _ => exact hc.1 (hab.subset (by simp))
    | cons_cons _ hb =>
      cases hba with
      | cons _ hba => exact hc.1 (hba.subset (by simp))
      | cons_cons _ _ => exact hc.1 (hb.subset (by simp))

/-- The library's merge sort is stable. -/
theorem pairwise_mergeSort_before (h : TotalPreorder le) {l : List α}
    (hrank : l.Pairwise fun a b => rank a < rank b)
    : (l.mergeSort le).Pairwise (Before le rank) := by
  have htotal a b : (le a b || le b a) = true := by
    rw [Bool.or_eq_true]
    exact h.total a b
  have hnodup : l.Nodup := hrank.imp fun {a b} hlt heq => absurd (heq ▸ hlt) (Nat.lt_irrefl _)
  have hsorted := List.pairwise_mergeSort h.trans htotal l
  -- two entries keep their order where it is an order of the sort
  have hkept : l.Pairwise fun a b =>
      (rank a < rank b ∧ (le a b = true → [a, b].Sublist (l.mergeSort le))) ∨
        (rank b < rank a ∧ (le b a = true → [b, a].Sublist (l.mergeSort le))) := by
    apply List.pairwise_iff_forall_sublist.mpr
    intro a b hsub
    exact .inl ⟨List.pairwise_iff_forall_sublist.mp hrank hsub,
      fun hle => List.pair_sublist_mergeSort h.trans htotal hle hsub⟩
  rw [List.pairwise_iff_forall_sublist] at hsorted ⊢
  intro a b hsub
  refine ⟨hsorted hsub, fun hba => ?_⟩
  have hsort : (l.mergeSort le).Nodup := (List.mergeSort_perm l le).nodup_iff.mpr hnodup
  have hne : a ≠ b := by simpa using hsort.sublist hsub
  have hmem c (hc : c ∈ [a, b]) : c ∈ l := List.mem_mergeSort.mp (hsub.subset hc)
  rcases @List.Pairwise.forall _ _ _ ⟨fun _ _ => Or.symm⟩ hkept _ (hmem a (by simp)) _ (hmem b (by simp)) hne with hab | hswap
  . exact hab.1
  . exact absurd (hswap.2 hba) (not_pair_sublist_of_nodup hsort hsub)

end Order

section Runs

variable {α : Type} {le : α → α → Bool} {rank : α → Nat} {width : Nat}

/-- One pass: the runs of the width are merged in pairs, and the tail may be a shorter run or none. -/
def mergedRuns (le : α → α → Bool) (width : Nat) (hwidth : 0 < width) (l : List α) : List α :=
  if _hnil : l = [] then
    []
  else
    (l.take width).merge ((l.drop width).take width) le ++
      mergedRuns le width hwidth (l.drop (2 * width))
termination_by l.length
decreasing_by
  have := List.length_pos_iff.mpr _hnil
  rw [List.length_drop]
  omega

theorem mergedRuns_nil (hwidth : 0 < width)
    : mergedRuns le width hwidth [] = [] := by
  rw [mergedRuns, dif_pos rfl]

theorem mergedRuns_of_ne_nil (hwidth : 0 < width) {l : List α} (h : l ≠ [])
    : mergedRuns le width hwidth l =
        (l.take width).merge ((l.drop width).take width) le ++
          mergedRuns le width hwidth (l.drop (2 * width)) := by
  rw [mergedRuns, dif_neg h]

theorem drop_two_mul (width : Nat) (l : List α)
    : l.drop (2 * width) = (l.drop width).drop width := by
  rw [List.drop_drop, Nat.two_mul]

theorem mergedRuns_perm (hwidth : 0 < width) (l : List α)
    : (mergedRuns le width hwidth l).Perm l := by
  induction l using mergedRuns.induct width hwidth with
  | case1 => rw [mergedRuns_nil]
  | case2 l h ih =>
    rw [mergedRuns_of_ne_nil hwidth h]
    have hmerge : ((l.take width).merge ((l.drop width).take width) le).Perm
        (l.take width ++ (l.drop width).take width) :=
      List.merge_perm_append le
    apply (hmerge.append ih).trans
    rw [drop_two_mul, List.append_assoc, List.take_append_drop, List.take_append_drop]

/-- The runs of the width are sorted stably, and the ranks of a run are lower than those of the next. -/
inductive StableRuns (le : α → α → Bool) (rank : α → Nat) (width : Nat) : List α → Prop where
  | nil : StableRuns le rank width []
  | cons {l : List α} : (l.take width).Pairwise (Before le rank) →
      (∀ a ∈ l.take width, ∀ b ∈ l.drop width, rank a < rank b) →
      StableRuns le rank width (l.drop width) → StableRuns le rank width l

theorem StableRuns.take_drop {l : List α} (h : StableRuns le rank width l)
    : (l.take width).Pairwise (Before le rank) ∧
        (∀ a ∈ l.take width, ∀ b ∈ l.drop width, rank a < rank b) ∧
        StableRuns le rank width (l.drop width) := by
  cases h with
  | nil => simp [StableRuns.nil]
  | cons hrun hrank hrest => exact ⟨hrun, hrank, hrest⟩

theorem stableRuns_one {l : List α} (hrank : l.Pairwise fun a b => rank a < rank b)
    : StableRuns le rank 1 l := by
  induction l with
  | nil => exact .nil
  | cons a l ih =>
    have h := List.pairwise_cons.mp hrank
    apply StableRuns.cons
    . exact List.pairwise_singleton _ _
    . intro c hc b hb
      obtain rfl : c = a := by simpa using hc
      exact h.1 b hb
    . exact ih h.2

/-- A pass doubles the width of the runs. -/
theorem StableRuns.merged (h : TotalPreorder le) (hwidth : 0 < width) {l : List α}
    (hruns : StableRuns le rank width l)
    : StableRuns le rank (2 * width) (mergedRuns le width hwidth l) := by
  induction l using mergedRuns.induct width hwidth with
  | case1 =>
    rw [mergedRuns_nil]
    exact .nil
  | case2 l hne ih =>
    obtain ⟨hleft, hrankLeft, hrest⟩ := hruns.take_drop
    obtain ⟨hright, hrankRight, hrest⟩ := hrest.take_drop
    rw [← drop_two_mul] at hrankRight hrest
    let run := (l.take width).merge ((l.drop width).take width) le
    let rest := mergedRuns le width hwidth (l.drop (2 * width))
    have hrest := ih hrest
    have hsplit : (run ++ rest).take (2 * width) = run ∧ (run ++ rest).drop (2 * width) = rest := by
      have hlength : run.length = min (2 * width) l.length := by
        simp only [run, List.length_merge, List.length_take, List.length_drop]
        omega
      rcases Nat.lt_or_ge l.length (2 * width) with hlt | hge
      . -- the run is the tail, and nothing is left
        have hempty : rest = [] := by
          simp only [rest, List.drop_eq_nil_of_le (Nat.le_of_lt hlt), mergedRuns_nil]
        rw [hempty, List.append_nil, List.take_of_length_le (by omega), List.drop_eq_nil_of_le (by omega)]
        exact ⟨rfl, rfl⟩
      . have htwo : run.length = 2 * width := by omega
        exact ⟨List.take_left' htwo, List.drop_left' htwo⟩
    rw [mergedRuns_of_ne_nil hwidth hne]
    apply StableRuns.cons
    . rw [hsplit.1]
      exact pairwise_merge_before h hleft hright fun a ha b hb =>
        hrankLeft a ha b (List.mem_of_mem_take hb)
    . rw [hsplit.1, hsplit.2]
      intro a ha b hb
      have hb := (mergedRuns_perm hwidth _).mem_iff.mp hb
      rcases List.mem_merge.mp ha with ha | ha
      . rw [drop_two_mul] at hb
        exact hrankLeft a ha b (List.mem_of_mem_drop hb)
      . exact hrankRight a ha b hb
    . rw [hsplit.2]
      exact hrest

theorem StableRuns.pairwise {l : List α} (h : StableRuns le rank width l) (hwidth : l.length ≤ width)
    : l.Pairwise (Before le rank) := by
  have := h.take_drop.1
  rwa [List.take_of_length_le hwidth] at this

theorem StableRuns.of_pairwise {l : List α} (h : l.Pairwise (Before le rank)) (hwidth : l.length ≤ width)
    : StableRuns le rank width l := by
  apply StableRuns.cons
  . rwa [List.take_of_length_le hwidth]
  . rw [List.drop_eq_nil_of_le hwidth]
    exact fun _ _ _ => nofun
  . rw [List.drop_eq_nil_of_le hwidth]
    exact .nil

end Runs

end Sequence
end OpenMat
