import Mathlib.Data.List.Perm.Subperm
import Mathlib.Logic.Relation

/-!
This module contains the search of a graph with a list of pending nodes. A node without successors is not part of the
graph: pending entries may name such nodes, and paths end before them.
-/

namespace OpenMat
namespace Traversal

variable {α : Type}

/-- The nodes on paths that start at one of the given nodes. -/
inductive Reached (successors : α → Option (List α)) (start : List α) : α → Prop
  | start {a : α} {next : List α} (ha : a ∈ start) (hnext : successors a = some next) : Reached successors start a
  | step {a b : α} {next next' : List α} (ha : Reached successors start a) (hnext : successors a = some next)
    (hb : b ∈ next) (hnext' : successors b = some next')
    : Reached successors start b

theorem Reached.exists_successors {successors : α → Option (List α)} {start : List α} {a : α} (h : Reached successors start a)
    : ∃ next, successors a = some next := by
  cases h with
  | start _ hnext => exact ⟨_, hnext⟩
  | step _ _ _ hnext => exact ⟨_, hnext⟩

namespace Worklist

variable [DecidableEq α]

/-- The first pending node that is not visited, with its successors and what is pending after it. -/
def nextNode (successors : α → Option (List α)) (visited : List α) : List α → Option ((α × List α) × List α)
  | [] => none
  | a :: pending =>
    if a ∈ visited then
      nextNode successors visited pending
    else
      match successors a with
      | none => nextNode successors visited pending
      | some next => some ((a, next), pending)

def search (successors : α → Option (List α)) : Nat → List α → List α → List α
  | 0, _, visited => visited
  | fuel + 1, pending, visited =>
    match nextNode successors visited pending with
    | none => visited
    | some ((a, next), pending) => search successors fuel (next ++ pending) (a :: visited)

variable {successors : α → Option (List α)} {start pending pending' visited nodes next : List α} {a b : α} {fuel : Nat}

theorem nextNode_eq_none (h : nextNode successors visited pending = none) (ha : a ∈ pending)
    (hnext : successors a = some next)
    : a ∈ visited := by
  induction pending with
  | nil => cases ha
  | cons b pending ih =>
    rw [nextNode] at h
    split at h
    . next hb =>
      rcases List.mem_cons.mp ha with rfl | ha
      . exact hb
      . exact ih h ha
    . rcases List.mem_cons.mp ha with rfl | ha
      . rw [hnext] at h
        cases h
      . split at h
        . exact ih h ha
        . cases h

theorem nextNode_eq_some (h : nextNode successors visited pending = some ((a, next), pending'))
    : a ∈ pending ∧ a ∉ visited ∧ successors a = some next ∧ pending' ⊆ pending ∧
        ∀ b ∈ pending, b = a ∨ b ∈ pending' ∨ b ∈ visited ∨ successors b = none := by
  induction pending with
  | nil => cases h
  | cons c pending ih =>
    rw [nextNode] at h
    split at h
    . next hc =>
      obtain ⟨hmem, hfresh, hnext, hsubset, hrest⟩ := ih h
      refine ⟨List.mem_cons_of_mem _ hmem, hfresh, hnext, List.subset_cons_of_subset _ hsubset, ?_⟩
      rw [List.forall_mem_cons]
      exact ⟨.inr (.inr (.inl hc)), hrest⟩
    . next hc =>
      split at h
      . next hnone =>
        obtain ⟨hmem, hfresh, hnext, hsubset, hrest⟩ := ih h
        refine ⟨List.mem_cons_of_mem _ hmem, hfresh, hnext, List.subset_cons_of_subset _ hsubset, ?_⟩
        rw [List.forall_mem_cons]
        exact ⟨.inr (.inr (.inr hnone)), hrest⟩
      . next hsome =>
        cases h
        refine ⟨List.mem_cons_self, hc, hsome, List.subset_cons_self _ _, ?_⟩
        rw [List.forall_mem_cons]
        exact ⟨.inl rfl, fun b hb => .inr (.inl hb)⟩

/-- Every node that is reached is visited, or reached from a pending one. -/
structure Covers (successors : α → Option (List α)) (start pending visited : List α) : Prop where
  nodup : visited.Nodup
  sound : ∀ a ∈ visited, Reached successors start a
  sound_pending : ∀ a ∈ pending, ∀ next, successors a = some next → Reached successors start a
  covered : ∀ a ∈ start, a ∈ visited ∨ a ∈ pending ∨ successors a = none
  closed : ∀ a ∈ visited, ∀ next, successors a = some next → ∀ b ∈ next,
    b ∈ visited ∨ b ∈ pending ∨ successors b = none

omit [DecidableEq α] in
theorem covers_start (successors : α → Option (List α)) (start : List α)
    : Covers successors start start [] where
  nodup := List.nodup_nil
  sound := by simp
  sound_pending a ha next hnext := .start ha hnext
  covered a ha := .inr (.inl ha)
  closed := by simp

theorem Covers.step (h : Covers successors start pending visited)
    (hnode : nextNode successors visited pending = some ((a, next), pending'))
    : Covers successors start (next ++ pending') (a :: visited) := by
  obtain ⟨hmem, hfresh, hnext, hsubset, hrest⟩ := nextNode_eq_some hnode
  have ha := h.sound_pending a hmem next hnext
  have hsplit : ∀ b, b ∈ visited ∨ b ∈ pending ∨ successors b = none →
      b ∈ a :: visited ∨ b ∈ next ++ pending' ∨ successors b = none := by
    rintro b (hb | hb | hb)
    . exact .inl (List.mem_cons_of_mem _ hb)
    . rcases hrest b hb with rfl | hb | hb | hb
      . exact .inl List.mem_cons_self
      . exact .inr (.inl (List.mem_append_right _ hb))
      . exact .inl (List.mem_cons_of_mem _ hb)
      . exact .inr (.inr hb)
    . exact .inr (.inr hb)
  refine ⟨List.nodup_cons.mpr ⟨hfresh, h.nodup⟩, ?_, ?_, fun b hb => hsplit b (h.covered b hb), ?_⟩
  . rw [List.forall_mem_cons]
    exact ⟨ha, h.sound⟩
  . intro b hb next' hnext'
    rcases List.mem_append.mp hb with hb | hb
    . exact .step ha hnext hb hnext'
    . exact h.sound_pending b (hsubset hb) next' hnext'
  . rw [List.forall_mem_cons]
    refine ⟨fun next' hnext' b hb => ?_, fun c hc next' hnext' b hb => hsplit b (h.closed c hc next' hnext' b hb)⟩
    rw [hnext] at hnext'
    cases hnext'
    exact .inr (.inl (List.mem_append_left _ hb))

omit [DecidableEq α] in
/-- With nothing pending, all nodes that are reached are visited. -/
theorem Covers.complete (h : Covers successors start pending visited)
    (hpending : ∀ a ∈ pending, ∀ next, successors a = some next → a ∈ visited) (ha : Reached successors start a)
    : a ∈ visited := by
  have hvisited : ∀ b next, successors b = some next → b ∈ visited ∨ b ∈ pending ∨ successors b = none →
      b ∈ visited := by
    rintro b next hnext (hb | hb | hb)
    . exact hb
    . exact hpending b hb next hnext
    . rw [hnext] at hb
      cases hb
  induction ha with
  | start hmem hnext => exact hvisited _ _ hnext (h.covered _ hmem)
  | step _ hnext hb hnext' ih => exact hvisited _ _ hnext' (h.closed _ ih _ hnext _ hb)

theorem Covers.mem_search_iff (h : Covers successors start pending visited)
    (hlive : ∀ a next, successors a = some next → a ∈ nodes) (hfuel : nodes.length ≤ visited.length + fuel)
    : a ∈ search successors fuel pending visited ↔ Reached successors start a := by
  induction fuel generalizing pending visited with
  | zero =>
    refine ⟨h.sound a, fun ha => ?_⟩
    have hsubset : visited ⊆ nodes := by
      intro b hb
      obtain ⟨next, hnext⟩ := (h.sound b hb).exists_successors
      exact hlive b next hnext
    have hperm := (List.subperm_of_subset h.nodup hsubset).perm_of_length_le hfuel
    obtain ⟨next, hnext⟩ := ha.exists_successors
    exact hperm.mem_iff.mpr (hlive a next hnext)
  | succ fuel ih =>
    rw [search]
    cases hnode : nextNode successors visited pending with
    | none => exact ⟨h.sound a, h.complete fun b hb next hnext => nextNode_eq_none hnode hb hnext⟩
    | some node =>
      apply ih (h.step hnode)
      rw [List.length_cons]
      omega

/-- The search visits the nodes that are reached, if it can visit all nodes. -/
theorem mem_search_iff (nodes : List α) (hlive : ∀ a next, successors a = some next → a ∈ nodes)
    (hfuel : nodes.length ≤ fuel)
    : a ∈ search successors fuel start [] ↔ Reached successors start a :=
  (covers_start successors start).mem_search_iff hlive (by simpa using hfuel)

end Worklist

end Traversal
end OpenMat
