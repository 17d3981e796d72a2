import Mathlib.Data.List.Perm.Subperm
import OpenMat.Diagnostic

/-!
This module contains chains of parents and the walk up a chain of parents that may be unknown: the elements of the
chain, the search for the first answer on it and the check that it comes to an end.
-/

namespace OpenMat
namespace Chain

variable {α β ε : Type}

/-- The chain from `a` ends at `b`. -/
inductive Ends (next : α → Option α) : α → α → Prop where
  | stop {a : α} (h : next a = none) : Ends next a a
  | step {a b c : α} (h : next a = some b) (hend : Ends next b c) : Ends next a c

theorem Ends.next_eq_none {next : α → Option α} {a b : α} (h : Ends next a b)
    : next b = none := by
  induction h with
  | stop h => exact h
  | step _ _ ih => exact ih

/-- The elements of the chain that begins at `start`. -/
def climb (parent : α → Except ε (Option α)) (endless : α → ε) : Nat → Option α → Except ε (List α)
  | _, none => .ok []
  | 0, some a => .error (endless a)
  | fuel + 1, some a => do
    let next ← parent a
    let rest ← climb parent endless fuel next
    return a :: rest

/-- The first answer on the chain that begins at `start`. -/
def search (parent : α → Except ε (Option α)) (endless : α → ε) (answer : α → Except ε (Option β))
    : Nat → Option α → Except ε (Option β)
  | _, none => .ok none
  | 0, some a => .error (endless a)
  | fuel + 1, some a => do
    match ← answer a with
    | some b => return some b
    | none =>
      let next ← parent a
      search parent endless answer fuel next

/-- Check that no element of a chain is visited twice. -/
def checkCycle [DecidableEq α] (parent : α → Except ε (Option α)) (endless : α → ε)
    : Nat → List α → Option α → Except ε Unit
  | _, _, none => .ok ()
  | 0, _, some a => .error (endless a)
  | fuel + 1, visited, some a =>
    if a ∈ visited then
      .error (endless a)
    else do
      let next ← parent a
      checkCycle parent endless fuel (a :: visited) next

/-- The chain that begins at `start` has the elements `l`. -/
def Climbs (parent : α → Except ε (Option α)) : Option α → List α → Prop
  | none, l => l = []
  | some _, [] => False
  | some a, b :: l => a = b ∧ ∃ next, parent a = .ok next ∧ Climbs parent next l

variable {parent : α → Except ε (Option α)} {endless : α → ε} {answer : α → Except ε (Option β)}
  {fuel : Nat} {start next : Option α} {a b : α} {l l' : List α}

theorem climbs_none_iff
    : Climbs parent none l ↔ l = [] := by
  cases l <;> simp [Climbs]

theorem Climbs.of_parent (h : parent a = .ok next) (hclimbs : Climbs parent next l)
    : Climbs parent (some a) (a :: l) :=
  ⟨rfl, next, h, hclimbs⟩

/-- The chain of an element begins with it and goes on with the chain of its parent. -/
theorem Climbs.exists_parent (h : Climbs parent (some a) l)
    : ∃ next rest, l = a :: rest ∧ parent a = .ok next ∧ Climbs parent next rest := by
  cases l with
  | nil => exact h.elim
  | cons b l =>
    obtain ⟨rfl, next, hnext, hclimbs⟩ := h
    exact ⟨next, l, rfl, hnext, hclimbs⟩

theorem Climbs.unique (h : Climbs parent start l) (h' : Climbs parent start l')
    : l = l' := by
  induction l generalizing start l' with
  | nil =>
    cases start with
    | none => exact (climbs_none_iff.mp h').symm
    | some a => exact h.elim
  | cons b l ih =>
    cases start with
    | none => cases h
    | some a =>
      obtain ⟨next, rest, heq, hnext, hrest⟩ := h.exists_parent
      obtain ⟨next', rest', rfl, hnext', hrest'⟩ := h'.exists_parent
      cases heq
      rw [hnext] at hnext'
      cases hnext'
      rw [ih hrest hrest']

/-- Every element of a chain has the rest of the chain as its own. -/
theorem Climbs.of_append {before rest : List α} (h : Climbs parent start (before ++ a :: rest))
    : Climbs parent (some a) (a :: rest) := by
  induction before generalizing start with
  | nil =>
    cases start with
    | none => cases h
    | some b =>
      obtain ⟨next, rest', heq, -, -⟩ := h.exists_parent
      cases heq
      exact h
  | cons c before ih =>
    cases start with
    | none => cases h
    | some b =>
      obtain ⟨next, rest', heq, -, hrest⟩ := h.exists_parent
      cases heq
      exact ih hrest

theorem Climbs.of_mem (h : Climbs parent start l) (ha : a ∈ l)
    : ∃ before rest, l = before ++ a :: rest ∧ Climbs parent (some a) (a :: rest) := by
  obtain ⟨before, rest, rfl⟩ := List.append_of_mem ha
  exact ⟨before, rest, rfl, h.of_append⟩

theorem Climbs.nodup (h : Climbs parent start l)
    : l.Nodup := by
  induction l generalizing start with
  | nil => exact List.nodup_nil
  | cons b l ih =>
    cases start with
    | none => cases h
    | some a =>
      obtain ⟨next, rest, heq, hnext, hrest⟩ := h.exists_parent
      cases heq
      refine List.nodup_cons.mpr ⟨fun hmem => ?_, ih hrest⟩
      -- The chain would be a proper part of itself.
      obtain ⟨before, rest, hsplit, hclimbs⟩ := hrest.of_mem hmem
      have hlength := congrArg List.length (h.unique hclimbs)
      rw [hsplit] at hlength
      simp only [List.length_cons, List.length_append] at hlength
      omega

theorem Climbs.known (h : Climbs parent start l)
    : ∀ a ∈ l, ∃ next, parent a = .ok next := by
  intro a ha
  obtain ⟨before, rest, hsplit, hclimbs⟩ := h.of_mem ha
  obtain ⟨next, rest', heq, hnext, hrest⟩ := hclimbs.exists_parent
  exact ⟨next, hnext⟩

theorem Climbs.congr {parent' : α → Except ε (Option α)} (h : Climbs parent start l)
    (hparent : ∀ a ∈ l, parent a = parent' a)
    : Climbs parent' start l := by
  induction l generalizing start with
  | nil =>
    cases start with
    | none => exact climbs_none_iff.mpr rfl
    | some a => exact h.elim
  | cons b l ih =>
    cases start with
    | none => cases h
    | some c =>
      obtain ⟨next, rest, heq, hnext, hrest⟩ := h.exists_parent
      cases heq
      refine .of_parent ?_ (ih hrest fun c hc => hparent c (List.mem_cons_of_mem _ hc))
      rw [← hparent b List.mem_cons_self, hnext]

/-- A chain is carried over by a map that commutes with the parents. -/
theorem Climbs.map {γ δ : Type} {parent' : γ → Except δ (Option γ)} {ρ : α → γ}
    (h : Climbs parent start l)
    (hparent : ∀ a ∈ l, ∀ next, parent a = .ok next → parent' (ρ a) = .ok (next.map ρ))
    : Climbs parent' (start.map ρ) (l.map ρ) := by
  induction l generalizing start with
  | nil =>
    cases start with
    | none => exact climbs_none_iff.mpr rfl
    | some a => exact h.elim
  | cons b l ih =>
    cases start with
    | none => cases h
    | some c =>
      obtain ⟨next, rest, heq, hnext, hrest⟩ := h.exists_parent
      cases heq
      exact .of_parent (hparent b List.mem_cons_self next hnext)
        (ih hrest fun c hc => hparent c (List.mem_cons_of_mem _ hc))

theorem climb_eq_ok_iff
    : climb parent endless fuel start = .ok l ↔ Climbs parent start l ∧ l.length ≤ fuel := by
  induction fuel generalizing start l with
  | zero =>
    cases start with
    | none =>
      rw [climb, Except.ok.injEq, climbs_none_iff, eq_comm]
      exact ⟨fun h => ⟨h, by simp [h]⟩, And.left⟩
    | some a =>
      rw [climb]
      refine ⟨nofun, fun ⟨hclimbs, hlength⟩ => ?_⟩
      rw [List.eq_nil_of_length_eq_zero (Nat.le_zero.mp hlength)] at hclimbs
      exact hclimbs.elim
  | succ fuel ih =>
    cases start with
    | none =>
      rw [climb, Except.ok.injEq, climbs_none_iff, eq_comm]
      exact ⟨fun h => ⟨h, by simp [h]⟩, And.left⟩
    | some a =>
      rw [climb, bind_eq_ok_iff]
      constructor
      . rintro ⟨next, hnext, h⟩
        obtain ⟨rest, hrest, h⟩ := bind_eq_ok_iff.mp h
        cases h
        obtain ⟨hclimbs, hlength⟩ := ih.mp hrest
        exact ⟨.of_parent hnext hclimbs, Nat.succ_le_succ hlength⟩
      . rintro ⟨hclimbs, hlength⟩
        obtain ⟨next, rest, rfl, hnext, hrest⟩ := hclimbs.exists_parent
        refine ⟨next, hnext, bind_eq_ok_iff.mpr ⟨rest, ih.mpr ⟨hrest, ?_⟩, rfl⟩⟩
        exact Nat.le_of_succ_le_succ hlength

/-- A search that may go as far as the chain gives the first answer on it. -/
theorem search_eq_findSomeM? (h : Climbs parent start l) (hfuel : l.length ≤ fuel)
    : search parent endless answer fuel start = l.findSomeM? answer := by
  induction fuel generalizing start l with
  | zero =>
    cases start with
    | none =>
      rw [climbs_none_iff.mp h]
      rfl
    | some a =>
      rw [List.eq_nil_of_length_eq_zero (Nat.le_zero.mp hfuel)] at h
      exact h.elim
  | succ fuel ih =>
    cases start with
    | none =>
      rw [climbs_none_iff.mp h]
      rfl
    | some a =>
      obtain ⟨next, rest, rfl, hnext, hrest⟩ := h.exists_parent
      rw [search, List.findSomeM?]
      congr 1
      funext found
      cases found with
      | some b => rfl
      | none =>
        simp only [hnext]
        exact ih hrest (Nat.le_of_succ_le_succ hfuel)

section CheckCycle

variable [DecidableEq α] {visited : List α}

theorem exists_climbs_of_checkCycle (h : checkCycle parent endless fuel visited start = .ok ())
    : ∃ l, Climbs parent start l ∧ l.length ≤ fuel := by
  induction fuel generalizing start visited with
  | zero =>
    cases start with
    | none => exact ⟨[], climbs_none_iff.mpr rfl, Nat.zero_le _⟩
    | some a => cases h
  | succ fuel ih =>
    cases start with
    | none => exact ⟨[], climbs_none_iff.mpr rfl, Nat.zero_le _⟩
    | some a =>
      rw [checkCycle] at h
      split at h
      . cases h
      . obtain ⟨next, hnext, h⟩ := bind_eq_ok_iff.mp h
        obtain ⟨l, hclimbs, hlength⟩ := ih h
        exact ⟨a :: l, .of_parent hnext hclimbs, Nat.succ_le_succ hlength⟩

/-- A chain that ends passes the check. -/
theorem checkCycle_eq_ok (h : Climbs parent start l) (hfuel : l.length ≤ fuel)
    (hvisited : ∀ a ∈ l, a ∉ visited)
    : checkCycle parent endless fuel visited start = .ok () := by
  induction fuel generalizing start visited l with
  | zero =>
    cases start with
    | none => rfl
    | some a =>
      rw [List.eq_nil_of_length_eq_zero (Nat.le_zero.mp hfuel)] at h
      exact h.elim
  | succ fuel ih =>
    cases start with
    | none => rfl
    | some a =>
      have hnodup := h.nodup
      obtain ⟨next, rest, rfl, hnext, hrest⟩ := h.exists_parent
      rw [checkCycle, if_neg (hvisited a List.mem_cons_self), bind_eq_ok_iff]
      refine ⟨next, hnext, ih hrest (Nat.le_of_succ_le_succ hfuel) fun b hb => ?_⟩
      rw [List.mem_cons, not_or]
      refine ⟨?_, hvisited b (List.mem_cons_of_mem _ hb)⟩
      rintro rfl
      exact (List.nodup_cons.mp hnodup).1 hb

end CheckCycle

end Chain
end OpenMat
