import Mathlib.Data.List.Nodup
import OpenMat.Table.Lookup

/-!
This module contains the selection of one entry for every key: of all entries that are offered for a key,
the one of the least priority takes the place of the first one.
-/

namespace OpenMat
namespace Table

open Std

structure Selection (κ α : Type) [Ord κ] where
  entries : List α
  indices : TreeMap κ Nat
  priorities : TreeMap κ Nat

namespace Selection

variable {κ α : Type} [Ord κ]

def empty : Selection κ α where
  entries := []
  indices := ∅
  priorities := ∅

def offer (key : α → κ) (s : Selection κ α) (priority : Nat) (a : α) : Selection κ α :=
  match s.indices[key a]? with
  | some index =>
    if priority < s.priorities.getD (key a) 0 then
      { s with
        entries := s.entries.set index a
        priorities := s.priorities.insert (key a) priority }
    else
      s
  | none =>
    { entries := s.entries ++ [a]
      indices := s.indices.insert (key a) s.entries.length
      priorities := s.priorities.insert (key a) priority }

/-- The entries are the best ones of the offers, and the tables know their places and priorities. -/
structure Selects (key : α → κ) (offers : List (Nat × α)) (s : Selection κ α) : Prop where
  indexed : ∀ k i, s.indices[k]? = some i ↔ ∃ a, s.entries[i]? = some a ∧ key a = k
  best : ∀ a ∈ s.entries, ∃ p, s.priorities[key a]? = some p ∧ (p, a) ∈ offers ∧
    ∀ q b, (q, b) ∈ offers → key b = key a → p ≤ q
  complete : ∀ p a, (p, a) ∈ offers → ∃ b ∈ s.entries, key b = key a

variable {key : α → κ} {offers : List (Nat × α)} {s : Selection κ α} {a b : α} {p : Nat}

theorem selects_empty [TransOrd κ]
    : Selects key [] (empty : Selection κ α) := by
  constructor
  . intro k i
    simp [empty]
  . simp [empty]
  . simp

namespace Selects

/-- Every key has one entry. -/
theorem nodup (h : Selects key offers s)
    : (s.entries.map key).Nodup := by
  rw [List.nodup_iff_injective_get]
  intro i j heq
  simp only [List.get_eq_getElem, List.getElem_map] at heq
  have hi := (h.indexed _ i).mpr ⟨_, List.getElem?_eq_getElem (by simpa using i.isLt), rfl⟩
  have hj := (h.indexed _ j).mpr ⟨_, List.getElem?_eq_getElem (by simpa using j.isLt), rfl⟩
  rw [heq, hj, Option.some.injEq] at hi
  exact Fin.ext hi.symm

/-- An entry remains or is replaced, and only the entry of the same key is replaced. -/
theorem mem_set_iff {index : Nat} (h : Selects key offers s) (hindex : s.indices[key a]? = some index)
    : b ∈ s.entries.set index a ↔ b = a ∨ b ∈ s.entries ∧ key b ≠ key a := by
  obtain ⟨old, hold, holdkey⟩ := (h.indexed _ _).mp hindex
  have hlength : index < s.entries.length := (List.getElem?_eq_some_iff.mp hold).1
  rw [List.mem_iff_getElem?]
  constructor
  . rintro ⟨j, hj⟩
    rw [List.getElem?_set] at hj
    split at hj
    . left
      simpa [hlength, eq_comm] using hj
    . next hne =>
      refine .inr ⟨List.mem_of_getElem? hj, fun hkey => hne ?_⟩
      have hsame := (h.indexed _ _).mpr ⟨b, hj, hkey⟩
      rw [hindex, Option.some.injEq] at hsame
      exact hsame
  . rintro (rfl | ⟨hb, hkey⟩)
    . exact ⟨index, by rw [List.getElem?_set, if_pos rfl, if_pos hlength]⟩
    . obtain ⟨j, hj⟩ := List.mem_iff_getElem?.mp hb
      refine ⟨j, ?_⟩
      rw [List.getElem?_set, if_neg, hj]
      rintro rfl
      rw [hold, Option.some.injEq] at hj
      exact hkey (hj ▸ holdkey)

variable [TransOrd κ]

/-- An offer that is no better than the entry for its key changes nothing. -/
theorem keep {index : Nat} (h : Selects key offers s) (hindex : s.indices[key a]? = some index)
    (hle : ¬p < s.priorities.getD (key a) 0)
    : Selects key (offers ++ [(p, a)]) s := by
  obtain ⟨old, hold, holdkey⟩ := (h.indexed _ _).mp hindex
  have hmem := List.mem_of_getElem? hold
  refine ⟨h.indexed, fun b hb => ?_, fun q c hc => ?_⟩
  . obtain ⟨q, hq, hoffer, hbest⟩ := h.best b hb
    refine ⟨q, hq, List.mem_append_left _ hoffer, fun q' c hc hckey => ?_⟩
    rcases List.mem_append.mp hc with hc | hc
    . exact hbest q' c hc hckey
    . cases List.mem_singleton.mp hc
      rw [TreeMap.getD_eq_getD_getElem?, hckey, hq] at hle
      exact Nat.le_of_not_lt hle
  . rcases List.mem_append.mp hc with hc | hc
    . exact h.complete q c hc
    . cases List.mem_singleton.mp hc
      exact ⟨old, hmem, holdkey⟩

variable [LawfulEqOrd κ] [DecidableEq κ]

/-- A better offer for a key takes the place of its entry. -/
theorem replace {index : Nat} (h : Selects key offers s) (hindex : s.indices[key a]? = some index)
    (hless : p < s.priorities.getD (key a) 0)
    : Selects key (offers ++ [(p, a)])
        { s with
          entries := s.entries.set index a
          priorities := s.priorities.insert (key a) p } := by
  obtain ⟨old, hold, holdkey⟩ := (h.indexed _ _).mp hindex
  have hlength : index < s.entries.length := (List.getElem?_eq_some_iff.mp hold).1
  obtain ⟨p₀, hp₀, -, hp₀best⟩ := h.best old (List.mem_of_getElem? hold)
  rw [holdkey] at hp₀ hp₀best
  have hp : p < p₀ := by
    rwa [TreeMap.getD_eq_getD_getElem?, hp₀] at hless
  constructor
  case indexed =>
    intro k i
    rw [h.indexed, List.getElem?_set]
    by_cases hi : index = i
    . subst hi
      rw [if_pos rfl, if_pos hlength, hold]
      simp [holdkey]
    . rw [if_neg hi]
  case best =>
    intro b hb
    rcases (h.mem_set_iff hindex).mp hb with rfl | ⟨hb, hkey⟩
    . refine ⟨p, by rw [getElem?_insert, if_pos rfl], by simp, fun q c hc hckey => ?_⟩
      rcases List.mem_append.mp hc with hc | hc
      . exact Nat.le_of_lt (Nat.lt_of_lt_of_le hp (hp₀best q c hc hckey))
      . cases List.mem_singleton.mp hc
        exact Nat.le_refl _
    . obtain ⟨q, hq, hmem, hbest⟩ := h.best b hb
      refine ⟨q, ?_, List.mem_append_left _ hmem, fun q' c hc hckey => ?_⟩
      . rw [getElem?_insert, if_neg fun heq => hkey heq.symm, hq]
      . rcases List.mem_append.mp hc with hc | hc
        . exact hbest q' c hc hckey
        . cases List.mem_singleton.mp hc
          exact (hkey hckey.symm).elim
  case complete =>
    intro q c hc
    by_cases hkey : key c = key a
    . exact ⟨a, (h.mem_set_iff hindex).mpr (.inl rfl), hkey.symm⟩
    . rcases List.mem_append.mp hc with hc | hc
      . obtain ⟨b, hb, hbkey⟩ := h.complete q c hc
        exact ⟨b, (h.mem_set_iff hindex).mpr (.inr ⟨hb, hbkey ▸ hkey⟩), hbkey⟩
      . cases List.mem_singleton.mp hc
        exact (hkey rfl).elim

/-- The first offer for a key comes to the end of the entries. -/
theorem append (h : Selects key offers s) (hindex : s.indices[key a]? = none)
    : Selects key (offers ++ [(p, a)])
        { entries := s.entries ++ [a]
          indices := s.indices.insert (key a) s.entries.length
          priorities := s.priorities.insert (key a) p } := by
  have hfresh : ∀ b ∈ s.entries, key b ≠ key a := by
    intro b hb hkey
    obtain ⟨i, hi⟩ := List.mem_iff_getElem?.mp hb
    rw [(h.indexed _ _).mpr ⟨b, hi, hkey⟩] at hindex
    cases hindex
  constructor
  case indexed =>
    intro k i
    rw [getElem?_insert, List.getElem?_append]
    by_cases hi : i < s.entries.length
    . rw [if_pos hi]
      by_cases hkey : key a = k
      . rw [if_pos hkey]
        refine ⟨fun heq => ?_, fun ⟨b, hb, hbkey⟩ => ?_⟩
        . cases heq
          exact (Nat.lt_irrefl _ hi).elim
        . exact (hfresh b (List.mem_of_getElem? hb) (hbkey.trans hkey.symm)).elim
      . rw [if_neg hkey, h.indexed]
    . rw [if_neg hi]
      have hnone : s.entries[i]? = none := List.getElem?_eq_none (Nat.le_of_not_lt hi)
      by_cases hkey : key a = k
      . rw [if_pos hkey, List.getElem?_singleton]
        simp only [Option.some.injEq]
        split <;> simp [hkey] <;> omega
      . rw [if_neg hkey, h.indexed, hnone, List.getElem?_singleton]
        split <;> simp [hkey]
  case best =>
    intro b hb
    rcases List.mem_append.mp hb with hb | hb
    . obtain ⟨q, hq, hmem, hbest⟩ := h.best b hb
      refine ⟨q, ?_, List.mem_append_left _ hmem, fun q' c hc hckey => ?_⟩
      . rw [getElem?_insert, if_neg fun heq => hfresh b hb heq.symm, hq]
      . rcases List.mem_append.mp hc with hc | hc
        . exact hbest q' c hc hckey
        . cases List.mem_singleton.mp hc
          exact (hfresh b hb hckey.symm).elim
    . cases List.mem_singleton.mp hb
      refine ⟨p, by rw [getElem?_insert, if_pos rfl], by simp, fun q c hc hckey => ?_⟩
      rcases List.mem_append.mp hc with hc | hc
      . obtain ⟨b, hb, hbkey⟩ := h.complete q c hc
        exact (hfresh b hb (hbkey.trans hckey)).elim
      . cases List.mem_singleton.mp hc
        exact Nat.le_refl _
  case complete =>
    intro q c hc
    rcases List.mem_append.mp hc with hc | hc
    . obtain ⟨b, hb, hbkey⟩ := h.complete q c hc
      exact ⟨b, List.mem_append_left _ hb, hbkey⟩
    . cases List.mem_singleton.mp hc
      exact ⟨a, by simp, rfl⟩

theorem offer (h : Selects key offers s)
    : Selects key (offers ++ [(p, a)]) (s.offer key p a) := by
  rw [Selection.offer]
  split
  . next index hindex =>
    split
    . next hless => exact h.replace hindex hless
    . next hle => exact h.keep hindex hle
  . next hindex => exact h.append hindex

theorem foldl {l : List (Nat × α)} (h : Selects key offers s)
    : Selects key (offers ++ l) (l.foldl (fun s o => s.offer key o.1 o.2) s) := by
  induction l generalizing s offers with
  | nil => simpa using h
  | cons o l ih =>
    rw [List.foldl_cons, List.append_cons]
    exact ih h.offer

end Selects
end Selection
end Table
end OpenMat
