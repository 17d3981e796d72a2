import Mathlib.Data.List.Basic
import Mathlib.Data.List.Forall2

/-!
This module contains lists that are related element by element.
-/

namespace OpenMat
namespace Sequence

theorem forall₂_and_right_iff {α β : Type} {R : α → β → Prop} {p : β → Prop} {l : List α} {l' : List β}
    : List.Forall₂ (fun a b => R a b ∧ p b) l l' ↔ List.Forall₂ R l l' ∧ ∀ b ∈ l', p b := by
  rw [List.forall₂_iff_get, List.forall₂_iff_get, List.forall_mem_iff_get]
  constructor
  . rintro ⟨hlength, h⟩
    exact ⟨⟨hlength, fun i hi hi' => (h i hi hi').1⟩, fun i => (h i (hlength.symm ▸ i.isLt) i.isLt).2⟩
  . rintro ⟨⟨hlength, h⟩, hp⟩
    exact ⟨hlength, fun i hi hi' => ⟨h i hi hi', hp ⟨i, hi'⟩⟩⟩

theorem forall₂_range_iff {α β : Type} {R : α → β → Prop} {l : List α} {l' : List β}
    : List.Forall₂ (fun i b => ∃ a, l[i]? = some a ∧ R a b) (List.range l.length) l' ↔
        List.Forall₂ R l l' := by
  rw [List.forall₂_iff_get, List.forall₂_iff_get]
  constructor
  . rintro ⟨hlength, h⟩
    refine ⟨by rwa [List.length_range] at hlength, fun i hi hi' => ?_⟩
    obtain ⟨a, ha, hR⟩ := h i (by rwa [List.length_range]) hi'
    rw [List.get_eq_getElem, List.getElem_range, List.getElem?_eq_getElem hi] at ha
    cases ha
    exact hR
  . rintro ⟨hlength, h⟩
    refine ⟨by rwa [List.length_range], fun i hi hi' => ?_⟩
    have hi : i < l.length := by rwa [List.length_range] at hi
    refine ⟨l.get ⟨i, hi⟩, ?_, h i hi hi'⟩
    rw [List.get_eq_getElem, List.getElem_range, List.getElem?_eq_getElem hi]
    rfl

theorem exists_of_mem_right {α β : Type} {R : α → β → Prop} {l : List α} {l' : List β}
    (h : List.Forall₂ R l l') {b : β} (hb : b ∈ l')
    : ∃ a ∈ l, R a b := by
  obtain ⟨i, hi, rfl⟩ := List.mem_iff_getElem.mp hb
  have hi' : i < l.length := h.length_eq ▸ hi
  exact ⟨_, List.getElem_mem hi', h.get hi' hi⟩

theorem imp_of_mem_left {α β : Type} {R S : α → β → Prop} {l : List α} {l' : List β}
    (h : List.Forall₂ R l l') (himp : ∀ a ∈ l, ∀ b, R a b → S a b)
    : List.Forall₂ S l l' :=
  List.forall₂_iff_get.mpr ⟨h.length_eq, fun i hi hi' => himp _ (List.get_mem l ⟨i, hi⟩) _ (h.get hi hi')⟩

theorem forall₂_zipWith_right {α β γ : Type} {R : α → β → Prop} {S : α → γ → Prop} {f : α → β → γ}
    {l : List α} {l' : List β} (h : List.Forall₂ R l l') (himp : ∀ a b, R a b → S a (f a b))
    : List.Forall₂ S l (List.zipWith f l l') := by
  induction h with
  | nil => exact .nil
  | cons hab _ ih => exact .cons (himp _ _ hab) ih

theorem zipWith_right {α β : Type} {l : List α} {l' : List β} (h : l.length = l'.length)
    : List.zipWith (fun _ b => b) l l' = l' := by
  rw [← List.map_uncurry_zip_eq_zipWith]
  exact List.map_snd_zip (Nat.le_of_eq h.symm)

end Sequence
end OpenMat
