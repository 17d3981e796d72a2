import OpenMat.Fallible.Basic

/-!
This module contains the rule of a fallible loop whose invariant speaks about the part of the list that is done.
-/

namespace OpenMat

/-- A loop whose steps do not fail where the invariant holds of the part that is done does not fail. -/
theorem exists_foldlM_of_initial {ε α β : Type} {f : β → α → Except ε β} (I : List α → β → Prop)
    {l : List α} {init : β} (hinit : I [] init)
    (hstep : ∀ done a b, done ++ [a] <+: l → I done b → ∃ b', f b a = .ok b' ∧ I (done ++ [a]) b')
    : ∃ r, l.foldlM f init = .ok r ∧ I l r := by
  suffices hgen : ∀ rest done b, done ++ rest = l → I done b → ∃ r, rest.foldlM f b = .ok r ∧ I l r by
    exact hgen l [] init rfl hinit
  intro rest
  induction rest with
  | nil =>
    intro done b hl hb
    rw [List.append_nil] at hl
    exact ⟨b, rfl, hl ▸ hb⟩
  | cons a rest ih =>
    intro done b hl hb
    have hl' : done ++ [a] ++ rest = l := by rw [List.append_assoc, List.singleton_append, hl]
    obtain ⟨b', hb', hI⟩ := hstep done a b ⟨rest, hl'⟩ hb
    obtain ⟨r, hr, hIr⟩ := ih (done ++ [a]) b' hl' hI
    refine ⟨r, ?_, hIr⟩
    rw [List.foldlM_cons, bind_eq_ok_iff]
    exact ⟨b', hb', hr⟩

theorem before_of_initial {α : Type} {R : α → α → Prop} {done l : List α} {a : α} (hinitial : done ++ [a] <+: l)
    (hl : l.Pairwise R)
    : ∀ b ∈ done, R b a := by
  have hdone := List.pairwise_append.mp (hl.sublist hinitial.sublist)
  intro b hb
  exact hdone.2.2 b hb a (by simp)

theorem length_lt_of_initial {α : Type} {done l : List α} {a : α} (hinitial : done ++ [a] <+: l)
    : done.length < l.length := by
  have := hinitial.length_le
  rw [List.length_append, List.length_singleton] at this
  omega

theorem mem_of_initial {α : Type} {done l : List α} {a : α} (hinitial : done ++ [a] <+: l)
    : a ∈ l :=
  hinitial.subset (by simp)

end OpenMat
