import Mathlib.Data.List.Basic

/-!
This module contains segments of code and the emission of code with backpatched targets: a fragment
is a piece of code with pending instructions whose targets are not known yet.
-/

namespace OpenMat
namespace Assembly

variable {I Label : Type}

/-- The block is a segment of the code that starts at `pc`. -/
def CodeAt (code : List I) (pc : Nat) (block : List I) : Prop :=
  ∀ k < block.length, code[pc + k]? = block[k]?

theorem codeAt_nil {code : List I} {pc : Nat}
    : CodeAt code pc [] := by
  intro k hk
  simp at hk

theorem codeAt_cons {code : List I} {pc : Nat} {i : I} {block : List I}
    : CodeAt code pc (i :: block) ↔ code[pc]? = some i ∧ CodeAt code (pc + 1) block := by
  constructor
  . intro h
    constructor
    . simpa using h 0 (by simp)
    . intro k hk
      have := h (k + 1) (by simpa using hk)
      rw [Nat.add_assoc, Nat.add_comm 1 k, this]
      simp
  . rintro ⟨hhead, htail⟩ k hk
    cases k with
    | zero => simpa using hhead
    | succ k =>
      have := htail k (by simpa using hk)
      rw [Nat.add_assoc, Nat.add_comm 1 k] at this
      rw [this]
      simp

theorem codeAt_append {code : List I} {pc : Nat} {a b : List I}
    : CodeAt code pc (a ++ b) ↔ CodeAt code pc a ∧ CodeAt code (pc + a.length) b := by
  induction a generalizing pc with
  | nil => simp [codeAt_nil]
  | cons i a ih =>
    rw [List.cons_append, codeAt_cons, codeAt_cons, ih, List.length_cons, and_assoc,
      Nat.add_assoc, Nat.add_comm 1]

theorem codeAt_singleton {code : List I} {pc : Nat} {i : I}
    : CodeAt code pc [i] ↔ code[pc]? = some i := by
  simp [codeAt_cons, codeAt_nil]

/-- What is said about the final code and the targets of the labels. -/
abbrev Meaning (I Label : Type) := List I → (Label → Nat) → Prop

/-- The positions of the instructions that wait for the target of a label. -/
abbrev Patches (Label : Type) := Label → List Nat

namespace Patches

def none : Patches Label := fun _ => []

def append (p q : Patches Label) : Patches Label := fun label => p label ++ q label

variable [DecidableEq Label]

def single (pc : Nat) (label : Label) : Patches Label := Function.update none label [pc]

def without (p : Patches Label) (label : Label) : Patches Label := Function.update p label []

theorem single_same {pc : Nat} {label : Label}
    : single pc label label = [pc] :=
  Function.update_self ..

theorem single_of_ne {pc : Nat} {label l : Label} (h : l ≠ label)
    : single pc label l = [] :=
  Function.update_of_ne h ..

theorem without_same {p : Patches Label} {label : Label}
    : p.without label label = [] :=
  Function.update_self ..

theorem without_of_ne {p : Patches Label} {label l : Label} (h : l ≠ label)
    : p.without label l = p l :=
  Function.update_of_ne h ..

theorem mem_without {p : Patches Label} {label l : Label} {pc : Nat}
    : pc ∈ p.without label l ↔ pc ∈ p l ∧ l ≠ label := by
  by_cases h : l = label
  . subst h
    simp [without_same]
  . simp [without_of_ne h, h]

end Patches

variable (retarget : I → Nat → I)

/-- From `start` on, the code is the emitted one where the patched instructions have their targets. -/
def Resolves (code emitted : List I) (start : Nat) (patches : Patches Label) (target : Label → Nat)
    : Prop :=
  ∀ pc, start ≤ pc → pc < emitted.length →
    (∀ label, pc ∈ patches label → code[pc]? = emitted[pc]?.map (retarget · (target label))) ∧
    ((∀ label, pc ∉ patches label) → code[pc]? = emitted[pc]?)

variable {retarget} in
theorem Resolves.exists_getElem? {code emitted : List I} {start : Nat} {patches : Patches Label}
    {target : Label → Nat} (h : Resolves retarget code emitted start patches target) {pc : Nat}
    (hstart : start ≤ pc) (hpc : pc < emitted.length)
    : ∃ i, emitted[pc]? = some i ∧ (code[pc]? = some i ∨ ∃ pc', code[pc]? = some (retarget i pc')) := by
  obtain ⟨hholes, hothers⟩ := h pc hstart hpc
  refine ⟨emitted[pc], List.getElem?_eq_getElem hpc, ?_⟩
  by_cases hwaits : ∃ label, pc ∈ patches label
  . obtain ⟨label, hlabel⟩ := hwaits
    exact .inr ⟨target label, by rw [hholes label hlabel, List.getElem?_eq_getElem hpc, Option.map_some]⟩
  . exact .inl (by rw [hothers (not_exists.mp hwaits), List.getElem?_eq_getElem hpc])

/-- Code is emitted after `before`, and means `P` once its instructions have their targets. -/
structure Fragment (P : Meaning I Label) (before after : List I) (patches : Patches Label) : Prop where
  isPrefix : before <+: after
  range : ∀ pc label, pc ∈ patches label → before.length ≤ pc ∧ pc < after.length
  disjoint : ∀ pc label label', pc ∈ patches label → pc ∈ patches label' → label = label'
  meaning : ∀ code target, Resolves retarget code after before.length patches target →
    P code target

namespace Fragment

variable {retarget : I → Nat → I} {P Q : Meaning I Label} {before middle after : List I}
variable {patches p q : Patches Label}

theorem length_le (h : Fragment retarget P before after patches)
    : before.length ≤ after.length :=
  h.isPrefix.length_le

theorem mono (h : Fragment retarget P before after patches)
    (hPQ : ∀ code target, P code target → Q code target)
    : Fragment retarget Q before after patches where
  isPrefix := h.isPrefix
  range := h.range
  disjoint := h.disjoint
  meaning code target hcode := hPQ _ _ (h.meaning code target hcode)

/-- What follows from the emitted instructions alone. -/
theorem and (h : Fragment retarget P before after patches)
    (hQ : ∀ code target, Resolves retarget code after before.length patches target → Q code target)
    : Fragment retarget (fun code target => P code target ∧ Q code target) before after patches where
  isPrefix := h.isPrefix
  range := h.range
  disjoint := h.disjoint
  meaning code target hcode := ⟨h.meaning code target hcode, hQ code target hcode⟩

/-- Instructions that are final when they are emitted. -/
theorem block (instructions : List I)
    : Fragment retarget (fun code (_ : Label → Nat) => CodeAt code before.length instructions)
        before (before ++ instructions) Patches.none where
  isPrefix := List.prefix_append _ _
  range := by
    intro pc label h
    cases h
  disjoint := by
    intro pc label label' h
    cases h
  meaning := by
    intro code target h k hk
    have hcode := (h (before.length + k) (by omega) (by simpa using hk)).2
    rw [hcode (by simp [Patches.none]), List.getElem?_append_right (by omega),
      Nat.add_sub_cancel_left]

/-- An instruction that is patched later. -/
theorem hole [DecidableEq Label] (i : I) (label : Label)
    : Fragment retarget (fun code target => CodeAt code before.length [retarget i (target label)])
        before (before ++ [i]) (Patches.single before.length label) where
  isPrefix := List.prefix_append _ _
  range := by
    intro pc l h
    by_cases hl : l = label
    . subst l
      rw [Patches.single_same, List.mem_singleton] at h
      simp [h]
    . rw [Patches.single_of_ne hl] at h
      cases h
  disjoint := by
    intro pc l l' h h'
    by_cases hl : l = label
    . by_cases hl' : l' = label
      . rw [hl, hl']
      . rw [Patches.single_of_ne hl'] at h'
        cases h'
    . rw [Patches.single_of_ne hl] at h
      cases h
  meaning := by
    intro code target h
    have hcode := (h before.length (Nat.le_refl _) (by simp)).1 label (by simp [Patches.single_same])
    rw [codeAt_singleton, hcode]
    simp

theorem append (hp : Fragment retarget P before middle p) (hq : Fragment retarget Q middle after q)
    : Fragment retarget (fun code target => P code target ∧ Q code target) before after
        (p.append q) where
  isPrefix := hp.isPrefix.trans hq.isPrefix
  range := by
    intro pc label h
    have := hp.length_le
    have := hq.length_le
    rcases List.mem_append.mp h with h | h
    . have := hp.range _ _ h
      omega
    . have := hq.range _ _ h
      omega
  disjoint := by
    intro pc l l' h h'
    rcases List.mem_append.mp h with h | h <;> rcases List.mem_append.mp h' with h' | h'
    . exact hp.disjoint pc l l' h h'
    . have := hp.range _ _ h
      have := hq.range _ _ h'
      omega
    . have := hq.range _ _ h
      have := hp.range _ _ h'
      omega
    . exact hq.disjoint pc l l' h h'
  meaning := by
    intro code target h
    refine ⟨hp.meaning code target ?_, hq.meaning code target ?_⟩
    . intro pc hstart hpc
      have hle := hq.length_le
      have hsame : after[pc]? = middle[pc]? := by
        rw [List.prefix_iff_getElem?.mp hq.isPrefix pc hpc, ← List.getElem?_eq_getElem hpc]
      rw [← hsame]
      constructor
      . intro label hlabel
        exact (h pc hstart (by omega)).1 label (List.mem_append_left _ hlabel)
      . intro hnone
        apply (h pc hstart (by omega)).2
        intro label hlabel
        rcases List.mem_append.mp hlabel with hlabel | hlabel
        . exact hnone label hlabel
        . have := hq.range _ _ hlabel
          omega
    . intro pc hstart hpc
      have hle := hp.length_le
      constructor
      . intro label hlabel
        exact (h pc (by omega) hpc).1 label (List.mem_append_right _ hlabel)
      . intro hnone
        apply (h pc (by omega) hpc).2
        intro label hlabel
        rcases List.mem_append.mp hlabel with hlabel | hlabel
        . have := hp.range _ _ hlabel
          omega
        . exact hnone label hlabel

/-- The instructions that wait for a label are patched to the end of the fragment. -/
theorem patch [DecidableEq Label] {patched : List I} {label : Label}
    (h : Fragment retarget P before after patches)
    (hlength : patched.length = after.length)
    (hpatched : ∀ pc, patched[pc]? =
      if pc ∈ patches label then after[pc]?.map (retarget · after.length) else after[pc]?)
    : Fragment retarget (fun code target => P code (Function.update target label after.length))
        before patched (patches.without label) where
  isPrefix := by
    rw [List.prefix_iff_getElem?]
    intro pc hpc
    rw [hpatched, if_neg]
    . exact List.prefix_iff_getElem?.mp h.isPrefix pc hpc
    . intro hmem
      have := h.range pc label hmem
      omega
  range := by
    intro pc l hl
    rw [hlength]
    exact h.range pc l (Patches.mem_without.mp hl).1
  disjoint := by
    intro pc l l' hl hl'
    exact h.disjoint pc l l' (Patches.mem_without.mp hl).1 (Patches.mem_without.mp hl').1
  meaning := by
    intro code target hcode
    apply h.meaning
    intro pc hstart hpc
    obtain ⟨hholes, hothers⟩ := hcode pc hstart (by omega)
    rw [hpatched] at hholes hothers
    constructor
    . intro l hl
      by_cases heq : l = label
      . -- The patched instructions wait for no other label.
        subst l
        rw [if_pos hl] at hothers
        rw [Function.update_self]
        apply hothers
        intro l' hl'
        obtain ⟨hmem, hne⟩ := Patches.mem_without.mp hl'
        exact hne (h.disjoint pc l' label hmem hl)
      . rw [Function.update_of_ne heq]
        rw [if_neg fun hl' => heq (h.disjoint pc l label hl hl')] at hholes
        exact hholes l (Patches.mem_without.mpr ⟨hl, heq⟩)
    . intro hnone
      rw [if_neg (hnone label)] at hothers
      apply hothers
      intro l hl
      exact hnone l (Patches.mem_without.mp hl).1

end Fragment
end Assembly
end OpenMat
